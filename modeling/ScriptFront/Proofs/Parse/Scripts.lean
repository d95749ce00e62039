import ScriptFront.Proofs.Parse.Chains
import ScriptFront.Proofs.Symbols.Scopes

/-!
# Plain scripts are parsed from their words

An assignment may define a variable, so the names change from one plain statement to the next; but
all of them stand for variables, and that is all that expressions need to know about them.

The loop over statements checks that each of them moves on. The tokens of a text are numbered, so
this is a property of the list of tokens alone.
-/

namespace ScriptFront

/-! ## Tables of variables -/

namespace SymbolTable

/-- All names stand for variables. -/
def OnlyVars (t : SymbolTable) : Prop :=
  ∀ s ∈ t.scopes, ∀ entry ∈ s.symbols, entry.2.kind = .var

variable {t : SymbolTable}

theorem onlyVars_empty : empty.OnlyVars := by simp [OnlyVars, empty, Scope.empty]

theorem OnlyVars.defineVar (h : t.OnlyVars) (name : String) : (t.defineVar name).OnlyVars := by
  intro s hs entry hentry
  obtain ⟨i, hi, rfl⟩ := Array.mem_iff_getElem.mp hs
  simp only [SymbolTable.defineVar, define, Array.size_modify] at hi
  simp only [SymbolTable.defineVar, define, Array.getElem_modify] at hentry
  split at hentry
  · rcases Scope.mem_insertSorted hentry with rfl | hentry
    · rfl
    · exact h _ (Array.getElem_mem hi) entry hentry
  · exact h _ (Array.getElem_mem hi) entry hentry

theorem OnlyVars.kind_eq (h : t.OnlyVars) {name : String} {symbol : Symbol}
    (hsymbol : t.symbol? name = some symbol) : symbol.kind = .var := by
  obtain ⟨⟨id, s⟩, hvisible, hget⟩ := List.exists_of_findSome?_eq_some hsymbol
  obtain ⟨before, after, hsplit, -⟩ := List.lookup_eq_some_iff.mp hget
  exact h s (mem_scopes_of_mem_outward hvisible) (name, symbol) (by simp [hsplit])

theorem OnlyVars.isModule_eq (h : t.OnlyVars) (name : String) : t.isModule name = false := by
  rw [isModule]
  split
  · next hsymbol => exact nomatch h.kind_eq hsymbol
  · rfl

theorem OnlyVars.isFunction_eq (h : t.OnlyVars) (name : String) : t.isFunction name = false := by
  rw [isFunction, Option.isSome_eq_false_iff, Option.isNone_iff_eq_none, function?]
  cases hsymbol : t.symbol? name with
  | some symbol => simp [h.kind_eq hsymbol]
  | none =>
    refine List.findSome?_eq_none_iff.mpr fun entry hentry ↦ ?_
    obtain ⟨⟨id, s⟩, hvisible, hentry⟩ := List.mem_flatMap.mp hentry
    have hkind := h s (mem_scopes_of_mem_outward hvisible) entry hentry
    simp [Symbol.function?, hkind]

end SymbolTable

/-! ## What statements define -/

/-- The table after a plain statement: a plain assignment defines its target, if that is a name that
is not known. -/
def Expr.defines : Expr → SymbolTable → SymbolTable
  | .mk (.assign target .assign _ _) _ _, t =>
    match target.varName? with
    | some name => if t.contains name then t else t.defineVar name
    | none => t
  | _, t => t

theorem Expr.onlyVars_defines {t : SymbolTable} (h : t.OnlyVars) (e : Expr) :
    (e.defines t).OnlyVars := by
  rw [Expr.defines.eq_def]
  split
  · split
    · split
      · exact h
      · exact h.defineVar _
    · exact h
  · exact h

theorem Expr.defines_of_isPlain {e : Expr} (h : e.IsPlain) (t : SymbolTable) :
    e.defines t = t := by
  cases h <;> rfl

namespace Parse

variable {ctx : ParseContext} {inner : (fuel : Nat) → List Token → Parse Expr} {sub : Subparser}
  {base base' s : ParserState} {t : Token} {tokens rest : List Token}

/-! ## Between statements -/

/-- Where a statement begins there are no separators. -/
theorem passSeparators_yields (h : base.At (t :: tokens) s) (hsolid : Window.isNewLine t = false)
    (hsemicolon : t.is ";" = false) :
    passSeparators.Yields s base (t :: tokens) fun _ ↦ True := by
  refine yields_bind_of_ok rounds_run ?_
  rw [passSeparatorsWithin]
  refine (skipNewLines_yields h).bind fun _ s₁ h₁ _ ↦ ?_
  rw [(startsSolid_cons hsolid).dropWhile_eq] at h₁
  refine yields_bind_of_ok (is_run _) ?_
  rw [h₁.is_eq, if_neg (by simp [hsemicolon])]
  exact yields_pure h₁ trivial

/-- What ends a statement, and the tokens that are left then: a line break is passed, the end of the
text is not. -/
inductive EndsStatement : Token → List Token → List Token → Prop
  | newLine {t : Token} {rest : List Token} (h : t.kind = .newLine) : EndsStatement t rest rest
  | endOfInput {t : Token} {rest : List Token} (h : t.kind = .endOfInput) :
    EndsStatement t rest (t :: rest)

theorem EndsStatement.endsPhrase {left : List Token} (h : EndsStatement t rest left) :
    EndsPhrase t := by
  cases h with
  | newLine h => exact .inr (.inl h)
  | endOfInput h => exact .inr (.inr h)

theorem lexeme_eq_endOfInput (h : t.kind = .endOfInput) : t.lexeme = .endOfInput := by
  rw [Token.kind] at h
  cases hlexeme : t.lexeme <;> simp [hlexeme, Lexeme.kind] at h ⊢

theorem EndsStatement.kind_ne_symbol {left : List Token} (h : EndsStatement t rest left) :
    t.kind ≠ .symbol := by
  cases h with
  | newLine h => simp [h]
  | endOfInput h => simp [h]

/-- What ends a statement is passed, unless it is the end of the text. -/
theorem endStatement_yields {left : List Token} (h : base.At (t :: rest) s)
    (hend : EndsStatement t rest left) :
    endStatement.Yields s base left fun _ ↦ True := by
  refine yields_bind_of_ok tokens_run ?_
  cases hend with
  | newLine hkind =>
    have hexplicit : s.tokens.isExplicitEnd = true := by
      simp [Window.isExplicitEnd, Window.kind, h.current_eq, hkind]
    rw [if_pos hexplicit]
    exact advance_yields h (by simp [Token.isEnd, hkind])
  | endOfInput hkind =>
    have hended : s.tokens.isEnded = true := by
      rw [h.isEnded_eq]
      simp [Token.isEnd, hkind]
    have hexplicit : s.tokens.isExplicitEnd = false := by
      simp [Window.isExplicitEnd, Window.kind, h.current_eq, h.is_eq, hkind, Token.is,
        Lexeme.is, lexeme_eq_endOfInput hkind, Lexeme.text]
    rw [if_neg (by simp [hexplicit]),
      if_neg (by simp [Window.isEndOfStatementOrBlock, Window.isEndOfStatement, hended])]
    exact yields_pure h trivial

/-- A statement and its end. -/
theorem ended_yields {p : Parse Expr} {left : List Token} {Q : Expr → Prop}
    (hp : p.Yields s base (t :: rest) Q) (hend : EndsStatement t rest left) :
    (ended p).Yields s base left fun found ↦ ∃ e, found = some e ∧ Q e :=
  hp.bind fun e _ h₁ hQ ↦ (endStatement_yields h₁ hend).bind fun _ _ h₂ _ ↦
    yields_pure h₂ ⟨e, rfl, hQ⟩

/-! ## One statement -/

/-- A statement that begins like an expression is one, or an assignment. -/
theorem plainStatement_run (ht : BeginsOperand s.tokens.current.lexeme) :
    plainStatement ctx sub s = ended (simpleStatement sub) s := by
  rw [plainStatement, bind_eq_of_ok current_run]
  refine congrFun ?_ s
  have hkeyword := ht.notKeyword
  have hbrace := ht.own "\x7b" (by simp [foreignMarks])
  cases hlexeme : s.tokens.current.lexeme with
  | keyword word => exact absurd (by rw [hlexeme]; rfl) hkeyword
  | symbol text =>
    simp only [hlexeme, Lexeme.is, Lexeme.text, beq_eq_false_iff_ne] at hbrace
    split
    all_goals first
      | rfl
      | simp_all
  | _ => rfl

theorem plainStatement_yields {left : List Token} {Q : Option Expr → Prop}
    (h : base.At (t :: tokens) s) (ht : BeginsOperand t.lexeme)
    (hsimple : (ended (simpleStatement sub)).Yields s base' left Q) :
    (plainStatement ctx sub).Yields s base' left Q := by
  rw [Yields, plainStatement_run (h.current_eq ▸ ht)]
  exact hsimple

theorem closes_assignOp {op : AssignOp} (ht : t.lexeme = .symbol op.symbol) : Closes false t :=
  closes_of_symbol false ht (by cases op <;> decide) (by cases op <;> decide)
    (by cases op <;> decide)

/-- An assignment defines its target. -/
theorem defineTarget_yields {target target' : Expr} {op : AssignOp} (h : base.At tokens s)
    (hname : target'.varName? = target.varName?) (value : Option Expr) (position : Position)
    (scope : ScopeId) :
    (defineTarget target' op).Yields s
      { base with
        symbols := (Expr.mk (.assign target op value false) position scope).defines base.symbols }
      tokens fun _ ↦ True := by
  rw [defineTarget]
  by_cases hop : op = .assign
  · subst hop
    rw [if_pos rfl]
    simp only [Expr.defines, hname]
    cases target.varName? with
    | none => exact yields_pure h trivial
    | some name =>
      exact modify_yields (fun s ↦ { s with
        symbols := if s.symbols.contains name then s.symbols else s.symbols.defineVar name }) h
        fun _ _ ↦ rfl
  · rw [if_neg hop]
    have hsame : (Expr.mk (.assign target op value false) position scope).defines base.symbols =
        base.symbols := by
      cases op <;> first | exact absurd rfl hop | rfl
    rw [hsame]
    exact yields_pure h trivial

theorem simpleStatement_expression (hctx : ctx.registry.entries = []) {e : Expr} (he : e.IsPlain)
    {n : Nat} (hroom : Room ctx base n (2 * e.height + 1)) (h : base.At (tokens ++ t :: rest) s)
    (htokens : tokens.map Token.lexeme = e.words) (ht : EndsPhrase t)
    (hsemicolon : t.kind ≠ .symbol) :
    (simpleStatement (runWith ctx inner n)).Yields s base (t :: rest)
      fun e' ↦ e'.bare = e.bare := by
  refine yields_bind_of_ok position_run ?_
  refine ((parses_of_isPlain hctx he).expression hctx false hroom h htokens ht.closes).bind
    fun e' s₁ h₁ he' ↦ ?_
  refine yields_bind_of_ok (a := none) ?_ (yields_pure h₁ he')
  rw [assignOp?, bind_eq_of_ok current_run, h₁.current_eq, if_neg hsemicolon]
  rfl

theorem simpleStatement_assign (hctx : ctx.registry.entries = []) {target value : Expr}
    {op : AssignOp} {position : Position} {scope : ScopeId} (htarget : target.IsPlain)
    (hassignable : target.isAssignable = true) (hvalue : value.IsPlain) {n : Nat}
    (hroom : Room ctx base n (2 * max target.height value.height + 1))
    (h : base.At (tokens ++ t :: rest) s)
    (htokens : tokens.map Token.lexeme = target.words ++ .symbol op.symbol :: value.words)
    (ht : EndsPhrase t) :
    (simpleStatement (runWith ctx inner n)).Yields s
      { base with
        symbols := (Expr.mk (.assign target op (some value) false) position scope).defines
          base.symbols } (t :: rest)
      fun e' ↦ e'.bare = (Expr.mk (.assign target op (some value) false) position scope).bare := by
  have hparses : Parses ctx inner value := parses_of_isPlain hctx hvalue
  obtain ⟨first, others, rfl, hfirst, htokens⟩ := List.map_eq_append_iff.mp htokens
  obtain ⟨mark, second, rfl, hmark, hsecond⟩ := List.map_eq_cons_iff.mp htokens
  have hsplit : first ++ mark :: second ++ t :: rest = first ++ mark :: (second ++ t :: rest) := by
    simp
  rw [hsplit] at h
  refine yields_bind_of_ok position_run ?_
  refine ((parses_of_isPlain hctx htarget).expression hctx false (hroom.mono (by omega)) h hfirst
    (closes_assignOp hmark)).bind fun target' s₁ h₁ htarget' ↦ ?_
  have hop : assignOp? s₁ = .ok (some op) s₁ := by
    rw [assignOp?, bind_eq_of_ok current_run, h₁.current_eq, Token.kind, Token.text, hmark]
    simp only [Lexeme.kind, Lexeme.text, if_true, AssignOp.ofSymbol?_symbol]
    rfl
  have hassignable' : target'.isAssignable = true := by
    rw [← target'.isAssignable_bare, htarget', target.isAssignable_bare, hassignable]
  refine yields_bind_of_ok hop ?_
  simp only [hassignable', Bool.not_true, Bool.false_eq_true, if_false]
  refine (advance_pass_yields h₁ (isEnd_of_symbol hmark)).bind fun _ s₂ h₂ _ ↦ ?_
  rw [(hparses.startsSolid hsecond).dropWhile_eq] at h₂
  refine (hparses.expression hctx false (hroom.mono (by omega)) h₂ hsecond ht.closes).bind
    fun value' s₃ h₃ hvalue' ↦ ?_
  have hname : target'.varName? = target.varName? := by
    rw [← target'.varName?_bare, htarget', target.varName?_bare]
  refine (defineTarget_yields h₃ hname (some value) position scope).bind fun _ s₄ h₄ _ ↦ ?_
  refine yields_bind_of_ok scope_run (yields_pure h₄ ?_)
  rw [Expr.bare_assign, ← htarget', ← hvalue']
  rfl

theorem exists_statementWords_eq {e : Expr} (he : e.IsPlainStatement) :
    ∃ l ls, e.statementWords = l :: ls ∧ BeginsOperand l := by
  -- how the words begin does not depend on the parser, so any one will do
  have hbegins : ∀ {e : Expr}, e.IsPlain → ∃ l ls, e.words = l :: ls ∧ BeginsOperand l := by
    intro e he
    have hparses : Parses ⟨.standard, .empty⟩ (fun _ _ ↦ failFuel) e := parses_of_isPlain rfl he
    exact hparses.begins
  cases he with
  | expression he =>
    rw [Expr.statementWords_of_isPlain he]
    exact hbegins he
  | assign htarget hassignable hvalue =>
    obtain ⟨l, ls, hwords, hl⟩ := hbegins htarget
    exact ⟨l, _, by rw [Expr.statementWords, hwords]; rfl, hl⟩

/-- **A plain statement is parsed from its words**, up to what ends it. -/
theorem statement_yields (hctx : ctx.registry.entries = []) {e : Expr} (he : e.IsPlainStatement)
    {n : Nat} {left : List Token} (hroom : Room ctx base n (2 * e.statementHeight + 1))
    (h : base.At (tokens ++ t :: rest) s) (htokens : tokens.map Token.lexeme = e.statementWords)
    (ht : EndsStatement t rest left) :
    (statement ctx (runWith ctx inner n)).Yields s
      { base with symbols := e.defines base.symbols } left
      fun found ↦ ∃ e', found = some e' ∧ e'.bare = e.bare := by
  obtain ⟨l, ls, hwords, hbegins⟩ := exists_statementWords_eq he
  obtain ⟨first, others, rfl, hfirst, -⟩ := List.map_eq_cons_iff.mp (htokens.trans hwords)
  rw [← hfirst] at hbegins
  rw [statement]
  refine (passSeparators_yields h hbegins.isNewLine_eq
    (hbegins.own _ (by simp [foreignMarks]))).bind fun _ s₁ h₁ _ ↦ ?_
  refine yields_bind_of_ok isEnded_run ?_
  rw [h₁.isEnded_eq, hbegins.isEnd_eq, if_neg Bool.false_ne_true]
  refine yields_bind_of_ok (replaceTokens_run hctx) ?_
  refine yields_bind_of_ok (build?_run hctx _ _) ?_
  refine plainStatement_yields h₁ hbegins (ended_yields ?_ ht)
  cases he with
  | expression he =>
    rw [Expr.statementWords_of_isPlain he] at htokens
    rw [Expr.statementHeight_of_isPlain he] at hroom
    rw [Expr.defines_of_isPlain he]
    exact simpleStatement_expression hctx he hroom h₁ htokens ht.endsPhrase ht.kind_ne_symbol
  | assign htarget hassignable hvalue =>
    exact simpleStatement_assign hctx htarget hassignable hvalue hroom h₁ htokens ht.endsPhrase

/-- At the end of the text there is no further statement. -/
theorem statement_end (h : base.At (t :: tokens) s) (ht : t.kind = .endOfInput) :
    (statement ctx sub).Yields s base (t :: tokens) fun found ↦ found = none := by
  have hlexeme := lexeme_eq_endOfInput ht
  rw [statement]
  refine (passSeparators_yields h (by simp [Window.isNewLine, ht])
    (by simp [Token.is, Lexeme.is, hlexeme, Lexeme.text])).bind fun _ s₁ h₁ _ ↦ ?_
  refine yields_bind_of_ok isEnded_run ?_
  rw [h₁.isEnded_eq, if_pos (by simp [Token.isEnd, ht])]
  exact yields_pure h₁ rfl

/-! ## All statements -/

theorem requireProgress_yields {before : Token} (h : base.At (t :: tokens) s)
    (hindex : before.index < t.index) :
    (requireProgress (before.index, before.offset)).Yields s base (t :: tokens) fun _ ↦ True := by
  refine yields_bind_of_ok place_run ?_
  have hmoved : ((t.index, t.offset) = (before.index, before.offset)) ↔ False := by
    simp [Nat.ne_of_gt hindex]
  refine yields_bind_of_ok isEnded_run ?_
  rw [h.current_eq, if_neg (by simp [hmoved])]
  exact yields_pure h trivial

/-- One more statement, if it moves on. -/
theorem programWithin_statement {fuel : Nat} {done : List Expr} {out : List Token}
    {base₁ base₂ : ParserState} {Q : Expr → Prop} {P : List Expr → Prop} {before : Token}
    (h : base.At (before :: tokens) s) (hindex : before.index < t.index)
    (hstatement : Yields (sub .statement) s base₁ (t :: rest)
      fun found ↦ ∃ e', found = some e' ∧ Q e')
    (hrest : ∀ e' s', Q e' → base₁.At (t :: rest) s' →
      (programWithin sub fuel (e' :: done)).Yields s' base₂ out P) :
    (programWithin sub (fuel + 1) done).Yields s base₂ out P := by
  rw [programWithin]
  refine yields_bind_of_ok place_run ?_
  rw [h.current_eq]
  refine hstatement.bind fun found s₁ h₁ hfound ↦ ?_
  obtain ⟨e', rfl, he'⟩ := hfound
  exact (requireProgress_yields h₁ hindex).bind fun _ s₂ h₂ _ ↦ hrest e' s₂ he' h₂

/-- No further statement. -/
theorem programWithin_end {n fuel : Nat} {done : List Expr} (h : base.At (t :: tokens) s)
    (ht : t.kind = .endOfInput) :
    (programWithin (runWith ctx inner (n + 1)) (fuel + 1) done).Yields s base (t :: tokens)
      fun found ↦ found = done.reverse := by
  rw [programWithin]
  refine yields_bind_of_ok place_run ?_
  have hstatement : Yields (runWith ctx inner (n + 1) .statement) s base (t :: tokens)
      fun found ↦ found = none := statement_end h ht
  refine hstatement.bind fun found s₁ h₁ hfound ↦ ?_
  subst hfound
  exact yields_pure h₁ rfl

/-- **A plain statement by itself is parsed from its words.** -/
theorem programWithin_single (hctx : ctx.registry.entries = []) {e : Expr}
    (he : e.IsPlainStatement) {n fuel : Nat} {last : Token}
    (hroom : Room ctx base n (2 * e.statementHeight + 1)) (h : base.At (tokens ++ [last]) s)
    (htokens : tokens.map Token.lexeme = e.statementWords) (hlast : last.kind = .endOfInput)
    (hindices : ((tokens ++ [last]).map Token.index).Pairwise (· < ·))
    (hfuel : (tokens ++ [last]).length < fuel) :
    (programWithin (runWith ctx inner (n + 1)) fuel []).Yields s
      { base with symbols := e.defines base.symbols } [last]
      fun found ↦ ∃ e', found = [e'] ∧ e'.bare = e.bare := by
  obtain ⟨l, ls, hwords, -⟩ := exists_statementWords_eq he
  obtain ⟨before, others, rfl, -, -⟩ := List.map_eq_cons_iff.mp (htokens.trans hwords)
  have hindex : before.index < last.index := by
    rw [List.cons_append, List.map_cons, List.pairwise_cons] at hindices
    exact hindices.1 _ (by simp)
  rw [List.length_append, List.length_cons, List.length_singleton] at hfuel
  obtain ⟨fuel, rfl⟩ := Nat.exists_eq_add_of_le' (show 2 ≤ fuel by omega)
  refine programWithin_statement h hindex
    (statement_yields hctx he hroom h htokens (.endOfInput hlast)) fun e' s₁ he' h₁ ↦ ?_
  refine (programWithin_end h₁ hlast).mono fun found hfound ↦ ?_
  exact ⟨e', hfound, he'⟩

/-- Room does not depend on which variables there are. -/
theorem Room.withSymbols {n k : Nat} {symbols : SymbolTable} (h : Room ctx base n k)
    (hsymbols : symbols.OnlyVars) : Room ctx { base with symbols } n k :=
  { h with no_function := hsymbols.isFunction_eq, no_module := hsymbols.isModule_eq }

/-- **Plain statements, one a line, are parsed from their words.** -/
theorem programWithin_lines (hctx : ctx.registry.entries = []) {statements done : List Expr}
    (hstatements : ∀ e ∈ statements, e.IsPlainStatement) {n k fuel : Nat} {last : Token}
    (hsizes : ∀ e ∈ statements, 2 * e.statementHeight + 1 ≤ k) (hvars : base.symbols.OnlyVars)
    (hroom : Room ctx base n k) (h : base.At (tokens ++ [last]) s)
    (htokens : tokens.map Token.lexeme = lineWords statements) (hlast : last.kind = .endOfInput)
    (hindices : ((tokens ++ [last]).map Token.index).Pairwise (· < ·))
    (hfuel : (tokens ++ [last]).length < fuel) :
    (programWithin (runWith ctx inner (n + 1)) fuel done).Yields s
      { base with symbols := statements.foldl (fun t e ↦ e.defines t) base.symbols } [last]
      fun found ↦ found.map Expr.bare =
        done.reverse.map Expr.bare ++ statements.map Expr.bare := by
  induction statements generalizing s base tokens done fuel with
  | nil =>
    obtain rfl := List.map_eq_nil_iff.mp htokens
    obtain ⟨fuel, rfl⟩ := Nat.exists_eq_succ_of_ne_zero (Nat.ne_zero_of_lt hfuel)
    refine (programWithin_end h hlast).mono fun found hfound ↦ ?_
    simp [hfound]
  | cons e statements ih =>
    obtain ⟨fuel, rfl⟩ := Nat.exists_eq_succ_of_ne_zero (Nat.ne_zero_of_lt hfuel)
    have he := hstatements e List.mem_cons_self
    obtain ⟨first, others, rfl, hfirst, htokens⟩ := List.map_eq_append_iff.mp htokens
    obtain ⟨line, others, rfl, hline, hothers⟩ := List.map_eq_cons_iff.mp htokens
    have hsplit : first ++ line :: others ++ [last] = first ++ line :: (others ++ [last]) := by simp
    rw [hsplit] at h hindices
    obtain ⟨l, ls, hwords, -⟩ := exists_statementWords_eq he
    obtain ⟨before, first, rfl, -, -⟩ := List.map_eq_cons_iff.mp (hfirst.trans hwords)
    -- the token behind the line break has a greater number than the first of the line
    obtain ⟨next, rest, hnext⟩ := List.exists_cons_of_ne_nil
      (List.append_ne_nil_of_right_ne_nil others (List.cons_ne_nil last []))
    rw [hnext] at h hindices
    have hindex : before.index < next.index := by
      rw [List.cons_append, List.map_cons, List.pairwise_cons] at hindices
      exact hindices.1 _ (by simp)
    have hkind : line.kind = .newLine := by rw [Token.kind, hline]; rfl
    refine programWithin_statement h hindex
      (statement_yields hctx he (hroom.mono (hsizes e List.mem_cons_self)) h hfirst
        (.newLine hkind)) fun e' s₁ he' h₁ ↦ ?_
    have hvars₁ := e.onlyVars_defines hvars
    refine (ih (fun e' he' ↦ hstatements e' (List.mem_cons_of_mem _ he'))
      (fun e' he' ↦ hsizes e' (List.mem_cons_of_mem _ he')) hvars₁ (hroom.withSymbols hvars₁)
      (hnext ▸ h₁) hothers ?_ ?_).mono fun found hfound ↦ ?_
    · have hsuffix : next :: rest <:+ before :: first ++ line :: next :: rest :=
        ⟨before :: first ++ [line], by simp⟩
      rw [hnext]
      exact hindices.sublist (hsuffix.sublist.map _)
    · simp only [List.length_append, List.length_cons] at hfuel ⊢
      omega
    · simpa [he'] using hfound

end Parse

end ScriptFront
