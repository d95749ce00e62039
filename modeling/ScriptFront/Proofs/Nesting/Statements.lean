import ScriptFront.Proofs.Nesting.Operands

/-!
# Nested statements

The runs on blocks that are nested as deep as one likes, and on conditionals with as many
alternatives as one likes, by induction on the levels; and how one statement makes a whole script.

A block has a scope of its own, so the names are not the same behind it. What is needed is that they
all stand for variables, and that the scope that was current is current again. `ParserState.Past` is
a state of this kind.
-/

namespace ScriptFront

/-! ## Names behind statements -/

namespace SymbolTable

variable {t : SymbolTable}

theorem OnlyVars.push (h : t.OnlyVars) (kind : ScopeKind) : (t.push kind).2.OnlyVars := by
  intro s hs entry hentry
  rcases Array.mem_push.mp hs with hs | rfl
  · exact h s hs entry hentry
  · exact absurd hentry List.not_mem_nil

end SymbolTable

/-- The state shows `tokens` behind statements that were parsed where `base` stands for the names
and counters. -/
def ParserState.Past (base : ParserState) (tokens : List Token) (s : ParserState) : Prop :=
  ∃ table, base.symbols.Steady table ∧ table.OnlyVars ∧
  ParserState.At { base with symbols := table } tokens s

theorem ParserState.Past.exists_at {base s : ParserState} {tokens : List Token}
    (h : base.Past tokens s) :
    ∃ base', ParserState.At base' tokens s := by
  obtain ⟨table, -, -, hat⟩ := h
  exact ⟨_, hat⟩

/-- The names and counters inside of a block. -/
def ParserState.inBlock (base : ParserState) : ParserState :=
  { base with statementDepth := base.statementDepth + 1, symbols := (base.symbols.push .block).2 }

namespace Parse

variable {ctx : ParseContext} {hurdle : Hurdle} {inner : (fuel : Nat) → List Token → Parse Expr}
  {sub : Subparser} {s base : ParserState} {t last : Token} {tokens rest : List Token}
  {name : String}
  {n need fuel : Nat} {P : Prop}

/-! ## Blocks -/

theorem continuesWith_run (h : base.At (t :: tokens) s) (ht : Window.isNewLine t = false)
    (text : String) :
    continuesWith text s = .ok (t.is text) s := by
  have hkind : s.tokens.kind ≠ .newLine := by
    rw [Window.kind, h.current_eq]
    simpa [Window.isNewLine] using ht
  rw [continuesWith, bind_eq_of_ok kind_run, if_neg hkind]
  exact congrArg (EStateM.Result.ok · s) (h.is_eq text)

/-- What a block has opened is closed behind it, whatever its statements have defined. -/
theorem statementsInScope_meets {opening closing : Token} (h : base.At (opening :: tokens) s)
    (hopening : opening.lexeme = .symbol "\x7b") (hsolid : StartsSolid tokens)
    (hclosing : closing.lexeme = .symbol "\x7d")
    (hallows : hurdle.Allows ctx.limits .statement (base.statementDepth + 1))
    (hstatements : base.statementDepth + 1 ≤ ctx.limits.maxStatementDepth → ∀ fuel s',
      base.inBlock.At tokens s' → Meets ctx hurdle (statementsWithin sub (fuel + 2) [])
        s' fun _ s'' ↦
        P ∧ base.inBlock.Past (closing :: rest) s'') :
    Meets ctx hurdle (statementsInScope ctx sub .block []) s fun _ s' ↦ P ∧ base.Past rest s' := by
  refine .ask (continuesWith_run h (isNewLine_of_symbol hopening) _) ?_
  rw [is_of_symbol hopening]
  refine (enterBlock_meets h hallows).bind ?_
  rintro _ s₁ ⟨hle, h₁⟩
  have hpass := advance_pass_yields h₁ (isEnd_of_symbol hopening)
  rw [hsolid.dropWhile_eq] at hpass
  refine hpass.meets_bind fun _ s₂ h₂ _ ↦ ?_
  have h₃ := h₂.change (fun s ↦ { s with symbols := (s.symbols.push .block).2 }) fun _ _ ↦ rfl
  refine .ask rfl (.ask rfl (.ask rounds_run ?_))
  refine (hstatements hle _ _ h₃).bind ?_
  rintro statements s₄ ⟨hP, table, hsteady, hvars, h₄⟩
  obtain ⟨hpop, hback⟩ := hsteady.pop
  have hpopped : popScope s₄ = .ok () { s₄ with symbols := table.backTo base.symbols.current } := by
    simp only [popScope, get_bind_run, h₄.symbols_eq, hpop]
    rfl
  have h₅ := h₄.change (fun s ↦ { s with
    symbols := table.backTo base.symbols.current, statementDepth :=
      s.statementDepth - 1 }) fun _ _ ↦ rfl
  refine .ask hpopped (.modify_bind ?_)
  refine (advance_yields h₅ (isEnd_of_symbol hclosing)).meets_bind fun _ s₆ h₆ _ ↦ .pure ⟨hP, ?_⟩
  exact ⟨_, hback, hvars, h₆⟩

theorem block_meets {opening closing : Token} (h : base.At (opening :: tokens) s)
    (hopening : opening.lexeme = .symbol "\x7b") (hsolid : StartsSolid tokens)
    (hclosing : closing.lexeme = .symbol "\x7d")
    (hallows : hurdle.Allows ctx.limits .statement (base.statementDepth + 1))
    (hstatements : base.statementDepth + 1 ≤ ctx.limits.maxStatementDepth → ∀ fuel s',
      base.inBlock.At tokens s' → Meets ctx hurdle (statementsWithin sub (fuel + 2) [])
        s' fun _ s'' ↦
        P ∧ base.inBlock.Past (closing :: rest) s'') :
    Meets ctx hurdle (block ctx sub) s fun _ s' ↦ P ∧ base.Past rest s' := by
  refine .ask position_run ?_
  exact (statementsInScope_meets h hopening hsolid hclosing hallows hstatements).bind
    fun _ _ hs' ↦ .pure hs'

/-- A closing brace ends the statements of a block. -/
theorem statementsWithin_stop {done : List Expr} (h : base.At (t :: rest) s)
    (ht : t.lexeme = .symbol "\x7d") :
    (statementsWithin sub (fuel + 1) done).Yields s base (t :: rest) fun _ ↦ True := by
  have hsemicolon : t.is ";" = false := by simp [Token.is, Lexeme.is, ht, Lexeme.text]
  rw [statementsWithin]
  refine (passSeparators_yields h (isNewLine_of_symbol ht) hsemicolon).bind fun _ s₁ h₁ _ ↦ ?_
  refine yields_bind_of_ok (is_run _) ?_
  rw [h₁.is_eq, if_pos (is_of_symbol ht)]
  exact yields_pure h₁ trivial

/-- A block with nothing in it. -/
theorem block_empty_meets {opening closing : Token} (hvars : base.symbols.OnlyVars)
    (h : base.At (opening :: closing :: rest) s) (hopening : opening.lexeme = .symbol "\x7b")
    (hclosing : closing.lexeme = .symbol "\x7d")
    (hallows : hurdle.Allows ctx.limits .statement (base.statementDepth + 1)) :
    Meets ctx hurdle (block ctx sub) s fun _ s' ↦
      base.statementDepth + 1 ≤ ctx.limits.maxStatementDepth ∧ base.Past rest s' := by
  refine block_meets h hopening (startsSolid_cons (isNewLine_of_symbol hclosing)) hclosing hallows
    fun hle fuel s₁ h₁ ↦ ?_
  exact (statementsWithin_stop h₁ hclosing).meets.mono fun _ _ h₂ ↦
    ⟨hle, _, .refl, hvars.push _, h₂.1⟩

/-- A block with a block in it. -/
theorem statementsWithin_block_meets {opening closing : Token} (h : base.At (opening :: tokens) s)
    (hopening : opening.lexeme = .symbol "\x7b") (hclosing : closing.lexeme = .symbol "\x7d")
    (hindex : opening.index < closing.index)
    (hstatement : ∀ s', base.At (opening :: tokens) s' →
      Meets ctx hurdle (sub .statement) s' fun found s'' ↦
      (∃ e, found = some e) ∧ P ∧ base.Past (closing :: rest) s'') :
    Meets ctx hurdle (statementsWithin sub (fuel + 2) []) s fun _ s' ↦ P ∧
    base.Past (closing :: rest) s' := by
  have hother : ∀ text, text ≠ "\x7b" → opening.is text = false := fun text htext ↦ by
    simpa [Token.is, Lexeme.is, hopening, Lexeme.text] using htext.symm
  rw [statementsWithin]
  refine (passSeparators_yields h (isNewLine_of_symbol hopening) (hother _ (by decide))).meets_bind
    fun _ s₁ h₁ _ ↦ .ask (is_run _) ?_
  rw [h₁.is_eq, if_neg (by simp [hother "\x7d" (by decide)])]
  refine .ask isEnded_run ?_
  rw [h₁.isEnded_eq, if_neg (by simp [isEnd_of_symbol hopening])]
  refine .ask place_run ((hstatement s₁ h₁).bind ?_)
  rintro found s₂ ⟨⟨e, hfound⟩, hP, table, hsteady, hvars, h₂⟩
  subst hfound
  rw [h₁.current_eq]
  refine (requireProgress_yields h₂ hindex).meets_bind fun _ s₃ h₃ _ ↦ ?_
  exact (statementsWithin_stop h₃ hclosing).meets.mono fun _ _ h₄ ↦
    ⟨hP, table, hsteady, hvars, h₄.1⟩

/-! ## Statements -/

/-- Where a statement begins, nothing comes before the choice of its form. -/
theorem statement_meets {Q : Option Expr → ParserState → Prop} (hctx : ctx.registry.entries = [])
    (h : base.At (t :: tokens) s) (hsolid : Window.isNewLine t = false)
    (hsemicolon : t.is ";" = false)
    (hend : t.isEnd = false)
    (hplain : ∀ s', base.At (t :: tokens) s' → Meets ctx hurdle (plainStatement ctx sub) s' Q) :
    Meets ctx hurdle (statement ctx sub) s Q := by
  refine (passSeparators_yields h hsolid hsemicolon).meets_bind fun _ s₁ h₁ _ ↦ .ask isEnded_run ?_
  rw [h₁.isEnded_eq, hend, if_neg Bool.false_ne_true]
  exact .ask (replaceTokens_run hctx) (.ask (build?_run hctx _ _) (hplain s₁ h₁))

theorem statement_block_meets {opening : Token} (hctx : ctx.registry.entries = [])
    (h : base.At (opening :: tokens) s) (hopening : opening.lexeme = .symbol "\x7b")
    (hblock : ∀ s', base.At (opening :: tokens) s' →
      Meets ctx hurdle (block ctx sub) s' fun _ s'' ↦ P ∧ base.Past rest s'') :
    Meets ctx hurdle (statement ctx sub) s fun found s' ↦ (∃ e, found = some e) ∧ P ∧
    base.Past rest s' := by
  have hsemicolon : opening.is ";" = false := by simp [Token.is, Lexeme.is, hopening, Lexeme.text]
  refine statement_meets hctx h (isNewLine_of_symbol hopening) hsemicolon (isEnd_of_symbol hopening)
    fun s₁ h₁ ↦ .ask current_run ?_
  simp only [h₁.current_eq, hopening]
  exact (hblock s₁ h₁).bind fun e _ hs' ↦ .pure ⟨⟨e, rfl⟩, hs'⟩

/-- One block is counted for each pair of braces. -/
theorem blocks_meet (hctx : ctx.registry.entries = []) (hcovers : Covers ctx base 2 fuel)
    (hvars : base.symbols.OnlyVars) (h : base.At (tokens ++ rest) s)
    (htokens : tokens.map Token.lexeme = wrapped [.symbol "\x7b"] [] [.symbol "\x7d"] (n + 1))
    (hindices : (tokens.map Token.index).Pairwise (· < ·))
    (hneed : need = base.statementDepth + (n + 1)) :
    Meets ctx ⟨.statement, need⟩ (statement ctx (runWith ctx inner fuel)) s fun found s' ↦
      (∃ e, found = some e) ∧ need ≤ ctx.limits.maxStatementDepth ∧ base.Past rest s' := by
  induction n generalizing base s tokens rest fuel with
  | zero =>
    obtain ⟨opening, middle, closing, rfl, hopening, hmiddle, hclosing⟩ := exists_enclosed htokens
    obtain rfl := List.map_eq_nil_iff.mp hmiddle
    rw [hneed]
    exact statement_block_meets hctx h hopening fun s₁ h₁ ↦
      block_empty_meets hvars h₁ hopening hclosing (Hurdle.allows_of_le (Nat.le_refl _))
  | succ n ih =>
    obtain ⟨opening, middle, closing, rfl, hopening, hmiddle, hclosing⟩ := exists_enclosed htokens
    obtain ⟨first, others, rfl, hfirst, -⟩ := List.map_eq_cons_iff.mp hmiddle
    rw [List.cons_append, List.append_assoc, List.singleton_append] at h
    rw [List.map_cons, List.pairwise_cons, List.map_append, List.pairwise_append] at hindices
    obtain ⟨-, hinside, -, hbefore⟩ := hindices
    have hindex : first.index < closing.index := hbefore _ (by simp) _ (by simp)
    refine statement_block_meets hctx h hopening fun s₁ h₁ ↦ ?_
    refine block_meets h₁ hopening (startsSolid_cons (isNewLine_of_symbol hfirst)) hclosing
      (Hurdle.allows_of_le (by omega)) fun hle _ s₂ h₂ ↦ ?_
    refine statementsWithin_block_meets h₂ hfirst hclosing hindex fun s₃ h₃ ↦ ?_
    obtain ⟨fuel, rfl, hstatement⟩ := (hcovers.openBlock hle).exists_succ
    exact ih hstatement (hvars.push _) h₃ hmiddle hinside
      (hneed.trans (Nat.succ_add_eq_add_succ _ _).symm)

/-! ## Conditionals -/

theorem isNewLine_of_keyword {word : String} (ht : t.lexeme = .keyword word) :
    Window.isNewLine t = false := by
  simp [Window.isNewLine, Token.kind, ht, Lexeme.kind]

theorem isEnd_of_keyword {word : String} (ht : t.lexeme = .keyword word) : t.isEnd = false := by
  simp [Token.isEnd, Token.kind, ht, Lexeme.kind]

/-- A name as an expression of its own. -/
theorem expression_name_meets {next : Token} (hctx : ctx.registry.entries = [])
    (hname : IsName name)
    (hcovers : Covers ctx base 2 fuel) (hvars : base.symbols.OnlyVars)
    (h : base.At (t :: next :: rest) s)
    (ht : t.lexeme = .ident name) (hlink : opensLink next = false) (hnext : EndsExpression next)
    (hallows : hurdle.Allows ctx.limits .expression (base.expressionDepth + 1)) :
    Meets ctx hurdle (runWith ctx inner fuel (.expression false)) s fun _ s' ↦
      base.expressionDepth + 1 ≤ ctx.limits.maxExpressionDepth ∧ base.At (next :: rest) s' := by
  obtain ⟨fuel, rfl, hinside⟩ := hcovers.exists_succ
  obtain ⟨fuel, rfl, -⟩ := hinside.exists_succ
  exact expression_meets hctx h (ht ▸ beginsOperand_name hname)
    (isSymbol_of_name ht) hnext fun s₁ h₁ ↦
    operand_name_meets hctx h₁ ht (hvars.isFunction_eq name) ⟨_, _, rfl, hlink⟩ hallows

/-- A conditional up to the end of its first block. -/
theorem condition_meets {α : Type} {word condition opening closing : Token}
    {f : Expr → Expr → Parse α}
    {Q : α → ParserState → Prop} (hctx : ctx.registry.entries = []) (hname : IsName name)
    (hcovers : Covers ctx base 2 fuel) (hvars : base.symbols.OnlyVars)
    (h : base.At (word :: condition :: opening :: closing :: rest) s)
    (hword : word.lexeme = .keyword "if")
    (hcondition : condition.lexeme = .ident name) (hopening : opening.lexeme = .symbol "\x7b")
    (hclosing : closing.lexeme = .symbol "\x7d")
    (hoperand : base.expressionDepth + 1 ≤ ctx.limits.maxExpressionDepth)
    (hallows : hurdle.Allows ctx.limits .statement (base.statementDepth + 1))
    (hrest : base.statementDepth + 1 ≤ ctx.limits.maxStatementDepth → ∀ e branch s',
      base.Past rest s' →
      Meets ctx hurdle (f e branch) s' Q) :
    Meets ctx hurdle (do
      expect "if" false
      let e ← runWith ctx inner fuel (.expression false)
      let branch ← guarded ctx (runWith ctx inner fuel)
      f e branch) s Q := by
  have hif : word.is "if" = true := by simp [Token.is, Lexeme.is, hword, Lexeme.text]
  have hthen : opening.is "then" = false := by simp [Token.is, Lexeme.is, hopening, Lexeme.text]
  have hlink : opensLink opening = false := by
    rw [opensLink_of_symbol hopening]
    decide
  refine (expect_yields h (isEnd_of_keyword hword) hif).meets_bind fun _ s₁ h₁ _ ↦ ?_
  refine (expression_name_meets hctx hname hcovers hvars h₁ hcondition hlink
    (endsExpression_of_symbol hopening (by decide) (by decide) (by decide)) (.inl hoperand)).bind ?_
  rintro e s₂ ⟨_, h₂⟩
  have hguarded : Meets ctx hurdle (guarded ctx (runWith ctx inner fuel)) s₂ fun _ s' ↦
      base.statementDepth + 1 ≤ ctx.limits.maxStatementDepth ∧ base.Past rest s' := by
    refine .ask (is_run _) ?_
    rw [h₂.is_eq, hthen, if_neg Bool.false_ne_true]
    refine .ask (continuesWith_run h₂ (isNewLine_of_symbol hopening) _) ?_
    rw [is_of_symbol hopening]
    exact block_empty_meets hvars h₂ hopening hclosing hallows
  exact hguarded.bind fun branch s₃ h₃ ↦ hrest h₃.1 e branch s₃ h₃.2

/-- A conditional as an alternative is counted as a block. -/
theorem alternative_meets {word : Token} (h : base.At (word :: tokens) s)
    (hword : word.lexeme = .keyword "if")
    (hallows : hurdle.Allows ctx.limits .statement (base.statementDepth + 1))
    (hconditional : base.statementDepth + 1 ≤ ctx.limits.maxStatementDepth → ∀ s',
      ParserState.At { base with statementDepth := base.statementDepth + 1 } (word :: tokens) s' →
      Meets ctx hurdle (sub .conditional) s' fun _ s'' ↦
        P ∧ ParserState.Past { base with statementDepth := base.statementDepth + 1 } rest s'') :
    Meets ctx hurdle (alternative ctx sub) s fun _ s' ↦ P ∧ base.Past rest s' := by
  have hif : word.is "if" = true := by simp [Token.is, Lexeme.is, hword, Lexeme.text]
  refine .ask (is_run _) ?_
  rw [h.is_eq, hif, if_pos rfl]
  refine (enterBlock_meets h hallows).bind ?_
  rintro _ s₁ ⟨hle, h₁⟩
  refine (hconditional hle s₁ h₁).bind ?_
  rintro chained s₂ ⟨hP, table, hsteady, hvars, h₂⟩
  refine .modify_bind (.pure ⟨hP, table, hsteady, hvars, ?_⟩)
  exact h₂.change (fun s ↦ { s with statementDepth := s.statementDepth - 1 }) fun _ _ ↦ rfl

/-- One block is counted for each alternative, and one for the block behind the last condition. -/
theorem branches_meet {word condition opening closing : Token} (hctx : ctx.registry.entries = [])
    (hname : IsName name) (hcovers : Covers ctx base 2 fuel) (hvars : base.symbols.OnlyVars)
    (h : base.At (word :: condition :: opening :: closing :: (tokens ++ [last])) s)
    (hword : word.lexeme = .keyword "if") (hcondition : condition.lexeme = .ident name)
    (hopening : opening.lexeme = .symbol "\x7b") (hclosing : closing.lexeme = .symbol "\x7d")
    (htokens : tokens.map Token.lexeme = wrapped (Deepening.alternativeWords name) [] [] n)
    (hlast : last.kind = .endOfInput)
    (hoperand : base.expressionDepth + 1 ≤ ctx.limits.maxExpressionDepth)
    (hneed : need = base.statementDepth + (n + 1)) :
    Meets ctx ⟨.statement, need⟩ (conditional ctx (runWith ctx inner fuel)) s fun _ s' ↦
      need ≤ ctx.limits.maxStatementDepth ∧ base.Past [last] s' := by
  induction n generalizing base s word condition opening closing tokens fuel with
  | zero =>
    obtain rfl := List.map_eq_nil_iff.mp htokens
    have hsolid : Window.isNewLine last = false := by simp [Window.isNewLine, hlast]
    have helse : last.is "else" = false := by
      simp [Token.is, Lexeme.is, lexeme_eq_endOfInput hlast, Lexeme.text]
    refine .ask position_run
      (condition_meets hctx hname hcovers hvars h hword hcondition hopening hclosing
      hoperand (Hurdle.allows_of_le (by omega)) ?_)
    rintro hle e branch s₁ ⟨table, hsteady, hvars₁, h₁⟩
    refine .ask (continuesWith_run h₁ hsolid _) ?_
    rw [helse, if_neg Bool.false_ne_true]
    exact .known (node_run _ _) ⟨hneed ▸ hle, table, hsteady, hvars₁, h₁⟩
  | succ n ih =>
    rw [wrapped, List.append_nil, Deepening.alternativeWords] at htokens
    obtain ⟨other, _, rfl, hother, htokens⟩ := List.map_eq_cons_iff.mp htokens
    obtain ⟨word', _, rfl, hword', htokens⟩ := List.map_eq_cons_iff.mp htokens
    obtain ⟨condition', _, rfl, hcondition', htokens⟩ := List.map_eq_cons_iff.mp htokens
    obtain ⟨opening', _, rfl, hopening', htokens⟩ := List.map_eq_cons_iff.mp htokens
    obtain ⟨closing', _, rfl, hclosing', htokens⟩ := List.map_eq_cons_iff.mp htokens
    have helse : other.is "else" = true := by simp [Token.is, Lexeme.is, hother, Lexeme.text]
    refine .ask position_run
      (condition_meets hctx hname hcovers hvars h hword hcondition hopening hclosing
      hoperand (Hurdle.allows_of_le (by omega)) ?_)
    rintro _ e branch s₁ ⟨table, hsteady, hvars₁, h₁⟩
    refine .ask (continuesWith_run h₁ (isNewLine_of_keyword hother) _) ?_
    rw [helse, if_pos rfl]
    refine (advance_yields h₁ (isEnd_of_keyword hother)).meets_bind fun _ s₂ h₂ _ ↦ ?_
    have hallows :
        Hurdle.Allows ⟨.statement, need⟩ ctx.limits .statement (base.statementDepth + 1) :=
      Hurdle.allows_of_le (by omega)
    have hchained :
        Meets ctx ⟨.statement, need⟩ (alternative ctx (runWith ctx inner fuel)) s₂ fun _ s' ↦
        need ≤ ctx.limits.maxStatementDepth ∧
          ParserState.Past { base with symbols := table } [last] s' := by
      refine alternative_meets h₂ hword' hallows fun hle s₃ h₃ ↦ ?_
      -- the names are those that the first block has left, the fuel is what it was
      have hdeeper : Covers ctx { base with symbols := table } 2 fuel := hcovers
      obtain ⟨fuel, rfl, hinside⟩ := (hdeeper.openBlock hle).exists_succ
      exact ih hinside hvars₁ h₃ hword' hcondition' hopening' hclosing' htokens hoperand
        (hneed.trans (Nat.succ_add_eq_add_succ _ _).symm)
    refine hchained.bind ?_
    rintro chained s₃ ⟨htaken, table', hsteady', hvars', h₃⟩
    exact .known (node_run _ _) ⟨htaken, table', hsteady.trans hsteady', hvars', h₃⟩

theorem statement_conditional_meets {word : Token} (hctx : ctx.registry.entries = [])
    (h : base.At (word :: tokens) s) (hword : word.lexeme = .keyword "if")
    (hconditional : ∀ s', base.At (word :: tokens) s' →
      Meets ctx hurdle (conditional ctx sub) s' fun _ s'' ↦ P ∧ base.Past rest s'') :
    Meets ctx hurdle (statement ctx sub) s fun found s' ↦ (∃ e, found = some e) ∧ P ∧
    base.Past rest s' := by
  have hsemicolon : word.is ";" = false := by simp [Token.is, Lexeme.is, hword, Lexeme.text]
  refine statement_meets hctx h (isNewLine_of_keyword hword) hsemicolon (isEnd_of_keyword hword)
    fun s₁ h₁ ↦ .ask current_run ?_
  simp only [h₁.current_eq, hword]
  exact (hconditional s₁ h₁).bind fun e _ hs' ↦ .pure ⟨⟨e, rfl⟩, hs'⟩

/-! ## Expressions and assignments -/

/-- An expression or an assignment up to the end of the text. -/
theorem statement_simple_meets (hctx : ctx.registry.entries = []) (h : base.At (t :: tokens) s)
    (hbegins : BeginsOperand t.lexeme) (hlast : last.kind = .endOfInput)
    (hsimple : ∀ s', base.At (t :: tokens) s' →
      Meets ctx hurdle (simpleStatement sub) s' fun _ s'' ↦ P ∧ ∃ base',
      ParserState.At base' [last] s'') :
    Meets ctx hurdle (statement ctx sub) s fun found s' ↦
      (∃ e, found = some e) ∧ P ∧ ∃ base', ParserState.At base' [last] s' := by
  refine statement_meets hctx h hbegins.isNewLine_eq (hbegins.own _ (by simp [foreignMarks]))
    hbegins.isEnd_eq
    fun s₁ h₁ ↦ ?_
  have hended : Meets ctx hurdle (ended (simpleStatement sub)) s₁ fun found s' ↦
      (∃ e, found = some e) ∧ P ∧ ∃ base', ParserState.At base' [last] s' := by
    refine (hsimple s₁ h₁).bind ?_
    rintro e s₂ ⟨hP, base', h₂⟩
    exact (endStatement_yields h₂ (.endOfInput hlast)).meets_bind fun _ s₃ h₃ _ ↦
      .pure ⟨⟨e, rfl⟩, hP, base', h₃⟩
  rw [Meets, Ensures, plainStatement_run (h₁.current_eq ▸ hbegins)]
  exact hended

/-- An expression that is no assignment. -/
theorem statement_value_meets (hctx : ctx.registry.entries = []) (h : base.At (t :: tokens) s)
    (hbegins : BeginsOperand t.lexeme) (hlast : last.kind = .endOfInput)
    (hvalue : ∀ s', base.At (t :: tokens) s' →
      Meets ctx hurdle (sub (.expression false)) s' fun _ s'' ↦ P ∧ base.At [last] s'') :
    Meets ctx hurdle (statement ctx sub) s fun found s' ↦
      (∃ e, found = some e) ∧ P ∧ ∃ base', ParserState.At base' [last] s' := by
  refine statement_simple_meets hctx h hbegins hlast fun s h ↦ ?_
  refine .ask position_run ((hvalue s h).bind ?_)
  rintro e s₁ ⟨hP, h₁⟩
  have hnone : assignOp? s₁ = .ok none s₁ := by
    rw [assignOp?, bind_eq_of_ok current_run, h₁.current_eq, if_neg (by simp [hlast])]
    rfl
  exact .ask hnone (.pure ⟨hP, base, h₁⟩)

/-- A name as the target of an assignment. -/
theorem target_meets {next : Token} (hctx : ctx.registry.entries = []) (hname : IsName name)
    (hcovers : Covers ctx base 2 fuel) (hvars : base.symbols.OnlyVars)
    (h : base.At (t :: next :: rest) s)
    (ht : t.lexeme = .ident name) (hlink : opensLink next = false) (hnext : EndsExpression next)
    (hallows : hurdle.Allows ctx.limits .expression (base.expressionDepth + 1)) :
    Meets ctx hurdle (runWith ctx inner fuel (.expression false)) s fun e s' ↦
      base.At (next :: rest) s' ∧ e = .mk (.var name) t.position base.symbols.current := by
  by_cases hle : base.expressionDepth + 1 ≤ ctx.limits.maxExpressionDepth
  · obtain ⟨fuel, rfl, hinside⟩ := hcovers.exists_succ
    obtain ⟨fuel, rfl, -⟩ := hinside.exists_succ
    have hbegins : BeginsOperand t.lexeme := ht ▸ beginsOperand_name hname
    refine (expression_yields h fun rounds hrounds ↦ ?_).meets
    rw [List.length_cons, List.length_cons] at hrounds
    obtain ⟨rounds, rfl⟩ := Nat.exists_eq_add_of_le' (show 2 ≤ rounds by omega)
    have hword (s' : ParserState) (h' : base.At (t :: next :: rest) s') :
        (operand ctx (runWith ctx inner fuel)).Yields s' base (next :: rest)
          fun e ↦ e = .mk (.var name) t.position base.symbols.current :=
      operand_name_yields hctx h' ht (hvars.isFunction_eq name) ⟨_, _, rfl, hlink⟩ hle
    refine expressionWithin_operand h
      (replaces_of_entries hctx (roundTokens_cons hbegins.isNewLine_eq))
      (isSymbol_of_name ht) hword fun e s₁ he h₁ ↦ ?_
    exact expressionWithin_done h₁ (replaces_of_entries hctx rfl) hnext rfl he
  · exact (expression_name_meets hctx hname hcovers hvars h ht hlink hnext hallows).mono
      fun _ _ hs' ↦ absurd hs'.1 hle

/-- An assignment of a value to a name. -/
theorem statement_assign_meets {word mark : Token} (hctx : ctx.registry.entries = [])
    (hname : IsName name)
    (hcovers : Covers ctx base 2 fuel) (hvars : base.symbols.OnlyVars)
    (h : base.At (word :: mark :: tokens) s) (hword : word.lexeme = .ident name)
    (hmark : mark.lexeme = .symbol "=") (hsolid : StartsSolid tokens)
    (hlast : last.kind = .endOfInput)
    (hallows : hurdle.Allows ctx.limits .expression (base.expressionDepth + 1))
    (hvalue : ∀ s', base.At tokens s' →
      Meets ctx hurdle (runWith ctx inner fuel (.expression false)) s' fun _ s'' ↦ P ∧
      base.At [last] s'') :
    Meets ctx hurdle (statement ctx (runWith ctx inner fuel)) s fun found s' ↦
      (∃ e, found = some e) ∧ P ∧ ∃ base', ParserState.At base' [last] s' := by
  refine statement_simple_meets hctx h (hword ▸ beginsOperand_name hname) hlast fun s h ↦ ?_
  have hcloses : Closes false mark :=
    closes_of_symbol false hmark (by decide) (by decide) (by decide)
  refine .ask position_run
    ((target_meets hctx hname hcovers hvars h hword hcloses.follows hcloses.ends
    hallows).bind ?_)
  rintro target s₁ ⟨h₁, htarget⟩
  have hop : assignOp? s₁ = .ok (some .assign) s₁ := by
    rw [assignOp?, bind_eq_of_ok current_run, h₁.current_eq, Token.kind, Token.text, hmark]
    rfl
  subst htarget
  refine .ask hop ?_
  have hpass := advance_pass_yields h₁ (isEnd_of_symbol hmark)
  rw [hsolid.dropWhile_eq] at hpass
  refine hpass.meets_bind fun _ s₂ h₂ _ ↦ (hvalue s₂ h₂).bind ?_
  rintro value s₃ ⟨hP, h₃⟩
  refine (defineTarget_yields h₃ rfl (some value) .start base.symbols.current).meets_bind
    fun _ s₄ h₄ _ ↦ ?_
  exact .ask scope_run (.pure ⟨hP, _, h₄⟩)

/-- An assignment of one operand. -/
theorem statement_assign_operand_meets {word mark : Token} (hctx : ctx.registry.entries = [])
    (hname : IsName name) (hcovers : Covers ctx base 2 (fuel + 1)) (hvars : base.symbols.OnlyVars)
    (h : base.At (word :: mark :: t :: (tokens ++ [last])) s) (hword : word.lexeme = .ident name)
    (hmark : mark.lexeme = .symbol "=") (hbegins : BeginsOperand t.lexeme)
    (hparen : t.isSymbol "(" = false)
    (hlast : last.kind = .endOfInput)
    (hallows : hurdle.Allows ctx.limits .expression (base.expressionDepth + 1))
    (hoperand : ∀ s', base.At (t :: (tokens ++ [last])) s' →
      Meets ctx hurdle (runWith ctx inner fuel .operand) s' fun _ s'' ↦ P ∧ base.At [last] s'') :
    Meets ctx hurdle (statement ctx (runWith ctx inner (fuel + 1))) s fun found s' ↦
      (∃ e, found = some e) ∧ P ∧ ∃ base', ParserState.At base' [last] s' := by
  have hends : EndsPhrase last := .inr (.inr hlast)
  exact statement_assign_meets hctx hname hcovers hvars h hword hmark
    (startsSolid_cons hbegins.isNewLine_eq)
    hlast hallows fun s₁ h₁ ↦ expression_meets hctx h₁ hbegins hparen hends.endsExpression hoperand

/-! ## Scripts -/

/-- A statement up to the end of the text is a script. The fuel of a script is enough for it. -/
theorem program_meets {w : Window Lexer} {table : SymbolTable} (hw : w.Shows (t :: tokens))
    (hlast : last.kind = .endOfInput)
    (hstatement : ∀ {inner : (fuel : Nat) → List Token → Parse Expr} {fuel : Nat},
      Covers ctx (.initial w table) 2 fuel → (ParserState.initial w table).At (t :: tokens)
        (.initial w table) →
      Meets ctx hurdle (statement ctx (runWith ctx inner fuel)) (.initial w table) fun found s' ↦
        (∃ e, found = some e) ∧ P ∧ ∃ base, ParserState.At base [last] s') :
    Meets ctx hurdle (program ctx) (.initial w table) fun _ _ ↦ P := by
  obtain ⟨inner, hrun⟩ := exists_run_eq ctx (sectionLevels ctx)
  have hleft : (ParserState.initial w table).tokens.tokensLeft = w.tokensLeft := rfl
  have hdepth : Covers ctx (.initial w table) 3 (depth ctx w.tokensLeft) := by
    rw [Covers, depth]
    omega
  obtain ⟨fuel, hfuel, hcovers⟩ := hdepth.exists_succ
  rw [program]
  refine .ask tokens_run (.ask rounds_run ?_)
  rw [hrun, hleft, hfuel, programWithin]
  refine .ask place_run ((hstatement hcovers ⟨rfl, hw⟩).bind ?_)
  rintro found s₁ ⟨⟨e, hfound⟩, hP, base, h₁⟩
  subst hfound
  have hprogress (place : Nat × Nat) : requireProgress place s₁ = .ok () s₁ := by
    rw [requireProgress_run, h₁.isEnded_eq]
    simp [Token.isEnd, hlast]
  refine .ask (hprogress _) ?_
  exact (programWithin_end h₁ hlast).meets.mono fun _ _ _ ↦ hP

end Parse

end ScriptFront
