import ScriptFront.Proofs.Number.Numerals
import ScriptFront.Proofs.Parse.Stacks
import ScriptFront.Proofs.Parse.Steps
import ScriptFront.Proofs.Tree.Plain

/-!
# Plain expressions are parsed from their words

A plain expression that is no negation is a chain: a first operand and links behind it, each of
which takes what stands before it as its target. The parser reads the first operand and then, in a
loop, the links. `FromLinks` is the point between the two: it says that wherever the loop over the
links has an expression in hand, the parser reaches its goal. A link moves this point to its own
target, so what is left to show is how first operands are read. As for all operands there are two
ways, by the loop over operators and behind a negation.

The bounds on nesting are all handled by one number, the *room* that is left. An expression needs
twice as much room as it has nodes.
-/

namespace ScriptFront.Parse

/-! ## Room -/

/-- All bounds leave room for `k` more of what they count, the fuel included, and no name stands for
a function or a module. -/
structure Room (ctx : ParseContext) (base : ParserState) (n k : Nat) : Prop where
  /-- No name stands for a function. -/
  no_function : ∀ name, base.symbols.isFunction name = false
  /-- No name stands for a module. -/
  no_module : ∀ name, base.symbols.isModule name = false
  /-- Room for parentheses. -/
  parens : base.parenDepth + k ≤ ctx.limits.maxParenDepth
  /-- Room for argument lists. -/
  calls : base.callDepth + k ≤ ctx.limits.maxCallDepth
  /-- Room for operands. -/
  depth : base.expressionDepth + k ≤ ctx.limits.maxExpressionDepth
  /-- Room for links. -/
  members : k ≤ ctx.limits.maxMemberDepth
  /-- Room for goals. -/
  fuel : k ≤ n

namespace Room

variable {ctx : ParseContext} {base : ParserState} {n k : Nat}

theorem mono {k' : Nat} (h : Room ctx base n k) (hk : k' ≤ k) : Room ctx base n k' where
  no_function := h.no_function
  no_module := h.no_module
  parens := Nat.le_trans (Nat.add_le_add_left hk _) h.parens
  calls := Nat.le_trans (Nat.add_le_add_left hk _) h.calls
  depth := Nat.le_trans (Nat.add_le_add_left hk _) h.depth
  members := Nat.le_trans hk h.members
  fuel := Nat.le_trans hk h.fuel

/-- One step into an expression uses up at most one of everything. -/
theorem enter {base' : ParserState} {n' : Nat} (h : Room ctx base n (k + 1))
    (hsymbols : base'.symbols = base.symbols) (hparens : base'.parenDepth ≤ base.parenDepth + 1)
    (hcalls : base'.callDepth ≤ base.callDepth + 1)
    (hdepth : base'.expressionDepth ≤ base.expressionDepth + 1) (hfuel : n ≤ n' + 1) :
    Room ctx base' n' k := by
  obtain ⟨hfunction, hmodule, hparens', hcalls', hdepth', hmembers', hfuel'⟩ := h
  refine ⟨hsymbols ▸ hfunction, hsymbols ▸ hmodule, ?_, ?_, ?_, ?_, ?_⟩ <;> omega

theorem openOperand (h : Room ctx base (n + 1) (k + 1)) :
    Room ctx { base with expressionDepth := base.expressionDepth + 1 } n k :=
  h.enter rfl (Nat.le_succ _) (Nat.le_succ _) (Nat.le_refl _) (Nat.le_refl _)

theorem openParen (h : Room ctx base n (k + 1)) :
    Room ctx { base with parenDepth := base.parenDepth + 1 } n k :=
  h.enter rfl (Nat.le_refl _) (Nat.le_succ _) (Nat.le_succ _) (Nat.le_succ _)

theorem openCall (h : Room ctx base n (k + 1)) :
    Room ctx { base with callDepth := base.callDepth + 1 } n k :=
  h.enter rfl (Nat.le_succ _) (Nat.le_refl _) (Nat.le_succ _) (Nat.le_succ _)

theorem goal (h : Room ctx base (n + 1) (k + 1)) : Room ctx base n k :=
  h.enter rfl (Nat.le_succ _) (Nat.le_succ _) (Nat.le_succ _) (Nat.le_refl _)

/-- With room for one more goal there is fuel for it. -/
theorem exists_fuel_eq (h : Room ctx base n (k + 1)) : ∃ m, n = m + 1 :=
  Nat.exists_eq_succ_of_ne_zero (Nat.ne_zero_of_lt h.fuel)

end Room

/-! ## What is to be shown -/

section Goals

variable (ctx : ParseContext) (inner : (fuel : Nat) → List Token → Parse Expr)

/-- Wherever the loop over links has `e` in hand, places aside, before the tokens `after`, the
parser yields what is asked for. -/
def FromLinks (base : ParserState) (k : Nat) (out : List Token) (Q : Expr → Prop) (e : Expr)
    (after : List Token) : Prop :=
  ∀ {n fuel links : Nat} {s : ParserState} {start : Position} {e' : Expr},
    Room ctx base n k → base.At after s → after.length < fuel → links < e.height →
    e'.bare = e.bare →
    (linksWithin ctx (runWith ctx inner n) start fuel links e' []).Yields s base out Q

/-- The room that a target needs. A negation is put in parentheses there. -/
def targetRoom : Expr → Nat
  | .mk form position scope =>
    if Format.needsParens form then 2 * (Expr.mk form position scope).height
    else 2 * (Expr.mk form position scope).height - 1

/-- At the words of a target, an operand goes on with the links behind it. -/
def OperandReachesLinks (e : Expr) : Prop :=
  ∀ {n k : Nat} {base s : ParserState} {tokens rest out : List Token} {Q : Expr → Prop},
    targetRoom e ≤ k → Room ctx base n k → base.At (tokens ++ rest) s →
    tokens.map Token.lexeme = targetWords e → FromLinks ctx inner base k out Q e rest →
    (plainOperand ctx (runWith ctx inner n)).Yields s base out Q

/-- At the words of a target, the loop over operators goes on with the links behind it, and then
has an operand more. -/
def LoopReachesLinks (e : Expr) : Prop :=
  ∀ {grouped : Bool} {groups n k fuel : Nat} {base base' s : ParserState}
    {tokens rest after out : List Token} {y : Yard} {Q R : Expr → Prop},
    targetRoom e ≤ k → Room ctx base n (k + 1) → base.At (tokens ++ rest) s →
    tokens.map Token.lexeme = targetWords e → (tokens ++ rest).length < fuel →
    after.length ≤ rest.length →
    FromLinks ctx inner { base with expressionDepth := base.expressionDepth + 1 } k after R e
      rest →
    (∀ fuel' e' s', after.length < fuel' → R e' → base.At after s' →
      (expressionWithin ctx (runWith ctx inner n) grouped fuel' groups false
        (y.pushOperand e')).Yields s' base' out Q) →
    (expressionWithin ctx (runWith ctx inner n) grouped fuel groups true y).Yields s base' out Q

/-- With room `k`, words are parsed as one operand. -/
def OperandReads (words : List Lexeme) (k : Nat) (e : Expr) : Prop :=
  ∀ {n : Nat} {base s : ParserState} {tokens rest : List Token},
    Room ctx base n k → base.At (tokens ++ rest) s → tokens.map Token.lexeme = words →
    FollowsOperand rest →
    Yields (runWith ctx inner n .operand) s base rest fun e' ↦ e'.bare = e.bare

/-- With room `k` and stacks that it admits, the loop over operators gets past the words; `effect`
relates the stacks before and after. -/
def LoopReads (words : List Lexeme) (k : Nat) (admits : Yard → Prop)
    (effect : Yard → Yard → Prop) : Prop :=
  ∀ {grouped : Bool} {groups n fuel : Nat} {base base' s : ParserState}
    {tokens rest out : List Token} {y : Yard} {Q : Expr → Prop},
    admits y → Room ctx base n k → base.At (tokens ++ rest) s →
    tokens.map Token.lexeme = words → (tokens ++ rest).length < fuel → FollowsOperand rest →
    (∀ fuel' s' y', rest.length < fuel' → base.At rest s' → effect y y' →
      (expressionWithin ctx (runWith ctx inner n) grouped fuel' groups false y').Yields
        s' base' out Q) →
    (expressionWithin ctx (runWith ctx inner n) grouped fuel groups true y).Yields s base' out Q

end Goals

/-- The stacks have one more operand. -/
def Pushes (e : Expr) (y y' : Yard) : Prop := ∃ e', e'.bare = e.bare ∧ y' = y.pushOperand e'

/-- The stacks have one more operand once the operators waiting above are applied. -/
def Settles (e : Expr) (y y' : Yard) : Prop :=
  ∃ e', e'.bare = e.bare ∧
    Yard.settle (fun _ ↦ false) y'.waiting y'.operands = some (y.pushOperand e')

theorem Pushes.settles {e : Expr} {y y' : Yard} (hy : y.IsFloor) (h : Pushes e y y') :
    Settles e y y' := by
  obtain ⟨e', hbare, rfl⟩ := h
  exact ⟨e', hbare, Yard.settle_floor hy _ _⟩

/-- Marks that no expression of the fragment begins with. -/
def foreignMarks : List String := [")", "]", ",", ";", "\x7b"]

/-- A lexeme that can be the first of an expression and of a statement that is one. -/
structure BeginsOperand (l : Lexeme) : Prop where
  /-- It is no line break. -/
  solid : l.kind ≠ .newLine
  /-- It is not the end. -/
  notEnd : l.kind ≠ .endOfInput
  /-- It is not reserved. -/
  notKeyword : l.kind ≠ .keyword
  /-- It is spelled differently from other marks. -/
  own : ∀ text ∈ foreignMarks, l.is text = false

/-- An expression is read in every position. -/
structure Parses (ctx : ParseContext) (inner : (fuel : Nat) → List Token → Parse Expr)
    (e : Expr) : Prop where
  /-- Its first word can begin an expression. -/
  begins : ∃ l ls, e.words = l :: ls ∧ BeginsOperand l
  /-- As the target of links, at the beginning of an operand. -/
  operandReachesLinks : OperandReachesLinks ctx inner e
  /-- As the target of links, in the loop over operators. -/
  loopReachesLinks : LoopReachesLinks ctx inner e
  /-- As an operand. -/
  operand : OperandReads ctx inner e.words (2 * e.height) e
  /-- In the loop over operators. -/
  loop : LoopReads ctx inner e.words (2 * e.height) (fun _ ↦ True) (Pushes e)

variable {ctx : ParseContext} {inner : (fuel : Nat) → List Token → Parse Expr}

/-! ## Whole expressions -/

/-- What may stand behind an expression; inside a group, line breaks do not end it. -/
structure Closes (grouped : Bool) (t : Token) : Prop where
  /-- Inside a group, no line break. -/
  solid : grouped = true → Window.isNewLine t = false
  /-- No link. -/
  follows : opensLink t = false
  /-- Nothing that goes on with the expression. -/
  ends : EndsExpression t

theorem Closes.roundTokens_eq {grouped : Bool} {t : Token} (h : Closes grouped t)
    (rest : List Token) : roundTokens grouped 0 (t :: rest) = t :: rest := by
  cases grouped with
  | false => rfl
  | true => exact roundTokens_cons (h.solid rfl)

theorem closes_of_symbol (grouped : Bool) {t : Token} {text : String} (ht : t.lexeme = .symbol text)
    (hlink : text ∉ linkMarks) (hop : Operator.ofSymbol? text = none) (hnot : text ≠ "!") :
    Closes grouped t where
  solid := fun _ ↦ isNewLine_of_symbol ht
  follows := by rw [opensLink_of_symbol ht, List.contains_eq_mem, decide_eq_false hlink]
  ends := endsExpression_of_symbol ht hop hnot fun hbracket ↦ hlink (by simp [hbracket, linkMarks])

theorem EndsPhrase.closes {t : Token} (h : EndsPhrase t) : Closes false t :=
  ⟨nofun, h.opensLink_eq, h.endsExpression⟩

/-- Words that the loop gets past are parsed as an expression, up to what ends it. -/
theorem LoopReads.expression (hctx : ctx.registry.entries = []) {words : List Lexeme} {k : Nat}
    {e : Expr} (hloop : LoopReads ctx inner words k Yard.IsFloor (Settles e))
    (grouped : Bool) {n : Nat}
    {base s : ParserState} {tokens rest : List Token} {t : Token} (hroom : Room ctx base n k)
    (h : base.At (tokens ++ t :: rest) s) (htokens : tokens.map Token.lexeme = words)
    (ht : Closes grouped t) :
    Yields (runWith ctx inner (n + 1) (.expression grouped)) s base (t :: rest)
      fun e' ↦ e'.bare = e.bare := by
  rw [runWith]
  refine expression_yields h fun fuel hfuel ↦ ?_
  refine hloop Yard.isFloor_empty hroom h htokens hfuel ⟨t, rest, rfl, ht.follows⟩
    fun fuel s' y hfuel h' hy ↦ ?_
  obtain ⟨e', hbare, hsettle⟩ := hy
  have hfinish : y.finish = some e' := by
    rw [Yard.finish, hsettle]
    rfl
  obtain ⟨fuel, rfl⟩ := Nat.exists_eq_succ_of_ne_zero (Nat.ne_zero_of_lt hfuel)
  exact expressionWithin_done h' (replaces_of_entries hctx (ht.roundTokens_eq rest)) ht.ends hfinish
    hbare

theorem Parses.settles {e : Expr} (he : Parses ctx inner e) :
    LoopReads ctx inner e.words (2 * e.height) Yard.IsFloor (Settles e) := by
  intro grouped groups n fuel base base' s tokens rest out y Q hy hroom h htokens hfuel hfollows
    hrest
  exact he.loop trivial hroom h htokens hfuel hfollows fun fuel' s' y' hfuel' h' hy' ↦
    hrest fuel' s' y' hfuel' h' (hy'.settles hy)

theorem Parses.expression (hctx : ctx.registry.entries = []) {e : Expr} (he : Parses ctx inner e)
    (grouped : Bool) {n : Nat} {base s : ParserState} {tokens rest : List Token} {t : Token}
    (hroom : Room ctx base n (2 * e.height + 1)) (h : base.At (tokens ++ t :: rest) s)
    (htokens : tokens.map Token.lexeme = e.words) (ht : Closes grouped t) :
    Yields (runWith ctx inner n (.expression grouped)) s base (t :: rest)
      fun e' ↦ e'.bare = e.bare := by
  obtain ⟨n, rfl⟩ := hroom.exists_fuel_eq
  exact LoopReads.expression hctx he.settles grouped hroom.goal h htokens ht

/-- The first token of an expression that is read. -/
theorem Parses.exists_first {e : Expr} (he : Parses ctx inner e) {tokens : List Token}
    (htokens : tokens.map Token.lexeme = e.words) :
    ∃ t rest, tokens = t :: rest ∧ BeginsOperand t.lexeme := by
  obtain ⟨l, ls, hwords, hl⟩ := he.begins
  obtain ⟨t, rest, rfl, ht, -⟩ := List.map_eq_cons_iff.mp (htokens.trans hwords)
  exact ⟨t, rest, rfl, ht ▸ hl⟩

theorem BeginsOperand.isNewLine_eq {t : Token} (h : BeginsOperand t.lexeme) :
    Window.isNewLine t = false := by simpa [Window.isNewLine, Token.kind] using h.solid

theorem BeginsOperand.isEnd_eq {t : Token} (h : BeginsOperand t.lexeme) : t.isEnd = false := by
  simpa [Token.isEnd, Token.kind] using h.notEnd

theorem Parses.startsSolid {e : Expr} (he : Parses ctx inner e) {tokens rest : List Token}
    (htokens : tokens.map Token.lexeme = e.words) : StartsSolid (tokens ++ rest) := by
  obtain ⟨t, tokens, rfl, ht⟩ := he.exists_first htokens
  exact startsSolid_cons ht.isNewLine_eq

/-! ## Links -/

section Links

variable {base : ParserState} {k : Nat} {out rest : List Token} {Q : Expr → Prop} {target : Expr}
  {position : Position} {scope : ScopeId}

/-- Without a link, the expression in hand is the result. -/
theorem fromLinks_stop (e : Expr) (hrest : FollowsOperand rest) :
    FromLinks ctx inner base k rest (fun e' ↦ e'.bare = e.bare) e rest := by
  intro n fuel links s start e' hroom h hfuel hlinks hbare
  obtain ⟨t, rest, rfl, ht⟩ := hrest
  obtain ⟨fuel, rfl⟩ := Nat.exists_eq_succ_of_ne_zero (Nat.ne_zero_of_lt hfuel)
  exact linksWithin_stop h ht hbare

theorem FromLinks.member {name : String} {dot word : Token} (hk : target.height ≤ k)
    (hdot : dot.lexeme = .symbol ".") (hword : word.lexeme = .ident name)
    (hfrom : FromLinks ctx inner base k out Q (.mk (.member target name) position scope) rest) :
    FromLinks ctx inner base k out Q target (dot :: word :: rest) := by
  intro n fuel links s start e' hroom h hfuel hlinks hbare
  obtain ⟨fuel, rfl⟩ := Nat.exists_eq_succ_of_ne_zero (Nat.ne_zero_of_lt hfuel)
  have hmembers := hroom.members
  refine linksWithin_member h hdot hword (by omega) fun s' h' ↦ ?_
  refine hfrom hroom h' ?_ ?_ ?_
  · simp only [List.length_cons] at hfuel
    omega
  · simpa [Expr.height, Form.height] using hlinks
  · rw [Expr.bare_member, Expr.bare_member, hbare]

theorem FromLinks.index (hctx : ctx.registry.entries = []) {key : Expr} {opening closing : Token}
    {tokens : List Token} (hkey : Parses ctx inner key) (hk : 2 * max target.height key.height < k)
    (hopening : opening.lexeme = .symbol "[") (htokens : tokens.map Token.lexeme = key.words)
    (hclosing : closing.lexeme = .symbol "]")
    (hfrom : FromLinks ctx inner base k out Q (.mk (.index target key) position scope) rest) :
    FromLinks ctx inner base k out Q target (opening :: (tokens ++ closing :: rest)) := by
  intro n fuel links s start e' hroom h hfuel hlinks hbare
  obtain ⟨fuel, rfl⟩ := Nat.exists_eq_succ_of_ne_zero (Nat.ne_zero_of_lt hfuel)
  have hmembers := hroom.members
  have hcloses := closes_of_symbol false hclosing (by decide) (by decide) (by decide)
  apply linksWithin_index h hopening hclosing (hkey.startsSolid htokens) (by omega)
  · intro s₁ h₁
    exact hkey.expression hctx false (hroom.mono (by omega)) h₁ htokens hcloses
  · intro key' s₁ hkey' h₁
    refine hfrom hroom h₁ ?_ ?_ ?_
    · simp only [List.length_cons, List.length_append] at hfuel
      omega
    · simp only [Expr.height, Form.height]
      have := key.height_pos
      omega
    · rw [Expr.bare_index, Expr.bare_index, hbare, hkey']

end Links

/-! ## Lists -/

section Lists

variable {items : List Expr} {base : ParserState} {rest : List Token} {closing : Token}

theorem startsSolid_list (hitems : ∀ e ∈ items, Parses ctx inner e) {tokens : List Token}
    (htokens : tokens.map Token.lexeme = listWords items)
    (hclosing : Window.isNewLine closing = false) : StartsSolid (tokens ++ closing :: rest) := by
  cases items with
  | nil =>
    obtain rfl := List.map_eq_nil_iff.mp htokens
    exact startsSolid_cons hclosing
  | cons e items =>
    obtain ⟨first, others, rfl, hfirst, -⟩ := List.map_eq_append_iff.mp htokens
    rw [List.append_assoc]
    exact (hitems e (by simp)).startsSolid hfirst

/-- Arguments with commas between them are read up to the closing parenthesis. -/
theorem callArgsWithin_words (hctx : ctx.registry.entries = [])
    (hitems : ∀ e ∈ items, Parses ctx inner e) {n fuel : Nat} {s : ParserState}
    {tokens : List Token} {done : List Expr} (hroom : Room ctx base n (2 * listHeight items + 1))
    (h : base.At (tokens ++ closing :: rest) s)
    (htokens : tokens.map Token.lexeme = listWords items)
    (hclosing : closing.lexeme = .symbol ")") (hfuel : (tokens ++ closing :: rest).length < fuel) :
    (callArgsWithin (runWith ctx inner n) fuel done).Yields s base (closing :: rest)
      fun args ↦ args.map Expr.bare = done.reverse.map Expr.bare ++ items.map Expr.bare := by
  induction items generalizing s tokens done fuel with
  | nil =>
    obtain rfl := List.map_eq_nil_iff.mp htokens
    obtain ⟨fuel, rfl⟩ := Nat.exists_eq_succ_of_ne_zero (Nat.ne_zero_of_lt hfuel)
    exact callArgsWithin_stop h hclosing (by simp)
  | cons e items ih =>
    have he := hitems e (by simp)
    rw [listHeight] at hroom
    obtain ⟨first, others, rfl, hfirst, hothers⟩ := List.map_eq_append_iff.mp htokens
    obtain ⟨t, first, rfl, ht⟩ := he.exists_first hfirst
    cases items with
    | nil =>
      obtain rfl := List.map_eq_nil_iff.mp hothers
      rw [List.append_nil] at h hfuel
      obtain ⟨fuel, rfl⟩ := Nat.exists_eq_add_of_le (show 2 ≤ fuel by simp at hfuel; omega)
      rw [Nat.add_comm]
      have hcloses := closes_of_symbol false hclosing (by decide) (by decide) (by decide)
      refine callArgsWithin_last h ht.isNewLine_eq (ht.own _ (by simp [foreignMarks])) hclosing
        (fun s₁ h₁ ↦ he.expression hctx false (hroom.mono (by simp [listHeight])) h₁ hfirst hcloses)
        fun arg harg ↦ ?_
      simp [harg]
    | cons next items =>
      obtain ⟨comma, others, rfl, hcomma, hothers⟩ := List.map_eq_cons_iff.mp hothers
      have hsplit : t :: first ++ comma :: others ++ closing :: rest =
          t :: first ++ comma :: (others ++ closing :: rest) := by simp
      rw [hsplit] at h hfuel
      obtain ⟨fuel, rfl⟩ := Nat.exists_eq_succ_of_ne_zero (Nat.ne_zero_of_lt hfuel)
      have hmore : ∀ e ∈ next :: items, Parses ctx inner e := fun e he ↦ hitems e (by simp [he])
      have hcloses := closes_of_symbol false hcomma (by decide) (by decide) (by decide)
      refine callArgsWithin_comma h ht.isNewLine_eq (ht.own _ (by simp [foreignMarks])) hcomma
        (startsSolid_list hmore hothers (isNewLine_of_symbol hclosing))
        (fun s₁ h₁ ↦ he.expression hctx false (hroom.mono (by omega)) h₁ hfirst hcloses)
        fun arg s₁ harg h₁ ↦ ?_
      refine (ih hmore (hroom.mono (by omega)) h₁ hothers ?_).mono fun args hargs ↦ ?_
      · simp only [List.length_append, List.length_cons] at hfuel ⊢
        omega
      · simpa [harg] using hargs

/-- Items with commas between them are read up to the closing bracket. -/
theorem itemsWithin_words (hctx : ctx.registry.entries = [])
    (hitems : ∀ e ∈ items, Parses ctx inner e) {n fuel : Nat} {s : ParserState}
    {tokens : List Token} {done : List Expr} (hroom : Room ctx base n (2 * listHeight items + 1))
    (h : base.At (tokens ++ closing :: rest) s)
    (htokens : tokens.map Token.lexeme = listWords items)
    (hclosing : closing.lexeme = .symbol "]") (hfuel : (tokens ++ closing :: rest).length < fuel) :
    (itemsWithin (runWith ctx inner n) fuel done true).Yields s base (closing :: rest)
      fun found ↦ found.map Expr.bare = done.reverse.map Expr.bare ++ items.map Expr.bare := by
  induction items generalizing s tokens done fuel with
  | nil =>
    obtain rfl := List.map_eq_nil_iff.mp htokens
    obtain ⟨fuel, rfl⟩ := Nat.exists_eq_succ_of_ne_zero (Nat.ne_zero_of_lt hfuel)
    exact itemsWithin_stop h hclosing (by simp)
  | cons e items ih =>
    have he := hitems e (by simp)
    rw [listHeight] at hroom
    obtain ⟨first, others, rfl, hfirst, hothers⟩ := List.map_eq_append_iff.mp htokens
    obtain ⟨t, first, rfl, ht⟩ := he.exists_first hfirst
    obtain ⟨fuel, rfl⟩ := Nat.exists_eq_succ_of_ne_zero (Nat.ne_zero_of_lt hfuel)
    cases items with
    | nil =>
      obtain rfl := List.map_eq_nil_iff.mp hothers
      rw [List.append_nil] at h hfuel
      obtain ⟨fuel, rfl⟩ := Nat.exists_eq_succ_of_ne_zero
        (show fuel ≠ 0 by simp at hfuel; omega)
      have hcloses := closes_of_symbol false hclosing (by decide) (by decide) (by decide)
      refine itemsWithin_item h ht.isNewLine_eq ht.isEnd_eq (ht.own _ (by simp [foreignMarks]))
        (ht.own _ (by simp [foreignMarks]))
        (fun s₁ h₁ ↦ he.expression hctx false (hroom.mono (by simp [listHeight])) h₁ hfirst hcloses)
        fun item s₁ hitem h₁ ↦ ?_
      exact itemsWithin_stop h₁ hclosing (by simp [hitem])
    | cons next items =>
      obtain ⟨comma, others, rfl, hcomma, hothers⟩ := List.map_eq_cons_iff.mp hothers
      have hsplit : t :: first ++ comma :: others ++ closing :: rest =
          t :: first ++ comma :: (others ++ closing :: rest) := by simp
      rw [hsplit] at h hfuel
      simp only [List.length_append, List.length_cons] at hfuel
      obtain ⟨fuel, rfl⟩ := Nat.exists_eq_succ_of_ne_zero (show fuel ≠ 0 by omega)
      have hmore : ∀ e ∈ next :: items, Parses ctx inner e := fun e he ↦ hitems e (by simp [he])
      have hcloses := closes_of_symbol false hcomma (by decide) (by decide) (by decide)
      refine itemsWithin_item h ht.isNewLine_eq ht.isEnd_eq (ht.own _ (by simp [foreignMarks]))
        (ht.own _ (by simp [foreignMarks]))
        (fun s₁ h₁ ↦ he.expression hctx false (hroom.mono (by omega)) h₁ hfirst hcloses)
        fun item s₁ hitem h₁ ↦ ?_
      refine itemsWithin_comma h₁ hcomma
        (startsSolid_list hmore hothers (isNewLine_of_symbol hclosing)) fun s₂ h₂ ↦ ?_
      refine (ih hmore (hroom.mono (by omega)) h₂ hothers ?_).mono fun found hfound ↦ ?_
      · simp only [List.length_append, List.length_cons]
        omega
      · simpa [hitem] using hfound

theorem FromLinks.call (hctx : ctx.registry.entries = []) {k : Nat} {out : List Token}
    {Q : Expr → Prop} {target : Expr} {position : Position} {scope : ScopeId} {opening : Token}
    {tokens : List Token} (hitems : ∀ e ∈ items, Parses ctx inner e)
    (hk : 2 * max target.height (listHeight items + 1) < k)
    (hopening : opening.lexeme = .symbol "(")
    (htokens : tokens.map Token.lexeme = listWords items) (hclosing : closing.lexeme = .symbol ")")
    (hfrom : FromLinks ctx inner base k out Q (.mk (.call (.computed target) items) position scope)
      rest) :
    FromLinks ctx inner base k out Q target (opening :: (tokens ++ closing :: rest)) := by
  intro n fuel links s start e' hroom h hfuel hlinks hbare
  obtain ⟨fuel, rfl⟩ := Nat.exists_eq_succ_of_ne_zero (Nat.ne_zero_of_lt hfuel)
  have hmembers := hroom.members
  have hcalls := hroom.calls
  have hpos := target.height_pos
  have hinside : Room ctx base n (2 * listHeight items + 1 + 1) := hroom.mono (by omega)
  apply linksWithin_call h hopening (by omega)
  · intro s₁ h₁
    exact callArgs_yields h₁ hopening hclosing
      (startsSolid_list hitems htokens (isNewLine_of_symbol hclosing)) (by omega)
      fun fuel s₂ hfuel h₂ ↦
        callArgsWithin_words hctx hitems hinside.openCall h₂ htokens hclosing hfuel
  · intro args s₁ hargs h₁
    refine hfrom hroom h₁ ?_ ?_ ?_
    · simp only [List.length_cons, List.length_append] at hfuel
      omega
    · simp only [Expr.height, Form.height]
      omega
    · rw [Expr.bare_callComputed, Expr.bare_callComputed, hbare, hargs]
      rfl

end Lists

/-! ## First operands in parentheses -/

section Groups

variable {words : List Lexeme} {k₀ : Nat} {e : Expr}

/-- The tokens of words between two marks, one part after the other. -/
theorem exists_enclosed_tokens {first last : Lexeme} {tokens : List Token} (rest : List Token)
    (h : tokens.map Token.lexeme = first :: (words ++ [last])) :
    ∃ opening middle closing, tokens ++ rest = opening :: (middle ++ closing :: rest) ∧
      opening.lexeme = first ∧ middle.map Token.lexeme = words ∧ closing.lexeme = last := by
  obtain ⟨opening, tokens, rfl, hopening, h⟩ := List.map_eq_cons_iff.mp h
  obtain ⟨middle, tokens, rfl, hmiddle, h⟩ := List.map_eq_append_iff.mp h
  obtain ⟨closing, tokens, rfl, hclosing, h⟩ := List.map_eq_cons_iff.mp h
  obtain rfl := List.map_eq_nil_iff.mp h
  exact ⟨opening, middle, closing, by simp, hopening, hmiddle, hclosing⟩

theorem startsSolid_of_begins {tokens rest : List Token}
    (h : tokens.map Token.lexeme = words) (hbegins : ∃ l ls, words = l :: ls ∧ BeginsOperand l) :
    StartsSolid (tokens ++ rest) := by
  obtain ⟨l, ls, hwords, hl⟩ := hbegins
  obtain ⟨t, others, rfl, ht, -⟩ := List.map_eq_cons_iff.mp (h.trans hwords)
  exact startsSolid_cons (ht ▸ hl : BeginsOperand t.lexeme).isNewLine_eq

theorem operandReachesLinks_of_group (hctx : ctx.registry.entries = [])
    (hloop : LoopReads ctx inner words k₀ Yard.IsFloor (Settles e))
    (hwords : targetWords e = parenthesizedWords words) (hk₀ : k₀ + 1 ≤ targetRoom e)
    (hbegins : ∃ l ls, words = l :: ls ∧ BeginsOperand l) : OperandReachesLinks ctx inner e := by
  intro n k base s tokens rest out Q hk hroom h htokens hfrom
  obtain ⟨opening, middle, closing, hsplit, hopening, hmiddle, hclosing⟩ :=
    exists_enclosed_tokens rest (htokens.trans hwords)
  rw [hsplit] at h
  have hinside : Room ctx base n (k₀ + 1) := hroom.mono (by omega)
  obtain ⟨n, rfl⟩ := hinside.exists_fuel_eq
  have hsolid : StartsSolid (middle ++ closing :: rest) := startsSolid_of_begins hmiddle hbegins
  have hparens := hinside.parens
  apply plainOperand_paren h hopening hclosing (by omega)
  · intro s₁ h₁
    rw [hsolid.dropWhile_eq] at h₁
    exact hloop.expression hctx true
      (hinside.enter rfl (Nat.le_refl _) (Nat.le_succ _) (Nat.le_succ _) (Nat.le_refl _)) h₁ hmiddle
      (closes_of_symbol true hclosing (by decide) (by decide) (by decide))
  · intro e' s₁ he' h₁
    exact links_yields h₁ fun fuel hfuel ↦ hfrom hroom h₁ hfuel e.height_pos he'

theorem loopReachesLinks_of_group (hctx : ctx.registry.entries = [])
    (hloop : LoopReads ctx inner words k₀ Yard.IsFloor (Settles e))
    (hwords : targetWords e = parenthesizedWords words) (hk₀ : k₀ + 1 ≤ targetRoom e)
    (hbegins : ∃ l ls, words = l :: ls ∧ BeginsOperand l) : LoopReachesLinks ctx inner e := by
  intro grouped groups n k fuel base base' s tokens rest after out y Q R hk hroom h htokens hfuel
    hafter hfrom hrest
  obtain ⟨opening, middle, closing, hsplit, hopening, hmiddle, hclosing⟩ :=
    exists_enclosed_tokens rest (htokens.trans hwords)
  rw [hsplit] at h hfuel
  obtain ⟨fuel, rfl⟩ := Nat.exists_eq_succ_of_ne_zero (Nat.ne_zero_of_lt hfuel)
  have hinside : Room ctx base n (k₀ + 1) := hroom.mono (by omega)
  have hparens := hroom.parens
  have hdepth := hroom.depth
  refine expressionWithin_open h
    (replaces_of_entries hctx (roundTokens_cons (isNewLine_of_symbol hopening))) hopening (by omega)
    fun s₁ h₁ ↦ ?_
  rw [(startsSolid_of_begins hmiddle hbegins).dropWhile_eq] at h₁
  have hcloses := closes_of_symbol false hclosing (by decide) (by decide) (by decide)
  refine hloop y.isFloor_openParen hinside.openParen h₁ hmiddle ?_
    ⟨closing, rest, rfl, hcloses.follows⟩
    fun fuel s₂ y₂ hfuel h₂ hy₂ ↦ ?_
  · simp only [List.length_cons, List.length_append] at hfuel ⊢
    omega
  obtain ⟨e', hbare, hsettle⟩ := hy₂
  have hclose : y₂.closeParen = some (e', y) := by
    rw [Yard.closeParen, hsettle]
    exact if_pos rfl
  obtain ⟨fuel, rfl⟩ := Nat.exists_eq_succ_of_ne_zero (Nat.ne_zero_of_lt hfuel)
  have hlinks : Room ctx { base with expressionDepth := base.expressionDepth + 1 } n k :=
    hroom.enter rfl (Nat.le_succ _) (Nat.le_succ _) (Nat.le_refl _) (Nat.le_succ _)
  refine expressionWithin_close h₂
    (replaces_of_entries hctx (roundTokens_cons (isNewLine_of_symbol hclosing))) hclosing hclose rfl
    (by simp only; omega)
    (fun s₃ h₃ ↦ links_yields h₃ fun fuel hfuel ↦ hfrom hlinks h₃ hfuel e.height_pos hbare)
    fun e₃ s₃ he₃ h₃ ↦ ?_
  refine hrest fuel e₃ s₃ ?_ he₃ h₃
  simp only [List.length_cons] at hfuel
  omega

/-- A target that does not begin with a parenthesis is an operand of the loop. -/
theorem loopReachesLinks_of_operand (hctx : ctx.registry.entries = [])
    (hoperand : OperandReachesLinks ctx inner e) {first : Lexeme} {others : List Lexeme}
    (hwords : targetWords e = first :: others) (hsolid : first.kind ≠ .newLine)
    (hparen : first ≠ .symbol "(") : LoopReachesLinks ctx inner e := by
  intro grouped groups n k fuel base base' s tokens rest after out y Q R hk hroom h htokens hfuel
    hafter hfrom hrest
  obtain ⟨t, others, rfl, ht, -⟩ := List.map_eq_cons_iff.mp (htokens.trans hwords)
  obtain ⟨fuel, rfl⟩ := Nat.exists_eq_succ_of_ne_zero (Nat.ne_zero_of_lt hfuel)
  obtain ⟨n, rfl⟩ := hroom.exists_fuel_eq
  have hdepth := hroom.depth
  have hnewLine : Window.isNewLine t = false := by
    simpa [Window.isNewLine, Token.kind, ht] using hsolid
  have hopens : t.isSymbol "(" = false := by
    rw [← Bool.not_eq_true]
    exact fun hsymbol ↦ hparen (ht ▸ isSymbol_iff.mp hsymbol)
  refine expressionWithin_operand h (replaces_of_entries hctx (roundTokens_cons hnewLine)) hopens
    (fun s₁ h₁ ↦ operand_yields h₁ (leaves_of_entries hctx) (by omega) fun s₂ h₂ ↦
      hoperand hk hroom.openOperand h₂ htokens hfrom)
    fun e' s₁ he' h₁ ↦ ?_
  refine hrest fuel e' s₁ ?_ he' h₁
  simp only [List.length_append, List.length_cons] at hfuel
  omega

end Groups

/-! ## From targets to expressions -/

section Targets

variable {form : Form} {position : Position} {scope : ScopeId}

theorem targetWords_of_chain (hform : Format.needsParens form = false) :
    targetWords (.mk form position scope) = (Expr.mk form position scope).words := by
  rw [targetWords, hform, if_neg Bool.false_ne_true, Expr.words]

theorem targetWords_of_parens (hform : Format.needsParens form = true) :
    targetWords (.mk form position scope) =
      parenthesizedWords (Expr.mk form position scope).words := by
  rw [targetWords, hform, if_pos rfl, Expr.words]

theorem targetRoom_of_chain (hform : Format.needsParens form = false) :
    targetRoom (.mk form position scope) = 2 * (Expr.mk form position scope).height - 1 := by
  rw [targetRoom, hform, if_neg Bool.false_ne_true]

theorem targetRoom_le (e : Expr) : targetRoom e ≤ 2 * e.height := by
  obtain ⟨form, position, scope⟩ := e
  rw [targetRoom]
  split
  · exact Nat.le_refl _
  · exact Nat.sub_le _ _

/-- An expression that needs no parentheses as a target is read in every position if it is read as
a target: there are just no links behind it. -/
theorem parses_of_targets (hctx : ctx.registry.entries = [])
    (hform : Format.needsParens form = false)
    (hbegins : ∃ l ls, (Expr.mk form position scope).words = l :: ls ∧ BeginsOperand l)
    (hoperand : OperandReachesLinks ctx inner (.mk form position scope))
    (hloop : LoopReachesLinks ctx inner (.mk form position scope)) :
    Parses ctx inner (.mk form position scope) := by
  have hwords : targetWords (.mk form position scope) = _ := targetWords_of_chain hform
  have hneeds : targetRoom (.mk form position scope) = _ := targetRoom_of_chain hform
  have hheight : 2 * (Expr.mk form position scope).height =
      2 * (Expr.mk form position scope).height - 1 + 1 := by
    have := (Expr.mk form position scope).height_pos
    omega
  refine ⟨hbegins, hoperand, hloop, ?_, ?_⟩
  · intro n base s tokens rest hroom h htokens hfollows
    rw [hheight] at hroom
    obtain ⟨n, rfl⟩ := hroom.exists_fuel_eq
    have hdepth := hroom.depth
    refine operand_yields h (leaves_of_entries hctx) (by omega) fun s₁ h₁ ↦ ?_
    exact hoperand (Nat.le_of_eq hneeds) hroom.openOperand h₁ (htokens.trans hwords.symm)
      (fromLinks_stop _ hfollows)
  · intro grouped groups n fuel base base' s tokens rest out y Q _ hroom h htokens hfuel hfollows
      hrest
    rw [hheight] at hroom
    exact hloop (Nat.le_of_eq hneeds) hroom h (htokens.trans hwords.symm) hfuel (Nat.le_refl _)
      (fromLinks_stop _ hfollows)
      fun fuel' e' s' hfuel' he' h' ↦ hrest fuel' s' _ hfuel' h' ⟨e', he', rfl⟩

end Targets

/-! ## First operands without parentheses -/

section FirstOperands

variable {position : Position} {scope : ScopeId}

theorem beginsOperand_symbol {text : String} (h : text ∉ foreignMarks) :
    BeginsOperand (.symbol text) := by
  refine ⟨nofun, nofun, nofun, fun other hother ↦ ?_⟩
  rw [Lexeme.is, Lexeme.text, beq_eq_false_iff_ne]
  rintro rfl
  exact h hother

theorem beginsOperand_name {name : String} (hname : IsName name) : BeginsOperand (.ident name) := by
  refine ⟨nofun, nofun, nofun, fun text htext ↦ ?_⟩
  obtain ⟨c, rest, hsplit, hstart, -⟩ := hname.isWord
  have hnone : ∀ text ∈ foreignMarks, text.toList.head?.any Text.isNameStart = false := by decide
  rw [Lexeme.is, Lexeme.text, beq_eq_false_iff_ne]
  rintro rfl
  have := hnone name htext
  simp [hsplit, hstart] at this

theorem parses_var (hctx : ctx.registry.entries = []) {name : String} (hname : IsName name) :
    Parses ctx inner (.mk (.var name) position scope) := by
  have hwords : (Expr.mk (.var name) position scope).words = [.ident name] := rfl
  have hoperand : OperandReachesLinks ctx inner (.mk (.var name) position scope) := by
    intro n k base s tokens rest out Q hk hroom h htokens hfrom
    obtain ⟨t, tokens, rfl, ht, htokens⟩ := List.map_eq_cons_iff.mp htokens
    obtain rfl := List.map_eq_nil_iff.mp htokens
    refine plainOperand_name h ht (hroom.no_function name) fun s₁ h₁ ↦ ?_
    rw [hroom.no_module name, if_neg Bool.false_ne_true]
    exact links_yields h₁ fun fuel hfuel ↦ hfrom hroom h₁ hfuel (Nat.succ_pos _) rfl
  refine parses_of_targets hctx rfl ⟨_, _, hwords, beginsOperand_name hname⟩ hoperand ?_
  exact loopReachesLinks_of_operand hctx hoperand (targetWords_of_chain rfl)
    (by simp [Lexeme.kind]) (by simp)

/-- A constant that is written as one literal. -/
theorem parses_literal (hctx : ctx.registry.entries = []) {value : Value} {l : Lexeme}
    (hform : Format.needsParens (.constant value) = false) (hvalue : value.words = [l])
    (hliteral : l.isLiteral = true) (hconstant : constantOf l = value) (hbegins : BeginsOperand l) :
    Parses ctx inner (.mk (.constant value) position scope) := by
  have hwords : (Expr.mk (.constant value) position scope).words = [l] := hvalue
  have hoperand : OperandReachesLinks ctx inner (.mk (.constant value) position scope) := by
    intro n k base s tokens rest out Q hk hroom h htokens hfrom
    rw [targetWords_of_chain hform, hwords] at htokens
    obtain ⟨t, tokens, rfl, ht, htokens⟩ := List.map_eq_cons_iff.mp htokens
    obtain rfl := List.map_eq_nil_iff.mp htokens
    refine plainOperand_literal h (ht ▸ hliteral) fun s₁ h₁ ↦ ?_
    rw [ht, hconstant]
    exact links_yields h₁ fun fuel hfuel ↦ hfrom hroom h₁ hfuel (Nat.succ_pos _) rfl
  refine parses_of_targets hctx hform ⟨_, _, hwords, hbegins⟩ hoperand ?_
  refine loopReachesLinks_of_operand hctx hoperand ((targetWords_of_chain hform).trans hwords)
    hbegins.solid ?_
  rintro rfl
  exact absurd hliteral (by decide)

/-- A literal that is not spelled like a mark. -/
theorem beginsOperand_literal {l : Lexeme} (hliteral : l.isLiteral = true) {c : Char}
    (hfirst : l.text.toList.head? = some c)
    (hc : ∀ text ∈ foreignMarks, text.toList.head? ≠ some c) : BeginsOperand l := by
  refine ⟨?_, ?_, ?_, fun text htext ↦ ?_⟩
  · intro hkind
    simp [Lexeme.isLiteral, hkind] at hliteral
  · intro hkind
    simp [Lexeme.isLiteral, hkind] at hliteral
  · intro hkind
    simp [Lexeme.isLiteral, hkind] at hliteral
  · rw [Lexeme.is, beq_eq_false_iff_ne]
    rintro rfl
    exact hc _ htext hfirst

theorem beginsOperand_number {n : Number} (h : n.IsWritten) : BeginsOperand (.number n.text n) := by
  obtain ⟨mantissa, exponent, rfl⟩ := h.finite
  obtain ⟨d, ds, hfirst, hdigit⟩ := (Number.isNumeral_text mantissa exponent).exists_digit
  refine beginsOperand_literal rfl (c := d) (by simp [Lexeme.text, hfirst]) fun text htext ↦ ?_
  have hnone : ∀ text ∈ foreignMarks, text.toList.head?.any Char.isDigit = false := by decide
  intro hsame
  have := hnone text htext
  simp [hsame, hdigit] at this

theorem parses_array (hctx : ctx.registry.entries = []) {items : List Expr}
    (hitems : ∀ e ∈ items, Parses ctx inner e) :
    Parses ctx inner (.mk (.array items) position scope) := by
  have hwords : (Expr.mk (.array items) position scope).words =
      .symbol "[" :: (listWords items ++ [.symbol "]"]) := rfl
  have hoperand : OperandReachesLinks ctx inner (.mk (.array items) position scope) := by
    intro n k base s tokens rest out Q hk hroom h htokens hfrom
    rw [targetRoom_of_chain rfl, Expr.height, Form.height] at hk
    obtain ⟨opening, middle, closing, hsplit, hopening, hmiddle, hclosing⟩ :=
      exists_enclosed_tokens rest (htokens.trans (targetWords_of_chain rfl))
    rw [hsplit] at h
    apply plainOperand_array h hopening hclosing
      (startsSolid_list hitems hmiddle (isNewLine_of_symbol hclosing))
    · intro fuel s₁ hfuel h₁
      exact itemsWithin_words hctx hitems (hroom.mono (by omega)) h₁ hmiddle hclosing hfuel
    · intro found s₁ hfound h₁
      refine links_yields h₁ fun fuel hfuel ↦ hfrom hroom h₁ hfuel (Nat.succ_pos _) ?_
      rw [Expr.bare_array, Expr.bare_array, hfound]
      rfl
  refine parses_of_targets hctx rfl ⟨_, _, hwords, beginsOperand_symbol (by decide)⟩ hoperand ?_
  exact loopReachesLinks_of_operand hctx hoperand ((targetWords_of_chain rfl).trans hwords)
    (by simp [Lexeme.kind]) (by simp)

end FirstOperands

/-! ## Operations -/

section Operations

variable {op : Operator} {left right : Expr}

/-- An operator behind one operand on an empty floor is put on its stack. -/
theorem pushOperator_floor {y : Yard} (hy : y.IsFloor) (op : Operator) (e : Expr) :
    (y.pushOperand e).pushOperator op = some ⟨e :: y.operands, .operator op :: y.waiting⟩ := by
  rw [Yard.pushOperator, Yard.settle_floor (y := y.pushOperand e) hy]
  rfl

/-- Two operands and the operator above an empty floor are combined. -/
theorem settle_operation {y : Yard} (hy : y.IsFloor) (op : Operator) (left right : Expr) :
    Yard.settle (fun _ ↦ false) (.operator op :: y.waiting) (right :: left :: y.operands) =
      some (y.pushOperand (.operation op left right)) :=
  Yard.settle_floor hy _ (.operation op left right :: y.operands)

theorem opensLink_operator {t : Token} (ht : t.lexeme = .symbol op.symbol) :
    opensLink t = false := by
  rw [opensLink_of_symbol ht]
  rcases op with op | op | op <;> cases op <;> decide

/-- The loop gets past the words of an operation, which is then the only one waiting. -/
theorem loopReads_operation (hctx : ctx.registry.entries = []) (hleft : Parses ctx inner left)
    (hright : Parses ctx inner right) :
    LoopReads ctx inner (operationWords op left.words right.words)
      (2 * max left.height right.height) Yard.IsFloor (Settles (.operation op left right)) := by
  intro grouped groups n fuel base base' s tokens rest out y Q hy hroom h htokens hfuel hfollows
    hrest
  obtain ⟨first, others, rfl, hfirst, htokens⟩ := List.map_eq_append_iff.mp htokens
  obtain ⟨t, second, rfl, ht, hsecond⟩ := List.map_eq_cons_iff.mp htokens
  have hsplit : first ++ t :: second ++ rest = first ++ (t :: (second ++ rest)) := by simp
  rw [hsplit] at h hfuel
  refine hleft.loop trivial (hroom.mono (by omega)) h hfirst hfuel
    ⟨t, _, rfl, opensLink_operator ht⟩ fun fuel s₁ y₁ hfuel h₁ hy₁ ↦ ?_
  obtain ⟨left', hleft', rfl⟩ := hy₁
  obtain ⟨fuel, rfl⟩ := Nat.exists_eq_succ_of_ne_zero (Nat.ne_zero_of_lt hfuel)
  refine expressionWithin_operator h₁
    (replaces_of_entries hctx (roundTokens_cons (isNewLine_of_symbol ht))) ht
    (pushOperator_floor hy op left') fun s₂ h₂ ↦ ?_
  rw [(hright.startsSolid hsecond).dropWhile_eq] at h₂
  refine hright.loop trivial (hroom.mono (by omega)) h₂ hsecond ?_ hfollows
    fun fuel s₃ y₃ hfuel h₃ hy₃ ↦ ?_
  · simp only [List.length_cons] at hfuel
    omega
  obtain ⟨right', hright', rfl⟩ := hy₃
  refine hrest fuel s₃ _ hfuel h₃ ⟨.operation op left' right', ?_, settle_operation hy _ _ _⟩
  rw [Expr.bare_operation, Expr.bare_operation, hleft', hright']

/-- The loop does not look at places. -/
theorem Settles.congr {e₁ e₂ : Expr} (hbare : e₁.bare = e₂.bare) {y y' : Yard}
    (h : Settles e₁ y y') : Settles e₂ y y' := by
  obtain ⟨e', he', hsettle⟩ := h
  exact ⟨e', he'.trans hbare, hsettle⟩

theorem parses_operation (hctx : ctx.registry.entries = []) (hleft : Parses ctx inner left)
    (hright : Parses ctx inner right) {form : Form} {position : Position} {scope : ScopeId}
    (hform : Format.needsParens form = false)
    (hwords : (Expr.mk form position scope).words =
      parenthesizedWords (operationWords op left.words right.words))
    (hheight : form.height = max left.height right.height)
    (hbare : (Expr.operation op left right).bare = (Expr.mk form position scope).bare) :
    Parses ctx inner (.mk form position scope) := by
  have hloop : LoopReads ctx inner (operationWords op left.words right.words)
      (2 * max left.height right.height) Yard.IsFloor (Settles (.mk form position scope)) := by
    intro grouped groups n fuel base base' s tokens rest out y Q hy hroom h htokens hfuel hfollows
      hrest
    exact loopReads_operation hctx hleft hright hy hroom h htokens hfuel hfollows
      fun fuel' s' y' hfuel' h' hy' ↦ hrest fuel' s' y' hfuel' h' (hy'.congr hbare)
  have htarget : targetWords (.mk form position scope) = _ :=
    (targetWords_of_chain hform).trans hwords
  have hneeds : 2 * max left.height right.height + 1 ≤ targetRoom (.mk form position scope) := by
    rw [targetRoom_of_chain hform, Expr.height, hheight]
    omega
  have hbegins : ∃ l ls, operationWords op left.words right.words = l :: ls ∧
      BeginsOperand l := by
    obtain ⟨l, ls, hl, hbegins⟩ := hleft.begins
    exact ⟨l, _, by rw [operationWords, hl]; rfl, hbegins⟩
  exact parses_of_targets hctx hform ⟨_, _, hwords, beginsOperand_symbol (by decide)⟩
    (operandReachesLinks_of_group hctx hloop htarget hneeds hbegins)
    (loopReachesLinks_of_group hctx hloop htarget hneeds hbegins)

end Operations

/-! ## Prefix operations -/

section Prefixes

variable {form : Form} {position : Position} {scope : ScopeId}

/-- An expression that is put in parentheses as a target is read in every position if it is read as
an operand and in the loop. -/
theorem parses_of_reads (hctx : ctx.registry.entries = []) {k : Nat}
    (hform : Format.needsParens form = true)
    (hbegins : ∃ l ls, (Expr.mk form position scope).words = l :: ls ∧ BeginsOperand l)
    (hoperand : OperandReads ctx inner (Expr.mk form position scope).words k
      (.mk form position scope))
    (hloop : LoopReads ctx inner (Expr.mk form position scope).words k (fun _ ↦ True)
      (Pushes (.mk form position scope)))
    (hk : k + 1 ≤ 2 * (Expr.mk form position scope).height) :
    Parses ctx inner (.mk form position scope) := by
  have hsettles : LoopReads ctx inner (Expr.mk form position scope).words k Yard.IsFloor
      (Settles (.mk form position scope)) := by
    intro grouped groups n fuel base base' s tokens rest out y Q hy hroom h htokens hfuel hfollows
      hrest
    exact hloop trivial hroom h htokens hfuel hfollows fun fuel' s' y' hfuel' h' hy' ↦
      hrest fuel' s' y' hfuel' h' (hy'.settles hy)
  have htarget : targetWords (.mk form position scope) = _ := targetWords_of_parens hform
  have hneeds : k + 1 ≤ targetRoom (.mk form position scope) := by
    rw [targetRoom, hform, if_pos rfl]
    exact hk
  refine ⟨hbegins, operandReachesLinks_of_group hctx hsettles htarget hneeds hbegins,
    loopReachesLinks_of_group hctx hsettles htarget hneeds hbegins, ?_, ?_⟩
  · intro n base s tokens rest hroom
    exact hoperand (hroom.mono (by omega))
  · intro grouped groups n fuel base base' s tokens rest out y Q hy hroom
    exact hloop hy (hroom.mono (by omega))

/-- If such an expression does not begin with a parenthesis, it is read in the loop as an
operand. -/
theorem parses_of_operand (hctx : ctx.registry.entries = []) {k : Nat} {first : Lexeme}
    {others : List Lexeme} (hform : Format.needsParens form = true)
    (hwords : (Expr.mk form position scope).words = first :: others) (hbegins : BeginsOperand first)
    (hparen : first ≠ .symbol "(")
    (hoperand : OperandReads ctx inner (Expr.mk form position scope).words k
      (.mk form position scope))
    (hk : k + 1 ≤ 2 * (Expr.mk form position scope).height) :
    Parses ctx inner (.mk form position scope) := by
  refine parses_of_reads hctx hform ⟨first, others, hwords, hbegins⟩ hoperand ?_ hk
  intro grouped groups n fuel base base' s tokens rest out y Q _ hroom h htokens hfuel hfollows
    hrest
  obtain ⟨t, others, rfl, ht, -⟩ := List.map_eq_cons_iff.mp (htokens.trans hwords)
  obtain ⟨fuel, rfl⟩ := Nat.exists_eq_succ_of_ne_zero (Nat.ne_zero_of_lt hfuel)
  have hopens : t.isSymbol "(" = false := by
    rw [← Bool.not_eq_true]
    exact fun hsymbol ↦ hparen (ht ▸ isSymbol_iff.mp hsymbol)
  rw [← ht] at hbegins
  refine expressionWithin_operand h
    (replaces_of_entries hctx (roundTokens_cons hbegins.isNewLine_eq)) hopens
    (fun s₁ h₁ ↦ hoperand hroom h₁ htokens hfollows) fun e s₁ he h₁ ↦ ?_
  refine hrest fuel s₁ _ ?_ h₁ ⟨e, he, rfl⟩
  simp only [List.length_append, List.length_cons] at hfuel
  omega

variable {operand : Expr}

/-- What stands before an operand is read with it if one step of the parser does so. -/
theorem operandReads_prefixed (hctx : ctx.registry.entries = []) (h : Parses ctx inner operand)
    {mark : String}
    (hstep : ∀ {n : Nat} {base s : ParserState} {t : Token} {tokens rest : List Token},
      Room ctx base n (2 * operand.height) → base.At (t :: (tokens ++ rest)) s →
      t.lexeme = .symbol mark → tokens.map Token.lexeme = operand.words →
      (∀ s', base.At (tokens ++ rest) s' →
        Yields (runWith ctx inner n .operand) s' base rest fun e ↦ e.bare = operand.bare) →
      (plainOperand ctx (runWith ctx inner n)).Yields s base rest
        fun e ↦ e.bare = (Expr.mk form position scope).bare) :
    OperandReads ctx inner (.symbol mark :: operand.words) (2 * operand.height + 1)
      (.mk form position scope) := by
  intro n base s tokens rest hroom hat htokens hfollows
  obtain ⟨t, tokens, rfl, ht, htokens⟩ := List.map_eq_cons_iff.mp htokens
  obtain ⟨n, rfl⟩ := hroom.exists_fuel_eq
  have hdepth := hroom.depth
  refine operand_yields hat (leaves_of_entries hctx) (by omega) fun s₁ h₁ ↦ ?_
  exact hstep hroom.openOperand h₁ ht htokens
    fun s₂ h₂ ↦ h.operand hroom.openOperand h₂ htokens hfollows

theorem parses_not (hctx : ctx.registry.entries = []) (h : Parses ctx inner operand) :
    Parses ctx inner (.mk (.unary .not operand) position scope) := by
  have hwords : (Expr.mk (.unary .not operand) position scope).words =
      .symbol "!" :: operand.words := List.append_nil _
  refine parses_of_operand hctx rfl hwords (beginsOperand_symbol (by decide)) (by simp) ?_
    (Nat.le_refl _)
  rw [hwords]
  refine operandReads_prefixed hctx h fun hroom hat ht htokens hoperand ↦ ?_
  refine plainOperand_not hat ht hoperand fun e he ↦ ?_
  rw [Expr.bare_unary, Expr.bare_unary, he]

theorem parses_negate (hctx : ctx.registry.entries = []) (h : Parses ctx inner operand)
    (hfirst : ∀ l ∈ operand.words.head?, l.followsMinus = true) :
    Parses ctx inner (.mk (.unary .negate operand) position scope) := by
  have hwords : (Expr.mk (.unary .negate operand) position scope).words =
      .symbol "-" :: operand.words := List.append_nil _
  refine parses_of_operand hctx rfl hwords (beginsOperand_symbol (by decide)) (by simp) ?_
    (Nat.le_refl _)
  rw [hwords]
  refine operandReads_prefixed hctx h fun {n base s t tokens rest} hroom hat ht htokens hoperand ↦
    ?_
  obtain ⟨next, tokens, rfl, -⟩ := h.exists_first htokens
  have hnumber : next.lexeme.number? = none := by
    have hfollows := hfirst next.lexeme (by rw [← htokens]; rfl)
    cases hlexeme : next.lexeme <;> first | rfl | simp [hlexeme, Lexeme.followsMinus] at hfollows
  refine plainOperand_negate hat ht hnumber hoperand fun e he ↦ ?_
  rw [Expr.bare_unary, Expr.bare_unary, he]

theorem parses_preChange (hctx : ctx.registry.entries = []) (h : Parses ctx inner operand)
    {op : UnaryOp} (hop : op = .preIncrement ∨ op = .preDecrement)
    (hassignable : operand.isAssignable = true) :
    Parses ctx inner (.mk (.unary op operand) position scope) := by
  have hwords : (Expr.mk (.unary op operand) position scope).words =
      .symbol op.marks.1 :: operand.words := by
    rcases hop with rfl | rfl <;> exact List.append_nil _
  have hmark : op.marks.1 = "++" ∨ op.marks.1 = "--" := by
    rcases hop with rfl | rfl
    · exact .inl rfl
    · exact .inr rfl
  refine parses_of_operand hctx rfl hwords
    (beginsOperand_symbol (by rcases hmark with h | h <;> rw [h] <;> decide))
    (by rcases hmark with h | h <;> simp [h]) ?_ (Nat.le_refl _)
  rw [hwords]
  refine operandReads_prefixed hctx h fun hroom hat ht htokens hoperand ↦ ?_
  refine plainOperand_change hat hop ht hoperand (fun e he ↦ ?_) fun e he ↦ ?_
  · rw [← e.isAssignable_bare, he, operand.isAssignable_bare, hassignable]
  · rw [Expr.bare_unary, Expr.bare_unary, he]

theorem parses_negative (hctx : ctx.registry.entries = []) {n : Number} (hn : n.IsWritten) :
    Parses ctx inner (.mk (.constant (.number n.negate)) position scope) := by
  have hnegative : n.negate.isNegative = true := by
    obtain ⟨mantissa, exponent, rfl⟩ := hn.finite
    rfl
  have hwords : (Expr.mk (.constant (.number n.negate)) position scope).words =
      [.symbol "-", .number n.text n] := by
    rw [Expr.words, Form.words, Value.words, if_pos hnegative, Number.negate_negate]
  refine parses_of_operand hctx (k := 1) hnegative hwords
    (beginsOperand_symbol (by decide)) (by simp)
    ?_ (Nat.le_refl _)
  rw [hwords]
  intro fuel base s tokens rest hroom h htokens hfollows
  obtain ⟨t, tokens, rfl, ht, htokens⟩ := List.map_eq_cons_iff.mp htokens
  obtain ⟨next, tokens, rfl, hnext, htokens⟩ := List.map_eq_cons_iff.mp htokens
  obtain rfl := List.map_eq_nil_iff.mp htokens
  obtain ⟨fuel, rfl⟩ := hroom.exists_fuel_eq
  have hdepth := hroom.depth
  exact operand_yields h (leaves_of_entries hctx) hdepth fun s₁ h₁ ↦
    plainOperand_negative h₁ ht hnext rfl

end Prefixes

/-! ## Chains -/

section Chains

variable {target : Expr} {form : Form} {position : Position} {scope : ScopeId}

theorem Parses.exists_targetWords_eq {e : Expr} (he : Parses ctx inner e) :
    ∃ l ls, targetWords e = l :: ls ∧ BeginsOperand l := by
  obtain ⟨form, position, scope⟩ := e
  by_cases hform : Format.needsParens form = true
  · exact ⟨_, _, targetWords_of_parens hform, beginsOperand_symbol (by decide)⟩
  · rw [targetWords_of_chain (by simpa using hform)]
    exact he.begins

/-- A link behind a target that is read: what is in hand before the link is the target, and behind
it the whole chain. -/
theorem parses_link (hctx : ctx.registry.entries = []) (htarget : Parses ctx inner target)
    (hform : Format.needsParens form = false) {linkWords : List Lexeme}
    (hwords : (Expr.mk form position scope).words = targetWords target ++ linkWords)
    (hheight : target.height ≤ form.height)
    (hlink : ∀ {base : ParserState} {k : Nat} {tokens rest out : List Token} {Q : Expr → Prop},
      2 * form.height < k → tokens.map Token.lexeme = linkWords →
      FromLinks ctx inner base k out Q (.mk form position scope) rest →
      FromLinks ctx inner base k out Q target (tokens ++ rest)) :
    Parses ctx inner (.mk form position scope) := by
  have htargetWords : targetWords (.mk form position scope) = targetWords target ++ linkWords :=
    (targetWords_of_chain hform).trans hwords
  have hroomEq : targetRoom (.mk form position scope) = 2 * form.height + 1 :=
    targetRoom_of_chain hform
  have hneeds := targetRoom_le target
  refine parses_of_targets hctx hform ?_ ?_ ?_
  · obtain ⟨l, ls, hl, hbegins⟩ := htarget.exists_targetWords_eq
    exact ⟨l, ls ++ linkWords, by rw [hwords, hl]; rfl, hbegins⟩
  · intro n k base s tokens rest out Q hk hroom h htokens hfrom
    obtain ⟨first, second, rfl, hfirst, hsecond⟩ :=
      List.map_eq_append_iff.mp (htokens.trans htargetWords)
    rw [List.append_assoc] at h
    exact htarget.operandReachesLinks (by omega) hroom h hfirst (hlink (by omega) hsecond hfrom)
  · intro grouped groups n k fuel base base' s tokens rest after out y Q R hk hroom h htokens hfuel
      hafter hfrom hrest
    obtain ⟨first, second, rfl, hfirst, hsecond⟩ :=
      List.map_eq_append_iff.mp (htokens.trans htargetWords)
    rw [List.append_assoc] at h hfuel
    refine htarget.loopReachesLinks (by omega) hroom h hfirst hfuel ?_
      (hlink (by omega) hsecond hfrom) hrest
    rw [List.length_append]
    omega

theorem parses_member (hctx : ctx.registry.entries = []) (htarget : Parses ctx inner target)
    (name : String) : Parses ctx inner (.mk (.member target name) position scope) := by
  refine parses_link hctx htarget rfl rfl (Nat.le_refl _) fun hk htokens hfrom ↦ ?_
  obtain ⟨dot, tokens, rfl, hdot, htokens⟩ := List.map_eq_cons_iff.mp htokens
  obtain ⟨word, tokens, rfl, hword, htokens⟩ := List.map_eq_cons_iff.mp htokens
  obtain rfl := List.map_eq_nil_iff.mp htokens
  rw [Form.height] at hk
  exact hfrom.member (by omega) hdot hword

theorem parses_index (hctx : ctx.registry.entries = []) (htarget : Parses ctx inner target)
    {key : Expr} (hkey : Parses ctx inner key) :
    Parses ctx inner (.mk (.index target key) position scope) := by
  refine parses_link hctx htarget rfl rfl (Nat.le_max_left _ _) fun hk htokens hfrom ↦ ?_
  obtain ⟨opening, middle, closing, hsplit, hopening, hmiddle, hclosing⟩ :=
    exists_enclosed_tokens _ htokens
  rw [hsplit]
  exact hfrom.index hctx hkey hk hopening hmiddle hclosing

theorem parses_call (hctx : ctx.registry.entries = []) (htarget : Parses ctx inner target)
    {args : List Expr} (hargs : ∀ e ∈ args, Parses ctx inner e) :
    Parses ctx inner (.mk (.call (.computed target) args) position scope) := by
  refine parses_link hctx htarget rfl rfl (Nat.le_max_left _ _) fun hk htokens hfrom ↦ ?_
  obtain ⟨opening, middle, closing, hsplit, hopening, hmiddle, hclosing⟩ :=
    exists_enclosed_tokens _ htokens
  rw [hsplit]
  exact hfrom.call hctx hargs hk hopening hmiddle hclosing

/-- A change behind a target ends the chain. -/
theorem fromLinks_change {base : ParserState} {k : Nat} {mark : Token} (rest : List Token)
    {op : UnaryOp} (hop : op = .postIncrement ∨ op = .postDecrement)
    (hassignable : target.isAssignable = true) (hmark : mark.lexeme = .symbol op.marks.2) :
    FromLinks ctx inner base k rest
      (fun e ↦ e.bare = (Expr.mk (.unary op target) position scope).bare) target
      (mark :: rest) := by
  intro n fuel links s start e' hroom h hfuel hlinks hbare
  obtain ⟨fuel, rfl⟩ := Nat.exists_eq_succ_of_ne_zero (Nat.ne_zero_of_lt hfuel)
  have hassignable' : e'.isAssignable = true := by
    rw [← e'.isAssignable_bare, hbare, target.isAssignable_bare, hassignable]
  refine linksWithin_change h hop hmark hassignable' ?_
  rw [Expr.bare_unary, Expr.bare_unary, hbare]

/-- What can be assigned to needs no parentheses as a target. -/
theorem needsParens_of_isAssignable (h : (Expr.mk form position scope).isAssignable = true) :
    Format.needsParens form = false := by
  cases form <;> first | rfl | exact absurd h (by simp [Expr.isAssignable, Expr.form])

theorem parses_postChange (hctx : ctx.registry.entries = []) (htarget : Parses ctx inner target)
    {op : UnaryOp} (hop : op = .postIncrement ∨ op = .postDecrement)
    (hassignable : target.isAssignable = true) :
    Parses ctx inner (.mk (.unary op target) position scope) := by
  obtain ⟨htargetWords, hneeds⟩ : targetWords target = target.words ∧
      targetRoom target ≤ 2 * target.height - 1 := by
    obtain ⟨form, position, scope⟩ := target
    have hform := needsParens_of_isAssignable hassignable
    exact ⟨targetWords_of_chain hform, Nat.le_of_eq (targetRoom_of_chain hform)⟩
  have hwords : (Expr.mk (.unary op target) position scope).words =
      targetWords target ++ [.symbol op.marks.2] := by
    rw [htargetWords]
    rcases hop with rfl | rfl <;> rfl
  have hheight : 2 * target.height = 2 * target.height - 1 + 1 := by
    have := target.height_pos
    omega
  refine parses_of_reads hctx (k := 2 * target.height) rfl ?_ ?_ ?_
    (by rw [Expr.height, Form.height]; omega)
  · obtain ⟨l, ls, hl, hbegins⟩ := htarget.exists_targetWords_eq
    exact ⟨l, ls ++ [.symbol op.marks.2], by rw [hwords, hl]; rfl, hbegins⟩
  · intro n base s tokens rest hroom h htokens hfollows
    obtain ⟨first, others, rfl, hfirst, hothers⟩ :=
      List.map_eq_append_iff.mp (htokens.trans hwords)
    obtain ⟨mark, none, rfl, hmark, hnone⟩ := List.map_eq_cons_iff.mp hothers
    obtain rfl := List.map_eq_nil_iff.mp hnone
    rw [List.append_assoc] at h
    rw [hheight] at hroom
    obtain ⟨n, rfl⟩ := hroom.exists_fuel_eq
    have hdepth := hroom.depth
    refine operand_yields h (leaves_of_entries hctx) (by omega) fun s₁ h₁ ↦ ?_
    exact htarget.operandReachesLinks hneeds hroom.openOperand h₁ hfirst
      (fromLinks_change rest hop hassignable hmark)
  · intro grouped groups n fuel base base' s tokens rest out y Q _ hroom h htokens hfuel hfollows
      hrest
    obtain ⟨first, others, rfl, hfirst, hothers⟩ :=
      List.map_eq_append_iff.mp (htokens.trans hwords)
    obtain ⟨mark, none, rfl, hmark, hnone⟩ := List.map_eq_cons_iff.mp hothers
    obtain rfl := List.map_eq_nil_iff.mp hnone
    rw [List.append_assoc] at h hfuel
    rw [hheight] at hroom
    exact htarget.loopReachesLinks hneeds hroom h hfirst hfuel (by simp)
      (fromLinks_change rest hop hassignable hmark)
      fun fuel' e' s' hfuel' he' h' ↦ hrest fuel' s' _ hfuel' h' ⟨e', he', rfl⟩

end Chains

theorem parses_constant (hctx : ctx.registry.entries = []) {value : Value} (h : value.IsPlain)
    {position : Position} {scope : ScopeId} :
    Parses ctx inner (.mk (.constant value) position scope) := by
  cases h with
  | null =>
    exact parses_literal hctx rfl rfl rfl rfl (beginsOperand_literal rfl (c := 'n') rfl (by decide))
  | bool b =>
    cases b with
    | false =>
      exact parses_literal hctx rfl rfl rfl rfl
        (beginsOperand_literal rfl (c := 'f') rfl (by decide))
    | true =>
      exact parses_literal hctx rfl rfl rfl rfl
        (beginsOperand_literal rfl (c := 't') rfl (by decide))
  | str h =>
    exact parses_literal hctx rfl rfl rfl rfl
      (beginsOperand_literal rfl (c := '"') (by simp [Lexeme.text, Text.quote]) (by decide))
  | number h =>
    have hbegins := beginsOperand_number h
    obtain ⟨mantissa, exponent, rfl⟩ := h.finite
    exact parses_literal hctx rfl rfl rfl rfl hbegins
  | negative h => exact parses_negative hctx h

/-- **Plain expressions are parsed from their words.** -/
theorem parses_of_isPlain (hctx : ctx.registry.entries = []) {e : Expr} (h : e.IsPlain) :
    Parses ctx inner e := by
  induction h with
  | var hname => exact parses_var hctx hname
  | constant hvalue => exact parses_constant hctx hvalue
  | not _ ih => exact parses_not hctx ih
  | negate _ hfirst ih => exact parses_negate hctx ih hfirst
  | preChange hop _ hassignable ih => exact parses_preChange hctx ih hop hassignable
  | postChange hop _ hassignable ih => exact parses_postChange hctx ih hop hassignable
  | binary _ _ ihleft ihright =>
    exact parses_operation hctx ihleft ihright rfl rfl rfl rfl
  | compare _ _ ihleft ihright =>
    exact parses_operation hctx ihleft ihright rfl rfl rfl rfl
  | condition _ _ ihleft ihright =>
    exact parses_operation hctx ihleft ihright rfl rfl rfl rfl
  | array _ ih => exact parses_array hctx ih
  | index _ _ ihtarget ihkey => exact parses_index hctx ihtarget ihkey
  | member _ _ ihtarget => exact parses_member hctx ihtarget _
  | call _ _ ihtarget ihargs => exact parses_call hctx ihtarget ihargs

end ScriptFront.Parse
