import ScriptFront.Proofs.Parse.Yields

/-!
# Steps of the expression parser

What one round of the loop over operands and operators does, by the token it meets, and what an
operand does, by the token it begins with. Each statement takes what comes after the step as a
hypothesis: if the rest of the loop yields a result from where the step leads, the loop yields it
from here. Proofs about whole expressions follow the tokens with these statements and never look
into the loop.

What extensions do at the tokens of a step is a hypothesis too, where they are asked: that
replacement makes these tokens of those, and that no extension builds the operand.
-/

namespace ScriptFront.Parse

variable {ctx : ParseContext} {sub : Subparser} {grouped : Bool} {fuel groups : Nat} {y y' : Yard}
  {s base base' : ParserState} {t : Token} {tokens tokens' out : List Token} {Q R : Expr → Prop}

/-! ## Tokens by their lexemes -/

section Lexemes

theorem isSymbol_iff {text : String} : t.isSymbol text = true ↔ t.lexeme = .symbol text := by
  rw [Token.isSymbol, Token.is, Token.kind]
  cases t.lexeme <;> simp [Lexeme.is, Lexeme.kind, Lexeme.text]

theorem isSymbol_eq_of_lexeme {text other : String} (h : t.lexeme = .symbol text) :
    t.isSymbol other = (text == other) := by
  simp [Token.isSymbol, Token.is, Lexeme.is, Token.kind, h, Lexeme.kind, Lexeme.text]

theorem isEnd_of_symbol {text : String} (h : t.lexeme = .symbol text) : t.isEnd = false := by
  simp [Token.isEnd, Token.kind, h, Lexeme.kind]

theorem is_of_symbol {text : String} (h : t.lexeme = .symbol text) : t.is text = true := by
  simp [Token.is, Lexeme.is, h, Lexeme.text]

/-- A first token that is no line break. -/
def StartsSolid (tokens : List Token) : Prop := ∀ t ∈ tokens.head?, Window.isNewLine t = false

theorem startsSolid_cons (ht : Window.isNewLine t = false) : StartsSolid (t :: tokens) := by
  simpa [StartsSolid] using ht

theorem StartsSolid.dropWhile_eq (h : StartsSolid tokens) :
    tokens.dropWhile Window.isNewLine = tokens := by
  cases tokens with
  | nil => rfl
  | cons t tokens => rw [List.dropWhile_cons, if_neg (by simp [h t rfl])]

theorem isNewLine_of_symbol {text : String} (h : t.lexeme = .symbol text) :
    Window.isNewLine t = false := by
  simp [Window.isNewLine, Token.kind, h, Lexeme.kind]

end Lexemes

/-! ## Rounds of the loop -/

/-- What the loop sees at the beginning of a round: inside a group, line breaks are passed over. -/
def roundTokens (grouped : Bool) (groups : Nat) (tokens : List Token) : List Token :=
  if grouped || 0 < groups then tokens.dropWhile Window.isNewLine else tokens

theorem StartsSolid.roundTokens_eq (h : StartsSolid tokens) :
    roundTokens grouped groups tokens = tokens := by
  rw [roundTokens, h.dropWhile_eq, ite_self]

theorem roundTokens_cons (ht : Window.isNewLine t = false) :
    roundTokens grouped groups (t :: tokens) = t :: tokens := (startsSolid_cons ht).roundTokens_eq

/-- The beginning of a round: line breaks are passed over inside a group, and the next token is
looked at. -/
theorem round_yields {p : Token → Parse Expr}
    (h : base.At tokens s)
    (hround : Replaces ctx base.symbols (roundTokens grouped groups tokens) (t :: tokens'))
    (hp : ∀ s', base.At (t :: tokens') s' → (p t).Yields s' base' out Q) :
    Yields (do
      if grouped || 0 < groups then skipNewLines
      ctx.replaceTokens
      let t ← current
      p t) s base' out Q := by
  have hlook : ∀ s', base.At (roundTokens grouped groups tokens) s' → Yields (do
      ctx.replaceTokens
      let t ← current
      p t) s' base' out Q := by
    intro s' h'
    refine (hround rfl h').bind fun _ s'' h'' _ ↦ yields_bind_of_ok current_run ?_
    rw [h''.current_eq]
    exact hp s'' h''
  rw [roundTokens] at hlook
  by_cases hinside : (grouped || 0 < groups) = true
  · rw [if_pos hinside] at hlook ⊢
    exact (skipNewLines_yields h).bind fun _ s' h' _ ↦ hlook s' h'
  · rw [if_neg hinside] at hlook ⊢
    exact hlook s h

/-- A parenthesis where an operand is wanted opens a group. -/
theorem expressionWithin_open
    (h : base.At tokens s)
    (hround : Replaces ctx base.symbols (roundTokens grouped groups tokens) (t :: tokens'))
    (ht : t.lexeme = .symbol "(")
    (hlimit : base.parenDepth + 1 ≤ ctx.limits.maxParenDepth)
    (hrest : ∀ s', ParserState.At { base with parenDepth := base.parenDepth + 1 }
        (tokens'.dropWhile Window.isNewLine) s' →
      (expressionWithin ctx sub grouped fuel (groups + 1) true y.openParen).Yields s' base' out Q) :
    (expressionWithin ctx sub grouped (fuel + 1) groups true y).Yields s base' out Q := by
  rw [expressionWithin]
  refine round_yields h hround fun s₁ h₁ ↦ ?_
  rw [if_pos rfl, if_pos (isSymbol_iff.mpr ht)]
  refine (enterParen_yields h₁ hlimit).bind fun _ s₂ h₂ _ ↦ ?_
  refine (advance_pass_yields h₂ (isEnd_of_symbol ht)).bind fun _ s₃ h₃ _ ↦ ?_
  exact hrest s₃ h₃

/-- Any other token where an operand is wanted begins one. -/
theorem expressionWithin_operand {tokens'' : List Token}
    (h : base.At tokens s)
    (hround : Replaces ctx base.symbols (roundTokens grouped groups tokens) (t :: tokens'))
    (ht : t.isSymbol "(" = false)
    (hoperand : ∀ s', base.At (t :: tokens') s' → Yields (sub .operand) s' base tokens'' R)
    (hrest : ∀ e s', R e → base.At tokens'' s' →
      (expressionWithin ctx sub grouped fuel groups false (y.pushOperand e)).Yields
        s' base' out Q) :
    (expressionWithin ctx sub grouped (fuel + 1) groups true y).Yields s base' out Q := by
  rw [expressionWithin]
  refine round_yields h hround fun s₁ h₁ ↦ ?_
  rw [if_pos rfl, if_neg (by simp [ht])]
  exact (hoperand s₁ h₁).bind fun e s₂ h₂ he ↦ hrest e s₂ he h₂

/-- An operator behind an operand is put on its stack. -/
theorem expressionWithin_operator {op : Operator}
    (h : base.At tokens s)
    (hround : Replaces ctx base.symbols (roundTokens grouped groups tokens) (t :: tokens'))
    (ht : t.lexeme = .symbol op.symbol) (hpush : y.pushOperator op = some y')
    (hrest : ∀ s', base.At (tokens'.dropWhile Window.isNewLine) s' →
      (expressionWithin ctx sub grouped fuel groups true y').Yields s' base' out Q) :
    (expressionWithin ctx sub grouped (fuel + 1) groups false y).Yields s base' out Q := by
  have hclosing : ¬ (t.isSymbol ")" && decide (0 < groups)) = true := by
    have : t.isSymbol ")" = false := by
      rw [isSymbol_eq_of_lexeme ht]
      rcases op with op | op | op <;> cases op <;> decide
    simp [this]
  have hop : (if t.kind = .symbol then Operator.ofSymbol? t.text else none) = some op := by
    rw [Token.kind, Token.text, ht]
    exact Operator.ofSymbol?_symbol op
  rw [expressionWithin]
  refine round_yields h hround fun s₁ h₁ ↦ ?_
  rw [if_neg (by simp), if_neg hclosing]
  simp only [hop, hpush, settled]
  refine yields_bind_of_ok rfl ?_
  exact (advance_pass_yields h₁ (isEnd_of_symbol ht)).bind fun _ s₂ h₂ _ ↦ hrest s₂ h₂

/-- A closing parenthesis behind an operand closes the innermost group. The links behind it belong
to the group. -/
theorem expressionWithin_close {tokens'' : List Token} {group : Expr} {depth : Nat}
    (h : base.At tokens s)
    (hround : Replaces ctx base.symbols (roundTokens grouped (groups + 1) tokens) (t :: tokens'))
    (ht : t.lexeme = .symbol ")") (hclose : y.closeParen = some (group, y'))
    (hdepth : base.parenDepth = depth + 1)
    (hlimit : base.expressionDepth + 1 ≤ ctx.limits.maxExpressionDepth)
    (hlinks : ∀ s', ParserState.At { base with
          parenDepth := depth, expressionDepth := base.expressionDepth + 1 } tokens' s' →
      (links ctx sub group []).Yields s' { base with
          parenDepth := depth, expressionDepth := base.expressionDepth + 1 } tokens'' R)
    (hrest : ∀ e s', R e → ParserState.At { base with parenDepth := depth } tokens'' s' →
      (expressionWithin ctx sub grouped fuel groups false (y'.pushOperand e)).Yields
        s' base' out Q) :
    (expressionWithin ctx sub grouped (fuel + 1) (groups + 1) false y).Yields s base' out Q := by
  have hclosing : (t.isSymbol ")" && decide (0 < groups + 1)) = true := by
    simp [isSymbol_iff.mpr ht]
  rw [expressionWithin]
  refine round_yields h hround fun s₁ h₁ ↦ ?_
  rw [if_neg (by simp), if_pos hclosing, closeGroup]
  simp only [bind_assoc, hclose, settled]
  refine (leaveParen_yields h₁ hdepth).bind fun _ s₂ h₂ _ ↦ ?_
  refine (advance_yields h₂ (isEnd_of_symbol ht)).bind fun _ s₃ h₃ _ ↦ ?_
  refine yields_bind_of_ok rfl ?_
  refine (deeper_yields h₃ hlimit hlinks).bind fun e s₄ h₄ he ↦ ?_
  exact yields_bind_of_ok rfl (hrest e s₄ he h₄)

/-- A token that cannot go on with an expression. -/
def EndsExpression (t : Token) : Prop :=
  (t.kind = .symbol → Operator.ofSymbol? t.text = none) ∧ opensOperand t = false

theorem endsExpression_of_symbol {text : String} (ht : t.lexeme = .symbol text)
    (hop : Operator.ofSymbol? text = none) (hnot : text ≠ "!") (hbracket : text ≠ "[") :
    EndsExpression t := by
  simp [EndsExpression, opensOperand, isSymbol_eq_of_lexeme ht, Token.kind, Token.text, ht,
    Lexeme.isLiteral, Lexeme.kind, Lexeme.text, hop, hnot, hbracket]

/-- A token that cannot go on with an expression ends it. -/
theorem expressionWithin_done {e : Expr}
    (h : base.At tokens s)
    (hround : Replaces ctx base.symbols (roundTokens grouped 0 tokens) (t :: tokens'))
    (hends : EndsExpression t) (hfinish : y.finish = some e) (hQ : Q e) :
    (expressionWithin ctx sub grouped (fuel + 1) 0 false y).Yields s base (t :: tokens') Q := by
  have hnone : (if t.kind = .symbol then Operator.ofSymbol? t.text else none) = none := by
    split
    · next hkind => exact hends.1 hkind
    · rfl
  rw [expressionWithin]
  refine round_yields h hround fun s₁ h₁ ↦ ?_
  rw [if_neg (by simp), if_neg (by simp)]
  simp only [hnone, hends.2, hfinish, settled]
  exact yields_pure h₁ hQ

/-- The loop begins with an empty yard, and rounds for all tokens. -/
theorem expression_yields (h : base.At tokens s)
    (hwithin : ∀ fuel, tokens.length < fuel →
      (expressionWithin ctx sub grouped fuel 0 true .empty).Yields s base' out Q) :
    (expression ctx sub grouped).Yields s base' out Q :=
  yields_bind_of_ok rounds_run (hwithin _ h.length_lt_rounds)

/-! ## Links -/

/-- The marks that go on with an operand. -/
def linkMarks : List String := [".", "[", "(", "++", "--"]

/-- Whether the token goes on with an operand. -/
def opensLink (t : Token) : Bool := t.kind == .symbol && linkMarks.contains t.text

/-- What may follow an operand: anything but a link. -/
def FollowsOperand (tokens : List Token) : Prop :=
  ∃ t rest, tokens = t :: rest ∧ opensLink t = false

theorem opensLink_of_symbol {text : String} (ht : t.lexeme = .symbol text) :
    opensLink t = linkMarks.contains text := by
  simp [opensLink, Token.kind, Token.text, ht, Lexeme.kind, Lexeme.text]

theorem isSymbol_eq_false_of_opensLink {text : String} (h : opensLink t = false)
    (htext : text ∈ linkMarks) : t.isSymbol text = false := by
  rw [← Bool.not_eq_true]
  intro hsymbol
  rw [isSymbol_iff] at hsymbol
  simp [opensLink, Token.kind, Token.text, hsymbol, Lexeme.kind, Lexeme.text, htext] at h

variable {e : Expr} {start : Position} {links : Nat}

/-- Links end at the first token that opens none. -/
theorem linksWithin_stop {qualified : List String} (h : base.At (t :: tokens) s)
    (ht : opensLink t = false) (hQ : Q e) :
    (linksWithin ctx sub start (fuel + 1) links e qualified).Yields s base (t :: tokens) Q := by
  rw [linksWithin]
  refine yields_bind_of_ok current_run ?_
  rw [h.current_eq]
  have hno : ∀ text ∈ linkMarks, t.isSymbol text = false :=
    fun text htext ↦ isSymbol_eq_false_of_opensLink ht htext
  simp only [hno "." (by decide), hno "[" (by decide), hno "(" (by decide), hno "++" (by decide),
    hno "--" (by decide), Bool.false_and, Bool.false_eq_true, if_false]
  exact yields_pure h hQ

theorem links_yields {qualified : List String} (h : base.At tokens s)
    (hwithin : ∀ fuel, tokens.length < fuel →
      (linksWithin ctx sub e.position fuel 0 e qualified).Yields s base' out Q) :
    (Parse.links ctx sub e qualified).Yields s base' out Q :=
  yields_bind_of_ok rounds_run (hwithin _ h.length_lt_rounds)

/-- Without a link behind it, an operand stays as it is. -/
theorem links_stop {qualified : List String} (h : base.At (t :: tokens) s)
    (ht : opensLink t = false) (hQ : Q e) :
    (Parse.links ctx sub e qualified).Yields s base (t :: tokens) Q := by
  refine links_yields h fun fuel hfuel ↦ ?_
  obtain ⟨fuel, rfl⟩ := Nat.exists_eq_succ_of_ne_zero (Nat.ne_zero_of_lt hfuel)
  exact linksWithin_stop h ht hQ

/-- A member access. -/
theorem linksWithin_member {dot word : Token} {name : String}
    (h : base.At (dot :: word :: tokens) s) (hdot : dot.lexeme = .symbol ".")
    (hword : word.lexeme = .ident name) (hlimit : links + 1 ≤ ctx.limits.maxMemberDepth)
    (hrest : ∀ s', base.At tokens s' →
      (linksWithin ctx sub start fuel (links + 1)
        (.mk (.member e name) start base.symbols.current) []).Yields s' base' out Q) :
    (linksWithin ctx sub start (fuel + 1) links e []).Yields s base' out Q := by
  have hsolid : Window.isNewLine word = false := by
    simp [Window.isNewLine, Token.kind, hword, Lexeme.kind]
  rw [linksWithin]
  refine yields_bind_of_ok current_run ?_
  rw [h.current_eq, if_pos (isSymbol_iff.mpr hdot)]
  refine (limit_yields h hlimit).bind fun _ s₁ h₁ _ ↦ ?_
  refine (advance_pass_yields h₁ (isEnd_of_symbol hdot)).bind fun _ s₂ h₂ _ ↦ ?_
  rw [(startsSolid_cons hsolid).dropWhile_eq] at h₂
  refine (expectName_yields h₂ hword).bind fun found s₃ h₃ hfound ↦ ?_
  subst hfound
  refine yields_bind_of_ok (node_run _ _) ?_
  rw [h₃.symbols_eq]
  exact hrest s₃ h₃

/-- An element. -/
theorem linksWithin_index {opening closing : Token} (h : base.At (opening :: tokens) s)
    (hopening : opening.lexeme = .symbol "[") (hclosing : closing.lexeme = .symbol "]")
    (hsolid : StartsSolid tokens) (hlimit : links + 1 ≤ ctx.limits.maxMemberDepth)
    (hkey : ∀ s', base.At tokens s' →
      Yields (sub (.expression false)) s' base (closing :: tokens') R)
    (hrest : ∀ key s', R key → base.At tokens' s' →
      (linksWithin ctx sub start fuel (links + 1)
        (.mk (.index e key) start base.symbols.current) []).Yields s' base' out Q) :
    (linksWithin ctx sub start (fuel + 1) links e []).Yields s base' out Q := by
  rw [linksWithin]
  refine yields_bind_of_ok current_run ?_
  rw [h.current_eq, if_neg (by simp [isSymbol_eq_of_lexeme hopening]),
    if_pos (isSymbol_iff.mpr hopening)]
  refine (limit_yields h hlimit).bind fun _ s₁ h₁ _ ↦ ?_
  refine (advance_pass_yields h₁ (isEnd_of_symbol hopening)).bind fun _ s₂ h₂ _ ↦ ?_
  rw [hsolid.dropWhile_eq] at h₂
  refine (hkey s₂ h₂).bind fun key s₃ h₃ hkey ↦ ?_
  refine (skipNewLines_yields h₃).bind fun _ s₄ h₄ _ ↦ ?_
  rw [(startsSolid_cons (isNewLine_of_symbol hclosing)).dropWhile_eq] at h₄
  refine (expect_yields h₄ (isEnd_of_symbol hclosing) (is_of_symbol hclosing)).bind
    fun _ s₅ h₅ _ ↦ ?_
  refine yields_bind_of_ok (node_run _ _) ?_
  rw [h₅.symbols_eq]
  exact hrest key s₅ hkey h₅

/-- Arguments in parentheses. -/
theorem callArgs_yields {opening closing : Token} {P : List Expr → Prop}
    (h : base.At (opening :: tokens) s) (hopening : opening.lexeme = .symbol "(")
    (hclosing : closing.lexeme = .symbol ")") (hsolid : StartsSolid tokens)
    (hlimit : base.callDepth + 1 ≤ ctx.limits.maxCallDepth)
    (hargs : ∀ fuel s', tokens.length < fuel →
      ParserState.At { base with callDepth := base.callDepth + 1 } tokens s' →
      Yields (callArgsWithin sub fuel []) s' { base with callDepth := base.callDepth + 1 }
        (closing :: tokens') P) :
    (callArgs ctx sub).Yields s base tokens' P := by
  rw [callArgs]
  refine (expect_pass_yields h (isEnd_of_symbol hopening) (is_of_symbol hopening)).bind
    fun _ s₁ h₁ _ ↦ ?_
  rw [hsolid.dropWhile_eq] at h₁
  refine (enterCall_yields h₁ hlimit).bind fun _ s₂ h₂ _ ↦ ?_
  refine yields_bind_of_ok rounds_run ?_
  refine (hargs _ s₂ h₂.length_lt_rounds h₂).bind fun args s₃ h₃ hP ↦ ?_
  refine (advance_yields h₃ (isEnd_of_symbol hclosing)).bind fun _ s₄ h₄ _ ↦ ?_
  refine (leaveCall_yields h₄ rfl).bind fun _ s₅ h₅ _ ↦ ?_
  exact yields_pure h₅ hP

/-- A call. -/
theorem linksWithin_call {opening : Token} {P : List Expr → Prop}
    (h : base.At (opening :: tokens) s) (hopening : opening.lexeme = .symbol "(")
    (hlimit : links + 1 ≤ ctx.limits.maxMemberDepth)
    (hargs : ∀ s', base.At (opening :: tokens) s' → (callArgs ctx sub).Yields s' base tokens' P)
    (hrest : ∀ args s', P args → base.At tokens' s' →
      (linksWithin ctx sub start fuel (links + 1)
        (.mk (.call (.computed e) args) start base.symbols.current) []).Yields s' base' out Q) :
    (linksWithin ctx sub start (fuel + 1) links e []).Yields s base' out Q := by
  rw [linksWithin]
  refine yields_bind_of_ok current_run ?_
  rw [h.current_eq, if_neg (by simp [isSymbol_eq_of_lexeme hopening]),
    if_neg (by simp [isSymbol_eq_of_lexeme hopening]), if_pos (isSymbol_iff.mpr hopening)]
  refine (limit_yields h hlimit).bind fun _ s₁ h₁ _ ↦ ?_
  refine (hargs s₁ h₁).bind fun args s₂ h₂ hP ↦ ?_
  refine yields_bind_of_ok scope_run ?_
  rw [h₂.symbols_eq]
  exact hrest args s₂ hP h₂

/-- A change behind what can be assigned to ends the links. -/
theorem linksWithin_change {op : UnaryOp} (h : base.At (t :: tokens) s)
    (hop : op = .postIncrement ∨ op = .postDecrement) (ht : t.lexeme = .symbol op.marks.2)
    (hassignable : e.isAssignable = true)
    (hQ : Q (.mk (.unary op e) start base.symbols.current)) :
    (linksWithin ctx sub start (fuel + 1) links e []).Yields s base tokens Q := by
  rw [linksWithin]
  refine yields_bind_of_ok current_run ?_
  rw [h.current_eq]
  have hnode : Yields (do
      advance 1 false
      node (.unary op e) start) s base tokens Q := by
    refine (advance_yields h (isEnd_of_symbol ht)).bind fun _ s₁ h₁ _ ↦ ?_
    refine ⟨_, s₁, node_run _ _, h₁, ?_⟩
    rw [h₁.symbols_eq]
    exact hQ
  rcases hop with rfl | rfl
  all_goals
    simp only [isSymbol_eq_of_lexeme ht, hassignable, Bool.and_true, UnaryOp.marks]
    exact hnode

/-! ## Operands -/

/-- An operand that no extension claims. -/
theorem operand_yields (h : base.At tokens s) (hleaves : Leaves ctx .expression base.symbols tokens)
    (hlimit : base.expressionDepth + 1 ≤ ctx.limits.maxExpressionDepth)
    (hplain : ∀ s', ParserState.At { base with expressionDepth := base.expressionDepth + 1 }
        tokens s' →
      (plainOperand ctx sub).Yields s' { base with expressionDepth := base.expressionDepth + 1 }
        out Q) :
    (operand ctx sub).Yields s base out Q := by
  refine deeper_yields h hlimit fun s₁ h₁ ↦ ?_
  have hnone : (ctx.build? sub .expression).Yields s₁
      { base with expressionDepth := base.expressionDepth + 1 } tokens fun e ↦ e = none :=
    hleaves sub rfl h₁
  refine hnone.bind fun e s₂ h₂ he ↦ ?_
  subst he
  exact hplain s₂ h₂

/-- A name that stands for no function is a variable. The chain of names behind a module begins with
it. -/
theorem plainOperand_name {name : String} (h : base.At (t :: tokens) s)
    (ht : t.lexeme = .ident name) (hfunction : base.symbols.isFunction name = false)
    (hlinks : ∀ s', base.At tokens s' →
      (Parse.links ctx sub (.mk (.var name) t.position base.symbols.current)
        (if base.symbols.isModule name then [name] else [])).Yields s' base out Q) :
    (plainOperand ctx sub).Yields s base out Q := by
  have hend : t.isEnd = false := by simp [Token.isEnd, Token.kind, ht, Lexeme.kind]
  rw [plainOperand]
  refine yields_bind_of_ok current_run ?_
  simp only [h.current_eq, ht]
  refine (advance_yields h hend).bind fun _ s' h' _ ↦ ?_
  rw [named]
  refine yields_bind_of_ok (symbols_run _) ?_
  simp only [h'.symbols_eq, hfunction, Bool.false_and, Bool.false_eq_true, if_false]
  refine yields_bind_of_ok (is_run _) (yields_bind_of_ok (is_run _) ?_)
  refine yields_bind_of_ok (symbols_run _) ?_
  simp only [h'.symbols_eq, Bool.or_false]
  refine yields_bind_of_ok (node_run _ _) ?_
  rw [h'.symbols_eq]
  exact hlinks s' h'

/-- A name that stands for a function is a call without arguments if neither a link nor an operand
follows. -/
theorem plainOperand_call {name : String} {next : Token} (h : base.At (t :: next :: tokens) s)
    (ht : t.lexeme = .ident name) (hfunction : base.symbols.isFunction name = true)
    (hparen : next.is "(" = false) (hdot : next.is "." = false) (hnext : opensOperand next = false)
    (hQ : Q (.mk (.call (.named name) []) t.position base.symbols.current)) :
    (plainOperand ctx sub).Yields s base (next :: tokens) Q := by
  have hend : t.isEnd = false := by simp [Token.isEnd, Token.kind, ht, Lexeme.kind]
  rw [plainOperand]
  refine yields_bind_of_ok current_run ?_
  simp only [h.current_eq, ht]
  refine (advance_yields h hend).bind fun _ s' h' _ ↦ ?_
  rw [named]
  refine yields_bind_of_ok (symbols_run _) ?_
  refine yields_bind_of_ok (is_run _) (yields_bind_of_ok (is_run _) ?_)
  simp only [h'.symbols_eq, hfunction, h'.is_eq, hparen, hdot, Bool.not_false,
    Bool.and_self, if_true]
  refine yields_bind_of_ok current_run ?_
  simp only [h'.current_eq, hnext, Bool.false_eq_true, if_false]
  refine yields_bind_of_ok rfl (yields_bind_of_ok scope_run (yields_pure h' ?_))
  rw [h'.symbols_eq]
  exact hQ

/-- A literal is a constant. -/
theorem plainOperand_literal (h : base.At (t :: tokens) s) (ht : t.lexeme.isLiteral = true)
    (hlinks : ∀ s', base.At tokens s' →
      (Parse.links ctx sub
        (.mk (.constant (constantOf t.lexeme)) t.position base.symbols.current) []).Yields
        s' base out Q) :
    (plainOperand ctx sub).Yields s base out Q := by
  have hend : t.isEnd = false := by
    rw [Token.isEnd, Token.kind]
    cases hlexeme : t.lexeme <;> simp [hlexeme, Lexeme.isLiteral, Lexeme.kind] at ht ⊢
  have hconstant : Yields (do
      advance 1 false
      Parse.links ctx sub (← node (.constant (constantOf t.lexeme)) t.position) []) s
        base out Q := by
    refine (advance_yields h hend).bind fun _ s₁ h₁ _ ↦ ?_
    refine yields_bind_of_ok (node_run _ _) ?_
    rw [h₁.symbols_eq]
    exact hlinks s₁ h₁
  rw [plainOperand]
  refine yields_bind_of_ok current_run ?_
  rw [h.current_eq]
  -- of the forms an operand can have, only the last one is left for a literal
  cases hlexeme : t.lexeme <;> simp [hlexeme, Lexeme.isLiteral, Lexeme.kind] at ht
  all_goals
    rw [hlexeme] at hconstant
    exact hconstant

/-- A list in brackets. -/
theorem plainOperand_array {closing : Token} {P : List Expr → Prop} (h : base.At (t :: tokens) s)
    (ht : t.lexeme = .symbol "[") (hclosing : closing.lexeme = .symbol "]")
    (hsolid : StartsSolid tokens)
    (hitems : ∀ fuel s', tokens.length < fuel → base.At tokens s' →
      (itemsWithin sub fuel [] true).Yields s' base (closing :: tokens') P)
    (hlinks : ∀ items s', P items → base.At tokens' s' →
      (Parse.links ctx sub (.mk (.array items) t.position base.symbols.current) []).Yields
        s' base out Q) :
    (plainOperand ctx sub).Yields s base out Q := by
  have harray : (array sub).Yields s base tokens' fun e ↦
      ∃ items, P items ∧ e = .mk (.array items) t.position base.symbols.current := by
    rw [array]
    refine yields_bind_of_ok position_run ?_
    rw [h.position_eq]
    refine (expect_pass_yields h (isEnd_of_symbol ht) (is_of_symbol ht)).bind fun _ s₁ h₁ _ ↦ ?_
    rw [hsolid.dropWhile_eq] at h₁
    refine yields_bind_of_ok rounds_run ?_
    refine (hitems _ s₁ h₁.length_lt_rounds h₁).bind fun items s₂ h₂ hP ↦ ?_
    refine (advance_yields h₂ (isEnd_of_symbol hclosing)).bind fun _ s₃ h₃ _ ↦ ?_
    exact ⟨_, s₃, node_run _ _, h₃, items, hP, by rw [h₃.symbols_eq]⟩
  rw [plainOperand]
  refine yields_bind_of_ok current_run ?_
  simp only [h.current_eq, ht]
  refine harray.bind fun e s₁ h₁ he ↦ ?_
  obtain ⟨items, hP, rfl⟩ := he
  exact hlinks items s₁ hP h₁

/-- A negation takes one operand. -/
theorem plainOperand_not (h : base.At (t :: tokens) s) (ht : t.lexeme = .symbol "!")
    (hoperand : ∀ s', base.At tokens s' → Yields (sub .operand) s' base out R)
    (hQ : ∀ e, R e → Q (.mk (.unary .not e) t.position base.symbols.current)) :
    (plainOperand ctx sub).Yields s base out Q := by
  rw [plainOperand]
  refine yields_bind_of_ok current_run ?_
  simp only [h.current_eq, ht]
  refine (advance_yields h (isEnd_of_symbol ht)).bind fun _ s₁ h₁ _ ↦ ?_
  refine (hoperand s₁ h₁).bind fun e s₂ h₂ he ↦ ?_
  refine ⟨_, s₂, node_run _ _, h₂, ?_⟩
  rw [h₂.symbols_eq]
  exact hQ e he

/-- A minus sign before anything but a number is a negation. -/
theorem plainOperand_negate {next : Token} (h : base.At (t :: next :: tokens) s)
    (ht : t.lexeme = .symbol "-") (hnext : next.lexeme.number? = none)
    (hoperand : ∀ s', base.At (next :: tokens) s' → Yields (sub .operand) s' base out R)
    (hQ : ∀ e, R e → Q (.mk (.unary .negate e) t.position base.symbols.current)) :
    (plainOperand ctx sub).Yields s base out Q := by
  rw [plainOperand]
  refine yields_bind_of_ok current_run ?_
  simp only [h.current_eq, ht, minus]
  refine (peek_yields h).bind fun found s₁ h₁ hfound ↦ ?_
  subst hfound
  simp only [hnext, prefixed]
  refine (advance_yields h₁ (isEnd_of_symbol ht)).bind fun _ s₂ h₂ _ ↦ ?_
  refine (hoperand s₂ h₂).bind fun e s₃ h₃ he ↦ ?_
  refine ⟨_, s₃, node_run _ _, h₃, ?_⟩
  rw [h₃.symbols_eq]
  exact hQ e he

/-- A minus sign before a number is a part of it. -/
theorem plainOperand_negative {next : Token} {text : String} {n : Number}
    (h : base.At (t :: next :: tokens) s) (ht : t.lexeme = .symbol "-")
    (hnext : next.lexeme = .number text n)
    (hQ : Q (.mk (.constant (.number n.negate)) t.position base.symbols.current)) :
    (plainOperand ctx sub).Yields s base tokens Q := by
  have hend : next.isEnd = false := by simp [Token.isEnd, Token.kind, hnext, Lexeme.kind]
  rw [plainOperand]
  refine yields_bind_of_ok current_run ?_
  simp only [h.current_eq, ht, minus]
  refine (peek_yields h).bind fun found s₁ h₁ hfound ↦ ?_
  subst hfound
  simp only [hnext, Lexeme.number?]
  refine (advance_two_yields h₁ hend).bind fun _ s₂ h₂ _ ↦ ?_
  refine ⟨_, s₂, node_run _ _, h₂, ?_⟩
  rw [h₂.symbols_eq]
  exact hQ

/-- A change before what can be assigned to. -/
theorem plainOperand_change {op : UnaryOp} (h : base.At (t :: tokens) s)
    (hop : op = .preIncrement ∨ op = .preDecrement) (ht : t.lexeme = .symbol op.marks.1)
    (hoperand : ∀ s', base.At tokens s' → Yields (sub .operand) s' base out R)
    (hassignable : ∀ e, R e → e.isAssignable = true)
    (hQ : ∀ e, R e → Q (.mk (.unary op e) t.position base.symbols.current)) :
    (plainOperand ctx sub).Yields s base out Q := by
  have hchange : (prefixedChange sub op t.position).Yields s base out Q := by
    rw [prefixedChange]
    refine (advance_yields h (isEnd_of_symbol ht)).bind fun _ s₁ h₁ _ ↦ ?_
    refine (hoperand s₁ h₁).bind fun e s₂ h₂ he ↦ ?_
    simp only [hassignable e he, Bool.not_true, Bool.false_eq_true, if_false]
    refine ⟨_, s₂, node_run _ _, h₂, ?_⟩
    rw [h₂.symbols_eq]
    exact hQ e he
  rw [plainOperand]
  refine yields_bind_of_ok current_run ?_
  rcases hop with rfl | rfl
  all_goals
    simp only [h.current_eq, ht, UnaryOp.marks]
    exact hchange

/-- A parenthesis at the beginning of an operand opens a group of its own. -/
theorem plainOperand_paren {closing : Token} (h : base.At (t :: tokens) s)
    (ht : t.lexeme = .symbol "(") (hclosing : closing.lexeme = .symbol ")")
    (hlimit : base.parenDepth + 1 ≤ ctx.limits.maxParenDepth)
    (hinner : ∀ s', ParserState.At { base with parenDepth := base.parenDepth + 1 }
        (tokens.dropWhile Window.isNewLine) s' →
      Yields (sub (.expression true)) s' { base with parenDepth := base.parenDepth + 1 }
        (closing :: tokens') R)
    (hlinks : ∀ e s', R e → base.At tokens' s' →
      (Parse.links ctx sub e []).Yields s' base out Q) :
    (plainOperand ctx sub).Yields s base out Q := by
  rw [plainOperand]
  refine yields_bind_of_ok current_run ?_
  simp only [h.current_eq, ht]
  refine (enterParen_yields h hlimit).bind fun _ s₁ h₁ _ ↦ ?_
  refine (advance_pass_yields h₁ (isEnd_of_symbol ht)).bind fun _ s₂ h₂ _ ↦ ?_
  refine (hinner s₂ h₂).bind fun e s₃ h₃ he ↦ ?_
  refine (expect_yields h₃ (isEnd_of_symbol hclosing) (is_of_symbol hclosing)).bind
    fun _ s₄ h₄ _ ↦ ?_
  refine (leaveParen_yields h₄ rfl).bind fun _ s₅ h₅ _ ↦ ?_
  exact hlinks e s₅ he h₅

/-! ## Lists -/

section Lists

variable {done : List Expr} {P : List Expr → Prop}

/-- The arguments end at the closing parenthesis. -/
theorem callArgsWithin_stop (h : base.At (t :: tokens) s) (ht : t.lexeme = .symbol ")")
    (hP : P done.reverse) :
    (callArgsWithin sub (fuel + 1) done).Yields s base (t :: tokens) P := by
  rw [callArgsWithin]
  refine (skipNewLines_yields h).bind fun _ s₁ h₁ _ ↦ ?_
  rw [(startsSolid_cons (isNewLine_of_symbol ht)).dropWhile_eq] at h₁
  refine yields_bind_of_ok (is_run _) ?_
  rw [h₁.is_eq, if_pos (is_of_symbol ht)]
  exact yields_pure h₁ hP

/-- An argument and the comma behind it. -/
theorem callArgsWithin_comma {comma : Token} (h : base.At (t :: tokens) s)
    (hsolid : Window.isNewLine t = false) (hopens : t.is ")" = false)
    (hcomma : comma.lexeme = .symbol ",") (hnext : StartsSolid tokens')
    (harg : ∀ s', base.At (t :: tokens) s' →
      Yields (sub (.expression false)) s' base (comma :: tokens') R)
    (hrest : ∀ arg s', R arg → base.At tokens' s' →
      (callArgsWithin sub fuel (arg :: done)).Yields s' base' out P) :
    (callArgsWithin sub (fuel + 1) done).Yields s base' out P := by
  rw [callArgsWithin]
  refine (skipNewLines_yields h).bind fun _ s₁ h₁ _ ↦ ?_
  rw [(startsSolid_cons hsolid).dropWhile_eq] at h₁
  refine yields_bind_of_ok (is_run _) ?_
  rw [h₁.is_eq, if_neg (by simp [hopens])]
  refine (harg s₁ h₁).bind fun arg s₂ h₂ harg ↦ ?_
  refine (skipNewLines_yields h₂).bind fun _ s₃ h₃ _ ↦ ?_
  rw [(startsSolid_cons (isNewLine_of_symbol hcomma)).dropWhile_eq] at h₃
  refine yields_bind_of_ok (is_run _) ?_
  rw [h₃.is_eq, if_pos (is_of_symbol hcomma)]
  refine (advance_pass_yields h₃ (isEnd_of_symbol hcomma)).bind fun _ s₄ h₄ _ ↦ ?_
  rw [hnext.dropWhile_eq] at h₄
  exact hrest arg s₄ harg h₄

/-- An argument before the closing parenthesis. -/
theorem callArgsWithin_last {closing : Token} (h : base.At (t :: tokens) s)
    (hsolid : Window.isNewLine t = false) (hopens : t.is ")" = false)
    (hclosing : closing.lexeme = .symbol ")")
    (harg : ∀ s', base.At (t :: tokens) s' →
      Yields (sub (.expression false)) s' base (closing :: tokens') R)
    (hP : ∀ arg, R arg → P (arg :: done).reverse) :
    (callArgsWithin sub (fuel + 2) done).Yields s base (closing :: tokens') P := by
  rw [callArgsWithin]
  refine (skipNewLines_yields h).bind fun _ s₁ h₁ _ ↦ ?_
  rw [(startsSolid_cons hsolid).dropWhile_eq] at h₁
  refine yields_bind_of_ok (is_run _) ?_
  rw [h₁.is_eq, if_neg (by simp [hopens])]
  refine (harg s₁ h₁).bind fun arg s₂ h₂ harg ↦ ?_
  refine (skipNewLines_yields h₂).bind fun _ s₃ h₃ _ ↦ ?_
  rw [(startsSolid_cons (isNewLine_of_symbol hclosing)).dropWhile_eq] at h₃
  have hcomma : closing.is "," = false := by simp [Token.is, Lexeme.is, hclosing, Lexeme.text]
  refine yields_bind_of_ok (is_run _) ?_
  rw [h₃.is_eq, if_neg (by simp [hcomma])]
  refine yields_bind_of_ok (is_run _) ?_
  rw [h₃.is_eq, is_of_symbol hclosing, if_neg (by simp)]
  exact callArgsWithin_stop h₃ hclosing (hP arg harg)

/-- The items end at the closing bracket. -/
theorem itemsWithin_stop {wanting : Bool} (h : base.At (t :: tokens) s)
    (ht : t.lexeme = .symbol "]") (hP : P done.reverse) :
    (itemsWithin sub (fuel + 1) done wanting).Yields s base (t :: tokens) P := by
  rw [itemsWithin]
  refine (skipNewLines_yields h).bind fun _ s₁ h₁ _ ↦ ?_
  rw [(startsSolid_cons (isNewLine_of_symbol ht)).dropWhile_eq] at h₁
  refine yields_bind_of_ok (is_run _) ?_
  rw [h₁.is_eq, if_pos (is_of_symbol ht)]
  exact yields_pure h₁ hP

/-- An item where one is wanted. -/
theorem itemsWithin_item (h : base.At (t :: tokens) s) (hsolid : Window.isNewLine t = false)
    (hend : t.isEnd = false) (hclosing : t.is "]" = false) (hcomma : t.is "," = false)
    (hitem : ∀ s', base.At (t :: tokens) s' →
      Yields (sub (.expression false)) s' base tokens' R)
    (hrest : ∀ item s', R item → base.At tokens' s' →
      (itemsWithin sub fuel (item :: done) false).Yields s' base' out P) :
    (itemsWithin sub (fuel + 1) done true).Yields s base' out P := by
  rw [itemsWithin]
  refine (skipNewLines_yields h).bind fun _ s₁ h₁ _ ↦ ?_
  rw [(startsSolid_cons hsolid).dropWhile_eq] at h₁
  refine yields_bind_of_ok (is_run _) ?_
  rw [h₁.is_eq, if_neg (by simp [hclosing])]
  refine yields_bind_of_ok isEnded_run ?_
  rw [h₁.isEnded_eq, if_neg (by simp [hend])]
  refine yields_bind_of_ok (is_run _) ?_
  rw [h₁.is_eq, if_neg (by simp [hcomma])]
  exact (hitem s₁ h₁).bind fun item s₂ h₂ hitem ↦ hrest item s₂ hitem h₂

/-- A comma behind an item. -/
theorem itemsWithin_comma (h : base.At (t :: tokens) s) (ht : t.lexeme = .symbol ",")
    (hnext : StartsSolid tokens)
    (hrest : ∀ s', base.At tokens s' → (itemsWithin sub fuel done true).Yields s' base' out P) :
    (itemsWithin sub (fuel + 1) done false).Yields s base' out P := by
  have hclosing : t.is "]" = false := by simp [Token.is, Lexeme.is, ht, Lexeme.text]
  rw [itemsWithin]
  refine (skipNewLines_yields h).bind fun _ s₁ h₁ _ ↦ ?_
  rw [(startsSolid_cons (isNewLine_of_symbol ht)).dropWhile_eq] at h₁
  refine yields_bind_of_ok (is_run _) ?_
  rw [h₁.is_eq, if_neg (by simp [hclosing])]
  refine yields_bind_of_ok isEnded_run ?_
  rw [h₁.isEnded_eq, if_neg (by simp [isEnd_of_symbol ht])]
  refine yields_bind_of_ok (is_run _) ?_
  rw [h₁.is_eq, if_pos (is_of_symbol ht)]
  simp only [Bool.false_eq_true, if_false, pure_bind]
  refine (advance_pass_yields h₁ (isEnd_of_symbol ht)).bind fun _ s₂ h₂ _ ↦ ?_
  rw [hnext.dropWhile_eq] at h₂
  exact hrest s₂ h₂

end Lists

/-! ## Ends of expressions -/

/-- What ends a phrase outside parentheses: a semicolon, a line break, or the end of the text. -/
def EndsPhrase (t : Token) : Prop :=
  t.lexeme = .symbol ";" ∨ t.kind = .newLine ∨ t.kind = .endOfInput

theorem EndsPhrase.opensLink_eq {t : Token} (h : EndsPhrase t) : opensLink t = false := by
  rcases h with h | h | h
  · rw [opensLink_of_symbol h]
    decide
  · simp [opensLink, h]
  · simp [opensLink, h]

theorem EndsPhrase.endsExpression {t : Token} (h : EndsPhrase t) : EndsExpression t := by
  rcases h with h | h | h
  · exact endsExpression_of_symbol h (by decide) (by decide) (by decide)
  · have hkind : t.lexeme.kind = .newLine := h
    simp [EndsExpression, opensOperand, Lexeme.isLiteral, Token.isSymbol, h, hkind]
  · have hkind : t.lexeme.kind = .endOfInput := h
    simp [EndsExpression, opensOperand, Lexeme.isLiteral, Token.isSymbol, h, hkind]

/-! ## Levels -/

/-- At every level of embedding the parser is the one that leaves sections to some other. -/
theorem exists_run_eq (ctx : ParseContext) (levels : Nat) :
    ∃ inner, run ctx levels = runWith ctx inner := by
  cases levels with
  | zero => exact ⟨_, rfl⟩
  | succ levels => exact ⟨_, rfl⟩

end ScriptFront.Parse
