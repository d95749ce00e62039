import ScriptFront.Proofs.Nesting.Hurdles
import ScriptFront.Proofs.Parse.Chains

/-!
# One more level of operands

The productions of operands and expressions, run on the tokens of one more level of nesting: what
they check, and what they ask for inside. As in the steps of successful runs, what comes inside or
after a step is a hypothesis, here about a run that a hurdle decides.
-/

namespace ScriptFront.Parse

variable {ctx : ParseContext} {hurdle : Hurdle} {sub : Subparser} {s base : ParserState} {t : Token}
  {tokens rest out : List Token} {P : Prop} {name : String} {fuel : Nat}

/-! ## Operands -/

theorem operand_meets (hctx : ctx.registry.entries = []) (h : base.At tokens s)
    (hallows : hurdle.Allows ctx.limits .expression (base.expressionDepth + 1))
    (hplain : base.expressionDepth + 1 ≤ ctx.limits.maxExpressionDepth → ∀ s',
      ParserState.At { base with expressionDepth := base.expressionDepth + 1 } tokens s' →
      Meets ctx hurdle (plainOperand ctx sub) s' fun _ s'' ↦
        P ∧ ParserState.At { base with expressionDepth := base.expressionDepth + 1 } out s'') :
    Meets ctx hurdle (operand ctx sub) s fun _ s' ↦ P ∧ base.At out s' :=
  deeper_meets h hallows fun hle s₁ h₁ ↦ .ask (build?_run hctx sub _) (hplain hle s₁ h₁)

/-- A name is an operand by itself. -/
theorem operand_name_yields (hctx : ctx.registry.entries = []) (h : base.At (t :: rest) s)
    (ht : t.lexeme = .ident name) (hfunction : base.symbols.isFunction name = false)
    (hrest : FollowsOperand rest) (hle : base.expressionDepth + 1 ≤ ctx.limits.maxExpressionDepth) :
    (operand ctx sub).Yields s base rest fun e ↦
    e = .mk (.var name) t.position base.symbols.current := by
  obtain ⟨next, others, rfl, hnext⟩ := hrest
  refine operand_yields h (leaves_of_entries hctx) hle fun s₁ h₁ ↦ ?_
  exact plainOperand_name h₁ ht hfunction fun s₂ h₂ ↦ links_stop h₂ hnext rfl

theorem operand_name_meets (hctx : ctx.registry.entries = []) (h : base.At (t :: rest) s)
    (ht : t.lexeme = .ident name) (hfunction : base.symbols.isFunction name = false)
    (hrest : FollowsOperand rest)
    (hallows : hurdle.Allows ctx.limits .expression (base.expressionDepth + 1)) :
    Meets ctx hurdle (operand ctx sub) s fun _ s' ↦
      base.expressionDepth + 1 ≤ ctx.limits.maxExpressionDepth ∧ base.At rest s' := by
  obtain ⟨next, others, rfl, hnext⟩ := hrest
  refine operand_meets hctx h hallows fun hle s₁ h₁ ↦ ?_
  exact (plainOperand_name (Q := fun _ ↦ True) h₁ ht hfunction fun s₂ h₂ ↦
    links_stop h₂ hnext trivial).meets_and hle

/-- A negation is one operand deeper. -/
theorem plainOperand_not_meets (h : base.At (t :: tokens) s) (ht : t.lexeme = .symbol "!")
    (hoperand : ∀ s', base.At tokens s' → Meets ctx hurdle (sub .operand) s' fun _ s'' ↦ P ∧
      base.At out s'') :
    Meets ctx hurdle (plainOperand ctx sub) s fun _ s' ↦ P ∧ base.At out s' := by
  rw [plainOperand]
  refine .ask current_run ?_
  simp only [h.current_eq, ht]
  refine (advance_yields h (isEnd_of_symbol ht)).meets_bind fun _ s₁ h₁ _ ↦ ?_
  exact (hoperand s₁ h₁).bind fun _ s₂ h₂ ↦ .known (node_run _ _) h₂

/-- Before anything that goes on with it, a name is the target of links. -/
theorem plainOperand_name_meets (h : base.At (t :: tokens) s) (ht : t.lexeme = .ident name)
    (hfunction : base.symbols.isFunction name = false)
    (hmodule : base.symbols.isModule name = false)
    (hlinks : ∀ e s', base.At tokens s' →
      Meets ctx hurdle (links ctx sub e []) s' fun _ s'' ↦ P ∧ base.At out s'') :
    Meets ctx hurdle (plainOperand ctx sub) s fun _ s' ↦ P ∧ base.At out s' := by
  have hend : t.isEnd = false := by simp [Token.isEnd, Token.kind, ht, Lexeme.kind]
  rw [plainOperand]
  refine .ask current_run ?_
  simp only [h.current_eq, ht]
  refine (advance_yields h hend).meets_bind fun _ s₁ h₁ _ ↦ ?_
  rw [named]
  refine .ask (symbols_run _) ?_
  simp only [h₁.symbols_eq, hfunction, Bool.false_and, Bool.false_eq_true, if_false]
  refine .ask (is_run _) (.ask (is_run _) (.ask (symbols_run _) ?_))
  simp only [h₁.symbols_eq, hmodule, Bool.or_false, Bool.false_eq_true, if_false]
  exact .ask (node_run _ _) (hlinks _ s₁ h₁)

/-! ## Expressions -/

/-- The beginning of a round of the loop over operands and operators. -/
theorem round_meets {x : Token → Parse Expr} {groups : Nat} {Q : Expr → ParserState → Prop}
    (hctx : ctx.registry.entries = []) (h : base.At (t :: tokens) s)
    (ht : Window.isNewLine t = false)
    (hx : ∀ s', base.At (t :: tokens) s' → Meets ctx hurdle (x t) s' Q) :
    Meets ctx hurdle (do
      if false || 0 < groups then skipNewLines
      ctx.replaceTokens
      let t ← current
      x t) s Q := by
  have hlook : ∀ s', base.At (t :: tokens) s' → Meets ctx hurdle (do
      ctx.replaceTokens
      let t ← current
      x t) s' Q := by
    intro s' h'
    refine .ask (replaceTokens_run hctx) (.ask current_run ?_)
    rw [h'.current_eq]
    exact hx s' h'
  have hskip := skipNewLines_yields h
  rw [(startsSolid_cons ht).dropWhile_eq] at hskip
  exact .branch (fun _ ↦ hskip.meets_bind fun _ s' h' _ ↦ hlook s' h') fun _ ↦ hlook s h

/-- An expression that consists of one operand. -/
theorem expression_meets {next : Token} (hctx : ctx.registry.entries = [])
    (h : base.At (t :: tokens) s)
    (hbegins : BeginsOperand t.lexeme) (ht : t.isSymbol "(" = false) (hnext : EndsExpression next)
    (hoperand : ∀ s', base.At (t :: tokens) s' →
      Meets ctx hurdle (sub .operand) s' fun _ s'' ↦ P ∧ base.At (next :: rest) s'') :
    Meets ctx hurdle (expression ctx sub false) s fun _ s' ↦ P ∧ base.At (next :: rest) s' := by
  refine .ask rounds_run ?_
  rw [expressionWithin]
  refine round_meets hctx h hbegins.isNewLine_eq fun s₁ h₁ ↦ ?_
  rw [if_pos rfl, if_neg (by simp [ht])]
  refine (hoperand s₁ h₁).bind ?_
  rintro e s₂ ⟨hP, h₂⟩
  exact (expressionWithin_done (Q := fun _ ↦ True) h₂ (replaces_of_entries hctx rfl) hnext rfl
    trivial).meets_and hP

/-! ## Lists -/

/-- A list of one item, with nothing behind it that goes on with it. -/
theorem plainOperand_list_meets {opening closing next : Token}
    (h : base.At (opening :: t :: tokens) s)
    (hopening : opening.lexeme = .symbol "[") (hbegins : BeginsOperand t.lexeme)
    (hclosing : closing.lexeme = .symbol "]") (hnext : opensLink next = false)
    (hitem : ∀ s', base.At (t :: tokens) s' →
      Meets ctx hurdle (sub (.expression false)) s' fun _ s'' ↦
      P ∧ base.At (closing :: next :: rest) s'') :
    Meets ctx hurdle (plainOperand ctx sub) s fun _ s' ↦ P ∧ base.At (next :: rest) s' := by
  have hsolid : StartsSolid (t :: tokens) := startsSolid_cons hbegins.isNewLine_eq
  have hitems (fuel : Nat) (s' : ParserState) (h' : base.At (t :: tokens) s') :
      Meets ctx hurdle (itemsWithin sub (fuel + 2) [] true) s' fun _ s'' ↦
        P ∧ base.At (closing :: next :: rest) s'' := by
    have hskip := skipNewLines_yields h'
    rw [hsolid.dropWhile_eq] at hskip
    rw [itemsWithin]
    refine hskip.meets_bind fun _ s₁ h₁ _ ↦ .ask (is_run _) ?_
    rw [h₁.is_eq, if_neg (by simp [Token.is, hbegins.own "]" (by simp [foreignMarks])])]
    refine .ask isEnded_run ?_
    rw [h₁.isEnded_eq, if_neg (by simp [hbegins.isEnd_eq])]
    refine .ask (is_run _) ?_
    rw [h₁.is_eq, if_neg (by simp [Token.is, hbegins.own "," (by simp [foreignMarks])])]
    refine (hitem s₁ h₁).bind ?_
    rintro item s₂ ⟨hP, h₂⟩
    exact (itemsWithin_stop (P := fun _ ↦ True) h₂ hclosing trivial).meets_and hP
  have harray : Meets ctx hurdle (array sub) s fun _ s' ↦ P ∧ base.At (next :: rest) s' := by
    have hopen := expect_pass_yields h (isEnd_of_symbol hopening) (is_of_symbol hopening)
    rw [hsolid.dropWhile_eq] at hopen
    refine .ask position_run (hopen.meets_bind fun _ s₁ h₁ _ ↦ .ask rounds_run ?_)
    refine (hitems _ s₁ h₁).bind ?_
    rintro items s₂ ⟨hP, h₂⟩
    refine (advance_yields h₂ (isEnd_of_symbol hclosing)).meets_bind fun _ s₃ h₃ _ ↦ ?_
    exact .known (node_run _ _) ⟨hP, h₃⟩
  rw [plainOperand]
  refine .ask current_run ?_
  simp only [h.current_eq, hopening]
  refine harray.bind ?_
  rintro e s₁ ⟨hP, h₁⟩
  exact (links_stop (Q := fun _ ↦ True) h₁ hnext trivial).meets_and hP

/-! ## Calls -/

/-- One argument. -/
theorem callArgsWithin_meets {closing : Token} (h : base.At (t :: tokens) s)
    (hbegins : BeginsOperand t.lexeme) (hclosing : closing.lexeme = .symbol ")")
    (harg : ∀ s', base.At (t :: tokens) s' →
      Meets ctx hurdle (sub (.expression false)) s' fun _ s'' ↦ P ∧ base.At (closing :: rest) s'') :
    Meets ctx hurdle (callArgsWithin sub (fuel + 2) []) s fun _ s' ↦ P ∧
    base.At (closing :: rest) s' := by
  have hskip := skipNewLines_yields h
  rw [(startsSolid_cons hbegins.isNewLine_eq).dropWhile_eq] at hskip
  rw [callArgsWithin]
  refine hskip.meets_bind fun _ s₁ h₁ _ ↦ .ask (is_run _) ?_
  rw [h₁.is_eq, if_neg (by simp [Token.is, hbegins.own ")" (by simp [foreignMarks])])]
  refine (harg s₁ h₁).bind ?_
  rintro arg s₂ ⟨hP, h₂⟩
  have hskip' := skipNewLines_yields h₂
  rw [(startsSolid_cons (isNewLine_of_symbol hclosing)).dropWhile_eq] at hskip'
  have hcomma : closing.is "," = false := by simp [Token.is, Lexeme.is, hclosing, Lexeme.text]
  refine hskip'.meets_bind fun _ s₃ h₃ _ ↦ .ask (is_run _) ?_
  rw [h₃.is_eq, if_neg (by simp [hcomma])]
  refine .ask (is_run _) ?_
  rw [h₃.is_eq, is_of_symbol hclosing, if_neg (by simp)]
  exact (callArgsWithin_stop (P := fun _ ↦ True) h₃ hclosing trivial).meets_and hP

theorem callArgs_meets {opening closing : Token} (h : base.At (opening :: tokens) s)
    (hopening : opening.lexeme = .symbol "(") (hclosing : closing.lexeme = .symbol ")")
    (hsolid : StartsSolid tokens) (hallows : hurdle.Allows ctx.limits .call (base.callDepth + 1))
    (hargs : base.callDepth + 1 ≤ ctx.limits.maxCallDepth → ∀ fuel s',
      ParserState.At { base with callDepth := base.callDepth + 1 } tokens s' →
      Meets ctx hurdle (callArgsWithin sub (fuel + 2) []) s' fun _ s'' ↦
        P ∧ ParserState.At { base with callDepth := base.callDepth + 1 } (closing :: rest) s'') :
    Meets ctx hurdle (callArgs ctx sub) s fun _ s' ↦ P ∧ base.At rest s' := by
  have hopen := expect_pass_yields h (isEnd_of_symbol hopening) (is_of_symbol hopening)
  rw [hsolid.dropWhile_eq] at hopen
  refine hopen.meets_bind fun _ s₁ h₁ _ ↦ (enterCall_meets h₁ hallows).bind ?_
  rintro _ s₂ ⟨hle, h₂⟩
  refine .ask rounds_run ((hargs hle _ s₂ h₂).bind ?_)
  rintro args s₃ ⟨hP, h₃⟩
  refine (advance_yields h₃ (isEnd_of_symbol hclosing)).meets_bind fun _ s₄ h₄ _ ↦ ?_
  refine (leaveCall_yields h₄ rfl).meets_bind fun _ s₅ h₅ _ ↦ ?_
  exact .pure ⟨hP, h₅⟩

/-- A call with nothing behind it that goes on with it. -/
theorem links_call_meets {e : Expr} {opening next : Token} (h : base.At (opening :: tokens) s)
    (hopening : opening.lexeme = .symbol "(") (hnext : opensLink next = false)
    (hallows : hurdle.Allows ctx.limits .memberAccess 1)
    (hargs : ∀ s', base.At (opening :: tokens) s' →
      Meets ctx hurdle (callArgs ctx sub) s' fun _ s'' ↦ P ∧ base.At (next :: rest) s'') :
    Meets ctx hurdle (links ctx sub e []) s fun _ s' ↦ P ∧ base.At (next :: rest) s' := by
  refine .ask rounds_run ?_
  rw [linksWithin]
  refine .ask current_run ?_
  rw [h.current_eq, if_neg (by simp [isSymbol_eq_of_lexeme hopening]),
    if_neg (by simp [isSymbol_eq_of_lexeme hopening]), if_pos (isSymbol_iff.mpr hopening)]
  refine (limit_meets hallows).bind ?_
  rintro _ s₁ ⟨_, hs₁⟩
  subst hs₁
  refine (hargs _ h).bind ?_
  rintro args s₂ ⟨hP, h₂⟩
  refine .ask scope_run ?_
  exact (linksWithin_stop (Q := fun _ ↦ True) h₂ hnext trivial).meets_and hP

/-! ## Members -/

theorem linksWithin_member_meets {e : Expr} {start : Position} {links : Nat} {dot word : Token}
    {Q : Expr → ParserState → Prop} (h : base.At (dot :: word :: tokens) s)
    (hdot : dot.lexeme = .symbol ".") (hword : word.lexeme = .ident name)
    (hallows : hurdle.Allows ctx.limits .memberAccess (links + 1))
    (hrest : links + 1 ≤ ctx.limits.maxMemberDepth → ∀ e s', base.At tokens s' →
      Meets ctx hurdle (linksWithin ctx sub start fuel (links + 1) e []) s' Q) :
    Meets ctx hurdle (linksWithin ctx sub start (fuel + 1) links e []) s Q := by
  have hsolid : Window.isNewLine word = false := by
    simp [Window.isNewLine, Token.kind, hword, Lexeme.kind]
  rw [linksWithin]
  refine .ask current_run ?_
  rw [h.current_eq, if_pos (isSymbol_iff.mpr hdot)]
  refine (limit_meets hallows).bind ?_
  rintro _ s₁ ⟨hle, hs₁⟩
  subst hs₁
  have hpass := advance_pass_yields h (isEnd_of_symbol hdot)
  rw [(startsSolid_cons hsolid).dropWhile_eq] at hpass
  refine hpass.meets_bind fun _ s₂ h₂ _ ↦
    (expectName_yields h₂ hword).meets_bind fun found s₃ h₃ _ ↦ ?_
  exact .ask (node_run _ _) (hrest hle _ s₃ h₃)

/-! ## Parentheses -/

/-- A parenthesis where an operand is wanted opens a group. -/
theorem expressionWithin_open_meets {groups : Nat} {y : Yard} {Q : Expr → ParserState → Prop}
    (hctx : ctx.registry.entries = []) (h : base.At (t :: tokens) s) (ht : t.lexeme = .symbol "(")
    (hsolid : StartsSolid tokens)
    (hallows : hurdle.Allows ctx.limits .parenthesis (base.parenDepth + 1))
    (hrest : base.parenDepth + 1 ≤ ctx.limits.maxParenDepth → ∀ s',
      ParserState.At { base with parenDepth := base.parenDepth + 1 } tokens s' →
      Meets ctx hurdle (expressionWithin ctx sub false fuel (groups + 1) true y.openParen) s' Q) :
    Meets ctx hurdle (expressionWithin ctx sub false (fuel + 1) groups true y) s Q := by
  rw [expressionWithin]
  refine round_meets hctx h (isNewLine_of_symbol ht) fun s₁ h₁ ↦ ?_
  rw [if_pos rfl, if_pos (isSymbol_iff.mpr ht)]
  refine (enterParen_meets h₁ hallows).bind ?_
  rintro _ s₂ ⟨hle, h₂⟩
  have hpass := advance_pass_yields h₂ (isEnd_of_symbol ht)
  rw [hsolid.dropWhile_eq] at hpass
  exact hpass.meets_bind fun _ s₃ h₃ _ ↦ hrest hle s₃ h₃

end ScriptFront.Parse
