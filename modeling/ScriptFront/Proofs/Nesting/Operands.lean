import ScriptFront.Proofs.Nesting.Steps
import ScriptFront.Proofs.Nesting.Texts
import ScriptFront.Proofs.Parse.Scripts

/-!
# Nested operands

The runs on negations, lists, calls, parentheses and chains of members that are nested as deep as
one likes, by induction on the levels. Inside a level there is either one more level or, at the
bottom, a name or nothing. The check at the bottom is the last one; the hurdle is taken if it was
passed.
-/

namespace ScriptFront.Parse

variable {ctx : ParseContext} {hurdle : Hurdle} {inner : (fuel : Nat) → List Token → Parse Expr}
  {sub : Subparser} {s base base' : ParserState} {next : Token} {tokens rest out : List Token}
  {name : String} {n need k fuel : Nat}

/-! ## Tokens in layers -/

/-- The tokens of one more layer. -/
theorem exists_layer {opening core : List Lexeme} {closing : Lexeme}
    (h : tokens.map Token.lexeme = wrapped opening core [closing] (n + 1)) :
    ∃ front middle last, tokens = front ++ (middle ++ [last]) ∧ front.map Token.lexeme = opening ∧
      middle.map Token.lexeme = wrapped opening core [closing] n ∧ last.lexeme = closing := by
  rw [wrapped, List.append_assoc] at h
  obtain ⟨front, others, rfl, hfront, hothers⟩ := List.map_eq_append_iff.mp h
  obtain ⟨middle, back, rfl, hmiddle, hback⟩ := List.map_eq_append_iff.mp hothers
  obtain ⟨last, none, rfl, hlast, hnone⟩ := List.map_eq_cons_iff.mp hback
  obtain rfl := List.map_eq_nil_iff.mp hnone
  exact ⟨front, middle, last, rfl, hfront, hmiddle, hlast⟩

/-- The same, if one token opens the layer. -/
theorem exists_enclosed {opening closing : Lexeme} {core : List Lexeme}
    (h : tokens.map Token.lexeme = wrapped [opening] core [closing] (n + 1)) :
    ∃ first middle last, tokens = first :: (middle ++ [last]) ∧ first.lexeme = opening ∧
      middle.map Token.lexeme = wrapped [opening] core [closing] n ∧ last.lexeme = closing := by
  obtain ⟨front, middle, last, rfl, hfront, hmiddle, hlast⟩ := exists_layer h
  obtain ⟨first, none, rfl, hfirst, hnone⟩ := List.map_eq_cons_iff.mp hfront
  obtain rfl := List.map_eq_nil_iff.mp hnone
  exact ⟨first, middle, last, rfl, hfirst, hmiddle, hlast⟩

/-- The same, if two tokens do. -/
theorem exists_enclosed_two {word opening closing : Lexeme} {core : List Lexeme}
    (h : tokens.map Token.lexeme = wrapped [word, opening] core [closing] (n + 1)) :
    ∃ first second middle last, tokens = first :: second :: (middle ++ [last]) ∧
    first.lexeme = word ∧
      second.lexeme = opening ∧ middle.map Token.lexeme = wrapped [word, opening] core [closing] n ∧
      last.lexeme = closing := by
  obtain ⟨front, middle, last, rfl, hfront, hmiddle, hlast⟩ := exists_layer h
  obtain ⟨first, others, rfl, hfirst, hothers⟩ := List.map_eq_cons_iff.mp hfront
  obtain ⟨second, none, rfl, hsecond, hnone⟩ := List.map_eq_cons_iff.mp hothers
  obtain rfl := List.map_eq_nil_iff.mp hnone
  exact ⟨first, second, middle, last, rfl, hfirst, hsecond, hmiddle, hlast⟩

theorem isSymbol_of_name {t : Token} {text : String} (ht : t.lexeme = .ident name) :
    t.isSymbol text = false := by
  simp [Token.isSymbol, Token.kind, ht, Lexeme.kind]

/-- Layers around a name begin with the mark of a layer or with the name. -/
theorem exists_first {mark : String} {more closing : List Lexeme} (hname : IsName name)
    (hmark : mark ∉ foreignMarks)
    (h : tokens.map Token.lexeme = wrapped (.symbol mark :: more) [.ident name] closing n) :
    ∃ t rest, tokens = t :: rest ∧ BeginsOperand t.lexeme ∧
    (mark ≠ "(" → t.isSymbol "(" = false) := by
  cases n with
  | zero =>
    obtain ⟨t, rest, rfl, ht, -⟩ := List.map_eq_cons_iff.mp h
    exact ⟨t, rest, rfl, ht ▸ beginsOperand_name hname, fun _ ↦ isSymbol_of_name ht⟩
  | succ n =>
    obtain ⟨t, rest, rfl, ht, -⟩ := List.map_eq_cons_iff.mp h
    refine ⟨t, rest, rfl, ht ▸ beginsOperand_symbol hmark, fun hne ↦ ?_⟩
    rw [isSymbol_eq_of_lexeme ht]
    simpa using hne

theorem followsOperand_symbol {t : Token} {text : String} (ht : t.lexeme = .symbol text)
    (htext : text ∉ linkMarks) : FollowsOperand (t :: rest) :=
  ⟨t, rest, rfl, by rw [opensLink_of_symbol ht, List.contains_eq_mem, decide_eq_false htext]⟩

/-! ## Negations and lists -/

/-- The name inside of all layers. -/
theorem core_meets (hctx : ctx.registry.entries = []) (hcovers : Covers ctx base 1 fuel)
    (hvars : base.symbols.OnlyVars) (h : base.At (tokens ++ rest) s)
    (htokens : tokens.map Token.lexeme = [.ident name]) (hrest : FollowsOperand rest) :
    Meets ctx ⟨.expression, base.expressionDepth + 1⟩ (runWith ctx inner fuel .operand) s fun _ s' ↦
      base.expressionDepth + 1 ≤ ctx.limits.maxExpressionDepth ∧ base.At rest s' := by
  obtain ⟨word, none, rfl, hword, hnone⟩ := List.map_eq_cons_iff.mp htokens
  obtain rfl := List.map_eq_nil_iff.mp hnone
  obtain ⟨fuel, rfl, -⟩ := hcovers.exists_succ
  exact operand_name_meets hctx h hword (hvars.isFunction_eq name) hrest
    (Hurdle.allows_of_le (Nat.le_refl _))

/-- One operand more is counted for each negation, and one for the name. -/
theorem negations_meet (hctx : ctx.registry.entries = []) (hcovers : Covers ctx base 1 fuel)
    (hvars : base.symbols.OnlyVars) (h : base.At (tokens ++ rest) s)
    (htokens : tokens.map Token.lexeme = wrapped [.symbol "!"] [.ident name] [] n)
    (hrest : FollowsOperand rest) (hneed : need = base.expressionDepth + (n + 1)) :
    Meets ctx ⟨.expression, need⟩ (runWith ctx inner fuel .operand) s fun _ s' ↦
      need ≤ ctx.limits.maxExpressionDepth ∧ base.At rest s' := by
  induction n generalizing base s tokens fuel with
  | zero => exact hneed ▸ core_meets hctx hcovers hvars h htokens hrest
  | succ n ih =>
    rw [wrapped, List.append_nil, List.singleton_append] at htokens
    obtain ⟨mark, others, rfl, hmark, hothers⟩ := List.map_eq_cons_iff.mp htokens
    obtain ⟨fuel, rfl, hinside⟩ := hcovers.exists_succ
    refine operand_meets hctx h (Hurdle.allows_of_le (by omega)) fun hle s₁ h₁ ↦ ?_
    refine plainOperand_not_meets h₁ hmark fun s₂ h₂ ↦ ?_
    exact ih ((hinside.openOperand hle).mono (by omega)) hvars h₂ hothers
      (hneed.trans (Nat.succ_add_eq_add_succ _ _).symm)

/-- One operand more is counted for each list, and one for the name. -/
theorem lists_meet (hctx : ctx.registry.entries = []) (hname : IsName name)
    (hcovers : Covers ctx base 1 fuel)
    (hvars : base.symbols.OnlyVars) (h : base.At (tokens ++ rest) s)
    (htokens : tokens.map Token.lexeme = wrapped [.symbol "["] [.ident name] [.symbol "]"] n)
    (hrest : FollowsOperand rest) (hneed : need = base.expressionDepth + (n + 1)) :
    Meets ctx ⟨.expression, need⟩ (runWith ctx inner fuel .operand) s fun _ s' ↦
      need ≤ ctx.limits.maxExpressionDepth ∧ base.At rest s' := by
  induction n generalizing base s tokens rest fuel with
  | zero => exact hneed ▸ core_meets hctx hcovers hvars h htokens hrest
  | succ n ih =>
    obtain ⟨opening, middle, closing, rfl, hopening, hmiddle, hclosing⟩ := exists_enclosed htokens
    obtain ⟨next, rest, rfl, hnext⟩ := hrest
    obtain ⟨fuel, rfl, hinside⟩ := hcovers.exists_succ
    obtain ⟨first, others, rfl, hbegins, hparen⟩ := exists_first hname (by decide) hmiddle
    rw [List.cons_append, List.append_assoc, List.singleton_append] at h
    refine operand_meets hctx h (Hurdle.allows_of_le (by omega)) fun hle s₁ h₁ ↦ ?_
    obtain ⟨fuel, rfl, hoperand⟩ := (hinside.openOperand hle).exists_succ
    refine plainOperand_list_meets h₁ hopening hbegins hclosing hnext fun s₂ h₂ ↦ ?_
    refine expression_meets hctx h₂ hbegins (hparen (by decide))
      (endsExpression_of_symbol hclosing (by decide) (by decide) (by decide)) fun s₃ h₃ ↦ ?_
    exact ih hoperand hvars h₃ hmiddle (followsOperand_symbol hclosing (by decide))
      (hneed.trans (Nat.succ_add_eq_add_succ _ _).symm)

/-! ## Calls -/

/-- One call, which is an operand and a link of the name before it. -/
theorem operand_call_meets {word opening closing : Token} (hctx : ctx.registry.entries = [])
    (hvars : base.symbols.OnlyVars) (h : base.At (word :: opening :: tokens) s)
    (hword : word.lexeme = .ident name) (hopening : opening.lexeme = .symbol "(")
    (hclosing : closing.lexeme = .symbol ")") (hsolid : StartsSolid tokens)
    (hrest : FollowsOperand rest)
    (hoperand : hurdle.Allows ctx.limits .expression (base.expressionDepth + 1))
    (hlink : hurdle.Allows ctx.limits .memberAccess 1)
    (hcall : hurdle.Allows ctx.limits .call (base.callDepth + 1))
    (hargs : base.expressionDepth + 1 ≤ ctx.limits.maxExpressionDepth →
      base.callDepth + 1 ≤ ctx.limits.maxCallDepth → ∀ fuel s', ParserState.At { base with
        expressionDepth := base.expressionDepth + 1, callDepth := base.callDepth + 1 } tokens s' →
      Meets ctx hurdle (callArgsWithin sub (fuel + 2) []) s' fun _ s'' ↦ P ∧
      ParserState.At { base with
        expressionDepth := base.expressionDepth + 1, callDepth := base.callDepth + 1 }
          (closing :: rest) s'') :
    Meets ctx hurdle (operand ctx sub) s fun _ s' ↦ P ∧ base.At rest s' := by
  obtain ⟨next, rest, rfl, hnext⟩ := hrest
  refine operand_meets hctx h hoperand fun hle s₁ h₁ ↦ ?_
  refine plainOperand_name_meets h₁ hword (hvars.isFunction_eq name) (hvars.isModule_eq name)
    fun e s₂ h₂ ↦ ?_
  refine links_call_meets h₂ hopening hnext hlink fun s₃ h₃ ↦ ?_
  exact callArgs_meets h₃ hopening hclosing hsolid hcall (hargs hle)

/-- One argument list is counted for each call. -/
theorem calls_meet (hctx : ctx.registry.entries = []) (hname : IsName name)
    (hcovers : Covers ctx base 1 fuel)
    (hvars : base.symbols.OnlyVars) (h : base.At (tokens ++ rest) s)
    (htokens : tokens.map Token.lexeme = wrapped [.ident name, .symbol "("] []
      [.symbol ")"] (n + 1))
    (hrest : FollowsOperand rest) (hneed : need = base.callDepth + (n + 1))
    (hoperands : base.expressionDepth + (n + 1) ≤ ctx.limits.maxExpressionDepth)
    (hlinks : 1 ≤ ctx.limits.maxMemberDepth) :
    Meets ctx ⟨.call, need⟩ (runWith ctx inner fuel .operand) s fun _ s' ↦
      need ≤ ctx.limits.maxCallDepth ∧ base.At rest s' := by
  induction n generalizing base s tokens rest fuel with
  | zero =>
    obtain ⟨word, opening, middle, closing, rfl, hword, hopening, hmiddle, hclosing⟩ :=
      exists_enclosed_two htokens
    obtain rfl := List.map_eq_nil_iff.mp hmiddle
    obtain ⟨fuel, rfl, -⟩ := hcovers.exists_succ
    refine operand_call_meets hctx hvars h hword hopening hclosing
      (startsSolid_cons (isNewLine_of_symbol hclosing)) hrest (.inl hoperands) (.inl hlinks)
      (Hurdle.allows_of_le (by omega)) fun _ hle fuel s₁ h₁ ↦ ?_
    exact (callArgsWithin_stop (P := fun _ ↦ True) h₁ hclosing trivial).meets_and (hneed ▸ hle)
  | succ n ih =>
    obtain ⟨word, opening, middle, closing, rfl, hword, hopening, hmiddle, hclosing⟩ :=
      exists_enclosed_two htokens
    obtain ⟨first, others, rfl, hfirst, -⟩ := List.map_eq_cons_iff.mp hmiddle
    obtain ⟨fuel, rfl, hinside⟩ := hcovers.exists_succ
    have hbegins : BeginsOperand first.lexeme := hfirst ▸ beginsOperand_name hname
    rw [List.cons_append, List.cons_append, List.append_assoc, List.singleton_append] at h
    refine operand_call_meets hctx hvars h hword hopening hclosing
      (startsSolid_cons hbegins.isNewLine_eq) hrest (.inl (Nat.le_trans (by omega) hoperands))
      (.inl hlinks)
      (Hurdle.allows_of_le (by omega)) fun hle _ _ s₁ h₁ ↦ ?_
    obtain ⟨fuel, rfl, hoperand⟩ := (hinside.openOperand hle).exists_succ
    refine callArgsWithin_meets h₁ hbegins hclosing fun s₂ h₂ ↦ ?_
    refine expression_meets hctx h₂ hbegins (isSymbol_of_name hfirst)
      (endsExpression_of_symbol hclosing (by decide) (by decide) (by decide)) fun s₃ h₃ ↦ ?_
    exact ih hoperand hvars h₃ hmiddle (followsOperand_symbol hclosing (by decide))
      (hneed.trans (Nat.succ_add_eq_add_succ _ _).symm)
      (Nat.le_trans (Nat.le_of_eq (Nat.succ_add_eq_add_succ _ _)) hoperands)

/-! ## Members -/

/-- One link is counted for each member. -/
theorem linksWithin_members_meet {e : Expr} {start : Position} {links : Nat}
    (h : base.At (tokens ++ rest) s)
    (htokens : tokens.map Token.lexeme = wrapped [.symbol ".", .ident name] [] [] n)
    (hrest : FollowsOperand rest) (hfuel : tokens.length < fuel)
    (hlinks : links ≤ ctx.limits.maxMemberDepth)
    (hneed : need = links + n) :
    Meets ctx ⟨.memberAccess, need⟩ (linksWithin ctx sub start fuel links e []) s fun _ s' ↦
      need ≤ ctx.limits.maxMemberDepth ∧ base.At rest s' := by
  induction n generalizing s tokens fuel links e with
  | zero =>
    obtain rfl := List.map_eq_nil_iff.mp htokens
    obtain ⟨next, rest, rfl, hnext⟩ := hrest
    obtain ⟨fuel, rfl⟩ := Nat.exists_eq_succ_of_ne_zero (Nat.ne_zero_of_lt hfuel)
    exact (linksWithin_stop (Q := fun _ ↦ True) h hnext trivial).meets_and (hneed ▸ hlinks)
  | succ n ih =>
    rw [wrapped, List.append_nil] at htokens
    obtain ⟨dot, others, rfl, hdot, hothers⟩ := List.map_eq_cons_iff.mp htokens
    obtain ⟨word, others, rfl, hword, hothers⟩ := List.map_eq_cons_iff.mp hothers
    rw [List.length_cons, List.length_cons] at hfuel
    obtain ⟨fuel, rfl⟩ := Nat.exists_eq_succ_of_ne_zero (Nat.ne_zero_of_lt hfuel)
    refine linksWithin_member_meets h hdot hword (Hurdle.allows_of_le (by omega))
      fun hle e' s₁ h₁ ↦ ?_
    exact ih h₁ hothers (by omega) hle (by omega)

/-- A name with members behind it. -/
theorem members_meet (hctx : ctx.registry.entries = []) (hcovers : Covers ctx base 1 fuel)
    (hvars : base.symbols.OnlyVars) {word : Token} {first : String}
    (h : base.At (word :: (tokens ++ rest)) s)
    (hword : word.lexeme = .ident first)
    (htokens : tokens.map Token.lexeme = wrapped [.symbol ".", .ident name] [] [] n)
    (hrest : FollowsOperand rest) (hneed : need = n)
    (hoperand : base.expressionDepth + 1 ≤ ctx.limits.maxExpressionDepth) :
    Meets ctx ⟨.memberAccess, need⟩ (runWith ctx inner fuel .operand) s fun _ s' ↦
      need ≤ ctx.limits.maxMemberDepth ∧ base.At rest s' := by
  obtain ⟨fuel, rfl, -⟩ := hcovers.exists_succ
  refine operand_meets hctx h (.inl hoperand) fun _ s₁ h₁ ↦ ?_
  refine plainOperand_name_meets h₁ hword (hvars.isFunction_eq first) (hvars.isModule_eq first)
    fun e s₂ h₂ ↦ .ask rounds_run ?_
  have hfuel := h₂.length_lt_rounds
  rw [List.length_append] at hfuel
  exact linksWithin_members_meet h₂ htokens hrest (by omega) (Nat.zero_le _) (by omega)

/-! ## Parentheses -/

/-- An operand in a group of its own is the group. -/
theorem closeParen_pushOperand (y : Yard) (e : Expr) :
    (y.openParen.pushOperand e).closeParen = some (e, y) := by
  simp [Yard.openParen, Yard.pushOperand, Yard.closeParen, Yard.settle]

/-- One parenthesis is counted for each group, and none for the operands in them, which the same
loop reads. -/
theorem groups_meet {groups : Nat} {y : Yard} (hctx : ctx.registry.entries = [])
    (hname : IsName name)
    (hvars : base.symbols.OnlyVars) (h : base.At (tokens ++ rest) s)
    (htokens : tokens.map Token.lexeme = wrapped [.symbol "("] [.ident name] [.symbol ")"] n)
    (hrest : FollowsOperand rest) (hfuel : (tokens ++ rest).length < fuel)
    (hneed : need = base.parenDepth + n) (hparens : base.parenDepth ≤ ctx.limits.maxParenDepth)
    (hoperand : base.expressionDepth + 1 ≤ ctx.limits.maxExpressionDepth)
    (hcontinue : need ≤ ctx.limits.maxParenDepth → ∀ e s' fuel', rest.length < fuel' →
      base.At rest s' →
      (expressionWithin ctx (runWith ctx inner (k + 1)) false fuel' groups false
        (y.pushOperand e)).Yields
        s' base' out fun _ ↦ True) :
    Meets ctx ⟨.parenthesis, need⟩
      (expressionWithin ctx (runWith ctx inner (k + 1)) false fuel groups true y) s
      fun _ s' ↦ need ≤ ctx.limits.maxParenDepth ∧ base'.At out s' := by
  induction n generalizing base s tokens rest fuel groups y with
  | zero =>
    obtain ⟨word, none, rfl, hword, hnone⟩ := List.map_eq_cons_iff.mp htokens
    obtain rfl := List.map_eq_nil_iff.mp hnone
    obtain ⟨fuel, rfl⟩ := Nat.exists_eq_succ_of_ne_zero (Nat.ne_zero_of_lt hfuel)
    have hbegins : BeginsOperand word.lexeme := hword ▸ beginsOperand_name hname
    have htaken : need ≤ ctx.limits.maxParenDepth := hneed ▸ hparens
    exact (expressionWithin_operand h
      (replaces_of_entries hctx (roundTokens_cons hbegins.isNewLine_eq))
      (isSymbol_of_name hword)
      (fun s₁ h₁ ↦ operand_name_yields hctx h₁ hword (hvars.isFunction_eq name) hrest hoperand)
      fun e s₁ _ h₁ ↦ hcontinue htaken e s₁ fuel (Nat.lt_of_succ_lt_succ hfuel) h₁).meets_and htaken
  | succ n ih =>
    obtain ⟨opening, middle, closing, rfl, hopening, hmiddle, hclosing⟩ := exists_enclosed htokens
    obtain ⟨first, others, rfl, hbegins, -⟩ := exists_first hname (by decide) hmiddle
    obtain ⟨fuel, rfl⟩ := Nat.exists_eq_succ_of_ne_zero (Nat.ne_zero_of_lt hfuel)
    rw [List.cons_append, List.append_assoc, List.singleton_append] at h hfuel
    refine expressionWithin_open_meets hctx h hopening (startsSolid_cons hbegins.isNewLine_eq)
      (Hurdle.allows_of_le (by omega)) fun hle s₁ h₁ ↦ ?_
    have hinside :
        ({ base with parenDepth := base.parenDepth + 1 } : ParserState).symbols.OnlyVars := hvars
    -- behind the group inside, the loop closes the group around it, and then goes on as it did
    -- before
    refine ih hinside h₁ hmiddle (followsOperand_symbol hclosing (by decide))
      (Nat.lt_of_succ_lt_succ hfuel)
      (hneed.trans (Nat.succ_add_eq_add_succ _ _).symm) hle hoperand
      fun htaken e s₂ fuel' hfuel' h₂ ↦ ?_
    obtain ⟨fuel', rfl⟩ := Nat.exists_eq_succ_of_ne_zero (Nat.ne_zero_of_lt hfuel')
    obtain ⟨next, rest, rfl, hnext⟩ := hrest
    refine expressionWithin_close (R := fun _ ↦ True) h₂
      (replaces_of_entries hctx (roundTokens_cons (isNewLine_of_symbol hclosing))) hclosing
      (closeParen_pushOperand y e) rfl hoperand (fun s₃ h₃ ↦ links_stop h₃ hnext trivial)
      fun e' s₃ _ h₃ ↦ ?_
    exact hcontinue htaken e' s₃ fuel' (Nat.lt_of_succ_lt_succ hfuel') h₃

/-- An expression of groups around a name. -/
theorem expression_groups_meet (hctx : ctx.registry.entries = []) (hname : IsName name)
    (hvars : base.symbols.OnlyVars) {next : Token} (h : base.At (tokens ++ next :: rest) s)
    (htokens : tokens.map Token.lexeme = wrapped [.symbol "("] [.ident name] [.symbol ")"] n)
    (hlink : opensLink next = false) (hnext : EndsExpression next)
    (hneed : need = base.parenDepth + n)
    (hparens : base.parenDepth ≤ ctx.limits.maxParenDepth)
    (hoperand : base.expressionDepth + 1 ≤ ctx.limits.maxExpressionDepth) :
    Meets ctx ⟨.parenthesis, need⟩ (expression ctx (runWith ctx inner (k + 1)) false) s fun _ s' ↦
      need ≤ ctx.limits.maxParenDepth ∧ base.At (next :: rest) s' := by
  refine .ask rounds_run
    (groups_meet hctx hname hvars h htokens ⟨next, rest, rfl, hlink⟩ h.length_lt_rounds
    hneed hparens hoperand fun _ e s₁ fuel hfuel h₁ ↦ ?_)
  obtain ⟨fuel, rfl⟩ := Nat.exists_eq_succ_of_ne_zero (Nat.ne_zero_of_lt hfuel)
  exact expressionWithin_done h₁ (replaces_of_entries hctx rfl) hnext rfl trivial

end ScriptFront.Parse
