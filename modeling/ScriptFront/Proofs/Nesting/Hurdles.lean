import ScriptFront.Proofs.Agreement
import ScriptFront.Proofs.Parse.Yields

/-!
# Runs that a single limit decides

A parse of deeply nested text goes past many checks: operands, links, argument lists and blocks are
counted side by side, each against its own limit. A *hurdle* is the check that decides, namely the
kind of nesting and the number of levels of it that the text needs. If so many levels are within
the limit the hurdle is taken, and otherwise the parse fails there.

`Parse.Meets` is the judgment for this: the computation succeeds, or the hurdle is not taken and the
failure is the one of its limit. All other checks are passed, which `Hurdle.Allows` says of them. At
the deepest point of the text the check that was passed says that the hurdle is taken.
-/

namespace ScriptFront

/-- The bound on a kind of nesting. -/
def Limits.bound (limits : Limits) : Nesting → Nat
  | .interpolation => limits.maxInterpolationDepth
  | .statement => limits.maxStatementDepth
  | .call => limits.maxCallDepth
  | .memberAccess => limits.maxMemberDepth
  | .parenthesis => limits.maxParenDepth
  | .expression => limits.maxExpressionDepth

/-- A kind of nesting, and the number of levels that are needed. -/
structure Hurdle where
  /-- The kind of nesting. -/
  what : Nesting
  /-- How many levels there are. -/
  need : Nat

namespace Hurdle

variable {hurdle : Hurdle} {limits : Limits} {what : Nesting} {depth : Nat}

/-- The levels are within their limit. -/
def Taken (hurdle : Hurdle) (limits : Limits) : Prop := hurdle.need ≤ limits.bound hurdle.what

/-- The levels are beyond their limit, and the failure says so. -/
def Fails (hurdle : Hurdle) (limits : Limits) (e : ScriptError) : Prop :=
  ¬ hurdle.Taken limits ∧ e.cause = .nestingTooDeep hurdle.what (limits.bound hurdle.what)

/-- So many levels are within their limit, unless this is the hurdle and it is not taken. -/
def Allows (hurdle : Hurdle) (limits : Limits) (what : Nesting) (depth : Nat) : Prop :=
  depth ≤ limits.bound what ∨ what = hurdle.what ∧ ¬ hurdle.Taken limits

/-- The levels up to those that are needed are what the hurdle is about. -/
theorem allows_of_le {need : Nat} (hle : depth ≤ need) :
    (mk what need).Allows limits what depth := by
  by_cases htaken : need ≤ limits.bound what
  · exact .inl (Nat.le_trans hle htaken)
  · exact .inr ⟨rfl, htaken⟩

end Hurdle

namespace Parse

variable {α β : Type} {ctx : ParseContext} {hurdle : Hurdle} {what : Nesting} {depth : Nat}
  {x : Parse α} {f : α → Parse β} {s base base' : ParserState} {tokens tokens' : List Token}
  {P : Prop} {Q : α → ParserState → Prop} {R : β → ParserState → Prop}

/-- Run in the state `s`, the computation succeeds with a result and a state that satisfy `Q`, or
the hurdle is not taken. -/
abbrev Meets (ctx : ParseContext) (hurdle : Hurdle) (x : Parse α) (s : ParserState)
    (Q : α → ParserState → Prop) : Prop := Ensures (hurdle.Fails ctx.limits) x s Q

theorem Yields.meets {C : α → Prop} (h : x.Yields s base tokens C) :
    Meets ctx hurdle x s fun a s' ↦ base.At tokens s' ∧ C a := by
  obtain ⟨a, s', hx, hat, hC⟩ := h
  exact .known hx ⟨hat, hC⟩

/-- A first part that cannot fail. -/
theorem Yields.meets_bind {C : α → Prop} (h : x.Yields s base tokens C)
    (hf : ∀ a s', base.At tokens s' → C a → Meets ctx hurdle (f a) s' R) :
    Meets ctx hurdle (x >>= f) s R := h.meets.bind fun a s' hs' ↦ hf a s' hs'.1 hs'.2

/-- A last part that cannot fail, with what is known before it. -/
theorem Yields.meets_and {C : α → Prop} (h : x.Yields s base tokens C) (hP : P) :
    Meets ctx hurdle x s fun _ s' ↦ P ∧ base.At tokens s' := h.meets.mono fun _ _ hs' ↦ ⟨hP, hs'.1⟩

/-! ## Checks -/

theorem limit_meets (hallows : hurdle.Allows ctx.limits what depth) :
    Meets ctx hurdle (ParseContext.limit depth (ctx.limits.bound what) what) s fun _ s' ↦
      depth ≤ ctx.limits.bound what ∧ s' = s := by
  rw [ParseContext.limit]
  refine .branch (fun hdeep ↦ ?_) fun hdeep ↦ .pure ⟨Nat.le_of_not_lt hdeep, rfl⟩
  rcases hallows with hle | ⟨rfl, hfails⟩
  · exact absurd hle (Nat.not_le_of_lt hdeep)
  · exact .get_bind (.throw ⟨hfails, rfl⟩)

/-- One more level is counted, and checked. -/
theorem count_meets (g : ParserState → ParserState) (count : ParserState → Nat)
    (h : base.At tokens s)
    (hg : ∀ (s : ParserState) (w : Window Lexer),
      g { s with tokens := w } = { g s with tokens := w })
    (hcount : ∀ (s : ParserState) (w : Window Lexer), count { s with tokens := w } = count s)
    (hallows : hurdle.Allows ctx.limits what (count (g base))) :
    Meets ctx hurdle (do
      modify g
      ParseContext.limit (count (← get)) (ctx.limits.bound what) what) s fun _ s' ↦
      count (g base) ≤ ctx.limits.bound what ∧ (g base).At tokens s' := by
  have hat := h.change g hg
  have heq : count (g s) = count (g base) := by rw [hat.same, hcount]
  refine .modify_bind (.get_bind ((limit_meets (heq ▸ hallows)).mono fun _ s' hs' ↦ ?_))
  obtain ⟨hle, rfl⟩ := hs'
  exact ⟨heq ▸ hle, hat⟩

theorem enterParen_meets (h : base.At tokens s)
    (hallows : hurdle.Allows ctx.limits .parenthesis (base.parenDepth + 1)) :
    Meets ctx hurdle ctx.enterParen s fun _ s' ↦ base.parenDepth + 1 ≤ ctx.limits.maxParenDepth ∧
      ParserState.At { base with parenDepth := base.parenDepth + 1 } tokens s' :=
  count_meets (fun s ↦ { s with parenDepth := s.parenDepth + 1 }) ParserState.parenDepth h
    (fun _ _ ↦ rfl)
    (fun _ _ ↦ rfl) hallows

theorem enterCall_meets (h : base.At tokens s)
    (hallows : hurdle.Allows ctx.limits .call (base.callDepth + 1)) :
    Meets ctx hurdle ctx.enterCall s fun _ s' ↦ base.callDepth + 1 ≤ ctx.limits.maxCallDepth ∧
      ParserState.At { base with callDepth := base.callDepth + 1 } tokens s' :=
  count_meets (fun s ↦ { s with callDepth := s.callDepth + 1 }) ParserState.callDepth h
    (fun _ _ ↦ rfl)
    (fun _ _ ↦ rfl) hallows

theorem enterBlock_meets (h : base.At tokens s)
    (hallows : hurdle.Allows ctx.limits .statement (base.statementDepth + 1)) :
    Meets ctx hurdle ctx.enterBlock s fun _ s' ↦
      base.statementDepth + 1 ≤ ctx.limits.maxStatementDepth ∧
      ParserState.At { base with statementDepth := base.statementDepth + 1 } tokens s' :=
  count_meets (fun s ↦ { s with statementDepth := s.statementDepth + 1 })
    ParserState.statementDepth h
    (fun _ _ ↦ rfl) (fun _ _ ↦ rfl) hallows

/-- One operand deeper: the check comes first, and the count is taken back behind the
computation. -/
theorem deeper_meets (h : base.At tokens s)
    (hallows : hurdle.Allows ctx.limits .expression (base.expressionDepth + 1))
    (hx : base.expressionDepth + 1 ≤ ctx.limits.maxExpressionDepth → ∀ s',
      ParserState.At { base with expressionDepth := base.expressionDepth + 1 } tokens s' →
      Meets ctx hurdle x s' fun _ s'' ↦
        P ∧ ParserState.At { base with expressionDepth := base.expressionDepth + 1 } tokens' s'') :
    Meets ctx hurdle (ctx.deeper x) s fun _ s' ↦ P ∧ base.At tokens' s' := by
  have h₁ := h.change (fun s ↦ { s with expressionDepth := s.expressionDepth + 1 }) fun _ _ ↦ rfl
  have hdepth : s.expressionDepth + 1 = base.expressionDepth + 1 := by rw [h.same]
  have hlimited : Meets ctx hurdle (do
      ParseContext.limit (← get).expressionDepth ctx.limits.maxExpressionDepth .expression
      x) { s with expressionDepth := s.expressionDepth + 1 } fun _ s'' ↦
        P ∧ ParserState.At { base with expressionDepth := base.expressionDepth + 1 }
          tokens' s'' := by
    refine .get_bind ((limit_meets (hdepth ▸ hallows)).bind ?_)
    rintro _ s₁ ⟨hle, hs₁⟩
    subst hs₁
    exact hx (hdepth ▸ hle) _ h₁
  refine .mapState (deeper_run ctx x) hlimited ?_
  rintro _ s₂ ⟨hP, hat⟩
  refine ⟨hP, ?_⟩
  exact hat.change (fun s ↦ { s with expressionDepth := s.expressionDepth - 1 }) fun _ _ ↦ rfl

/-! ## Fuel -/

/-- The fuel covers the operands and blocks that may still be opened, and `slack` goals more. -/
def Covers (ctx : ParseContext) (base : ParserState) (slack fuel : Nat) : Prop :=
  2 * (ctx.limits.maxExpressionDepth - base.expressionDepth) +
    (ctx.limits.maxStatementDepth - base.statementDepth) + slack ≤ fuel

namespace Covers

variable {slack slack' fuel : Nat}

theorem mono (h : Covers ctx base slack fuel) (hle : slack' ≤ slack) :
    Covers ctx base slack' fuel :=
  Nat.le_trans (Nat.add_le_add_left hle _) h

theorem exists_succ (h : Covers ctx base (slack + 1) fuel) :
    ∃ n, fuel = n + 1 ∧ Covers ctx base slack n := by
  unfold Covers at h
  obtain ⟨n, rfl⟩ : ∃ n, fuel = n + 1 := ⟨fuel - 1, by omega⟩
  exact ⟨n, rfl, Nat.le_of_succ_le_succ h⟩

/-- An operand leaves fuel for an expression inside it. -/
theorem openOperand (h : Covers ctx base 0 fuel)
    (hle : base.expressionDepth + 1 ≤ ctx.limits.maxExpressionDepth) :
    Covers ctx { base with expressionDepth := base.expressionDepth + 1 } 2 fuel := by
  unfold Covers at h ⊢
  dsimp only
  omega

/-- A block leaves fuel for a statement inside it. -/
theorem openBlock (h : Covers ctx base slack fuel)
    (hle : base.statementDepth + 1 ≤ ctx.limits.maxStatementDepth) :
    Covers ctx { base with statementDepth := base.statementDepth + 1 } (slack + 1) fuel := by
  unfold Covers at h ⊢
  dsimp only
  omega

end Covers

end Parse

end ScriptFront
