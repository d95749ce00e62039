import ScriptFront.Proofs.Parse.Rounds

/-!
# Operands and operators alternate

Wherever an expression is at the end of a round, its two stacks fit each other: within each open
group and around it, there is one operand more than there are operators, or as many if an operand is
wanted, and each parenthesis remembers how many operands lie below it. So an operator that is
applied always finds its two operands, a group that is closed has become one operand, and so has the
whole expression at its end.
-/

namespace ScriptFront

namespace Yard

variable {waiting : List Waiting} {operands : List Expr} {groups below : Nat}
    {wanting : Bool} {y : Yard}

/-- The stack of operators has so many open parentheses and operators, and each parenthesis
remembers the number of operators below it. -/
inductive Nested : List Waiting → (groups operators : Nat) → Prop
  /-- Nothing waits. -/
  | empty : Nested [] 0 0
  /-- An operator waits. -/
  | operator {waiting : List Waiting} {groups n : Nat} (op : Operator)
      (h : Nested waiting groups n) :
    Nested (.operator op :: waiting) groups (n + 1)
  /-- A parenthesis is open. -/
  | paren {waiting : List Waiting} {groups n : Nat} (h : Nested waiting groups n) :
    Nested (.paren n :: waiting) (groups + 1) n

/-- The stacks of an expression in which so many groups are open, and in which an operand is wanted
or not.
-/
def Alternates (groups : Nat) (wanting : Bool) (y : Yard) : Prop :=
  ∃ n, Nested y.waiting groups n ∧ y.operands.length = n + if wanting then 0 else 1

/-- Applying operators never runs out of operands, and leaves one operand more than operators. -/
theorem exists_settle_eq {n : Nat} (waits : Operator → Bool) (h : Nested waiting groups n)
    (hlength : operands.length = n + 1) :
    ∃ y m, settle waits waiting operands = some y ∧ Nested y.waiting groups m ∧
    y.operands.length = m + 1 ∧
      ∀ op more, y.waiting = .operator op :: more → waits op = true := by
  induction h generalizing operands with
  | empty => exact ⟨⟨operands, []⟩, 0, rfl, .empty, hlength, by simp⟩
  | paren h => exact ⟨⟨operands, _⟩, _, rfl, .paren h, hlength, by simp⟩
  | @operator waiting groups n op h ih =>
    rw [settle]
    by_cases hwaits : waits op = true
    · refine ⟨⟨operands, .operator op :: waiting⟩, n + 1, if_pos hwaits, .operator op h,
        hlength, ?_⟩
      intro op' more heq
      cases heq
      exact hwaits
    · rw [if_neg hwaits]
      match operands, hlength with
      | right :: left :: rest, hlength =>
        have hcombined : (Expr.operation op left right :: rest).length = n + 1 := by
          simpa using hlength
        exact ih hcombined

namespace Alternates

theorem empty : Alternates 0 true Yard.empty := ⟨0, .empty, rfl⟩

theorem openParen (h : Alternates groups true y) : Alternates (groups + 1) true y.openParen := by
  obtain ⟨n, hnested, hlength⟩ := h
  obtain rfl : y.operands.length = n := hlength
  exact ⟨_, .paren hnested, rfl⟩

theorem pushOperand (h : Alternates groups true y) (e : Expr) :
    Alternates groups false (y.pushOperand e) := by
  obtain ⟨n, hnested, hlength⟩ := h
  exact ⟨n, hnested, congrArg (· + 1) hlength⟩

/-- An operator always finds the operands of those before it. -/
theorem exists_pushOperator (h : Alternates groups false y) (op : Operator) :
    ∃ z, y.pushOperator op = some z ∧ Alternates groups true z := by
  obtain ⟨n, hnested, hlength⟩ := h
  obtain ⟨z, m, hsettle, hz, hoperands, -⟩ :=
    exists_settle_eq (fun top ↦ top.precedence < op.precedence) hnested hlength
  refine ⟨{ z with waiting := .operator op :: z.waiting }, ?_, m + 1, .operator op hz, hoperands⟩
  rw [pushOperator, hsettle, Option.map_some]

/-- A group that is closed has become one operand. -/
theorem exists_closeParen (h : Alternates (groups + 1) false y) :
    ∃ group z, y.closeParen = some (group, z) ∧ Alternates groups true z := by
  obtain ⟨n, hnested, hlength⟩ := h
  obtain ⟨⟨operands, waiting⟩, m, hsettle, hz, hoperands, hnone⟩ :=
    exists_settle_eq (fun _ ↦ false) hnested hlength
  rw [closeParen, hsettle]
  match operands, hoperands with
  | group :: operands, hoperands =>
    cases hz with
    | operator op hz => exact absurd (hnone op _ rfl) Bool.false_ne_true
    | paren hz =>
      have hbelow : operands.length = m := Nat.succ.inj hoperands
      exact ⟨group, ⟨operands, _⟩, if_pos hbelow, m, hz, hbelow⟩

/-- A whole expression has become one operand. -/
theorem exists_finish (h : Alternates 0 false y) : ∃ e, y.finish = some e := by
  obtain ⟨n, hnested, hlength⟩ := h
  obtain ⟨⟨operands, waiting⟩, m, hsettle, hz, hoperands, hnone⟩ :=
    exists_settle_eq (fun _ ↦ false) hnested hlength
  rw [finish, hsettle]
  cases hz with
  | operator op hz => exact absurd (hnone op _ rfl) Bool.false_ne_true
  | empty =>
    match operands, hoperands with
    | [e], _ => exact ⟨e, rfl⟩

end Alternates

end Yard

namespace Parse

variable {ctx : ParseContext} {sub : Subparser} {grouped : Bool} {groups : Nat}
    {wanting : Bool} {yard : Yard}
  {s s' : ParserState}

theorem settled_eq_ok {α : Type} {found : Option α} {a : α} (h : settled found s = .ok a s') :
    found = some a := by
  cases found with
  | some b =>
    cases h
    rfl
  | none => cases h

/-- Each round keeps operands and operators alternating. -/
theorem expressionRound_alternates {next : Nat × Bool × Yard} (h : yard.Alternates groups wanting)
    (hround : expressionRound ctx sub grouped (groups, wanting, yard) s = .ok (.again next) s') :
    next.2.2.Alternates next.1 next.2.1 := by
  obtain ⟨t, s₁, -, hround⟩ := bind_eq_ok_iff.mp hround
  cases wanting with
  | true =>
    rw [if_pos rfl, ite_run] at hround
    split at hround
    · obtain ⟨-, s₂, -, hround⟩ := bind_eq_ok_iff.mp hround
      obtain ⟨-, s₃, -, hround⟩ := bind_eq_ok_iff.mp hround
      cases hround
      exact h.openParen
    · obtain ⟨e, s₂, -, hround⟩ := bind_eq_ok_iff.mp hround
      cases hround
      exact h.pushOperand e
  | false =>
    rw [if_neg Bool.false_ne_true, ite_run] at hround
    split at hround
    · next hclose =>
      rw [Bool.and_eq_true, decide_eq_true_eq] at hclose
      obtain ⟨n, rfl⟩ := Nat.exists_eq_add_one_of_ne_zero (Nat.ne_of_gt hclose.2)
      obtain ⟨y, s₂, hgroup, hround⟩ := bind_eq_ok_iff.mp hround
      cases hround
      obtain ⟨-, s₃, -, hgroup⟩ := bind_eq_ok_iff.mp hgroup
      obtain ⟨-, s₄, -, hgroup⟩ := bind_eq_ok_iff.mp hgroup
      obtain ⟨⟨group, z⟩, s₅, hclosed, hgroup⟩ := bind_eq_ok_iff.mp hgroup
      obtain ⟨e, s₆, -, hgroup⟩ := bind_eq_ok_iff.mp hgroup
      cases hgroup
      obtain ⟨group', z', heq, hz⟩ := h.exists_closeParen
      obtain ⟨-, rfl⟩ := Prod.mk.inj (Option.some.inj (heq.symm.trans (settled_eq_ok hclosed)))
      exact hz.pushOperand e
    · cases hop : (if t.kind = .symbol then Operator.ofSymbol? t.text else none) with
      | some op =>
        simp only [hop] at hround
        obtain ⟨y, s₂, hpushed, hround⟩ := bind_eq_ok_iff.mp hround
        obtain ⟨-, s₃, -, hround⟩ := bind_eq_ok_iff.mp hround
        cases hround
        obtain ⟨z, heq, hz⟩ := h.exists_pushOperator op
        exact Option.some.inj (heq.symm.trans (settled_eq_ok hpushed)) ▸ hz
      | none =>
        -- this is the last round
        simp only [hop] at hround
        rw [ite_run] at hround
        split at hround
        · obtain ⟨_, s₂, hfail, -⟩ := bind_eq_ok_iff.mp hround
          cases hfail
        · rw [ite_run] at hround
          split at hround
          · obtain ⟨_, s₂, hfail, -⟩ := bind_eq_ok_iff.mp hround
            cases hfail
          · obtain ⟨e, s₂, -, hround⟩ := bind_eq_ok_iff.mp hround
            cases hround

/-- **Operands and operators alternate** wherever an expression comes to the end of a round. -/
theorem alternates_of_comes {a : Nat × Bool × Yard}
    (h : Comes (expressionRound ctx sub grouped) (0, true, .empty) s a s') :
    a.2.2.Alternates a.1 a.2.1 := by
  induction h with
  | start => exact .empty
  | round _ hround ih => exact expressionRound_alternates ih hround

end Parse

end ScriptFront
