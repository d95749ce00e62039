import ScriptFront.Parse.Yard
import ScriptFront.Proofs.Tree.Layout
import ScriptFront.Proofs.Tree.Places

/-!
# The stacks hold a spine

The operations on the two stacks never look at the places of operands, so they commute with
forgetting positions. What a phrase leaves on the stacks is then described by its spine: the open
operations are the waiting operators, from the top down to where the phrase began, with their left
operands on the other stack.
-/

namespace ScriptFront

namespace Yard

variable {y z : Yard} {op : Operator} {scope : ScopeId}

/-! ## Operands of one sort -/

/-- All operands have the property. -/
def Holds (p : Expr → Prop) (y : Yard) : Prop := ∀ e ∈ y.operands, p e

/-- An operation on operands with the property has it too. -/
def IsCombining (p : Expr → Prop) : Prop :=
  ∀ op left right, p left → p right → p (.operation op left right)

section

variable {p : Expr → Prop} {waits : Operator → Bool} {waiting : List Waiting} {operands : List Expr}

theorem holds_settle (hp : IsCombining p) (h : ∀ e ∈ operands, p e)
    (hsettle : settle waits waiting operands = some y) : y.Holds p := by
  induction waiting generalizing operands with
  | nil =>
    cases hsettle
    exact h
  | cons top waiting ih =>
    cases top with
    | paren below =>
      cases hsettle
      exact h
    | operator op =>
      rw [settle] at hsettle
      split at hsettle
      · cases hsettle
        exact h
      · match operands with
        | [] => simp [combine] at hsettle
        | [_] => simp [combine] at hsettle
        | right :: left :: rest =>
          refine ih (fun e he ↦ ?_) hsettle
          rcases List.mem_cons.mp he with rfl | he
          · exact hp op left right (h left (by simp)) (h right (by simp))
          · exact h e (by simp [he])

theorem Holds.pushOperand {e : Expr} (h : y.Holds p) (he : p e) : (y.pushOperand e).Holds p :=
  List.forall_mem_cons.mpr ⟨he, h⟩

theorem Holds.pushOperator (hp : IsCombining p) (h : y.Holds p)
    (hpush : y.pushOperator op = some z) :
    z.Holds p := by
  rw [Yard.pushOperator, Option.map_eq_some_iff] at hpush
  obtain ⟨settled, hsettle, rfl⟩ := hpush
  exact (holds_settle hp h hsettle : settled.Holds p)

theorem Holds.closeParen (hp : IsCombining p) {group : Expr} (h : y.Holds p)
    (hclose : y.closeParen = some (group, z)) : p group ∧ z.Holds p := by
  rw [Yard.closeParen] at hclose
  split at hclose
  · next hsettle =>
    split at hclose
    · cases hclose
      exact List.forall_mem_cons.mp (holds_settle hp h hsettle)
    · cases hclose
  · cases hclose

theorem Holds.finish (hp : IsCombining p) {e : Expr} (h : y.Holds p) (hfinish : y.finish = some e) :
    p e := by
  rw [Yard.finish] at hfinish
  split at hfinish
  · next hsettle =>
    cases hfinish
    exact holds_settle hp h hsettle _ (by simp)
  · cases hfinish

end

/-! ## Changing operands -/

/-- The stacks with every operand changed by `h`. -/
def mapOperands (h : Expr → Expr) (y : Yard) : Yard := ⟨y.operands.map h, y.waiting⟩

/-- A change that leaves operations as they are and changes what they combine. -/
def KeepsOperations (h : Expr → Expr) : Prop :=
  ∀ op left right, h (.operation op left right) = .operation op (h left) (h right)

section

variable {h : Expr → Expr}

theorem mapOperands_pushOperand (y : Yard) (e : Expr) :
    (y.pushOperand e).mapOperands h = (y.mapOperands h).pushOperand (h e) := rfl

theorem mapOperands_openParen (y : Yard) :
    y.openParen.mapOperands h = (y.mapOperands h).openParen := by
  simp [mapOperands, openParen]

theorem settle_mapOperands (hh : KeepsOperations h) (waits : Operator → Bool)
    (waiting : List Waiting)
    (operands : List Expr) :
    settle waits waiting (operands.map h) = (settle waits waiting operands).map
      (mapOperands h) := by
  induction waiting generalizing operands with
  | nil => rfl
  | cons top waiting ih =>
    cases top with
    | paren below => rfl
    | operator top =>
      rw [settle, settle]
      by_cases hwaits : waits top = true
      · rw [if_pos hwaits, if_pos hwaits]
        rfl
      · rw [if_neg hwaits, if_neg hwaits]
        match operands with
        | [] => rfl
        | [_] => rfl
        | right :: left :: rest =>
          simp only [List.map_cons, combine, ← hh top left right]
          exact ih (.operation top left right :: rest)

theorem pushOperator_mapOperands (hh : KeepsOperations h) (y : Yard) (op : Operator) :
    (y.mapOperands h).pushOperator op = (y.pushOperator op).map (mapOperands h) := by
  rw [pushOperator, pushOperator, mapOperands, settle_mapOperands hh, Option.map_map,
    Option.map_map]
  rfl

theorem closeParen_mapOperands (hh : KeepsOperations h) (y : Yard) :
    (y.mapOperands h).closeParen = y.closeParen.map (Prod.map h (mapOperands h)) := by
  rw [closeParen, closeParen, mapOperands, settle_mapOperands hh]
  rcases settle (fun _ ↦ false) y.waiting y.operands with
    _ | ⟨_ | ⟨group, operands⟩, _ | ⟨_ | below, waiting⟩⟩
  · rfl
  · rfl
  · rfl
  · rfl
  · rfl
  · rfl
  · simp only [Option.map_some, mapOperands, List.map_cons, List.length_map]
    split <;> rfl

theorem finish_mapOperands (hh : KeepsOperations h) (y : Yard) :
    (y.mapOperands h).finish = y.finish.map h := by
  rw [finish, finish, mapOperands, settle_mapOperands hh]
  rcases settle (fun _ ↦ false) y.waiting y.operands with
    _ | ⟨_ | ⟨e, _ | ⟨e', operands⟩⟩, _ | ⟨top, waiting⟩⟩ <;> rfl

end

/-! ## Forgetting positions -/

/-- The stacks with all positions forgotten. -/
def unplaced (y : Yard) : Yard := ⟨y.operands.map Expr.unplaced, y.waiting⟩

theorem keepsOperations_unplaced : KeepsOperations Expr.unplaced :=
  fun op left right ↦ Expr.relocate_operation op left right

theorem unplaced_pushOperand (y : Yard) (e : Expr) :
    (y.pushOperand e).unplaced = y.unplaced.pushOperand e.unplaced := rfl

theorem unplaced_openParen (y : Yard) : y.openParen.unplaced = y.unplaced.openParen :=
  mapOperands_openParen y

theorem pushOperator_unplaced (y : Yard) (op : Operator) :
    y.unplaced.pushOperator op = (y.pushOperator op).map unplaced :=
  pushOperator_mapOperands keepsOperations_unplaced y op

theorem closeParen_unplaced (y : Yard) :
    y.unplaced.closeParen = y.closeParen.map (Prod.map Expr.unplaced unplaced) :=
  closeParen_mapOperands keepsOperations_unplaced y

theorem finish_unplaced (y : Yard) : y.unplaced.finish = y.finish.map Expr.unplaced :=
  finish_mapOperands keepsOperations_unplaced y

theorem exists_of_unplaced_pushOperator (h : y.unplaced.pushOperator op = some z) :
    ∃ y', y.pushOperator op = some y' ∧ y'.unplaced = z := by
  rw [pushOperator_unplaced] at h
  exact Option.map_eq_some_iff.mp h

theorem exists_of_unplaced_closeParen {group : Expr}
    (h : y.unplaced.closeParen = some (group, z)) :
    ∃ e y', y.closeParen = some (e, y') ∧ e.unplaced = group ∧ y'.unplaced = z := by
  rw [closeParen_unplaced] at h
  obtain ⟨⟨e, y'⟩, hclose, hboth⟩ := Option.map_eq_some_iff.mp h
  exact ⟨e, y', hclose, congrArg Prod.fst hboth, congrArg Prod.snd hboth⟩

theorem exists_of_unplaced_finish {e : Expr} (h : y.unplaced.finish = some e) :
    ∃ e', y.finish = some e' ∧ e'.unplaced = e := by
  rw [finish_unplaced] at h
  exact Option.map_eq_some_iff.mp h

/-! ## Spines on the stacks -/

/-- The stacks with open operations on top. -/
def withFrames (scope : ScopeId) (y : Yard) (frames : List (OperatorTree × Operator)) : Yard :=
  ⟨frames.map (fun frame ↦ frame.1.expr scope) ++ y.operands,
    frames.map (fun frame ↦ .operator frame.2) ++ y.waiting⟩

/-- The stacks with a spine on top. -/
def withSpine (scope : ScopeId) (y : Yard) (spine : Spine) : Yard :=
  (y.withFrames scope spine.frames).pushOperand (spine.top.expr scope)

/-- No operator waits on top: nothing below can be combined with what comes. -/
def IsFloor (y : Yard) : Prop := ∀ op ∈ y.waiting.head?, ∃ below, op = .paren below

theorem isFloor_empty : empty.IsFloor := by simp [IsFloor, empty]

theorem isFloor_openParen (y : Yard) : y.openParen.IsFloor := by simp [IsFloor, openParen]

theorem settle_floor (h : y.IsFloor) (waits : Operator → Bool) (operands : List Expr) :
    settle waits y.waiting operands = some ⟨operands, y.waiting⟩ := by
  obtain ⟨below, waiting⟩ := y
  match waiting, h with
  | [], _ => rfl
  | .paren _ :: _, _ => rfl
  | .operator op :: waiting, h =>
    obtain ⟨below, hbelow⟩ := h (.operator op) (by simp)
    cases hbelow

/-- Settling operators on the stacks is settling operations on the spine. -/
theorem settle_withSpine (h : y.IsFloor) (waits : Operator → Bool)
    (frames : List (OperatorTree × Operator)) (top : OperatorTree) :
    settle waits (y.withSpine scope ⟨frames, top⟩).waiting
        (y.withSpine scope ⟨frames, top⟩).operands =
      some (y.withSpine scope (Spine.settle waits frames top)) := by
  induction frames generalizing top with
  | nil => exact settle_floor h waits _
  | cons frame frames ih =>
    obtain ⟨left, inner⟩ := frame
    rw [Spine.settle]
    by_cases hwaits : waits inner = true
    · rw [if_pos hwaits]
      exact if_pos hwaits
    · rw [if_neg hwaits, ← ih (.node inner left top)]
      exact if_neg hwaits

theorem pushOperator_withSpine (h : y.IsFloor) (spine : Spine) (atom : Atom) :
    ((y.withSpine scope spine).pushOperator op).map (·.pushOperand (atom.expr scope)) =
      some (y.withSpine scope (spine.push op atom)) := by
  rw [pushOperator, settle_withSpine h]
  rfl

theorem finish_withSpine (scope : ScopeId) (spine : Spine) :
    (empty.withSpine scope spine).finish = some (spine.tree.expr scope) := by
  rw [finish, settle_withSpine isFloor_empty, Spine.settle_all]
  rfl

theorem closeParen_withSpine (scope : ScopeId) (y : Yard) (spine : Spine) :
    (y.openParen.withSpine scope spine).closeParen = some (spine.tree.expr scope, y) := by
  rw [closeParen, settle_withSpine y.isFloor_openParen, Spine.settle_all]
  exact if_pos rfl

end Yard

/-- What reading a phrase does to the stacks. -/
def Phrase.stack (scope : ScopeId) : Phrase → Yard → Option Yard
  | .single factor, y => some (y.pushOperand (factor.atom.expr scope))
  | .more init _ op _ last, y =>
    (init.stack scope y).bind fun y ↦
      (y.pushOperator op).map (·.pushOperand (last.atom.expr scope))

/-- A phrase leaves its spine on the stacks. -/
theorem Phrase.stack_eq {y : Yard} (h : y.IsFloor) (scope : ScopeId)
    (e : Phrase) : e.stack scope y = some (y.withSpine scope e.spine) := by
  cases e with
  | single _ => rfl
  | more init before op after last =>
    rw [Phrase.stack, init.stack_eq h scope, Option.bind_some, Yard.pushOperator_withSpine h]
    rfl

end ScriptFront
