import ScriptFront.Extension.Registry
import ScriptFront.Proofs.Computation

/-!
# What walks are made of

A walk asks its window in one way only, by looking at a token so many places ahead; what it keeps
beside the window is its own affair. So whatever relates two walks on different windows has to be
shown for looking ahead, and holds then of all patterns, if sequences keep it. The one place where
more of a window is known is a list of names, whose number is bounded by the reach.
-/

namespace ScriptFront.Matching

/-- A relation between walks on different windows that is kept by all that walks are made of. -/
structure IsCongruence (J : (α : Type) → MatchM α → MatchM α → Prop) : Prop where
  /-- Both have the same result. -/
  pure {α : Type} (a : α) : J α (pure a) (pure a)
  /-- Both go on from the same result. -/
  bind {α β : Type} {x y : MatchM α} {f g : α → MatchM β} :
    J α x y → (∀ a, J β (f a) (g a)) → J β (x >>= f) (y >>= g)
  /-- Both ask for the state, which is the same except for the window. -/
  get_bind {α : Type} {f g : State → MatchM α} :
    (∀ s w, J α (f s) (g { s with window := w })) → J α (get >>= f) (get >>= g)
  /-- Both look ahead. -/
  peek (n : Nat) : J _ (peek n) (peek n)
  /-- Both change what is kept beside the window. -/
  modify {m : State → State} :
    (∀ (s : State) (w : Window Lexer), m { s with window := w } = { m s with window := w }) →
      (∀ s, (m s).window = s.window) → (∀ s, (m s).overflowed = s.overflowed) →
        J _ (modify m) (modify m)

namespace IsCongruence

variable {J : (α : Type) → MatchM α → MatchM α → Prop} (hJ : IsCongruence J)

/-- Both take the same way. -/
theorem ite {α : Type} {x y x' y' : MatchM α} {p : Prop} [Decidable p] (h : J α x y)
    (h' : J α x' y') :
    J α (if p then x else x') (if p then y else y') := by
  by_cases hp : p
  · rw [if_pos hp, if_pos hp]
    exact h
  · rw [if_neg hp, if_neg hp]
    exact h'

include hJ

theorem record (name : String) (value : Value) : J _ (record name value) (record name value) :=
  hJ.modify (fun _ _ ↦ rfl) (fun _ ↦ rfl) fun _ ↦ rfl

theorem passStretch (stretch : Stretch) : J _ (passStretch stretch) (passStretch stretch) :=
  hJ.modify (fun _ _ ↦ rfl) (fun _ ↦ rfl) fun _ ↦ rfl

/-- Both walks go back to the same place. -/
theorem restore (s : State) : J _ (restore s) (restore s) :=
  hJ.modify (fun _ _ ↦ rfl) (fun _ ↦ rfl) fun _ ↦ rfl

theorem peekAfter (n : Nat) : J _ (peekAfter n) (peekAfter n) := hJ.get_bind fun _ _ ↦ hJ.peek _

theorem expressionEnds : J _ expressionEnds expressionEnds :=
  (hJ.bind (hJ.peekAfter 0)) fun _ ↦ hJ.pure _

/-! ## Leaves -/

/-- A last look, after which the answer is known. -/
theorem lastLook {α : Type} {answer : Option Token → MatchM α} (n : Nat)
    (h : ∀ t, ∃ a, answer t = Pure.pure a) :
    J α (Matching.peekAfter n >>= answer) (Matching.peekAfter n >>= answer) := by
  refine hJ.bind (hJ.peekAfter n) fun t ↦ ?_
  obtain ⟨a, ha⟩ := h t
  rw [ha]
  exact hJ.pure _

theorem time (first : Token) : J _ (time first) (time first) := by
  unfold Matching.time
  refine ite (hJ.pure _) ?_
  cases clockOf? first.text with
  | none => exact hJ.pure _
  | some clock =>
    obtain ⟨hours, minutes, pointed⟩ := clock
    -- the half of the day is looked for behind the minutes, wherever these are
    refine ite (hJ.bind (hJ.peekAfter 1) fun colon ↦ ite ?_ ?_) ?_
    · refine hJ.bind (hJ.peekAfter 2) fun written ↦ ?_
      cases written with
      | none => exact hJ.pure _
      | some written =>
        refine ite (hJ.pure _) ?_
        dsimp only
        cases natural? maxWord written.text.toList with
        | none => exact hJ.pure _
        | some minutes =>
          refine hJ.lastLook 3 fun t ↦ ?_
          repeat' split
          all_goals exact ⟨_, rfl⟩
    · refine hJ.lastLook 1 fun t ↦ ?_
      dsimp only
      repeat' split
      all_goals exact ⟨_, rfl⟩
    · refine hJ.lastLook 1 fun t ↦ ?_
      dsimp only
      repeat' split
      all_goals exact ⟨_, rfl⟩

theorem moreNames (fuel : Nat) (names : List String) :
    J _ (moreNames fuel names) (moreNames fuel names) := by
  induction fuel generalizing names with
  | zero => exact hJ.pure _
  | succ fuel ih =>
    rw [Matching.moreNames]
    refine hJ.bind (hJ.peekAfter _) fun comma ↦ ite (hJ.pure _) ?_
    refine hJ.bind (hJ.peekAfter _) fun next ↦ ?_
    cases next with
    | none => exact hJ.pure _
    | some next => exact ite (hJ.pure _) (ih _)

/-- A token is matched and recorded. -/
theorem passRecord (stretch : Stretch) (name text : String) :
    J _ (do Matching.passStretch stretch; Matching.record name (.str text); return true)
      (do Matching.passStretch stretch; Matching.record name (.str text); return true) :=
  hJ.bind (hJ.passStretch stretch) fun _ ↦ hJ.bind (hJ.record _ _) fun _ ↦ hJ.pure _

end IsCongruence

/-- Lists of names keep it too. How many names they may have depends on the reach of the window. -/
structure IsWalkCongruence (J : (α : Type) → MatchM α → MatchM α → Prop) :
    Prop extends IsCongruence J where
  /-- Both match names. -/
  paramNames (first : Token) : J _ (paramNames first) (paramNames first)

namespace IsWalkCongruence

open IsCongruence (ite)

variable {J : (α : Type) → MatchM α → MatchM α → Prop} (hJ : IsWalkCongruence J)

include hJ

theorem typed (c : Consult) (type : LeafType) (first : Token) :
    J _ (typed c type first) (typed c type first) := by
  unfold Matching.typed
  cases type with
  | paramNames => exact ite (hJ.bind (hJ.paramNames first) fun _ ↦ hJ.pure _) (hJ.pure _)
  | time => exact hJ.time first
  | _ => exact hJ.pure _

theorem leaf (c : Consult) (l : Leaf) : J _ (leaf c l) (leaf c l) := by
  refine hJ.bind (hJ.peekAfter 0) fun first ↦ ?_
  cases first with
  | none => exact hJ.pure _
  | some first =>
    dsimp only
    split
    · exact ite (hJ.bind (hJ.record _ _) fun _ ↦ hJ.pure _) (hJ.pure _)
    · refine ite (hJ.pure _) ?_
      cases l with
      | literal text => exact ite (hJ.bind (hJ.passStretch _) fun _ ↦ hJ.pure _) (hJ.pure _)
      | oneOf name values => exact ite (hJ.passRecord _ _ _) (hJ.pure _)
      | sameAs name =>
        refine hJ.get_bind fun s w ↦ ?_
        dsimp only
        cases s.captures.text? name with
        | none => exact hJ.passRecord _ _ _
        | some text => exact ite (hJ.pure _) (hJ.passRecord _ _ _)
      | typed name type =>
        refine hJ.bind (hJ.typed c type first) fun stretch ↦ ?_
        cases stretch with
        | none => exact hJ.pure _
        | some stretch =>
          refine hJ.bind (hJ.passStretch stretch) fun _ ↦ ?_
          have hrecord : J _ (do Matching.record name (.str stretch.text); return true)
              (do Matching.record name (.str stretch.text); return true) :=
            hJ.bind (hJ.record _ _) fun _ ↦ hJ.pure _
          cases stretch.value with
          | none => exact hrecord
          | some value => exact ite (hJ.bind (hJ.record _ _) fun _ ↦ hrecord) hrecord

/-! ## Patterns -/

mutual

theorem element (c : Consult) : ∀ e, J _ (element c e) (element c e)
  | .leaf l _ => by
    rw [Matching.element]
    exact hJ.leaf c l
  | .group elements _ => by
    rw [Matching.element]
    exact sequence c _ 0 elements
  | .either left right _ => by
    rw [Matching.element]
    refine hJ.get_bind fun s w ↦ hJ.bind (element c left) fun matched ↦ ite (hJ.pure _) ?_
    exact hJ.bind (hJ.restore s) fun _ ↦ hJ.get_bind fun s w ↦ ite (hJ.pure _) (element c right)

theorem sequence (c : Consult) (minRequired matched : Nat) :
    ∀ elements, J _ (sequence c minRequired matched elements)
      (sequence c minRequired matched elements)
  | [] => by
    rw [Matching.sequence]
    exact hJ.pure _
  | e :: rest => by
    rw [Matching.sequence]
    refine hJ.get_bind fun s w ↦ hJ.bind (element c e) fun found ↦ ite (sequence c _ _ rest) ?_
    refine hJ.bind (hJ.restore s) fun _ ↦ hJ.get_bind fun s w ↦ ite (hJ.pure _) ?_
    exact ite (sequence c _ _ rest) (ite hJ.expressionEnds (hJ.pure _))

end

end IsWalkCongruence

end ScriptFront.Matching
