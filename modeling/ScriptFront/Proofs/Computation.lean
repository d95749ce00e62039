/-!
# Running stateful computations

Lexers, windows and parsers are all computations with a state and failures, applied to a state
directly. The statements below take a sequence of two computations apart, in the two directions in
which proofs need it: a run that is known to succeed splits into two runs, and the run of the first
part may be replaced by its result. What a run on a fixed input gives is read off a part of its
outcome that can be compared.
-/

namespace ScriptFront

variable {ε σ α β : Type} {x : EStateM ε σ α} {f : α → EStateM ε σ β} {s s' : σ}

/-- A sequence succeeds exactly when both of its parts do. -/
theorem bind_eq_ok_iff {b : β} :
    (x >>= f) s = .ok b s' ↔ ∃ a s₁, x s = .ok a s₁ ∧ f a s₁ = .ok b s' := by
  change EStateM.bind x f s = .ok b s' ↔ _
  unfold EStateM.bind
  cases hx : x s with
  | ok a s₁ =>
    constructor
    · intro h
      exact ⟨a, s₁, rfl, h⟩
    · rintro ⟨a', s₂, h, hf⟩
      cases h
      exact hf
  | error e s₁ => simp

/-- The first part of a sequence is replaced by its result. -/
theorem bind_eq_of_ok {a : α} {s₁ : σ} (h : x s = .ok a s₁) : (x >>= f) s = f a s₁ := by
  change EStateM.bind x f s = f a s₁
  unfold EStateM.bind
  rw [h]

/-- If the first part of a sequence fails, the sequence does. -/
theorem bind_eq_of_error {e : ε} {s₁ : σ} (h : x s = .error e s₁) : (x >>= f) s = .error e s₁ := by
  change EStateM.bind x f s = .error e s₁
  unfold EStateM.bind
  rw [h]

@[simp] theorem pure_run (a : α) : (pure a : EStateM ε σ α) s = .ok a s := rfl

@[simp] theorem get_run : (get : EStateM ε σ σ) s = .ok s s := rfl

@[simp] theorem set_run : (set s' : EStateM ε σ PUnit) s = .ok ⟨⟩ s' := rfl

@[simp] theorem modify_run (g : σ → σ) : (modify g : EStateM ε σ PUnit) s = .ok ⟨⟩ (g s) := rfl

@[simp] theorem throw_run (e : ε) : (throw e : EStateM ε σ α) s = .error e s := rfl

@[simp] theorem get_bind_run (g : σ → EStateM ε σ β) : (get >>= g) s = g s s := rfl

@[simp] theorem modify_bind_run (g : σ → σ) (k : PUnit → EStateM ε σ β) :
    (modify g >>= k) s = k ⟨⟩ (g s) := rfl

@[simp] theorem set_bind_run (k : PUnit → EStateM ε σ β) : (set s' >>= k) s = k ⟨⟩ s' := rfl

@[simp] theorem ite_run (p : Prop) [Decidable p] (x y : EStateM ε σ α) :
    (if p then x else y) s = if p then x s else y s := by
  split <;> rfl

/-- The outcome of a computation inside a larger one, whose state takes in the state reached. -/
def mapState {τ : Type} (m : σ → τ) : EStateM.Result ε σ α → EStateM.Result ε τ α
  | .ok a s => .ok a (m s)
  | .error e s => .error e (m s)

/-! ## Outcomes without a state -/

section

variable {r : Except ε α}

theorem exists_eq_ok_of_isSome (h : r.toOption.isSome = true) : ∃ a, r = .ok a := by
  cases r with
  | error e => cases h
  | ok a => exact ⟨a, rfl⟩

theorem exists_eq_error_of_isNone (h : r.toOption.isNone = true) : ∃ e, r = .error e := by
  cases r with
  | error e => exact ⟨e, rfl⟩
  | ok a => cases h

/-- What is seen of a result, if there is one. -/
theorem exists_eq_ok_of_map_eq_some {g : α → β} {b : β} (h : r.toOption.map g = some b) :
    ∃ a, r = .ok a ∧ g a = b := by
  cases r with
  | error e => cases h
  | ok a => exact ⟨a, rfl, Option.some.inj h⟩

end

end ScriptFront
