import ScriptFront.Error
import ScriptFront.Proofs.Computation

/-!
# One run and two runs

Most statements about a lexer, a window or a parser are about all of its runs at once, so they are
proved along the text of its productions. Two judgments carry such proofs.

`Ensures` is about one run: a success leaves what is asked for, and a failure is one that is
expected. `Agree` is about two runs that are made side by side: they succeed together, with results
and states that are related, or they fail with the same failure. What two runs may do differently is
collected in a *leeway*: failures of either run after which nothing more is asked.
-/

namespace ScriptFront

variable {σ τ α β γ δ : Type}

/-- The failure does not come from a bound on a recursion or on a loop. -/
def ScriptError.WithinFuel (e : ScriptError) : Prop := e.cause ≠ .outOfFuel

/-! ## One run -/

/-- Run in the state `s`, the computation succeeds with a result and a state that satisfy `Q`, or it
fails with a failure that satisfies `E`. -/
def Ensures (E : ScriptError → Prop) (x : EStateM ScriptError σ α) (s : σ)
    (Q : α → σ → Prop) : Prop :=
  match x s with
  | .ok a s' => Q a s'
  | .error e _ => E e

namespace Ensures

variable {E : ScriptError → Prop} {x : EStateM ScriptError σ α} {f : α → EStateM ScriptError σ β}
  {s s' : σ} {Q R : α → σ → Prop} {Q' : β → σ → Prop} {a : α} {e : ScriptError}

theorem of_ok (h : Ensures E x s Q) (hx : x s = .ok a s') : Q a s' := by
  rw [Ensures, hx] at h
  exact h

theorem of_error (h : Ensures E x s Q) (hx : x s = .error e s') : E e := by
  rw [Ensures, hx] at h
  exact h

theorem intro (hok : ∀ a s', x s = .ok a s' → Q a s') (herror : ∀ e s', x s = .error e s' → E e) :
    Ensures E x s Q := by
  rw [Ensures]
  split
  · next hx => exact hok _ _ hx
  · next hx => exact herror _ _ hx

/-- Nothing is asked for. -/
theorem any : Ensures (fun _ ↦ True) x s fun _ _ ↦ True :=
  intro (fun _ _ _ ↦ trivial) fun _ _ _ ↦ trivial

/-- The run is known. -/
theorem known (hx : x s = .ok a s') (h : Q a s') : Ensures E x s Q := by
  rw [Ensures, hx]
  exact h

/-- A success may be remembered. -/
theorem remember (h : Ensures E x s Q) : Ensures E x s fun a s' ↦ x s = .ok a s' ∧ Q a s' :=
  intro (fun _ _ hx ↦ ⟨hx, h.of_ok hx⟩) fun _ _ hx ↦ h.of_error hx

theorem mono (h : Ensures E x s Q) (hQR : ∀ a s', Q a s' → R a s') : Ensures E x s R :=
  intro (fun a s' hx ↦ hQR a s' (h.of_ok hx)) fun _ _ hx ↦ h.of_error hx

/-- More failures may be expected. -/
theorem loosen {E' : ScriptError → Prop} (h : Ensures E x s Q) (hE : ∀ e, E e → E' e) :
    Ensures E' x s Q :=
  intro (fun _ _ hx ↦ h.of_ok hx) fun e _ hx ↦ hE e (h.of_error hx)

/-- What cannot fail succeeds. -/
theorem exists_ok (h : Ensures E x s Q) (hE : ∀ e, ¬ E e) : ∃ a s', x s = .ok a s' ∧ Q a s' := by
  cases hx : x s with
  | ok a s' => exact ⟨a, s', rfl, h.of_ok hx⟩
  | error e s' => exact absurd (h.of_error hx) (hE e)

theorem bind (h : Ensures E x s Q) (hf : ∀ a s', Q a s' → Ensures E (f a) s' Q') :
    Ensures E (x >>= f) s Q' := by
  cases hx : x s with
  | ok a s' =>
    rw [Ensures, bind_eq_of_ok hx]
    exact hf a s' (h.of_ok hx)
  | error e s' =>
    rw [Ensures, bind_eq_of_error hx]
    exact h.of_error hx

/-- The state reached is put into a larger one. -/
theorem mapState {σ' : Type} {m : σ → σ'} {y : EStateM ScriptError σ' α} {t : σ'}
    {R : α → σ' → Prop} (hy : y t = ScriptFront.mapState m (x s)) (h : Ensures E x s Q)
    (hm : ∀ a s', Q a s' → R a (m s')) : Ensures E y t R := by
  rw [Ensures, hy]
  cases hx : x s with
  | ok a s' => exact hm a s' (h.of_ok hx)
  | error e s' => exact h.of_error hx

/-- A first part whose run is known is replaced by its result. -/
theorem ask (hx : x s = .ok a s') (hf : Ensures E (f a) s' Q') : Ensures E (x >>= f) s Q' := by
  rw [Ensures, bind_eq_of_ok hx]
  exact hf

theorem pure (h : Q a s) : Ensures E (pure a) s Q := h

theorem get_bind {g : σ → EStateM ScriptError σ β} (h : Ensures E (g s) s Q') :
    Ensures E (get >>= g) s Q' := h

theorem modify_bind {m : σ → σ} {g : PUnit → EStateM ScriptError σ β}
    (h : Ensures E (g ⟨⟩) (m s) Q') : Ensures E (modify m >>= g) s Q' := h

theorem throw (h : E e) : Ensures E (throw e : EStateM ScriptError σ α) s Q := h

theorem branch {p : Prop} [Decidable p] {y : EStateM ScriptError σ α} (h : p → Ensures E x s Q)
    (h' : ¬ p → Ensures E y s Q) : Ensures E (if p then x else y) s Q := by
  by_cases hp : p
  · rw [if_pos hp]
    exact h hp
  · rw [if_neg hp]
    exact h' hp

/-- A step that is taken or not, before what follows in any case. -/
theorem optional {p : Prop} [Decidable p] {x : EStateM ScriptError σ PUnit}
    {f : PUnit → EStateM ScriptError σ β} {Q : PUnit → σ → Prop} (h : p → Ensures E x s Q)
    (h' : ¬ p → Q ⟨⟩ s) (hf : ∀ u s', Q u s' → Ensures E (f u) s' Q') :
    Ensures E (if p then x >>= f else f ⟨⟩) s Q' :=
  branch (fun hp ↦ (h hp).bind hf) fun hp ↦ hf ⟨⟩ s (h' hp)

end Ensures

/-! ## Two runs -/

/-- What is allowed for when two runs are compared. -/
structure Leeway where
  /-- The failures that both runs may end with. -/
  common : ScriptError → Prop
  /-- Failures of the first run after which nothing is asked of the second. -/
  first : ScriptError → Prop
  /-- Failures of the second run after which nothing is asked of the first. -/
  second : ScriptError → Prop

/-- Two runs agree: both succeed with results and states that are related, both fail with the same
failure, or one of them fails in a way that is allowed for. -/
inductive Agree (lee : Leeway) (Q : α → β → σ → τ → Prop) :
    EStateM.Result ScriptError σ α → EStateM.Result ScriptError τ β → Prop
  /-- Both succeed. -/
  | ok {a : α} {b : β} {s : σ} {t : τ} (h : Q a b s t) : Agree lee Q (.ok a s) (.ok b t)
  /-- Both fail alike. -/
  | error {e : ScriptError} {s : σ} {t : τ} (h : lee.common e) :
    Agree lee Q (.error e s) (.error e t)
  /-- The first fails in a way that is allowed for. -/
  | first {e : ScriptError} {s : σ} {r : EStateM.Result ScriptError τ β} (h : lee.first e) :
    Agree lee Q (.error e s) r
  /-- The second fails in a way that is allowed for. -/
  | second {e : ScriptError} {r : EStateM.Result ScriptError σ α} {t : τ} (h : lee.second e) :
    Agree lee Q r (.error e t)

namespace Agree

variable {lee : Leeway} {x : EStateM ScriptError σ α} {y : EStateM ScriptError τ β}
  {f : α → EStateM ScriptError σ γ} {g : β → EStateM ScriptError τ δ} {s : σ} {t : τ}
  {Q R : α → β → σ → τ → Prop} {Q' : γ → δ → σ → τ → Prop} {a : α} {b : β}

theorem mono {r : EStateM.Result ScriptError σ α} {r' : EStateM.Result ScriptError τ β}
    (h : Agree lee Q r r') (hQR : ∀ a b s t, Q a b s t → R a b s t) : Agree lee R r r' := by
  cases h with
  | ok h => exact .ok (hQR _ _ _ _ h)
  | error h => exact .error h
  | first h => exact .first h
  | second h => exact .second h

/-- More may be allowed for. -/
theorem loosen {lee' : Leeway} {r : EStateM.Result ScriptError σ α}
    {r' : EStateM.Result ScriptError τ β} (h : Agree lee Q r r')
    (hcommon : ∀ e, lee.common e → lee'.common e) (hfirst : ∀ e, lee.first e → lee'.first e)
    (hsecond : ∀ e, lee.second e → lee'.second e) : Agree lee' Q r r' := by
  cases h with
  | ok h => exact .ok h
  | error h => exact .error (hcommon _ h)
  | first h => exact .first (hfirst _ h)
  | second h => exact .second (hsecond _ h)

theorem bind (h : Agree lee Q (x s) (y t))
    (hfg : ∀ a b s t, Q a b s t → Agree lee Q' (f a s) (g b t)) :
    Agree lee Q' ((x >>= f) s) ((y >>= g) t) := by
  -- a failure of one part is a failure of the sequence, on either side
  cases hx : x s with
  | ok a s' =>
    rw [hx] at h
    rw [bind_eq_of_ok hx]
    cases hy : y t with
    | ok b t' =>
      rw [hy] at h
      rw [bind_eq_of_ok hy]
      cases h with
      | ok h => exact hfg a b s' t' h
    | error e t' =>
      rw [hy] at h
      rw [bind_eq_of_error hy]
      cases h with
      | second h => exact .second h
  | error e s' =>
    rw [hx] at h
    rw [bind_eq_of_error hx]
    cases hy : y t with
    | ok b t' =>
      rw [hy] at h
      cases h with
      | first h => exact .first h
    | error e' t' =>
      rw [hy] at h
      rw [bind_eq_of_error hy]
      cases h with
      | error h => exact .error h
      | first h => exact .first h
      | second h => exact .second h

/-- Successes may be remembered. -/
theorem remember (h : Agree lee Q (x s) (y t)) :
    Agree lee (fun a b s' t' ↦ (x s = .ok a s' ∧ y t = .ok b t') ∧ Q a b s' t') (x s) (y t) := by
  generalize x s = r at *
  generalize y t = r' at *
  cases h with
  | ok h => exact .ok ⟨⟨rfl, rfl⟩, h⟩
  | error h => exact .error h
  | first h => exact .first h
  | second h => exact .second h

/-- What one run ensures may be added. -/
theorem ensuring {E : ScriptError → Prop} {P : α → σ → Prop} (h : Agree lee Q (x s) (y t))
    (hx : Ensures E x s P) : Agree lee (fun a b s t ↦ Q a b s t ∧ P a s) (x s) (y t) := by
  generalize y t = r at *
  cases hrun : x s with
  | ok a s' =>
    rw [hrun] at h
    cases h with
    | ok hab => exact .ok ⟨hab, hx.of_ok hrun⟩
    | second hsecond => exact .second hsecond
  | error e s' =>
    rw [hrun] at h
    cases h with
    | error he => exact .error he
    | first hfirst => exact .first hfirst
    | second hsecond => exact .second hsecond

/-- The states reached are put into larger ones. -/
theorem mapState {σ' τ' : Type} {m : σ → σ'} {n : τ → τ'} {R : α → β → σ' → τ' → Prop}
    {r : EStateM.Result ScriptError σ α} {r' : EStateM.Result ScriptError τ β}
    (h : Agree lee Q r r') (hm : ∀ a b s t, Q a b s t → R a b (m s) (n t)) :
    Agree lee R (ScriptFront.mapState m r) (ScriptFront.mapState n r') := by
  cases h with
  | ok h => exact .ok (hm _ _ _ _ h)
  | error h => exact .error h
  | first h => exact .first h
  | second h => exact .second h

end Agree

/-- The outcomes of two runs agree, their states being left aside. -/
inductive Conform (lee : Leeway) (Q : α → β → Prop) :
    Except ScriptError α → Except ScriptError β → Prop
  /-- Both succeed. -/
  | ok {a : α} {b : β} (h : Q a b) : Conform lee Q (.ok a) (.ok b)
  /-- Both fail alike. -/
  | error {e : ScriptError} (h : lee.common e) : Conform lee Q (.error e) (.error e)
  /-- The first fails in a way that is allowed for. -/
  | first {e : ScriptError} {r : Except ScriptError β} (h : lee.first e) :
    Conform lee Q (.error e) r
  /-- The second fails in a way that is allowed for. -/
  | second {e : ScriptError} {r : Except ScriptError α} (h : lee.second e) :
    Conform lee Q r (.error e)

/-- The outcome of a run, as far as `g` keeps it. -/
def outcome (g : α → σ → γ) : EStateM.Result ScriptError σ α → Except ScriptError γ
  | .ok a s => .ok (g a s)
  | .error e _ => .error e

/-- Outcomes that conform are equal if neither is one that is allowed for. -/
theorem Conform.eq_of_not {lee : Leeway} {r r' : Except ScriptError α} (h : Conform lee Eq r r')
    (hfirst : ∀ e, r = .error e → ¬ lee.first e) (hsecond : ∀ e, r' = .error e → ¬ lee.second e) :
    r = r' := by
  cases h with
  | ok h => rw [h]
  | error _ => rfl
  | first h => exact absurd h (hfirst _ rfl)
  | second h => exact absurd h (hsecond _ rfl)

theorem Conform.bind {lee : Leeway} {Q : α → β → Prop} {Q' : γ → δ → Prop}
    {r : Except ScriptError α}
    {r' : Except ScriptError β} {f : α → Except ScriptError γ} {g : β → Except ScriptError δ}
    (h : Conform lee Q r r') (hfg : ∀ a b, Q a b → Conform lee Q' (f a) (g b)) :
    Conform lee Q' (r >>= f) (r' >>= g) := by
  cases h with
  | ok h => exact hfg _ _ h
  | error h => exact .error h
  | first h => exact .first h
  | second h => exact .second h

theorem Ensures.of_outcome_ok {E : ScriptError → Prop} {x : EStateM ScriptError σ α} {s : σ}
    {Q : α → σ → Prop} {g : α → σ → γ} {c : γ} (h : Ensures E x s Q)
    (hc : outcome g (x s) = .ok c) : ∃ a s', Q a s' ∧ c = g a s' := by
  cases hx : x s with
  | ok a s' =>
    rw [hx] at hc
    cases hc
    exact ⟨a, s', h.of_ok hx, rfl⟩
  | error e s' =>
    rw [hx] at hc
    cases hc

theorem Ensures.of_outcome_error {E : ScriptError → Prop} {x : EStateM ScriptError σ α} {s : σ}
    {Q : α → σ → Prop} {g : α → σ → γ} {e : ScriptError} (h : Ensures E x s Q)
    (he : outcome g (x s) = .error e) : E e := by
  cases hx : x s with
  | ok a s' =>
    rw [hx] at he
    cases he
  | error e' s' =>
    rw [hx] at he
    cases he
    exact h.of_error hx

theorem Agree.conform {lee : Leeway} {Q : α → β → σ → τ → Prop} {P : γ → δ → Prop}
    {g : α → σ → γ} {g' : β → τ → δ} {r : EStateM.Result ScriptError σ α}
    {r' : EStateM.Result ScriptError τ β} (h : Agree lee Q r r')
    (hg : ∀ a b s t, Q a b s t → P (g a s) (g' b t)) :
    Conform lee P (outcome g r) (outcome g' r') := by
  cases h with
  | ok h => exact .ok (hg _ _ _ _ h)
  | error h => exact .error h
  | first h => exact .first h
  | second h => exact .second h

/-! ## Two runs of computations that keep a relation -/

/-- The computations agree in all states related by `S`, with equal results, and keep `S`. -/
def Twin (lee : Leeway) (S : σ → τ → Prop) (x : EStateM ScriptError σ α)
    (y : EStateM ScriptError τ α) : Prop :=
  ∀ s t, S s t → Agree lee (fun a b s t ↦ a = b ∧ S s t) (x s) (y t)

namespace Twin

variable {lee : Leeway} {S : σ → τ → Prop} {x : EStateM ScriptError σ α}
  {y : EStateM ScriptError τ α} {f : α → EStateM ScriptError σ β} {g : α → EStateM ScriptError τ β}

theorem pure (a : α) : Twin lee S (pure a) (pure a) := fun _ _ h ↦ .ok ⟨rfl, h⟩

theorem bind (h : Twin lee S x y) (hfg : ∀ a, Twin lee S (f a) (g a)) :
    Twin lee S (x >>= f) (y >>= g) := by
  intro s t hst
  refine (h s t hst).bind fun a b s' t' hab ↦ ?_
  obtain ⟨rfl, hst'⟩ := hab
  exact hfg a s' t' hst'

theorem ite {p : Prop} [Decidable p] {x' : EStateM ScriptError σ α}
    {y' : EStateM ScriptError τ α} (h : Twin lee S x y) (h' : Twin lee S x' y') :
    Twin lee S (if p then x else x') (if p then y else y') := by
  by_cases hp : p
  · rw [if_pos hp, if_pos hp]
    exact h
  · rw [if_neg hp, if_neg hp]
    exact h'

theorem throw {e : ScriptError} (h : lee.common e) :
    Twin lee S (throw e : EStateM ScriptError σ α) (throw e : EStateM ScriptError τ α) :=
  fun _ _ _ ↦ .error h

/-- Both states are changed. -/
theorem modify {m : σ → σ} {m' : τ → τ} (h : ∀ s t, S s t → S (m s) (m' t)) :
    Twin lee S (modify m) (modify m') := fun s t hst ↦ .ok ⟨rfl, h s t hst⟩

/-- Both states are asked. -/
theorem get_bind {f : σ → EStateM ScriptError σ β} {g : τ → EStateM ScriptError τ β}
    (h : ∀ s t, S s t → Twin lee S (f s) (g t)) : Twin lee S (get >>= f) (get >>= g) :=
  fun s t hst ↦ h s t hst s t hst

end Twin

/-! ## Two runs with related results -/

/-- The computations agree in all states related by `S`, with results related by `Q`, and keep `S`.
If the results are equal, they are twins. -/
def Paired (lee : Leeway) (S : σ → τ → Prop) (Q : α → β → Prop) (x : EStateM ScriptError σ α)
    (y : EStateM ScriptError τ β) : Prop :=
  ∀ s t, S s t → Agree lee (fun a b s t ↦ Q a b ∧ S s t) (x s) (y t)

/-- Twins begin computations whose results are related. -/
theorem Twin.paired {lee : Leeway} {S : σ → τ → Prop} {Q : β → γ → Prop}
    {x : EStateM ScriptError σ α} {y : EStateM ScriptError τ α} {f : α → EStateM ScriptError σ β}
    {g : α → EStateM ScriptError τ γ} (h : Twin lee S x y) (hfg : ∀ a, Paired lee S Q (f a) (g a)) :
    Paired lee S Q (x >>= f) (y >>= g) := by
  intro s t hst
  refine (h s t hst).bind fun a b s' t' hab ↦ ?_
  obtain ⟨rfl, hst'⟩ := hab
  exact hfg a s' t' hst'

namespace Paired

variable {lee : Leeway} {S : σ → τ → Prop} {Q Q' : α → β → Prop} {R : γ → δ → Prop}
  {x : EStateM ScriptError σ α} {y : EStateM ScriptError τ β} {f : α → EStateM ScriptError σ γ}
  {g : β → EStateM ScriptError τ δ}

theorem pure {a : α} {b : β} (h : Q a b) : Paired lee S Q (pure a) (pure b) :=
  fun _ _ hst ↦ .ok ⟨h, hst⟩

theorem bind (h : Paired lee S Q x y) (hfg : ∀ a b, Q a b → Paired lee S R (f a) (g b)) :
    Paired lee S R (x >>= f) (y >>= g) := by
  intro s t hst
  refine (h s t hst).bind fun a b s' t' hab ↦ ?_
  obtain ⟨hab, hst'⟩ := hab
  exact hfg a b hab s' t' hst'

theorem mono (h : Paired lee S Q x y) (hQ : ∀ a b, Q a b → Q' a b) : Paired lee S Q' x y :=
  fun s t hst ↦ (h s t hst).mono fun a b _ _ hab ↦ ⟨hQ a b hab.1, hab.2⟩

theorem ite {p : Prop} [Decidable p] {x' : EStateM ScriptError σ α} {y' : EStateM ScriptError τ β}
    (h : Paired lee S Q x y) (h' : Paired lee S Q x' y') :
    Paired lee S Q (if p then x else x') (if p then y else y') := by
  by_cases hp : p
  · rw [if_pos hp, if_pos hp]
    exact h
  · rw [if_neg hp, if_neg hp]
    exact h'

theorem throw {e : ScriptError} (h : lee.common e) :
    Paired lee S Q (throw e : EStateM ScriptError σ α) (throw e : EStateM ScriptError τ β) :=
  fun _ _ _ ↦ .error h

/-- Both states are asked. -/
theorem get_bind {f : σ → EStateM ScriptError σ γ} {g : τ → EStateM ScriptError τ δ}
    (h : ∀ s t, S s t → Paired lee S R (f s) (g t)) : Paired lee S R (get >>= f) (get >>= g) :=
  fun s t hst ↦ h s t hst s t hst

/-- A run beside itself agrees with itself, and what it ensures may be added. -/
theorem of_ensures {E : ScriptError → Prop} {I : σ → Prop} {P : α → Prop}
    {x : EStateM ScriptError σ α} (hE : ∀ e, E e → lee.common e)
    (h : ∀ s, I s → Ensures E x s fun a s' ↦ P a ∧ I s') :
    Paired lee (fun s t ↦ t = s ∧ I s) (fun a b ↦ b = a ∧ P a) x x := by
  rintro s t ⟨rfl, hs⟩
  cases hrun : x t with
  | ok a s' =>
    obtain ⟨ha, hs'⟩ := (h t hs).of_ok hrun
    exact .ok ⟨⟨rfl, ha⟩, rfl, hs'⟩
  | error e s' => exact .error (hE e ((h t hs).of_error hrun))

end Paired

end ScriptFront
