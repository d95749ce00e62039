import ScriptFront.Proofs.Parse.Separators
import ScriptFront.Proofs.Tree.Alike
import ScriptFront.Proofs.Window.Walk

/-!
# Two parsers abreast

A parser on tokens that end is compared with a second one on tokens that go on where the first ones
end. `ParserState.Abreast` says what the states of two such parsers have in common: their tokens are
related, their names agree up to positions, and as much is open in one as in the other.

## The judgment

`Parse.Follows` is the judgment about two computations. Whenever the first succeeds, the second
does, with results and states that are related again. Nothing is asked where the first fails, so the
two may take different decisions wherever the first parser is bound to fail at the end of its
tokens: `Parse.Dies` says of a computation that it does not succeed there.

## What is excused

The second parser has more tokens and other positions, so it is not known from the first one that
its loops have fuel enough and that it always moves on. Both hold of every parser, but for reasons
of their own, and here a failure of this kind is excused.
-/

namespace ScriptFront

open Window (isNewLine)

/-- A failure that a whole parse never ends with: a bound on a loop was too small, or the parser did
not move on. -/
def ScriptError.IsExcused (e : ScriptError) : Prop := ¬ e.WithinFuel ∨ e.cause.IsInternal

/-- The first run may fail as it likes; the second fails only where that is excused. -/
def onward : Leeway where
  common _ := False
  first _ := True
  second := ScriptError.IsExcused

/-- How the tokens of one parser go with those of another. -/
abbrev Pairing := List Token → List Token → Prop

/-! ## States -/

/-- Two parsers are in step: their tokens are related, the same names are defined up to positions,
and as much is open. -/
structure ParserState.Abreast (R : Pairing) (s t : ParserState) : Prop where
  /-- The tokens to come. -/
  shows : ∃ l l', s.tokens.Shows l ∧ t.tokens.Shows l' ∧ R l l'
  /-- The names. -/
  symbols : t.symbols.unplaced = s.symbols.unplaced
  /-- What is open. -/
  depths : t.depths = s.depths

/-- The end of the tokens is all that is left. -/
def ParserState.IsSpent (s : ParserState) : Prop := ∃ l, s.tokens.Shows l ∧ ScriptFront.IsSpent l

namespace ParserState

variable {R R' : Pairing} {l l' : List Token} {s s' t t' : ParserState}

theorem At.refl (h : s.tokens.Shows l) : s.At l s := ⟨rfl, h⟩

namespace Abreast

theorem mono (h : s.Abreast R t) (hR : ∀ l l', R l l' → R' l l') : s.Abreast R' t := by
  obtain ⟨l, l', hl, hl', hll'⟩ := h.shows
  exact ⟨⟨l, l', hl, hl', hR l l' hll'⟩, h.symbols, h.depths⟩

/-- Both parsers move over tokens. -/
theorem move (h : s.Abreast R t) (hs : s.At l s') (ht : t.At l' t') (hR : R' l l') :
    s'.Abreast R' t' := by
  refine ⟨⟨l, l', hs.shows, ht.shows, hR⟩, ?_, ?_⟩
  · rw [hs.same, ht.same]
    exact h.symbols
  · rw [hs.same, ht.same]
    exact h.depths

theorem scope_eq (h : s.Abreast R t) : t.symbols.current = s.symbols.current := by
  rw [← t.symbols.current_unplaced, h.symbols, s.symbols.current_unplaced]

/-- The tokens that are current, and the lists that they begin. -/
theorem exists_current {tail : List Token} (h : s.Abreast (Joins tail) t)
    (htail : IsTailOfTokens tail) :
    ∃ u u' rest rest', s.tokens.Shows (u :: rest) ∧ t.tokens.Shows (u' :: rest') ∧ u.Meets u' ∧
      JoinsAt tail u u' (u :: rest) (u' :: rest') := by
  obtain ⟨l, l', hl, hl', hll'⟩ := h.shows
  obtain ⟨u, u', hmeets, hat⟩ := hll'.exists_at htail
  obtain ⟨rest, rfl⟩ := List.head?_eq_some_iff.mp hat.head
  obtain ⟨rest', rfl⟩ := List.head?_eq_some_iff.mp hat.head'
  exact ⟨u, u', rest, rest', hl, hl', hmeets, hat⟩

end Abreast

theorem IsSpent.lexeme_eq (h : s.IsSpent) : s.tokens.current.lexeme = .endOfInput := by
  obtain ⟨-, hshows, e, he, rfl⟩ := h
  rw [hshows.current_eq]
  exact e.lexeme_eq_of_isEnd he

end ParserState

namespace Parse

variable {α β γ δ : Type} {R R₁ : Pairing} {tail : List Token} {text : String} {ctx : ParseContext}

/-! ## At the end of the tokens -/

/-- The computation does not succeed at the end of the tokens. -/
def Dies (x : Parse α) : Prop := ∀ s, s.IsSpent → ∀ a s', x s ≠ .ok a s'

namespace Dies

variable {x : Parse α} {f : α → Parse β}

theorem of_fails (h : Orderly.Fails x) : Dies x := by
  intro s _ a s' hx
  obtain ⟨e, hrun, -⟩ := h s
  cases hx.symm.trans hrun

theorem failExpected {wanted : String} : Dies (failExpected wanted : Parse α) :=
  of_fails Orderly.fails_failExpected

theorem bind (h : Dies x) : Dies (x >>= f) := by
  intro s hs b s' hrun
  obtain ⟨a, s₁, hx, -⟩ := bind_eq_ok_iff.mp hrun
  exact h s hs a s₁ hx

/-- A question is answered first. -/
theorem ask {g : ParserState → α} (hx : ∀ s, x s = .ok (g s) s) (h : ∀ s, Dies (f (g s))) :
    Dies (x >>= f) := by
  intro s hs b s' hrun
  rw [bind_eq_of_ok (hx s)] at hrun
  exact h s s hs b s' hrun

theorem ite {p : Prop} [Decidable p] {y : Parse α} (hx : p → Dies x) (hy : ¬ p → Dies y) :
    Dies (if p then x else y) := by
  split
  · next hp => exact hx hp
  · next hp => exact hy hp

/-- The end is current. -/
theorem current {f : Token → Parse β} (h : ∀ t : Token, t.lexeme = .endOfInput → Dies (f t)) :
    Dies (current >>= f) := by
  intro s hs b s' hrun
  rw [bind_eq_of_ok (current_run (s := s))] at hrun
  exact h _ hs.lexeme_eq s hs b s' hrun

/-- The end is not spelled like this. -/
theorem is (htext : Lexeme.IsMark text) {f : Bool → Parse β} (h : Dies (f false)) :
    Dies (is text >>= f) := by
  intro s hs b s' hrun
  have hnot : s.tokens.is text = false := by
    rw [Window.is, Token.is, hs.lexeme_eq]
    exact htext.is_end
  rw [bind_eq_of_ok (is_run (s := s) text), hnot] at hrun
  exact h s hs b s' hrun

/-- A step that stays at the end comes first. -/
theorem step (hx : ∀ s, s.IsSpent → ∀ a s', x s = .ok a s' → s'.IsSpent) (h : ∀ a, Dies (f a)) :
    Dies (x >>= f) := by
  intro s hs b s' hrun
  obtain ⟨a, s₁, hx₁, hf⟩ := bind_eq_ok_iff.mp hrun
  exact h a s₁ (hx s hs a s₁ hx₁) b s' hf

/-- No line breaks follow the end. -/
theorem skipNewLines {f : Unit → Parse β} (h : Dies (f ())) : Dies (Parse.skipNewLines >>= f) := by
  refine step (fun s hs a s' hrun ↦ ?_) fun _ ↦ h
  obtain ⟨l, hl, hspent⟩ := hs
  obtain ⟨_, s₁, hrun₁, hat, -⟩ := skipNewLines_yields (.refl hl)
  cases hrun.symm.trans hrun₁
  refine ⟨_, hat.shows, ?_⟩
  rwa [hspent.dropWhile Window.isNewLine_of_isEnd]

/-- The depth of operands is checked first. -/
theorem deeper (h : Dies x) : Dies (ctx.deeper x) := by
  have hlimited : Dies (do
      ParseContext.limit (← get).expressionDepth ctx.limits.maxExpressionDepth .expression
      x) := by
    refine .ask (fun _ ↦ rfl) fun s ↦ .step (fun s hs a s' hrun ↦ ?_) fun _ ↦ h
    rw [ParseContext.limit] at hrun
    split at hrun
    · cases hrun
    · cases hrun
      exact hs
  intro s hs a s' hrun
  have hspent : ParserState.IsSpent { s with expressionDepth := s.expressionDepth + 1 } := hs
  rw [deeper_run] at hrun
  cases hinner : (do
      ParseContext.limit (← get).expressionDepth ctx.limits.maxExpressionDepth .expression
      x : Parse α) { s with expressionDepth := s.expressionDepth + 1 } with
  | ok b s₁ => exact hlimited _ hspent b s₁ hinner
  | error e s₁ =>
    rw [hinner] at hrun
    cases hrun

end Dies

/-! ## The judgment -/

/-- From two states abreast, the second computation succeeds when the first does, or its failure is
excused; the results are related, and the states are abreast again. -/
def Follows (R : Pairing) (x : Parse α) (y : Parse β) (V : α → β → Prop) (P : α → Pairing) : Prop :=
  ∀ s t, s.Abreast R t → Agree onward (fun a b s' t' ↦ V a b ∧ s'.Abreast (P a) t') (x s) (y t)

namespace Follows

variable {x x' : Parse α} {y y' : Parse β} {f : α → Parse γ} {g : β → Parse δ} {V : α → β → Prop}
  {V' : γ → δ → Prop} {P Q : α → Pairing} {P' : γ → Pairing} {a : α} {b : β}

theorem pure (hV : V a b) (hR : ∀ l l', R l l' → P a l l') : Follows R (pure a) (pure b) V P :=
  fun _ _ h ↦ .ok ⟨hV, h.mono hR⟩

theorem bind (h : Follows R x y V P) (hfg : ∀ a b, V a b → Follows (P a) (f a) (g b) V' P') :
    Follows R (x >>= f) (y >>= g) V' P' :=
  fun s t hst ↦ (h s t hst).bind fun a b s' t' hab ↦ hfg a b hab.1 s' t' hab.2

/-- Less may be said of what is left. -/
theorem mono (h : Follows R x y V P) (hP : ∀ a l l', P a l l' → Q a l l') : Follows R x y V Q :=
  fun s t hst ↦ (h s t hst).mono fun a _ _ _ hab ↦ ⟨hab.1, hab.2.mono (hP a)⟩

/-- More may be known at the beginning. -/
theorem of_implies (h : Follows R x y V P) (hR : ∀ l l', R₁ l l' → R l l') : Follows R₁ x y V P :=
  fun s t hst ↦ h s t (hst.mono hR)

theorem ite {p q : Prop} [Decidable p] [Decidable q] (hpq : q ↔ p) (h : p → Follows R x y V P)
    (h' : ¬ p → Follows R x' y' V P) :
    Follows R (if p then x else x') (if q then y else y') V P := by
  by_cases hp : p
  · rw [if_pos hp, if_pos (hpq.mpr hp)]
    exact h hp
  · rw [if_neg hp, if_neg (mt hpq.mp hp)]
    exact h' hp

/-! ### Failures -/

/-- Nothing is asked where the first fails. -/
theorem of_fails (h : Orderly.Fails x) : Follows R x y V P := by
  intro s t _
  obtain ⟨e, hrun, -⟩ := h s
  rw [hrun]
  exact .first trivial

theorem failExpected {wanted : String} {y : Parse β} :
    Follows R (Parse.failExpected wanted : Parse α) y V P := of_fails Orderly.fails_failExpected

/-- A bound on the second side may be too small. -/
theorem short : Follows R x (failFuel : Parse β) V P :=
  fun _ t _ ↦ .second (e := t.tokens.error .outOfFuel) (.inl fun h ↦ h rfl)

/-- A check that the first run passes. -/
theorem require {p q : Prop} [Decidable p] [Decidable q] {z z' : Parse Unit} {f : Unit → Parse γ}
    {g : Unit → Parse δ} (hz : Orderly.Fails z) (hpq : q → p)
    (h : ¬ p → Follows R (f ()) (g ()) V' P') :
    Follows R (if p then z >>= f else f ()) (if q then z' >>= g else g ()) V' P' := by
  by_cases hp : p
  · rw [if_pos hp]
    intro s t _
    obtain ⟨e, hrun, -⟩ := hz s
    rw [bind_eq_of_error hrun]
    exact .first trivial
  · rw [if_neg hp, if_neg (mt hpq hp)]
    exact h hp

/-! ### The end of the first tokens -/

/-- At the end of the first tokens the first run fails. -/
theorem of_lax (h : Follows (Joins tail) x y V P) (hx : Dies x) :
    Follows (JoinsLax tail) x y V P := by
  rintro s t ⟨⟨l, l', hl, hl', hll' | ⟨hspent, -⟩⟩, hsymbols, hdepths⟩
  · exact h s t ⟨⟨l, l', hl, hl', hll'⟩, hsymbols, hdepths⟩
  · cases hrun : x s with
    | ok a s' => exact absurd hrun (hx s ⟨l, hl, hspent⟩ a s')
    | error e s' => exact .first trivial

theorem of_fresh (h : Follows (JoinsSolid tail) x y V P) (hx : Dies x) :
    Follows (JoinsFresh tail) x y V P := by
  rintro s t ⟨⟨l, l', hl, hl', hll' | ⟨hspent, -⟩⟩, hsymbols, hdepths⟩
  · exact h s t ⟨⟨l, l', hl, hl', hll'⟩, hsymbols, hdepths⟩
  · cases hrun : x s with
    | ok a s' => exact absurd hrun (hx s ⟨l, hl, hspent⟩ a s')
    | error e s' => exact .first trivial

/-! ### Questions -/

/-- Both states are asked. -/
theorem ask {u : ParserState → α} {v : ParserState → β} (hx : ∀ s, x s = .ok (u s) s)
    (hy : ∀ t, y t = .ok (v t) t) (hV : ∀ s t, s.Abreast R t → V (u s) (v t)) :
    Follows R x y V fun _ ↦ R := by
  intro s t hst
  rw [hx, hy]
  exact .ok ⟨hV s t hst, hst⟩

theorem position : Follows R Parse.position Parse.position (fun _ _ ↦ True) fun _ ↦ R :=
  ask (fun _ ↦ rfl) (fun _ ↦ rfl) fun _ _ _ ↦ trivial

theorem place : Follows R Parse.place Parse.place (fun _ _ ↦ True) fun _ ↦ R :=
  ask (fun _ ↦ rfl) (fun _ ↦ rfl) fun _ _ _ ↦ trivial

theorem rounds : Follows R Parse.rounds Parse.rounds (fun _ _ ↦ True) fun _ ↦ R :=
  ask (fun _ ↦ rfl) (fun _ ↦ rfl) fun _ _ _ ↦ trivial

/-- Whatever the windows are. -/
theorem tokens_bind {f : Window Lexer → Parse γ} {g : Window Lexer → Parse δ}
    (h : ∀ w w', Follows R (f w) (g w') V' P') : Follows R (tokens >>= f) (tokens >>= g) V' P' :=
  fun s t ↦ h s.tokens t.tokens s t

theorem scope : Follows R Parse.scope Parse.scope Eq fun _ ↦ R :=
  ask (fun _ ↦ rfl) (fun _ ↦ rfl) fun _ _ h ↦ h.scope_eq.symm

theorem symbols {h : SymbolTable → α} (hg : ∀ table : SymbolTable, h table.unplaced = h table) :
    Follows R (Parse.symbols h) (Parse.symbols h) Eq fun _ ↦ R :=
  ask (fun _ ↦ rfl) (fun _ ↦ rfl) fun _ _ hst ↦ by rw [← hg, ← hst.symbols, hg]

theorem node {form form' : Form} (h : form.Alike form') (position position' : Position) :
    Follows R (Parse.node form position) (Parse.node form' position') Expr.Alike fun _ ↦ R :=
  ask (fun _ ↦ rfl) (fun _ ↦ rfl) fun _ _ hst ↦ by
    rw [hst.scope_eq]
    exact h.node

section

variable (htail : IsTailOfTokens tail)

include htail

/-- The current tokens. -/
theorem current_bind {f : Token → Parse γ} {g : Token → Parse δ}
    (h : ∀ t t', t.Meets t' → Follows (JoinsAt tail t t') (f t) (g t') V' P') :
    Follows (Joins tail) (current >>= f) (current >>= g) V' P' := by
  intro s t hst
  obtain ⟨u, u', rest, rest', hl, hl', hmeets, hat⟩ := hst.exists_current htail
  rw [bind_eq_of_ok current_run, bind_eq_of_ok current_run, hl.current_eq, hl'.current_eq]
  exact h u u' hmeets s t ⟨⟨_, _, hl, hl', hat⟩, hst.symbols, hst.depths⟩

/-- The current tokens are spelled in the same way. -/
theorem is_cases (htext : Lexeme.IsMark text) {f : Bool → Parse γ} {g : Bool → Parse δ}
    (h : Follows (JoinsSolid tail) (f true) (g true) V' P')
    (h' : Follows (Joins tail) (f false) (g false) V' P') :
    Follows (Joins tail) (is text >>= f) (is text >>= g) V' P' := by
  refine current_bind (f := fun t ↦ f (t.is text)) (g := fun t ↦ g (t.is text)) htail
    fun t t' hmeets ↦ ?_
  rw [hmeets.is_eq htext]
  cases his : t.is text with
  | true =>
    refine h.of_implies fun l l' hat ↦ hat.solid fun hstop ↦ ?_
    exact absurd (his.symm.trans (hstop.is_eq_false htext)) (by simp)
  | false => exact h'.of_implies fun _ _ ↦ JoinsAt.joins

theorem is_branch (htext : Lexeme.IsMark text) (h : Follows (JoinsSolid tail) x y V P)
    (h' : Follows (Joins tail) x' y' V P) :
    Follows (Joins tail) (do if ← is text then x else x') (do if ← is text then y else y') V P :=
  is_cases htail htext h h'

/-- A required spelling. -/
theorem is_require (htext : Lexeme.IsMark text) {z z' : Parse Unit} {f : Unit → Parse γ}
    {g : Unit → Parse δ} (hz : Orderly.Fails z)
    (h : Follows (JoinsSolid tail) (f ()) (g ()) V' P') :
    Follows (Joins tail) (do if !(← is text) then z >>= f else f ())
      (do if !(← is text) then z' >>= g else g ()) V' P' :=
  is_cases htail htext h (require hz (fun _ ↦ rfl) fun hnot ↦ absurd rfl hnot)

end

end Follows
end Parse
end ScriptFront
