import ScriptFront.Proofs.Extension.Congruence
import ScriptFront.Proofs.Window.Lockstep

/-!
# Matching looks at tokens only

Whether an extension claims the tokens ahead, and what it records of them, depends on the tokens
that are seen and on nothing else of the window. So two walks on windows that show the same tokens
go the same way. The one failure that a walk takes for an answer, a look beyond the reach of the
window, comes in both or in none, since the windows see equally far; no lexer fails in that way.
-/

namespace ScriptFront

/-- A relation between windows that see equally far. Looking ahead keeps it, and fails only as a
lexer does. -/
structure Window.IsSeen (lee : Leeway) (W : Window Lexer → Window Lexer → Prop) : Prop where
  /-- The current tokens are the same. -/
  current : ∀ {v w : Window Lexer}, W v w → v.current = w.current
  /-- They see equally far. -/
  lookahead : ∀ {v w : Window Lexer}, W v w → v.lookahead = w.lookahead
  /-- Both can look ahead as far as they see. -/
  peek : ∀ {v w : Window Lexer} {count : Nat}, W v w → count ≤ v.lookahead →
    Agree lee (fun t u v w ↦ t = u ∧ W v w) (Window.peek count false v) (Window.peek count false w)
  /-- What is allowed for are failures of a lexer. -/
  failures : ∀ e : ScriptError, lee.common e ∨ lee.first e ∨ lee.second e → e.IsOfLexer

/-- Nothing is seen beyond the reach of a window. -/
theorem Window.peek_far {w : Window Lexer} {count : Nat} (h : w.lookahead < count) :
    Window.peek count false w = .error (w.error (.lookaheadExceeded count w.lookahead)) w := by
  have hlocate : Window.locate count false w =
      .error (w.error (.lookaheadExceeded count w.lookahead)) w := if_pos h
  rw [Window.peek, bind_eq_of_error hlocate]

namespace Matching

/-- The walks have come equally far, on related windows. -/
structure Like (W : Window Lexer → Window Lexer → Prop) (s t : State) : Prop where
  /-- The windows are related. -/
  window : W s.window t.window
  /-- Everything else is the same. -/
  rest : t = { s with window := t.window }

section

variable {lee : Leeway} {W : Window Lexer → Window Lexer → Prop} {s t : State} {n : Nat}

/-! ## What a walk sees -/

theorem peek_of_ok {u : Token} {w : Window Lexer} (h : Window.peek n false s.window = .ok u w) :
    peek n s = .ok (some u) { s with window := w } := by
  simp only [peek, h]

theorem peek_of_error {e : ScriptError} {w : Window Lexer} (he : e.IsOfLexer)
    (h : Window.peek n false s.window = .error e w) :
    peek n s = .error e { s with window := w } := by
  simp only [peek, h]
  split
  · next hcause =>
    rw [ScriptError.IsOfLexer, hcause] at he
    exact he.elim
  · rfl

theorem peek_of_far (h : s.window.lookahead < n) :
    peek n s = .ok none { s with overflowed := true } := by
  simp only [peek, Window.peek_far h, Window.error, ScriptError.ofCause]

theorem Like.offset_eq (h : Like W s t) : t.offset = s.offset := by rw [h.rest]

theorem Like.captures_eq (h : Like W s t) : t.captures = s.captures := by rw [h.rest]

theorem Like.overflowed_eq (h : Like W s t) : t.overflowed = s.overflowed := by rw [h.rest]

section Seen

variable (hW : Window.IsSeen lee W)

include hW

theorem like_peek (n : Nat) : Twin lee (Like W) (peek n) (peek n) := by
  intro s t h
  have hlook := hW.lookahead h.window
  by_cases hfar : s.window.lookahead < n
  · rw [peek_of_far hfar, peek_of_far (hlook ▸ hfar)]
    exact .ok ⟨rfl, h.window, by rw [h.rest]⟩
  · have hpeek := hW.peek h.window (Nat.le_of_not_lt hfar)
    cases hs : Window.peek n false s.window with
    | ok u v =>
      rw [hs] at hpeek
      rw [peek_of_ok hs]
      cases ht : Window.peek n false t.window with
      | ok u' w =>
        rw [ht] at hpeek
        rw [peek_of_ok ht]
        cases hpeek with
        | ok hsame =>
          obtain ⟨rfl, hvw⟩ := hsame
          exact .ok ⟨rfl, hvw, by rw [h.rest]⟩
      | error e w =>
        rw [ht] at hpeek
        cases hpeek with
        | second hsecond =>
          rw [peek_of_error (hW.failures e (.inr (.inr hsecond))) ht]
          exact .second hsecond
    | error e v =>
      rw [hs] at hpeek
      cases ht : Window.peek n false t.window with
      | ok u' w =>
        rw [ht] at hpeek
        cases hpeek with
        | first hfirst =>
          rw [peek_of_error (hW.failures e (.inr (.inl hfirst))) hs]
          exact .first hfirst
      | error e' w =>
        rw [ht] at hpeek
        cases hpeek with
        | error hcommon =>
          have he := hW.failures e (.inl hcommon)
          rw [peek_of_error he hs, peek_of_error he ht]
          exact .error hcommon
        | first hfirst =>
          rw [peek_of_error (hW.failures e (.inr (.inl hfirst))) hs]
          exact .first hfirst
        | second hsecond =>
          rw [peek_of_error (hW.failures e' (.inr (.inr hsecond))) ht]
          exact .second hsecond

/-- To go the same way is kept by whatever walks are made of. -/
theorem isWalkCongruence_like : IsWalkCongruence fun _ ↦ Twin lee (Like W) := by
  have hsteps : IsCongruence fun _ ↦ Twin lee (Like W) := by
    refine ⟨.pure, .bind, fun h ↦ .get_bind fun s t hst ↦ ?_, like_peek hW, fun hm hwindow _ ↦
      .modify fun s t hst ↦ ⟨?_, ?_⟩⟩
    · exact hst.rest ▸ h s t.window
    · rw [hwindow, hwindow]
      exact hst.window
    · rw [hwindow, ← hm, ← hst.rest]
  refine ⟨hsteps, fun first ↦ .get_bind fun s t hst ↦ ?_⟩
  rw [hW.lookahead hst.window]
  exact (hsteps.moreNames _ _).bind fun _ ↦ .pure _

end Seen

end

end Matching

/-! ## Finding an extension -/

namespace Window.IsSeen

variable {lee : Leeway} {W : Window Lexer → Window Lexer → Prop}

/-- Both windows are claimed, or none. -/
theorem claim (hW : IsSeen lee W) (e : Registered) (symbols : SymbolTable) :
    Twin lee W (e.claim symbols) (e.claim symbols) := by
  intro v w h
  rw [Registered.claim, Registered.claim, hW.current h]
  cases hstart : e.mayStart w.current symbols with
  | false => exact .ok ⟨rfl, h⟩
  | true =>
    cases e.elements with
    | none => exact .ok ⟨rfl, h⟩
    | some elements =>
      have hrun :=
        (Matching.isWalkCongruence_like hW).sequence ⟨e.extension, symbols⟩ e.minRequired 0 elements
        ⟨v, 0, .empty, false⟩ ⟨w, 0, .empty, false⟩ ⟨h, rfl⟩
      revert hrun
      simp only [Bool.not_true, Bool.false_eq_true, if_false]
      generalize Matching.sequence _ _ _ _ ⟨v, 0, .empty, false⟩ = r
      generalize Matching.sequence _ _ _ _ ⟨w, 0, .empty, false⟩ = r'
      intro hrun
      cases hrun with
      | @ok matched _ s t hab =>
        obtain ⟨rfl, hst⟩ := hab
        dsimp only
        rw [hst.offset_eq, hst.captures_eq, hst.overflowed_eq]
        split
        · exact .ok ⟨rfl, hst.window⟩
        · exact .ok ⟨rfl, hst.window⟩
      | error herror => exact .error herror
      | first hfirst => exact .first hfirst
      | second hsecond => exact .second hsecond

theorem findFrom (hW : IsSeen lee W) (kind : ExtensionKind) (symbols : SymbolTable) (index : Nat)
    (entries : List Registered) :
    Twin lee W (Registry.findFrom kind symbols index entries)
      (Registry.findFrom kind symbols index entries) := by
  induction entries generalizing index with
  | nil => exact .pure _
  | cons e rest ih =>
    rw [Registry.findFrom]
    refine .ite ((hW.claim e symbols).bind fun claimed ↦ ?_) (ih _)
    cases claimed with
    | none => exact ih _
    | some found => exact .pure _

/-- **The same extension is found**, with the same match. -/
theorem find (hW : IsSeen lee W) (registry : Registry) (kind : ExtensionKind)
    (symbols : SymbolTable) :
    Twin lee W (registry.find kind symbols) (registry.find kind symbols) :=
  hW.findFrom kind symbols 0 registry.entries

end Window.IsSeen

end ScriptFront
