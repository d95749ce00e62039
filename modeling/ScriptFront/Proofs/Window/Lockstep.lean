import ScriptFront.Proofs.Parse.Alongside
import ScriptFront.Proofs.Window.Parallel

/-!
# Windows in lockstep

Two windows that hold the same tokens run parallel, with equality between tokens: they stay in
lockstep if their sources yield the same batches whenever both are asked for tokens.
-/

namespace ScriptFront.Window

/-- Asked for a batch, related lexers agree and stay related. -/
structure IsLockstep (lee : Leeway) (R : Lexer → Lexer → Prop) : Prop where
  /-- Batches are the same. -/
  batch : ∀ count, Twin lee R (Lexer.batch count) (Lexer.batch count)
  /-- So are the bounds on the tokens left. -/
  tokensLeft : ∀ {lx lx' : Lexer}, R lx lx' → lx'.tokensLeft = lx.tokensLeft

/-- The windows hold the same tokens. -/
structure Lockstep (R : Lexer → Lexer → Prop) (S : Nat → Nat → Prop) (v w : Window Lexer) :
    Prop where
  /-- The same tokens are held. -/
  ahead : w.ahead = v.ahead
  /-- Further tokens come in both or in none. -/
  exhausted : w.exhausted = v.exhausted
  /-- Neither window has less sight than any, and their sights are related. -/
  sight : minLookahead ≤ v.lookahead ∧ minLookahead ≤ w.lookahead ∧ S v.lookahead w.lookahead
  /-- As long as further tokens come, they come at the same moments and from related sources. -/
  source : v.exhausted = false → w.passed = v.passed ∧ w.lookahead = v.lookahead ∧
    ∃ lx lx', v.source = some lx ∧ w.source = some lx' ∧ R lx lx'

variable {lee : Leeway} {R : Lexer → Lexer → Prop} {S : Nat → Nat → Prop} {v w : Window Lexer}
  {α : Type}

theorem isTokenwise_eq : IsTokenwise Eq := ⟨fun h ↦ h ▸ rfl, rfl, fun h ↦ h ▸ rfl⟩

theorem IsLockstep.isParallel (hR : IsLockstep lee R) : IsParallel lee Eq R where
  toIsTokenwise := isTokenwise_eq
  batch count := by
    rw [List.forall₂_eq_eq_eq]
    exact hR.batch count
  tokensLeft := hR.tokensLeft

/-- Lockstep is to run parallel with the same tokens. -/
theorem lockstep_eq_parallel : Lockstep R S = Parallel Eq R S := by
  funext v w
  refine propext ⟨fun h ↦ ⟨?_, h.exhausted, h.sight, h.source⟩, fun h ↦
    ⟨?_, h.exhausted, h.sight, h.source⟩⟩
  · rw [List.forall₂_eq_eq_eq]
    exact h.ahead.symm
  · have hahead := h.ahead
    rw [List.forall₂_eq_eq_eq] at hahead
    exact hahead.symm

theorem Lockstep.current_eq (h : Lockstep R S v w) : w.current = v.current := by
  rw [current, current, h.ahead]

section

variable (hR : IsLockstep lee R)

include hR

theorem lockstep_peek_within {count : Nat} (passNewLine : Bool) (h : Lockstep R S v w)
    (hv : count ≤ v.lookahead) (hw : count ≤ w.lookahead) :
    Agree lee (fun t u v w ↦ t = u ∧ Lockstep R S v w) (peek count passNewLine v)
      (peek count passNewLine w) := by
  rw [lockstep_eq_parallel] at h ⊢
  exact parallel_peek_within hR.isParallel passNewLine h hv hw

theorem lockstep_replace (hcommon : ∀ e : ScriptError, e.WithinFuel → lee.common e)
    (hS : ∀ m n, S m n → n = m) (count : Nat) (lexeme : Lexeme) :
    Twin lee (Lockstep R S) (replace count lexeme) (replace count lexeme) := by
  have hlocate : Twin lee (Lockstep R S) (locate (max count 1 - 1) false)
      (locate (max count 1 - 1) false) := by
    intro v w h
    have hlook : w.lookahead = v.lookahead := hS _ _ h.sight.2.2
    by_cases hfar : v.lookahead < max count 1 - 1
    · rw [locate, locate, hlook, if_pos hfar, if_pos hfar, error, error, position, position,
        h.current_eq]
      exact .error (hcommon _ (by simp [ScriptError.WithinFuel, ScriptError.ofCause]))
    · have hnear := Nat.le_of_not_lt hfar
      rw [lockstep_eq_parallel] at h ⊢
      exact parallel_locate_within hR.isParallel false h hnear (hlook ▸ hnear)
  refine hlocate.bind fun last ↦ .modify fun v w h ↦ ⟨?_, h.exhausted, h.sight, h.source⟩
  rw [h.current_eq, h.ahead]

/-- Windows in lockstep show the same tokens. -/
theorem isTwin_lockstep : IsTwin lee (Lockstep R S) where
  current h := h.current_eq.symm
  advance count passNewLine := by
    rw [lockstep_eq_parallel]
    exact parallel_advance hR.isParallel count passNewLine
  skipNewLines := by
    rw [lockstep_eq_parallel]
    exact parallel_skipNewLines hR.isParallel
  peek passNewLine hcount := by
    rw [lockstep_eq_parallel]
    exact parallel_peek hR.isParallel passNewLine hcount
  nested list h := by
    rw [lockstep_eq_parallel] at h ⊢
    exact h.nested isTokenwise_eq (List.forall₂_refl list)

/-- Windows on related sources are in lockstep. -/
theorem lockstep_ofSource {lx lx' : Lexer} (h : R lx lx') (hS : ∀ n, S n n) (lookahead : Nat) :
    Conform lee (Lockstep R S) (ofSource lx lookahead) (ofSource lx' lookahead) := by
  rw [lockstep_eq_parallel]
  exact parallel_ofSource hR.isParallel h hS lookahead

end

end ScriptFront.Window
