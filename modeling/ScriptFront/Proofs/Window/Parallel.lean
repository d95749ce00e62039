import Mathlib.Data.List.Forall2
import ScriptFront.Proofs.Window.Moves

/-!
# Windows that run parallel

Two windows that hold related tokens, one by one, move alike: whether a token is passed over, and
whether it is the end, depends on its kind only. They stay related if their sources yield related
batches whenever both are asked for tokens. The sources need not be equal, only related in a way
that batches keep; and once both windows are exhausted, nothing depends on the sources, on how far
the windows see, or on when they forget the tokens behind them.
-/

namespace ScriptFront.Window

/-- What is asked of a relation between tokens for windows to move alike. -/
structure IsTokenwise (T : Token → Token → Prop) : Prop where
  /-- Related tokens are of the same kind. -/
  kind : ∀ {t u : Token}, T t u → u.kind = t.kind
  /-- The token shown where none is held. -/
  shown : T default default
  /-- The tokens that close a stream. -/
  endAfter : ∀ {t u : Token}, T t u → T (endAfter (some t)) (endAfter (some u))

/-- Asked for a batch, related lexers yield related tokens and stay related. -/
structure IsParallel (lee : Leeway) (T : Token → Token → Prop) (R : Lexer → Lexer → Prop) : Prop
    extends IsTokenwise T where
  /-- Batches are related. -/
  batch : ∀ count, Paired lee R (List.Forall₂ T) (Lexer.batch count) (Lexer.batch count)
  /-- The bounds on the tokens left are the same. -/
  tokensLeft : ∀ {lx lx' : Lexer}, R lx lx' → lx'.tokensLeft = lx.tokensLeft

/-- The windows hold related tokens. -/
structure Parallel (T : Token → Token → Prop) (R : Lexer → Lexer → Prop) (S : Nat → Nat → Prop)
    (v w : Window Lexer) : Prop where
  /-- The tokens held are related. -/
  ahead : List.Forall₂ T v.ahead w.ahead
  /-- Further tokens come in both or in none. -/
  exhausted : w.exhausted = v.exhausted
  /-- Neither window has less sight than any, and their sights are related. -/
  sight : minLookahead ≤ v.lookahead ∧ minLookahead ≤ w.lookahead ∧ S v.lookahead w.lookahead
  /-- As long as further tokens come, they come at the same moments and from related sources. -/
  source : v.exhausted = false → w.passed = v.passed ∧ w.lookahead = v.lookahead ∧
    ∃ lx lx', v.source = some lx ∧ w.source = some lx' ∧ R lx lx'

/-! ## Lists of related tokens -/

namespace IsTokenwise

variable {T : Token → Token → Prop} {t u : Token} {list list' : List Token}

theorem isEnd_eq (hT : IsTokenwise T) (h : T t u) : u.isEnd = t.isEnd := by
  rw [Token.isEnd, Token.isEnd, hT.kind h]

theorem isPassedOver_eq (hT : IsTokenwise T) (passNewLine : Bool) (h : T t u) :
    isPassedOver passNewLine u = isPassedOver passNewLine t := by
  have hkind : u.lexeme.kind = t.lexeme.kind := hT.kind h
  rw [isPassedOver, isPassedOver, Lexeme.isTrivia, Lexeme.isTrivia, hkind, hT.kind h]

theorem getD (hT : IsTokenwise T) (h : List.Forall₂ T list list') (n : Nat) :
    T (list.getD n default) (list'.getD n default) := by
  induction h generalizing n with
  | nil => exact hT.shown
  | cons ht _ ih =>
    cases n with
    | zero => exact ht
    | succ n => exact ih n

theorem headD (hT : IsTokenwise T) (h : List.Forall₂ T list list') :
    T (list.headD default) (list'.headD default) := by
  cases h with
  | nil => exact hT.shown
  | cons ht => exact ht

theorem any_isEnd_eq (hT : IsTokenwise T) (h : List.Forall₂ T list list') :
    list'.any Token.isEnd = list.any Token.isEnd := by
  induction h with
  | nil => rfl
  | cons ht _ ih => rw [List.any_cons, List.any_cons, hT.isEnd_eq ht, ih]

theorem isEmpty_eq (h : List.Forall₂ T list list') : list'.isEmpty = list.isEmpty := by
  cases h <;> rfl

theorem dropWhile (hT : IsTokenwise T) (passNewLine : Bool) (h : List.Forall₂ T list list') :
    List.Forall₂ T (list.dropWhile (isPassedOver passNewLine))
      (list'.dropWhile (isPassedOver passNewLine)) := by
  induction h with
  | nil => exact .nil
  | @cons t u list list' ht hrest ih =>
    rw [List.dropWhile_cons, List.dropWhile_cons, hT.isPassedOver_eq passNewLine ht]
    by_cases hpassed : isPassedOver passNewLine t = true
    · rw [if_pos hpassed, if_pos hpassed]
      exact ih
    · rw [if_neg hpassed, if_neg hpassed]
      exact .cons ht hrest

theorem terminated (hT : IsTokenwise T) (h : List.Forall₂ T list list') :
    List.Forall₂ T (terminated list) (terminated list') := by
  rcases List.eq_nil_or_concat list with rfl | ⟨front, t, rfl⟩
  · cases h
    exact .cons hT.shown .nil
  · rw [List.concat_eq_append] at h ⊢
    have hback := List.forall₂_reverse_iff.mpr h
    rw [List.reverse_append] at hback
    obtain ⟨u, back, ht, -, hlist'⟩ := List.forall₂_cons_left_iff.mp hback
    obtain rfl : list' = back.reverse ++ [u] := by
      rw [← List.reverse_cons, ← hlist', List.reverse_reverse]
    rw [Window.terminated, Window.terminated, List.getLast?_concat, List.getLast?_concat]
    dsimp only
    rw [hT.isEnd_eq ht]
    split
    · exact h
    · exact List.rel_append h (.cons (hT.endAfter ht) .nil)

end IsTokenwise

section

variable {lee : Leeway} {T : Token → Token → Prop} {R : Lexer → Lexer → Prop}
  {S : Nat → Nat → Prop} {v w : Window Lexer}

namespace Parallel

theorem current (hT : IsTokenwise T) (h : Parallel T R S v w) : T v.current w.current :=
  hT.headD h.ahead

theorem held (hT : IsTokenwise T) (h : Parallel T R S v w) (n : Nat) : T (v.held n) (w.held n) :=
  hT.getD h.ahead n

/-- Both windows move in the same way over the tokens held. -/
theorem update (h : Parallel T R S v w) {ahead ahead' : List Token} {p q : Nat}
    (hahead : List.Forall₂ T ahead ahead') (hpq : v.exhausted = false → q = p) :
    Parallel T R S { v with ahead, passed := p } { w with ahead := ahead', passed := q } :=
  ⟨hahead, h.exhausted, h.sight, fun hex ↦ ⟨hpq hex, (h.source hex).2⟩⟩

theorem tokensLeft_eq (h : Parallel T R S v w) (hR : IsParallel lee T R) :
    w.tokensLeft = v.tokensLeft := by
  rw [tokensLeft, tokensLeft, h.ahead.length_eq, h.exhausted]
  cases hex : v.exhausted with
  | true => rfl
  | false =>
    obtain ⟨-, -, lx, lx', hv, hw, hrel⟩ := h.source hex
    have hleft : TokenSupply.tokensLeft lx' = TokenSupply.tokensLeft lx := hR.tokensLeft hrel
    simp [hv, hw, hleft]

end Parallel

theorem pull_exhausted {count : Nat} (h : w.exhausted = true) : pull count w = .ok () w := by
  rw [pull, if_pos h]

/-- An exhausted window forgets without pulling. -/
theorem forget_exhausted (rounds : Nat) (h : w.exhausted = true) :
    ∃ passed, forget rounds w = .ok () { w with passed } := by
  induction rounds generalizing w with
  | zero => exact ⟨w.passed, rfl⟩
  | succ rounds ih =>
    obtain ⟨passed, hrest⟩ := ih (w := { w with passed := w.passed - w.lookahead }) h
    refine ⟨passed, ?_⟩
    have hpull : pull w.lookahead { w with passed := w.passed - w.lookahead } =
        .ok () { w with passed := w.passed - w.lookahead } := pull_exhausted h
    exact (bind_eq_of_ok hpull).trans hrest

/-! ## Moving -/

section

variable (hR : IsParallel lee T R)

include hR

theorem parallel_pull {m n : Nat} (h : Parallel T R S v w) (hmn : v.exhausted = false → n = m) :
    Agree lee (fun _ _ v w ↦ Parallel T R S v w) (pull m v) (pull n w) := by
  cases hex : v.exhausted with
  | true =>
    rw [pull_exhausted hex, pull_exhausted (h.exhausted.trans hex)]
    exact .ok h
  | false =>
    obtain ⟨hpassed, hlook, lx, lx', hv, hw, hrel⟩ := h.source hex
    rw [hmn hex]
    unfold pull
    simp only [hex, h.exhausted, hv, hw, TokenSupply.nextBatch, Bool.false_eq_true, if_false]
    have hbatch := hR.batch m lx lx' hrel
    revert hbatch
    generalize Lexer.batch m lx = r
    generalize Lexer.batch m lx' = r'
    intro hbatch
    cases hbatch with
    | @ok batch batch' lx₂ lx₂' hab =>
      obtain ⟨htokens, hrel₂⟩ := hab
      have hahead := List.rel_append h.ahead htokens
      dsimp only
      rw [IsTokenwise.isEmpty_eq htokens, hR.any_isEnd_eq htokens]
      refine .ok ⟨?_, rfl, h.sight, fun _ ↦ ⟨hpassed, hlook, lx₂, lx₂', rfl, rfl, hrel₂⟩⟩
      split
      · exact hR.terminated hahead
      · exact hahead
    | error herror => exact .error herror
    | first hfirst => exact .first hfirst
    | second hsecond => exact .second hsecond

theorem parallel_hold (n : Nat) : Twin lee (Parallel T R S) (hold n) (hold n) := by
  intro v w h
  unfold hold
  rw [IsTokenwise.isEmpty_eq (List.forall₂_drop n h.ahead)]
  split
  · exact (parallel_pull hR h fun hex ↦ (h.source hex).2.1).mono fun _ _ _ _ h ↦ ⟨rfl, h⟩
  · exact .ok ⟨rfl, h⟩

theorem parallel_step : Twin lee (Parallel T R S) step step := by
  intro v w h
  have hhold := parallel_hold hR 1 v w h
  unfold step
  revert hhold
  generalize hold 1 v = r
  generalize hold 1 w = r'
  intro hhold
  cases hhold with
  | @ok _ _ v₁ w₁ hab =>
    obtain ⟨-, h₁⟩ := hab
    have hahead := h₁.ahead
    dsimp only
    -- both windows have a next token, or neither has
    rcases hv : v₁.ahead with _ | ⟨t, _ | ⟨next, rest⟩⟩
    · rw [hv] at hahead
      rw [List.forall₂_nil_left_iff.mp hahead]
      exact .ok ⟨rfl, h₁⟩
    · rw [hv] at hahead
      obtain ⟨u, rest', -, hrest, hw⟩ := List.forall₂_cons_left_iff.mp hahead
      rw [List.forall₂_nil_left_iff.mp hrest] at hw
      rw [hw]
      exact .ok ⟨rfl, h₁⟩
    · rw [hv] at hahead
      obtain ⟨u, tail, -, htail, hw⟩ := List.forall₂_cons_left_iff.mp hahead
      obtain ⟨next', rest', hnext, hrest, rfl⟩ := List.forall₂_cons_left_iff.mp htail
      rw [hw]
      exact .ok ⟨rfl, h₁.update (.cons hnext hrest) fun hex ↦ by rw [(h₁.source hex).1]⟩
  | error herror => exact .error herror
  | first hfirst => exact .first hfirst
  | second hsecond => exact .second hsecond

theorem parallel_skipWithin (passNewLine : Bool) (fuel : Nat) :
    Twin lee (Parallel T R S) (skipWithin passNewLine fuel) (skipWithin passNewLine fuel) := by
  induction fuel with
  | zero => exact .pure _
  | succ fuel ih =>
    rw [skipWithin]
    refine .get_bind fun v w h ↦ ?_
    rw [hR.isPassedOver_eq passNewLine (h.current hR.toIsTokenwise)]
    exact .ite ((parallel_step hR).bind fun _ ↦ ih) (.pure _)

theorem parallel_skip (passNewLine : Bool) :
    Twin lee (Parallel T R S) (skip passNewLine) (skip passNewLine) := by
  intro v w h
  unfold skip
  rw [hR.isPassedOver_eq passNewLine (h.current hR.toIsTokenwise), h.tokensLeft_eq hR]
  split
  · exact parallel_skipWithin hR passNewLine _ v w h
  · exact .ok ⟨rfl, h⟩

theorem parallel_forget (rounds : Nat) (h : Parallel T R S v w) :
    Agree lee (fun _ _ v w ↦ Parallel T R S v w) (forget rounds v) (forget rounds w) := by
  induction rounds generalizing v w with
  | zero => exact .ok h
  | succ rounds ih =>
    rw [forget, modify_bind_run, modify_bind_run, get_bind_run, get_bind_run]
    have hless : Parallel T R S { v with passed := v.passed - v.lookahead }
        { w with passed := w.passed - w.lookahead } := by
      refine ⟨h.ahead, h.exhausted, h.sight, fun hex ↦ ⟨?_, (h.source hex).2⟩⟩
      obtain ⟨hpassed, hlook, -⟩ := h.source hex
      dsimp only
      rw [hpassed, hlook]
    exact (parallel_pull hR hless fun hex ↦ (h.source hex).2.1).bind fun _ _ v₁ w₁ h₁ ↦ ih h₁

theorem parallel_forgetPassed : Twin lee (Parallel T R S) forgetPassed forgetPassed := by
  intro v w h
  unfold forgetPassed
  cases hex : v.exhausted with
  | true =>
    -- the numbers of rounds may differ, but neither window pulls in them
    obtain ⟨p, hp⟩ := forget_exhausted (v.passed / v.lookahead) hex
    obtain ⟨q, hq⟩ := forget_exhausted (w.passed / w.lookahead) (h.exhausted.trans hex)
    rw [hp, hq]
    refine .ok ⟨rfl, h.ahead, h.exhausted, h.sight, fun hnot ↦ ?_⟩
    exact absurd (hex.symm.trans hnot) (by simp)
  | false =>
    obtain ⟨hpassed, hlook, -⟩ := h.source hex
    rw [hpassed, hlook]
    exact (parallel_forget hR _ h).mono fun _ _ _ _ h ↦ ⟨rfl, h⟩

theorem parallel_advance (count : Nat) (passNewLine : Bool) :
    Twin lee (Parallel T R S) (advance count passNewLine) (advance count passNewLine) := by
  refine .bind ?_ fun _ ↦ parallel_forgetPassed hR
  induction count with
  | zero => exact .pure _
  | succ count ih =>
    rw [advanceBy]
    refine .get_bind fun v w h ↦ ?_
    rw [isEnded, isEnded, kind, kind, hR.kind (h.current hR.toIsTokenwise)]
    exact .ite ((parallel_step hR).bind fun _ ↦ (parallel_skip hR passNewLine).bind fun _ ↦ ih)
      (.pure _)

theorem parallel_skipNewLines : Twin lee (Parallel T R S) skipNewLines skipNewLines :=
  (parallel_skip hR true).bind fun _ ↦ parallel_forgetPassed hR

/-! ## Looking ahead -/

theorem parallel_reach (passNewLine : Bool) (fuel count n : Nat) :
    Twin lee (Parallel T R S) (reach passNewLine fuel count n)
      (reach passNewLine fuel count n) := by
  induction fuel generalizing count n with
  | zero =>
    rw [reach]
    exact .pure _
  | succ fuel ih =>
    cases count with
    | zero =>
      rw [reach]
      · exact .pure _
      · exact Nat.succ_ne_zero _
    | succ count =>
      rw [reach]
      refine .get_bind fun v w h ↦ ?_
      rw [hR.isEnd_eq (h.held hR.toIsTokenwise n)]
      refine .ite (.pure _) ((parallel_hold hR _).bind fun _ ↦ .get_bind fun v w h ↦ ?_)
      rw [hR.isPassedOver_eq passNewLine (h.held hR.toIsTokenwise (n + 1))]
      exact ih _ _

/-- Places within the reach of both windows are the same. -/
theorem parallel_locate_within {count : Nat} (passNewLine : Bool) (h : Parallel T R S v w)
    (hv : count ≤ v.lookahead) (hw : count ≤ w.lookahead) :
    Agree lee (fun m n v w ↦ m = n ∧ Parallel T R S v w) (locate count passNewLine v)
      (locate count passNewLine w) := by
  unfold locate
  rw [if_neg (Nat.not_lt_of_le hv), if_neg (Nat.not_lt_of_le hw), h.tokensLeft_eq hR]
  split
  · exact .ok ⟨rfl, h⟩
  · exact parallel_reach hR passNewLine _ count 0 v w h

theorem parallel_peek_within {count : Nat} (passNewLine : Bool) (h : Parallel T R S v w)
    (hv : count ≤ v.lookahead) (hw : count ≤ w.lookahead) :
    Agree lee (fun t u v w ↦ T t u ∧ Parallel T R S v w) (peek count passNewLine v)
      (peek count passNewLine w) := by
  refine (parallel_locate_within hR passNewLine h hv hw).bind fun m n v₁ w₁ hmn ↦ ?_
  obtain ⟨rfl, h₁⟩ := hmn
  rw [get_bind_run, get_bind_run]
  exact .ok ⟨h₁.held hR.toIsTokenwise m, h₁⟩

theorem parallel_peek {count : Nat} (passNewLine : Bool) (hcount : count ≤ minLookahead) :
    Paired lee (Parallel T R S) T (peek count passNewLine) (peek count passNewLine) := fun _ _ h ↦
  parallel_peek_within hR passNewLine h (Nat.le_trans hcount h.sight.1)
    (Nat.le_trans hcount h.sight.2.1)

end

/-! ## New windows -/

/-- New windows on related tokens run parallel. -/
theorem parallel_ofTokens (hT : IsTokenwise T) {list list' : List Token}
    (hlist : List.Forall₂ T list list') {m n : Nat}
    (hmn : S (max m minLookahead) (max n minLookahead)) :
    Parallel T R S (ofTokens list m) (ofTokens list' n) := by
  refine ⟨?_, rfl, ⟨Nat.le_max_right _ _, Nat.le_max_right _ _, hmn⟩, fun hex ↦ ?_⟩
  · rw [ahead_ofTokens, ahead_ofTokens]
    exact hT.dropWhile false (hT.terminated hlist)
  · exact absurd hex (by simp [ofTokens])

/-- Beside related windows, new ones on related tokens run parallel. -/
theorem Parallel.nested (hT : IsTokenwise T) (h : Parallel T R S v w) {list list' : List Token}
    (hlist : List.Forall₂ T list list') :
    Parallel T R S (ofTokens list v.lookahead) (ofTokens list' w.lookahead) := by
  obtain ⟨hv, hw, hS⟩ := h.sight
  refine parallel_ofTokens hT hlist ?_
  rwa [Nat.max_eq_left hv, Nat.max_eq_left hw]

/-- Windows on related sources run parallel. -/
theorem parallel_ofSource {lx lx' : Lexer} (hR : IsParallel lee T R) (h : R lx lx')
    (hS : ∀ n, S n n) (lookahead : Nat) :
    Conform lee (Parallel T R S) (ofSource lx lookahead) (ofSource lx' lookahead) := by
  have hsight : minLookahead ≤ max lookahead minLookahead := Nat.le_max_right _ _
  have hnew : Parallel T R S ⟨0, [], max lookahead minLookahead, some lx, false⟩
      ⟨0, [], max lookahead minLookahead, some lx', false⟩ :=
    ⟨.nil, rfl, ⟨hsight, hsight, hS _⟩, fun _ ↦ ⟨rfl, rfl, lx, lx', rfl, rfl, h⟩⟩
  have hrun := (parallel_pull hR hnew (m := 2 * max lookahead minLookahead) fun _ ↦ rfl).bind
    fun _ _ v w h ↦ parallel_skip hR false v w h
  rw [ofSource_eq_outcome, ofSource_eq_outcome]
  exact hrun.conform fun _ _ _ _ hab ↦ hab.2

end

end ScriptFront.Window
