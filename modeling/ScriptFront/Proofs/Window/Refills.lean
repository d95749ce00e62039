import Mathlib.Logic.Relation
import ScriptFront.Proofs.Window.Sight

/-!
# Refilling

Looking ahead pulls tokens when the window does not hold those that are wanted, always as many as
its reach. So all windows that looking ahead leads to from one window are links of a chain, and each
holds what the one before it holds. How far along the chain a window is depends on what was looked
at before; what is seen from it does not, since a walk over the tokens of one link is a walk over
those of every later one.

`Window.Awaits` says what the chain brings in the end: the tokens that are still to come. It takes
no account of what becomes of the rest of the text, so it may be said of a window whose lexer is
going to fail, too.
-/

namespace ScriptFront.Window

open Relation (ReflTransGen)

section

variable {σ : Type} [TokenSupply σ] {v w w' : Window σ} {e : ScriptError} {count : Nat}

/-- The window was refilled any number of times. -/
def Refilled : Window σ → Window σ → Prop := ReflTransGen fun v w ↦ pull v.lookahead v = .ok () w

/-- A refill, the next one or a later one, fails with this. -/
def RefillFails (w : Window σ) (e : ScriptError) : Prop :=
  ∃ v w', Refilled w v ∧ pull v.lookahead v = .error e w'

/-- No refill fails, however many there are. -/
def IsErrorFree (w : Window σ) : Prop := ∀ e, ¬ w.RefillFails e

/-- These are the next tokens, held or brought by refills. -/
def Awaits (w : Window σ) (tokens : List Token) : Prop := ∃ w', Refilled w w' ∧ tokens <+: w'.ahead

theorem Refilled.trans (h : Refilled v w) (h' : Refilled w w') : Refilled v w' :=
  ReflTransGen.trans h h'

/-- Of two windows that one comes to by refills, one comes to the other. -/
theorem Refilled.total (h : Refilled v w) (h' : Refilled v w') : Refilled w w' ∨ Refilled w' w :=
  ReflTransGen.total_of_right_unique (fun _ _ _ h h' ↦ by cases h.symm.trans h'; rfl) h h'

theorem RefillFails.of_refilled (h : w'.RefillFails e) (hw : Refilled w w') : w.RefillFails e := by
  obtain ⟨v, v', hv, hpull⟩ := h
  exact ⟨v, v', hw.trans hv, hpull⟩

theorem IsErrorFree.refilled (h : w.IsErrorFree) (hw : Refilled w w') : w'.IsErrorFree :=
  fun e he ↦ h e (he.of_refilled hw)

/-! ## Looking ahead does nothing but refill -/

theorem hold_refills (n : Nat) (w : Window σ) :
    Ensures w.RefillFails (hold n) w fun _ w' ↦ Refilled w w' := by
  unfold hold
  by_cases hheld : (w.ahead.drop n).isEmpty = true
  · refine .intro (fun _ w' hpull ↦ ?_) fun e w' hpull ↦ ?_
    · rw [if_pos hheld] at hpull
      exact .single hpull
    · rw [if_pos hheld] at hpull
      exact ⟨w, w', .refl, hpull⟩
  · exact .known (if_neg hheld) .refl

theorem reach_refills (passNewLine : Bool) (fuel count n : Nat) (w : Window σ) :
    Ensures w.RefillFails (reach passNewLine fuel count n) w fun _ w' ↦ Refilled w w' := by
  induction fuel generalizing count n w with
  | zero => exact .pure .refl
  | succ fuel ih =>
    cases count with
    | zero => exact .pure .refl
    | succ count =>
      refine .get_bind (.branch (fun _ ↦ .pure .refl) fun _ ↦ ?_)
      refine (hold_refills (n + 1) w).bind fun _ w₁ hw₁ ↦ .get_bind ?_
      exact ((ih _ _ w₁).loosen fun e he ↦ he.of_refilled hw₁).mono fun _ _ hw' ↦ hw₁.trans hw'

theorem peek_refills (hcount : count ≤ w.lookahead) (passNewLine : Bool) :
    Ensures w.RefillFails (peek count passNewLine) w fun _ w' ↦ Refilled w w' := by
  have hlocate : Ensures w.RefillFails (locate count passNewLine) w fun _ w' ↦ Refilled w w' := by
    rw [Ensures, locate, if_neg (Nat.not_lt.mpr hcount)]
    by_cases hzero : count = 0
    · rw [if_pos hzero]
      exact .refl
    · rw [if_neg hzero]
      exact reach_refills passNewLine w.tokensLeft count 0 w
  exact hlocate.bind fun _ w' hw' ↦ .get_bind (.pure hw')

/-! ## Known tokens to come -/

section Streams

variable {tokens front : List Token}

theorem Streams.refilled (h : w.Streams tokens) (hw : Refilled w w') : w'.Streams tokens := by
  induction hw with
  | refl => exact h
  | tail _ hpull ih =>
    obtain ⟨w₁, hpull₁, hstreams, -⟩ := ih.pull ih.lookahead_pos
    cases hpull.symm.trans hpull₁
    exact hstreams

theorem Streams.isErrorFree (h : w.Streams tokens) : w.IsErrorFree := by
  rintro e ⟨v, w', hv, hpull⟩
  have hstreams := h.refilled hv
  obtain ⟨w₁, hpull₁, -⟩ := hstreams.pull hstreams.lookahead_pos
  cases hpull.symm.trans hpull₁

/-- Refills bring all tokens in the end. -/
theorem Streams.exists_refilled (h : w.Streams tokens) :
    ∃ w', Refilled w w' ∧ w'.ahead = tokens := by
  induction hmissing :
      tokens.length - w.ahead.length using Nat.strong_induction_on generalizing w with
  | _ missing ih =>
    obtain ⟨w₁, hpull, hstreams, -, -, more, hmore, hall, -⟩ := h.pull h.lookahead_pos
    by_cases hnil : more = []
    · exact ⟨w, .refl, hall hnil⟩
    · have hlonger : w.ahead.length < w₁.ahead.length := by
        rw [hmore, List.length_append]
        exact Nat.lt_add_of_pos_right (List.length_pos_iff.mpr hnil)
      have hbound := hstreams.ahead_prefix.length_le
      obtain ⟨w', hw', hahead⟩ := ih _ (by omega) hstreams rfl
      exact ⟨w', ReflTransGen.head hpull hw', hahead⟩

/-- A window that streams a list awaits the first tokens of it. -/
theorem Streams.awaits_iff (h : w.Streams tokens) : w.Awaits front ↔ front <+: tokens := by
  constructor
  · rintro ⟨w', hw', hfront⟩
    exact hfront.trans (Streams.ahead_prefix (h.refilled hw'))
  · intro hfront
    obtain ⟨w', hw', hahead⟩ := h.exists_refilled
    exact ⟨w', hw', hahead ▸ hfront⟩

end Streams

end

/-! ## Windows on a lexer -/

section Firm

variable {E : ScriptError → Prop} {u v v' w w' : Window Lexer} {count : Nat} {passNewLine : Bool}
  {t t' : Token} {tokens : List Token}

theorem Refilled.holds (h : Refilled w w') (hw : Firm E w) : Holds True w w' := by
  induction h with
  | refl => exact .refl
  | tail _ hpull ih =>
    have hfirm := ih.leads.firm hw
    exact ih.trans ((hfirm.pull_ensures hfirm.lookahead_pos).of_ok hpull).1

theorem Firm.refilled (h : Firm E w) (hw : Refilled w w') : Firm E w' := (hw.holds h).leads.firm h

theorem Refilled.lookahead_eq (h : Refilled w w') (hw : Firm E w) : w'.lookahead = w.lookahead :=
  (h.holds hw).leads.lookahead_eq hw

theorem Refilled.current_eq (h : Refilled w w') (hw : Firm E w) : w'.current = w.current :=
  (h.holds hw).current_eq hw.held

/-- Refills change nothing about the tokens to come. -/
theorem Refilled.awaits_iff (h : Refilled w w') (hw : Firm E w) :
    w'.Awaits tokens ↔ w.Awaits tokens := by
  constructor
  · rintro ⟨v, hv, htokens⟩
    exact ⟨v, h.trans hv, htokens⟩
  · rintro ⟨v, hv, htokens⟩
    rcases h.total hv with hv' | hv'
    · exact ⟨v, hv', htokens⟩
    · exact ⟨w', .refl, htokens.trans (hv'.holds (hw.refilled hv)).ahead⟩

/-- Looking ahead refills, and sees the token at the end of a walk. -/
theorem Firm.peek_refills (h : Firm E w) (hcount : count ≤ w.lookahead) (passNewLine : Bool) :
    Ensures (fun e ↦ E e ∧ w.RefillFails e) (peek count passNewLine) w fun t w' ↦
      Refilled w w' ∧ ∃ place, Walk passNewLine w'.ahead count place ∧
      w'.ahead[place]? = some t := by
  have hwalk := h.peek_ensures count passNewLine fun hfar ↦ absurd hcount (Nat.not_le.mpr hfar)
  have hrefills := Window.peek_refills hcount passNewLine
  exact .intro (fun t w' hpeek ↦ ⟨hrefills.of_ok hpeek, (hwalk.of_ok hpeek).2⟩) fun e w' hpeek ↦
    ⟨hwalk.of_error hpeek, hrefills.of_error hpeek⟩

/-- What is seen does not depend on how often the window was refilled before. -/
theorem Refilled.peek_unique (hu : Firm E u) (hv : Refilled u v) (hw : Refilled u w)
    (hcount : count ≤ u.lookahead) (hpeek : peek count passNewLine v = .ok t v')
    (hpeek' : peek count passNewLine w = .ok t' w') : t = t' := by
  have hfirm := hu.refilled hv
  have hfirm' := hu.refilled hw
  obtain ⟨hrefills, place, hwalk, ht⟩ :=
    (hfirm.peek_refills (hv.lookahead_eq hu ▸ hcount) passNewLine).of_ok hpeek
  obtain ⟨hrefills', place', hwalk', ht'⟩ :=
    (hfirm'.peek_refills (hw.lookahead_eq hu ▸ hcount) passNewLine).of_ok hpeek'
  rcases (hv.trans hrefills).total (hw.trans hrefills') with hle | hle
  · have hahead := (hle.holds (hfirm.refilled hrefills)).ahead
    obtain rfl := (hwalk.mono hahead).unique hwalk'
    exact Option.some.inj ((getElem?_of_isPrefix hahead ht).symm.trans ht')
  · have hahead := (hle.holds (hfirm'.refilled hrefills')).ahead
    obtain rfl := hwalk.unique (hwalk'.mono hahead)
    exact Option.some.inj (ht.symm.trans (getElem?_of_isPrefix hahead ht'))

end Firm

end ScriptFront.Window
