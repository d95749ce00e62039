import ScriptFront.Proofs.Window.Numbers
import ScriptFront.Proofs.Window.Walk

/-!
# Tokens in sight

Whoever looks ahead counts the tokens that a window holds: the current one and the significant ones
behind it. `Window.inSight` lists these. Up to the end of the tokens, looking ahead is indexing in
this list, replacing tokens puts one in place of its first ones, and moving passes its first ones.
Nothing is assumed of what the window does not hold: its lexer may still fail on the rest of the
text.
-/

namespace ScriptFront.Window

/-- The first of some tokens and the significant ones behind it. -/
def seen : List Token → List Token
  | [] => []
  | t :: rest => t :: rest.filter isSignificant

/-- The current token and the significant ones held behind it. -/
def inSight {σ : Type} (w : Window σ) : List Token := seen w.ahead

variable {tokens tokens' taken : List Token} {count place : Nat} {t : Token}

/-! ## Lists of seen tokens -/

theorem seen_append (hne : tokens ≠ []) :
    seen (tokens ++ tokens') = seen tokens ++ tokens'.filter isSignificant := by
  obtain ⟨t, rest, rfl⟩ := List.exists_cons_of_ne_nil hne
  rw [List.cons_append, seen, seen, List.filter_append, List.cons_append]

theorem seen_isPrefix (h : tokens <+: tokens') : seen tokens <+: seen tokens' := by
  obtain ⟨more, rfl⟩ := h
  by_cases hnil : tokens = []
  · rw [hnil]
    exact List.nil_prefix
  · exact seen_append hnil ▸ List.prefix_append _ _

theorem isSignificant_eq_not_isPassedOver (t : Token) :
    isSignificant t = !isPassedOver false t := by
  simp [isSignificant, isPassedOver]

/-! ## Walks are places in the list -/

/-- A walk that does not come to the end counts the tokens seen. -/
theorem Walk.getElem?_seen (h : Walk false tokens count place)
    (hfree : ∀ u ∈ (seen tokens).take count, u.isEnd = false) :
    (seen tokens)[count]? = tokens[place]? := by
  induction h with
  | here => rfl
  | @ended t rest count ht =>
    cases count with
    | zero => rfl
    | succ count => exact absurd (ht.symm.trans (hfree t (by simp [seen]))) (by simp)
  | @on t next rest count place ht _ ih =>
    rw [List.getElem?_cons_succ]
    have hsig := isSignificant_eq_not_isPassedOver next
    cases hnext : isPassedOver false next with
    | true =>
      rw [hnext] at hsig
      simp only [hnext, if_true, seen, List.filter_cons_of_neg, hsig, Bool.not_true,
        Bool.false_eq_true, not_false_eq_true, List.take_succ_cons, List.mem_cons, forall_eq_or_imp,
        List.getElem?_cons_succ] at ih hfree ⊢
      exact ih ⟨isEnd_of_isPassedOver hnext, hfree.2⟩
    | false =>
      rw [hnext] at hsig
      simp only [hnext, Bool.false_eq_true, if_false, seen, List.filter_cons_of_pos, hsig,
        Bool.not_false, List.take_succ_cons, List.mem_cons, forall_eq_or_imp,
        List.getElem?_cons_succ] at ih hfree ⊢
      exact ih hfree.2

section Held

variable {σ : Type} [TokenSupply σ] {w : Window σ} {passNewLine : Bool}

end Held

/-! ## Moving over what is in sight -/

section Firm

variable {E : ScriptError → Prop} {w w' : Window Lexer} {read : List Token}

theorem Leads.lookahead_eq (h : Leads True w read w') (hfirm : Firm E w) :
    w'.lookahead = w.lookahead := by
  induction h with
  | refl => rfl
  | tail hleads hmove ih =>
    rw [← ih]
    cases hmove with
    | pull hcount hpull =>
      rcases (hleads.firm hfirm).pulled hcount hpull with ⟨-, rfl⟩ | ⟨-, hpulled⟩
      · rfl
      · exact hpulled.lookahead
    | pass => rfl
    | forget => rfl
    | replace => rfl

end Firm

end ScriptFront.Window
