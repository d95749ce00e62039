import ScriptFront.Proofs.Parse.Stages
import ScriptFront.Proofs.Window.Separators

/-!
# Between two statements of a list of tokens

What stands between statements is dropped from the tokens to come, as many separators as there are.
A statement ends in front of a separator, which is passed, or in front of a token that ends it and
stays. Some statements go on with a word of the next line, and then the line breaks in front of it
are dropped.

The equations are about one list of tokens and any state that shows it. How many separators there
may be is bounded by fuel, so all that a failure of `Parse.passSeparators` can be is a bound that is
too small.
-/

namespace ScriptFront

open Window (isNewLine)

variable {l : List Token} {base s : ParserState} {t : Token} {text : String}

/-- The end is current exactly when nothing else is left. -/
theorem ParserState.At.isEnded_iff (h : base.At l s) : s.tokens.isEnded = true ↔ IsSpent l := by
  obtain ⟨t, rest, rfl⟩ := List.exists_cons_of_ne_nil h.ne_nil
  rw [h.isEnded_eq]
  refine ⟨fun hend ↦ ⟨t, hend, ?_⟩, ?_⟩
  · rw [h.shows.isEnd_iff.mp hend]
  · rintro ⟨e, he, hsplit⟩
    obtain ⟨rfl, -⟩ := List.cons.inj hsplit
    exact he

namespace Parse

theorem passSeparatorsWithin_ensures (h : base.At l s) (fuel : Nat) :
    Ensures (fun e ↦ ¬ e.WithinFuel) (passSeparatorsWithin fuel) s fun _ s' ↦
      base.At (l.dropWhile Token.isSeparator) s' := by
  induction fuel generalizing l s with
  | zero => exact .get_bind (.throw fun hne ↦ hne rfl)
  | succ fuel ih =>
    obtain ⟨_, s₁, hrun, hat, -⟩ := skipNewLines_yields h
    refine .ask hrun (.ask rfl ?_)
    rw [← dropWhile_isSeparator_dropWhile]
    obtain ⟨t, rest, hsplit⟩ := List.exists_cons_of_ne_nil hat.ne_nil
    have hline : isNewLine t = false := by
      have hnot := List.head?_dropWhile_not isNewLine l
      rwa [hsplit] at hnot
    rw [hsplit] at hat ⊢
    rw [hat.is_eq]
    refine .branch (fun his ↦ ?_) fun hnot ↦ .pure ?_
    · have hend : t.isEnd = false := by
        rw [← Bool.not_eq_true]
        exact fun hend ↦ absurd (his.symm.trans (Token.IsStop.is_eq_false (.inl hend) (by decide)))
          (by simp)
      obtain ⟨_, s₂, hrun₂, hat₂, -⟩ := advance_pass_yields hat hend
      rw [List.dropWhile_cons, if_pos (by rw [Token.isSeparator, his, Bool.or_true]),
        ← dropWhile_isSeparator_dropWhile]
      exact .ask hrun₂ (ih hat₂)
    · rw [List.dropWhile_cons, if_neg (by rw [Token.isSeparator, hline, Bool.false_or]; exact hnot)]
      exact hat

/-- Moving over separators drops them from the tokens to come. -/
theorem passSeparators_ensures (h : base.At l s) :
    Ensures (fun e ↦ ¬ e.WithinFuel) passSeparators s fun _ s' ↦
      base.At (l.dropWhile Token.isSeparator) s' :=
  .ask rfl (passSeparatorsWithin_ensures h _)

/-- The end of a statement is passed if it is a separator, and required otherwise. -/
theorem endStatement_ensures (h : base.At (t :: l) s) :
    Ensures (fun _ ↦ t.endsStatement = false) endStatement s fun _ s' ↦
      t.endsStatement = true ∧ base.At (if t.isSeparator then l else t :: l) s' := by
  refine .ask rfl ?_
  have hexplicit : s.tokens.isExplicitEnd = t.isSeparator := by
    rw [Window.isExplicitEnd, h.is_eq, Window.kind, h.current_eq, Bool.or_comm]
    rfl
  have hends : (s.tokens.isEndOfStatementOrBlock || s.tokens.is "else") = t.endsStatement := by
    rw [Window.isEndOfStatementOrBlock, Window.isEndOfStatement, hexplicit, h.isEnded_eq,
      h.is_eq, h.is_eq]
    rfl
  rw [hexplicit, hends]
  refine .branch (fun hseparator ↦ ?_) fun hnot ↦ ?_
  · have hend : t.isEnd = false := by
      rw [← Bool.not_eq_true]
      exact fun hend ↦ absurd (hseparator.symm.trans (Token.isSeparator_of_isEnd hend)) (by simp)
    obtain ⟨_, s₁, hrun, hat, -⟩ := advance_yields h hend
    rw [if_pos hseparator]
    exact .known hrun ⟨by simp [Token.endsStatement, hseparator], hat⟩
  · rw [if_neg hnot]
    cases hends : t.endsStatement with
    | true => exact .pure ⟨rfl, h⟩
    | false => exact .ask rfl (.get_bind (.throw rfl))

/-- A word is found in the present line or in the next one that is not empty. -/
theorem continuesWith_yields (h : base.At (t :: l) s)
    (hline : isNewLine t = true → t.is text = false) :
    (continuesWith text).Yields s base
      (if leadsTo text (t :: l) then (t :: l).dropWhile isNewLine else t :: l)
      fun found ↦ found = leadsTo text (t :: l) := by
  have hkind : s.tokens.kind = t.kind := by rw [Window.kind, h.current_eq]
  refine yields_bind_of_ok (kind_run (s := s)) ?_
  rw [hkind]
  by_cases hnewLine : t.kind = .newLine
  · have hbreak : isNewLine t = true := beq_iff_eq.mpr hnewLine
    have hdrop : (t :: l).dropWhile isNewLine = l.dropWhile isNewLine := by
      rw [List.dropWhile_cons, if_pos hbreak]
    obtain ⟨_, _, -, hskipped, -⟩ := skipNewLines_yields h
    obtain ⟨u, rest, hsplit⟩ := List.exists_cons_of_ne_nil hskipped.ne_nil
    have hleads : leadsTo text (t :: l) = u.is text := by
      rw [leadsTo, hsplit]
      rfl
    obtain ⟨w, hpeek, hshows⟩ := h.shows.peek_pass (t := u) (by rw [← hdrop, hsplit]; rfl)
    have hpeeked : (peek 1 true).Yields s base (t :: l) (· = u) :=
      onTokens_yields h ⟨u, w, hpeek, hshows, rfl⟩
    rw [if_pos hnewLine, hleads, hsplit]
    refine hpeeked.bind fun v s₁ hat hv ↦ ?_
    rw [hv]
    cases his : u.is text with
    | true =>
      refine (skipNewLines_yields hat).bind fun _ s₂ hat₂ _ ↦ ?_
      rw [hsplit] at hat₂
      exact ⟨_, s₂, is_run text, hat₂, (hat₂.is_eq text).trans his⟩
    | false => exact ⟨_, s₁, is_run text, hat, (hat.is_eq text).trans (hline hbreak)⟩
  · have hbreak : isNewLine t = false := beq_eq_false_iff_ne.mpr hnewLine
    have hleads : leadsTo text (t :: l) = t.is text := by
      rw [leadsTo, List.dropWhile_cons, if_neg (by simp [hbreak])]
      rfl
    have hdrop : (t :: l).dropWhile isNewLine = t :: l := by
      rw [List.dropWhile_cons, if_neg (by simp [hbreak])]
    rw [if_neg hnewLine, hleads, hdrop, ite_self]
    exact ⟨_, s, is_run text, h, h.is_eq text⟩

end Parse

end ScriptFront
