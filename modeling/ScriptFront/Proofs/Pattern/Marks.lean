import ScriptFront.Proofs.Pattern.Frames

/-!
# Blanks in front of a question mark

A question mark makes the element in front of it optional, and blanks between the two mean nothing,
with one exception. Behind the right side of a choice, a question mark that follows directly is for
the right side, and one that follows after a blank is for the whole choice: `a|b?` and `a|b ?` are
different patterns. The documentation of the pattern language knows no such difference.
-/

namespace ScriptFront.Pattern

variable {f : Frame} {outer : List Frame} {s : Stack} {ps qs : List Piece} {elements : List Element}
  {before after blanks : List Char}

/-! ## Pieces in front of a question mark -/

/-- An element ends behind these pieces, and it is the right side of a choice: a bar stands in front
of it. -/
def EndsChoice (ps : List Piece) : Prop :=
  ∃ element elements outer,
    ps.foldlM Stack.step ⟨none, .empty, []⟩ = some ⟨some element, ⟨elements, true⟩, outer⟩

/-- Where a choice does not end, a question mark does the same whether blanks stand in front of it
or not. -/
theorem Stack.settled_blanks_mark (hs : s.atom = none ∨ s.frame.choosing = false) (n : Nat) :
    s.settled (List.replicate n .blank ++ .mark :: ps) = s.settled (.mark :: ps) := by
  obtain ⟨_ | element, ⟨elements, choosing⟩, outer⟩ := s
  · exact settled_blanks n
  · obtain rfl : choosing = false := hs.resolve_left (by simp)
    cases n with
    | zero => rfl
    | succ n =>
      -- the first blank brings the element into its frame, where the mark finds it
      rw [List.replicate_succ, List.cons_append, settled_cons, settled_mark]
      exact settled_blanks n

theorem makes_blanks_mark (hps : ¬ EndsChoice ps) (n : Nat)
    (h : Makes (ps ++ .mark :: qs) elements) :
    Makes (ps ++ (List.replicate n .blank ++ .mark :: qs)) elements := by
  refine ⟨?_, h.2⟩
  have hrun := h.1
  have hsplit (rs : List Piece) : Stack.settled ⟨none, .empty, []⟩ (ps ++ rs) =
      (ps.foldlM Stack.step ⟨none, .empty, []⟩).bind fun s ↦ s.settled rs := by
    rw [Stack.settled, List.foldlM_append]
    exact Option.bind_assoc ..
  rw [hsplit, Option.bind_eq_some_iff] at hrun
  obtain ⟨s, hfront, hrun⟩ := hrun
  have hs : s.atom = none ∨ s.frame.choosing = false := by
    obtain ⟨_ | element, ⟨elements, _ | _⟩, outer⟩ := s
    · exact .inl rfl
    · exact .inl rfl
    · exact .inr rfl
    · exact absurd ⟨element, elements, outer, hfront⟩ hps
  rw [hsplit, hfront, Option.bind_some, Stack.settled_blanks_mark hs, hrun]

/-! ## Texts -/

/-- **Blanks in front of a question mark mean nothing**, unless it stands directly behind the right
side of a choice. The question mark is an operator, which is to say that the text in front of it
consists of whole pieces. -/
theorem compile_blanks_mark (hfront : Cut before ps []) (hps : ¬ EndsChoice ps)
    (hblanks : ∀ c ∈ blanks, Text.isBlank c = true)
    (h : compile (String.ofList (before ++ '?' :: after)) = .ok elements) :
    compile (String.ofList (before ++ (blanks ++ '?' :: after))) = .ok elements := by
  rw [compile_eq_ok_iff, String.toList_ofList] at h ⊢
  obtain ⟨all, hcut, hmakes⟩ := h
  have hmark : Cut (before ++ '?' :: after) ps ([] ++ '?' :: after) :=
    hfront.extend fun c hc ↦ .inl (Option.some.inj hc).symm
  obtain ⟨rs, rfl, hrest⟩ := hmark.unique hcut
  obtain ⟨qs, rfl, hafter⟩ := Cut.cons_sign_inv (p := .mark) hrest rfl
  refine ⟨_, ?_, makes_blanks_mark hps blanks.length hmakes⟩
  have hblank : Cut (before ++ (blanks ++ '?' :: after)) ps ([] ++ (blanks ++ '?' :: after)) := by
    refine hfront.extend fun c hc ↦ ?_
    cases blanks with
    | nil => exact .inl (Option.some.inj hc).symm
    | cons b blanks =>
      obtain rfl := Option.some.inj hc
      exact .inr (hblanks _ List.mem_cons_self)
  exact hblank.append ((Cut.blanks hblanks).append (.sign rfl hafter))

/-- A letter is a bare word, if no other letter follows. -/
theorem Cut.letter {c : Char} {cs rest : List Char} (hc : Text.isNameChar c = true)
    (hcs : cs.head?.all endsWord = true) (h : Cut cs ps rest) :
    Cut (c :: cs) (.leaf (.literal (String.ofList [c])) :: ps) rest := by
  have hplain := isPlain_of_isNameChar hc
  have hends : endsWord c = false := by
    rw [← Bool.not_eq_true]
    exact fun hends ↦ absurd (hc.symm.trans (isNameChar_of_endsWord hends)) (by simp)
  have hdollar : [c].head? ≠ some '$' := fun hhead ↦
    ne_of_isPlain hplain (by decide) (Option.some.inj hhead)
  have hspells : Spells [c] (.literal (String.ofList [c])) :=
    .literal (.plain (ne_of_isPlain hplain (by decide)) hends .nil)
      (by simp) hdollar fun d more hmore ↦ by
      simp at hmore
  exact .leaf hspells ((Option.all_eq_true _ _).mp hcs) h

/-- In `(a|b)? c`, behind the parenthesis. -/
theorem compile_blanks_mark_sampleGroup : ∃ elements,
    compile (String.ofList ("(a|b)".toList ++ '?' :: " c".toList)) = .ok elements ∧
    compile (String.ofList ("(a|b)".toList ++ (" ".toList ++ '?' :: " c".toList))) =
    .ok elements := by
  obtain ⟨elements, h⟩ :
      ∃ elements, compile (String.ofList ("(a|b)".toList ++ '?' :: " c".toList)) = .ok elements :=
    exists_eq_ok_of_isSome (by decide +kernel)
  have hfront : Cut "(a|b)".toList [.opening, .leaf (.literal "a"), .bar, .leaf (.literal "b"),
    .closing] [] :=
    .sign rfl
      (.letter (by decide) (by decide)
        (.sign rfl (.letter (by decide) (by decide) (.sign rfl (.nil [])))))
  have hps :
      ¬ EndsChoice [.opening, .leaf (.literal "a"), .bar, .leaf (.literal "b"), .closing] := by
    rintro ⟨element, elements, outer, hrun⟩
    cases hrun
  exact ⟨elements, h, compile_blanks_mark hfront hps (List.all_eq_true.mp (by decide)) h⟩

/-- Behind the right side of a choice, a blank changes what a question mark is for. -/
theorem not_compile_blanks_mark : ¬ ∀ (before after blanks : List Char) (ps : List Piece)
    (elements : List Element), Cut before ps [] → (∀ c ∈ blanks, Text.isBlank c = true) →
    compile (String.ofList (before ++ '?' :: after)) = .ok elements →
    compile (String.ofList (before ++ (blanks ++ '?' :: after))) = .ok elements := by
  intro h
  have hfront : Cut "a|b".toList [.leaf (.literal "a"), .bar, .leaf (.literal "b")] [] :=
    .letter (by decide) (by decide) (.sign rfl (.letter (by decide) (by decide) (.nil [])))
  obtain ⟨elements, hdirect, hrequired⟩ :
      ∃ elements, compile (String.ofList ("a|b".toList ++ ['?'])) = .ok elements ∧
        elements.map Element.required = [true] :=
    exists_eq_ok_of_map_eq_some (by decide +kernel)
  obtain ⟨elements', hblank, hoptional⟩ :
      ∃ elements, compile (String.ofList ("a|b".toList ++ (" ".toList ++ ['?']))) = .ok elements ∧
        elements.map Element.required = [false] :=
    exists_eq_ok_of_map_eq_some (by decide +kernel)
  cases (h _ _ _ _ elements hfront (List.all_eq_true.mp (by decide)) hdirect).symm.trans hblank
  exact absurd (hrequired.symm.trans hoptional) (by decide)

end ScriptFront.Pattern
