import ScriptFront.Proofs.Cursor.Motion

/-!
# Quoted text is read back

Any character may serve as the quote and any other as the mark that takes its meaning from the next
one. To quote a text is to put the mark in front of every quote and every mark in it.
`Cursor.quotedExtent_enclose` says that the reader takes such a text back one character at a time:
what follows a mark stands for itself, since neither the quote nor the mark is one of the letters
that stand for another character, and everything else is neither quote nor mark. So the first quote
that ends the reading is the one behind the text, however many marks stand in a row before it.
-/

namespace ScriptFront

namespace Text

/-- The text with the mark in front of every quote and every mark. -/
def enclose (quote mark : Char) (s : List Char) : List Char :=
  s.flatMap fun c ↦ if c = quote ∨ c = mark then [mark, c] else [c]

theorem enclose_cons (quote mark c : Char) (s : List Char) :
    enclose quote mark (c :: s) =
      (if c = quote ∨ c = mark then [mark, c] else [c]) ++ enclose quote mark s := List.flatMap_cons

theorem length_enclose_cons (quote mark c : Char) (s : List Char) :
    (enclose quote mark (c :: s)).length =
      (if c = quote ∨ c = mark then 2 else 1) + (enclose quote mark s).length := by
  rw [enclose_cons, List.length_append, apply_ite List.length]
  rfl

/-- All characters but three letters stand for themselves behind a mark. -/
theorem unescape_eq_self {c : Char} (h : c ∉ ['n', 't', 'r']) : unescape c = c := by
  simp only [List.mem_cons, List.not_mem_nil, or_false, not_or] at h
  rw [unescape]
  · exact h.1
  · exact h.2.1
  · exact h.2.2

end Text

namespace Cursor

variable {quote mark : Char} {rest : List Char} {c : Cursor}

/-- One character is taken back: what follows a mark stands for itself, and so does all that is
neither quote nor mark. -/
theorem quotedExtent_enclose_cons (hquote : quote ∉ ['n', 't', 'r'])
    (hmark : mark ∉ ['n', 't', 'r']) (ch : Char)
    (s rest : List Char) (e : Extent) :
    quotedExtent quote mark (Text.enclose quote mark (ch :: s) ++ rest) e =
      quotedExtent quote mark (Text.enclose quote mark s ++ rest)
        (e.push ch ch (Text.enclose quote mark s ++ rest)
          (if ch = quote ∨ ch = mark then 2 else 1)) := by
  rw [Text.enclose_cons]
  by_cases hspecial : ch = quote ∨ ch = mark
  · have hself : Text.unescape ch = ch := by
      rcases hspecial with rfl | rfl
      · exact Text.unescape_eq_self hquote
      · exact Text.unescape_eq_self hmark
    rw [if_pos hspecial, if_pos hspecial, List.append_assoc, List.cons_append, List.cons_append,
      quotedExtent.eq_def]
    simp only [List.nil_append, if_true, hself]
  · rw [if_neg hspecial, if_neg hspecial, List.append_assoc, List.cons_append, quotedExtent.eq_def]
    rw [not_or] at hspecial
    simp only [List.nil_append, hspecial.1, hspecial.2, if_false]

/-- The reader takes a quoted text back, and goes on with what follows it. -/
theorem quotedExtent_enclose (hquote : quote ∉ ['n', 't', 'r']) (hmark : mark ∉ ['n', 't', 'r'])
    (s rest : List Char) {e : Extent} (he : e.complete = false) :
    ∃ e', quotedExtent quote mark (Text.enclose quote mark s ++ rest) e =
    quotedExtent quote mark rest e' ∧
      e'.text = s.reverse ++ e.text ∧ e'.taken = e.taken + (Text.enclose quote mark s).length ∧
      e'.complete = false := by
  induction s generalizing e with
  | nil => exact ⟨e, rfl, rfl, rfl, he⟩
  | cons ch s ih =>
    rw [quotedExtent_enclose_cons hquote hmark]
    obtain ⟨e', hread, htext, htaken, hcomplete⟩ :=
      @ih (e.push ch ch (Text.enclose quote mark s ++ rest)
      (if ch = quote ∨ ch = mark then 2 else 1)) rfl
    refine ⟨e', hread, ?_, ?_, hcomplete⟩
    · rw [htext, Extent.push, List.reverse_cons, List.append_assoc]
      rfl
    · rw [htaken, Extent.push, Text.length_enclose_cons, Nat.add_assoc]

/-- **Quoted text is read back.** With any quote and any other mark, neither of them a letter that
stands for another character, a text that is quoted and closed is read as it is and the reader stops
behind the closing quote, whatever follows. Without the closing quote the reading fails, at the
opening one. -/
theorem scanQuoted_enclose (hne : quote ≠ mark) (hquote : quote ∉ ['n', 't', 'r'])
    (hmark : mark ∉ ['n', 't', 'r']) (s : String) (c : Cursor) :
    (∀ rest, c.rest = quote :: (Text.enclose quote mark s.toList ++ quote :: rest) →
      ∃ lines after, c.scanQuoted quote mark ⟨true, false⟩ = (.ok ⟨s, true, lines⟩, after) ∧
        after.rest = rest ∧ after.whole = c.whole) ∧
    (c.rest = quote :: Text.enclose quote mark s.toList →
      (c.scanQuoted quote mark ⟨true, false⟩).1 = .error
      (.ofCause c.position .unterminatedString)) := by
  have hopened : c.opened ⟨true, false⟩ = c.step := if_pos rfl
  constructor
  · intro rest hrest
    obtain ⟨e, hread, htext, htaken, -⟩ :=
      quotedExtent_enclose hquote hmark s.toList (quote :: rest) (e := .empty) rfl
    have hextent : quotedExtent quote mark c.step.rest .empty = e.finish 1 := by
      rw [rest_step, hrest, List.drop_one, List.tail_cons, hread, quotedExtent.eq_def]
      simp only [hne, if_false, if_true]
    have htake : (e.finish 1).taken = (Text.enclose quote mark s.toList).length + 1 := by
      rw [Extent.finish, htaken, Extent.empty, Nat.zero_add]
    refine ⟨e.lines, c.step.advance (e.finish 1).taken, ?_, ?_, ?_⟩
    · have hrun : (e.finish 1).run = ⟨s, true, e.lines⟩ := by
        simp [Extent.run, Extent.finish, Extent.empty, htext]
      rw [scanQuoted]
      simp only [hopened, hextent, hrun]
      rfl
    · rw [rest_advance, rest_step, hrest, htake, List.drop_one, List.tail_cons, List.drop_append]
      simp
    · rw [whole_advance, ← advance_one, whole_advance]
  · intro hrest
    obtain ⟨e, hread, -, -, hcomplete⟩ :=
      quotedExtent_enclose hquote hmark s.toList [] (e := .empty) rfl
    have hextent : quotedExtent quote mark c.step.rest .empty = e := by
      rw [rest_step, hrest, List.drop_one, List.tail_cons,
        ← List.append_nil (Text.enclose _ _ _), hread]
      rfl
    rw [scanQuoted]
    simp only [hopened, hextent, hcomplete, Bool.false_eq_true, if_false]

/-- Between single quotes with a caret as the mark; the quoted text ends with a quote behind two
carets. -/
theorem scanQuoted_enclose_sampleCarets :
    '\'' ≠ '^' ∧ '\'' ∉ ['n', 't', 'r'] ∧ '^' ∉ ['n', 't', 'r'] ∧
      Text.enclose '\'' '^' "a^'".toList = "a^^^'".toList ∧
      (∃ lines after, (ofText "'a^^^'' b").scanQuoted '\'' '^'
        ⟨true, false⟩ = (.ok ⟨"a^'", true, lines⟩, after) ∧
        after.rest = " b".toList ∧ after.whole = "'a^^^'' b".toList) ∧
      ((ofText "'a^^^'").scanQuoted '\'' '^' ⟨true, false⟩).1 = .error
      (.ofCause ⟨1, 1⟩ .unterminatedString) := by
  have hread := scanQuoted_enclose (show '\'' ≠ '^' by decide) (by decide) (by decide) "a^'"
  exact ⟨by decide, by decide, by decide, by decide,
    (hread (ofText "'a^^^'' b")).1 " b".toList (by decide), (hread (ofText "'a^^^'")).2 (by decide)⟩

end Cursor

end ScriptFront
