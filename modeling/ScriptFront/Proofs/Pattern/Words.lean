import ScriptFront.Pattern.Compile
import ScriptFront.Proofs.Computation
import ScriptFront.Proofs.Extension.Claims

/-!
# Patterns of plain words

A pattern is cut at its blanks. Where no mark of the pattern language stands in it, every piece is a
bare word, so what the pattern compiles to is its words, each of them required, whatever blanks
stand between them and at the two ends.
-/

namespace ScriptFront

namespace Text

/-- The runs of characters that are not blank. -/
def words (cs : List Char) : List (List Char) := (cs.splitOnP isBlank).filter (!·.isEmpty)

variable {c : Char} {cs word rest : List Char}

theorem words_nil : words [] = [] := rfl

theorem words_cons_of_isBlank (h : isBlank c = true) : words (c :: cs) = words cs := by
  rw [words, List.splitOnP_cons_eq_if_modifyHead, if_pos h, List.filter_cons_of_neg
    (by simp), words]

/-- Blanks in front do not count. -/
theorem words_dropWhile (cs : List Char) : words (cs.dropWhile isBlank) = words cs := by
  induction cs with
  | nil => rfl
  | cons c cs ih =>
    rw [List.dropWhile_cons]
    split
    · next h => rw [words_cons_of_isBlank h, ih]
    · rfl

/-- A word up to a blank or the end. -/
theorem words_append (hne : word ≠ []) (hword : ∀ c ∈ word, isBlank c = false)
    (hrest : ∀ c ∈ rest.head?, isBlank c = true) : words (word ++ rest) = word :: words rest := by
  cases rest with
  | nil => simp [words, List.splitOnP_eq_singleton hword, hne]
  | cons c rest =>
    have hsplit := List.splitOnP_append_cons_of_forall_mem hword c (hrest c rfl) rest
    rw [words_cons_of_isBlank (hrest c rfl), words, hsplit]
    simp [words, hne]

/-- Where no blank comes first, a word does. -/
theorem exists_eq_append (cs : List Char) (h : isBlank c = false) :
    ∃ word rest, c :: cs = word ++ rest ∧ word ≠ [] ∧ (∀ d ∈ word, isBlank d = false) ∧
      ∀ d ∈ rest.head?, isBlank d = true := by
  refine ⟨(c :: cs).takeWhile (!isBlank ·), (c :: cs).dropWhile (!isBlank ·),
    List.takeWhile_append_dropWhile.symm, by simp [h], fun d hd ↦ ?_, fun d hd ↦ ?_⟩
  · simpa using List.mem_takeWhile_imp hd
  · simpa [Option.mem_def.mp hd] using List.head?_dropWhile_not (!isBlank ·) (c :: cs)

theorem isBlank_of_mem_head?_dropWhile (cs : List Char) (h : c ∈ (cs.dropWhile isBlank).head?) :
    isBlank c = false := by
  simpa [Option.mem_def.mp h] using List.head?_dropWhile_not isBlank cs

/-- The first word. -/
theorem firstWord?_eq (cs : List Char) : firstWord? cs = (words cs).head? := by
  have hhead (c : Char) := isBlank_of_mem_head?_dropWhile (c := c) cs
  rw [← words_dropWhile, firstWord?]
  generalize cs.dropWhile isBlank = solid at *
  cases solid with
  | nil => rfl
  | cons c rest =>
    obtain ⟨word, rest, hsplit, hne, hword, hrest⟩ := exists_eq_append rest (hhead c rfl)
    have hrun : rest.takeWhile (!isBlank ·) = [] := by
      cases rest with
      | nil => rfl
      | cons d rest => simp [hrest d rfl]
    rw [hsplit, words_append hne hword hrest,
      List.takeWhile_append_of_pos (fun d hd ↦ by simp [hword d hd]), hrun, List.append_nil]
    cases word with
    | nil => exact absurd rfl hne
    | cons d word => rfl

end Text

namespace Pattern

/-- The marks of the pattern language. -/
def marks : List Char := ['\\', '(', ')', '|', '?', '$', '#']

/-- A character that a pattern takes as it is. -/
def isPlain (c : Char) : Bool := !Text.isBlank c && !marks.contains c

variable {c : Char} {cs word rest : List Char} {elements : List Element}
    {fuel pos : Nat} {r : Reader}

theorem isBlank_of_isPlain (h : isPlain c = true) : Text.isBlank c = false := by
  simpa using (Bool.and_eq_true_iff.mp h).1

theorem ne_of_isPlain (h : isPlain c = true) {mark : Char} (hmark : mark ∈ marks) : c ≠ mark := by
  rintro rfl
  simp [isPlain, hmark] at h

/-- The codes of the blank characters. -/
def blankCodes : List Nat :=
  [9, 10, 11, 12, 13, 0x20, 0x85, 0xA0, 0x1680, 0x2000, 0x2001, 0x2002, 0x2003, 0x2004, 0x2005,
    0x2006, 0x2007, 0x2008, 0x2009, 0x200A, 0x2028, 0x2029, 0x202F, 0x205F, 0x3000]

/-- Characters of names are no marks and not blank. -/
theorem isPlain_of_isNameChar (h : Text.isNameChar c = true) : isPlain c = true := by
  have hother : ∀ n ∈ blankCodes ++ marks.map Char.toNat, Text.isNameChar (.ofNat n) = false := by
    decide +kernel
  have hnot : c.toNat ∉ blankCodes ++ marks.map Char.toNat := by
    intro hmem
    have := hother _ hmem
    rw [Char.ofNat_toNat, h] at this
    cases this
  rw [isPlain, Bool.and_eq_true, Bool.not_eq_true', Bool.not_eq_true']
  constructor
  · rw [← Bool.not_eq_true]
    intro hblank
    apply hnot
    simp only [Text.isBlank, Bool.or_eq_true, Bool.and_eq_true, decide_eq_true_eq,
      beq_iff_eq] at hblank
    simp only [blankCodes, List.mem_append, List.mem_cons, List.not_mem_nil, or_false]
    omega
  · rw [← Bool.not_eq_true]
    intro hmark
    apply hnot
    exact List.mem_append_right _ (List.mem_map_of_mem (by simpa using hmark))

theorem takeWhile_run (p : Char → Bool) :
    takeWhile p r =
      .ok (r.rest.takeWhile p) ⟨r.rest.dropWhile p, r.pos + (r.rest.takeWhile p).length⟩ := by
  have hdrop : r.rest.drop (r.rest.takeWhile p).length = r.rest.dropWhile p := by
    have hsplit := List.takeWhile_append_dropWhile (p := p) (l := r.rest)
    nth_rewrite 2 [← hsplit]
    rw [List.drop_left]
  rw [← hdrop]
  rfl

/-- A bare word reaches up to a blank or the end. -/
theorem wordExtent_append {done : List Char} {taken : Nat} (hword : ∀ c ∈ word, isPlain c = true)
    (hrest : ∀ c ∈ rest.head?, Text.isBlank c = true) :
    wordExtent (word ++ rest) done taken = (done.reverse ++ word, taken + word.length, false) := by
  induction word generalizing done taken with
  | nil =>
    cases rest with
    | nil => simp [wordExtent]
    | cons c rest =>
      have hc := hrest c rfl
      have hback : c ≠ '\\' := by
        rintro rfl
        revert hc
        decide
      rw [List.nil_append, wordExtent.eq_def]
      simp only [if_neg hback, hc, or_true, if_true]
      simp
  | cons c word ih =>
    obtain ⟨hc, hword⟩ := List.forall_mem_cons.mp hword
    have hstop : ¬ (c = '(' ∨ c = ')' ∨ c = '|' ∨ c = '?' ∨ Text.isBlank c = true) := by
      rintro (h | h | h | h | h)
      · exact ne_of_isPlain hc (by decide) h
      · exact ne_of_isPlain hc (by decide) h
      · exact ne_of_isPlain hc (by decide) h
      · exact ne_of_isPlain hc (by decide) h
      · exact absurd (h.symm.trans (isBlank_of_isPlain hc)) (by simp)
    rw [List.cons_append, wordExtent.eq_def]
    simp only [if_neg (ne_of_isPlain hc (by decide : '\\' ∈ marks)), if_neg hstop, ih hword]
    simp [Nat.add_assoc, Nat.add_comm 1]

/-- A plain word is read as it stands. -/
theorem readLeaf_run (hword : ∀ c ∈ word, isPlain c = true) (hne : word ≠ [])
    (hrest : ∀ c ∈ rest.head?, Text.isBlank c = true) :
    readLeaf ⟨word ++ rest, pos⟩ =
      .ok (.literal (String.ofList word)) ⟨rest, pos + word.length⟩ := by
  obtain ⟨c, more, rfl⟩ := List.exists_cons_of_ne_nil hne
  have hc := hword c List.mem_cons_self
  have hdollar := ne_of_isPlain hc (by decide : '$' ∈ marks)
  have hhash := ne_of_isPlain hc (by decide : '#' ∈ marks)
  have hread : readLeaf ⟨c :: more ++ rest, pos⟩ = readWord ⟨c :: more ++ rest, pos⟩ := by
    rw [readLeaf, get_bind_run]
    generalize hcs : c :: more ++ rest = cs
    dsimp only
    split
    · exact absurd (List.cons.inj hcs).1 hdollar
    · exact absurd (List.cons.inj hcs).1 hhash
    · rfl
  rw [hread, readWord, get_bind_run, wordExtent_append hword hrest]
  simp [pass, modify_bind_run]

theorem skipBlanks_run :
    (discard (takeWhile Text.isBlank) : ReadM PUnit) r =
      .ok ⟨⟩ ⟨r.rest.dropWhile Text.isBlank, r.pos + (r.rest.takeWhile Text.isBlank).length⟩ := by
  change EStateM.map (Function.const _ PUnit.unit) (takeWhile Text.isBlank) r = _
  rw [EStateM.map, takeWhile_run]

/-- A word and the blanks around it are one element. -/
theorem readElement_run (hword : ∀ c ∈ word, isPlain c = true) (hne : word ≠ [])
    (hrest : ∀ c ∈ rest.head?, Text.isBlank c = true) :
    (do withMark (.leaf (← readLeaf) true) : ReadM Element) ⟨word ++ rest, pos⟩ =
      .ok (.leaf (.literal (String.ofList word)) true) ⟨rest, pos + word.length⟩ := by
  have hmark : rest.head? ≠ some '?' := by
    intro h
    exact absurd (hrest _ h) (by decide)
  rw [bind_eq_of_ok (readLeaf_run hword hne hrest), withMark, passIf]
  simp [hmark]

/-- **Plain words are read one after the other.** -/
theorem exists_readSequence_eq (elements : List Element) (pos : Nat)
    (hwords : ∀ word ∈ Text.words cs, ∀ c ∈ word, isPlain c = true) (hfuel : cs.length < fuel) :
    ∃ pos', readSequence fuel 0 elements false ⟨cs, pos⟩ =
      .ok (elements.reverse ++ Element.ofWords ((Text.words cs).map String.ofList)) ⟨[], pos'⟩ := by
  induction fuel generalizing cs elements pos with
  | zero => exact absurd hfuel (Nat.not_lt_zero _)
  | succ fuel ih =>
    have hhead (c : Char) := Text.isBlank_of_mem_head?_dropWhile (c := c) cs
    have hlength : (cs.dropWhile Text.isBlank).length ≤ cs.length :=
      (List.dropWhile_suffix _).length_le
    rw [← Text.words_dropWhile] at hwords ⊢
    unfold readSequence
    rw [bind_eq_of_ok skipBlanks_run, get_bind_run]
    generalize pos + (cs.takeWhile Text.isBlank).length = pos
    generalize cs.dropWhile Text.isBlank = solid at *
    -- no mark of the pattern language comes first
    have hplain : ∀ c ∈ solid.head?, isPlain c = true := by
      intro c hc
      obtain ⟨rest, rfl⟩ := List.head?_eq_some_iff.mp hc
      obtain ⟨word, rest, hsplit, hne, hword, hrest⟩ := Text.exists_eq_append rest (hhead c rfl)
      rw [hsplit, Text.words_append hne hword hrest] at hwords
      obtain ⟨d, word, rfl⟩ := List.exists_cons_of_ne_nil hne
      obtain ⟨rfl, -⟩ := List.cons.inj hsplit
      exact hwords _ List.mem_cons_self _ List.mem_cons_self
    dsimp only
    split
    · simp [finish, Text.words_nil, Element.ofWords]
    · exact absurd rfl (ne_of_isPlain (hplain _ rfl) (by decide))
    · exact absurd rfl (ne_of_isPlain (hplain _ rfl) (by decide))
    · exact absurd rfl (ne_of_isPlain (hplain _ rfl) (by decide))
    · exact absurd rfl (ne_of_isPlain (hplain _ rfl) (by decide))
    · next hsolid _ _ _ _ =>
      obtain ⟨c, rest, rfl⟩ := List.exists_cons_of_ne_nil hsolid
      obtain ⟨word, rest, hsplit, hne, hword, hrest⟩ := Text.exists_eq_append rest (hhead c rfl)
      rw [hsplit, Text.words_append hne hword hrest] at hwords
      rw [hsplit, Text.words_append hne hword hrest]
      rw [hsplit, List.length_append] at hlength
      obtain ⟨hfirst, hmore⟩ := List.forall_mem_cons.mp hwords
      have hshorter : rest.length < fuel := by
        have := List.length_pos_iff.mpr hne
        omega
      obtain ⟨pos', hrun⟩ := ih (.leaf (.literal (String.ofList word)) true :: elements)
        (pos + word.length) hmore hshorter
      refine ⟨pos', ?_⟩
      rw [← bind_assoc, bind_eq_of_ok (readElement_run hfirst hne hrest)]
      simp only [append, Bool.false_eq_true, if_false, pure_bind]
      rw [hrun]
      simp [Element.ofWords]

/-- **A pattern of plain words** compiles to its words. -/
theorem compile_eq {pattern : String} (hwords : ∀ word ∈ Text.words pattern.toList, ∀ c ∈ word,
    isPlain c = true)
    (hne : Text.words pattern.toList ≠ []) :
    compile pattern = .ok (Element.ofWords ((Text.words pattern.toList).map String.ofList)) := by
  obtain ⟨pos, hrun⟩ := exists_readSequence_eq [] 0 hwords
    (Nat.lt_succ_self pattern.toList.length)
  have hsome :
      (Element.ofWords ((Text.words pattern.toList).map String.ofList)).isEmpty = false := by
    simpa [Element.ofWords] using hne
  rw [List.reverse_nil, List.nil_append] at hrun
  simp only [compile, bind_eq_of_ok hrun, hsome, Bool.false_eq_true, if_false, pure_run]

end Pattern

end ScriptFront
