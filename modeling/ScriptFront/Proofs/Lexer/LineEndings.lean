import ScriptFront.Proofs.Lexer.Matches
import ScriptFront.Proofs.Lexer.Seam

/-!
# Texts with other line ends

A text without carriage returns can be written with a carriage return in front of every line feed.
The cursor takes the pair for one line end, so it stands at the same positions in both texts,
between any two characters of the first one. As long as no string literal has a line break in it,
both are cut into tokens that stand at the same positions and differ in nothing but the spelling of
line breaks and of comments that span lines, apart from the offsets.
-/

namespace ScriptFront

/-! ## Characters with longer line ends -/

/-- The characters, with a carriage return in front of every line feed. -/
def crlf (cs : List Char) : List Char := cs.flatMap fun c ↦ if c = '\n' then ['\r', '\n'] else [c]

/-- The text, with a carriage return in front of every line feed. -/
def Text.withCrlf (text : String) : String := String.ofList (crlf text.toList)

section

variable {cs : List Char} {c : Char} {p : Char → Bool}

@[simp] theorem crlf_nil : crlf [] = [] := rfl

@[simp] theorem crlf_feed : crlf ('\n' :: cs) = '\r' :: '\n' :: crlf cs := rfl

theorem crlf_cons (hc : c ≠ '\n') : crlf (c :: cs) = c :: crlf cs := by
  rw [crlf, List.flatMap_cons, if_neg hc]
  rfl

theorem crlf_append (cs more : List Char) : crlf (cs ++ more) = crlf cs ++ crlf more :=
  List.flatMap_append

/-- Within a line nothing changes. -/
theorem crlf_eq_self (h : '\n' ∉ cs) : crlf cs = cs := by
  induction cs with
  | nil => rfl
  | cons c cs ih =>
    rw [List.mem_cons, not_or] at h
    rw [crlf_cons (Ne.symm h.1), ih h.2]

theorem length_le_length_crlf (cs : List Char) : cs.length ≤ (crlf cs).length := by
  induction cs with
  | nil => exact Nat.le_refl _
  | cons c cs ih =>
    by_cases hc : c = '\n'
    · subst hc
      exact Nat.succ_le_succ (Nat.le_succ_of_le ih)
    · rw [crlf_cons hc]
      exact Nat.succ_le_succ ih

theorem head?_crlf (hc : c ≠ '\n') (hreturn : c ≠ '\r') :
    (crlf cs).head? = some c ↔ cs.head? = some c := by
  cases cs with
  | nil => exact Iff.rfl
  | cons d cs =>
    by_cases hd : d = '\n'
    · subst hd
      simp [Ne.symm hc, Ne.symm hreturn]
    · rw [crlf_cons hd]
      exact Iff.rfl

theorem takeWhile_crlf (hfeed : p '\n' = false) (hreturn : p '\r' = false) :
    (crlf cs).takeWhile p = cs.takeWhile p := by
  induction cs with
  | nil => rfl
  | cons c cs ih =>
    by_cases hc : c = '\n'
    · subst hc
      simp [hfeed, hreturn]
    · rw [crlf_cons hc, List.takeWhile_cons, List.takeWhile_cons, ih]

theorem not_mem_takeWhile (hc : p c = false) : c ∉ cs.takeWhile p := by
  intro hmem
  have htrue := List.all_eq_true.mp List.all_takeWhile c hmem
  rw [hc] at htrue
  cases htrue

theorem dropWhile_crlf (hfeed : p '\n' = false) (hreturn : p '\r' = false) :
    (crlf cs).dropWhile p = crlf (cs.dropWhile p) := by
  have hline : '\n' ∉ cs.takeWhile p := not_mem_takeWhile hfeed
  have hsplit : cs.takeWhile p ++ (crlf cs).dropWhile p = crlf cs := by
    rw [← takeWhile_crlf hfeed hreturn]
    exact List.takeWhile_append_dropWhile
  have hwhole : cs.takeWhile p ++ crlf (cs.dropWhile p) = crlf cs := by
    rw [← crlf_eq_self hline, ← crlf_append, List.takeWhile_append_dropWhile]
  exact List.append_cancel_left (hsplit.trans hwhole.symm)

theorem numberRun_crlf : Cursor.numberRun (crlf cs) = Cursor.numberRun cs := by
  have hfeed : Char.isDigit '\n' = false := by decide
  have hreturn : Char.isDigit '\r' = false := by decide
  rw [Cursor.numberRun, Cursor.numberRun, takeWhile_crlf hfeed hreturn,
    dropWhile_crlf hfeed hreturn]
  cases hrest : cs.dropWhile Char.isDigit with
  | nil => rfl
  | cons d rest =>
    by_cases hd : d = '.'
    · subst hd
      rw [crlf_cons (by decide)]
      simp only [takeWhile_crlf hfeed hreturn]
    · have hpoint (tail : List Char) : crlf (d :: rest) ≠ '.' :: tail := by
        intro htail
        have hhead := (head?_crlf (by decide) (by decide)).mp (congrArg List.head? htail)
        exact hd (Option.some.inj hhead)
      split
      · next heq => exact absurd heq (hpoint _)
      · split
        · next heq => exact absurd (List.cons.inj heq).1 hd
        · rfl

/-- No symbol goes on over a line end, however it is written. -/
theorem longestSymbol?_crlf {rest : List Char} :
    Lexeme.longestSymbol? (c :: (crlf rest).take 1) = Lexeme.longestSymbol? (c :: rest.take 1) := by
  cases rest with
  | nil => rfl
  | cons d rest =>
    by_cases hd : d = '\n'
    · subst hd
      -- each comparison with a symbol of two characters fails at either of the two
      rfl
    · rw [crlf_cons hd]
      rfl

/-- Up to a pair of marks, line ends aside, the same is read. -/
theorem upToExtent_crlf {first second : Char} (hfirst : first ≠ '\n' ∧ first ≠ '\r')
    (hsecond : second ≠ '\n' ∧ second ≠ '\r') {e : Cursor.Extent} (he : e.complete = false)
    (h : (Cursor.upToExtent first second cs e).complete = true) (e' : Cursor.Extent) :
    (Cursor.upToExtent first second (crlf cs) e').complete = true ∧ ∃ read more, cs = read ++ more ∧
      (Cursor.upToExtent first second cs e).taken = e.taken + read.length ∧
      (Cursor.upToExtent first second (crlf cs) e').taken = e'.taken + (crlf read).length := by
  induction cs generalizing e e' with
  | nil => simp [Cursor.upToExtent, he] at h
  | cons c rest ih =>
    rw [Cursor.upToExtent] at h ⊢
    by_cases hc : c = '\n'
    · -- the additional character is no mark
      subst hc
      rw [if_neg fun hpair ↦ hfirst.1 hpair.1.symm] at h ⊢
      rw [crlf_feed, Cursor.upToExtent, if_neg fun hpair ↦ hfirst.2 hpair.1.symm, Cursor.upToExtent,
        if_neg fun hpair ↦ hfirst.1 hpair.1.symm]
      generalize hlater : Cursor.Extent.push _ '\n' _ _ _ = later
      obtain ⟨hcomplete, read, more, rfl, htaken, htaken'⟩ := ih rfl h later
      refine ⟨hcomplete, '\n' :: read, more, rfl, ?_, ?_⟩
      · rw [htaken]
        simp only [Cursor.Extent.push, List.length_cons]
        omega
      · rw [htaken', crlf_feed, ← hlater]
        simp only [Cursor.Extent.push, List.length_cons]
        omega
    · rw [crlf_cons hc, Cursor.upToExtent]
      simp only [head?_crlf hsecond.1 hsecond.2]
      by_cases hpair : c = first ∧ rest.head? = some second
      · rw [if_pos hpair, if_pos hpair]
        obtain ⟨rfl, hhead⟩ := hpair
        obtain ⟨more, rfl⟩ := List.head?_eq_some_iff.mp hhead
        refine ⟨rfl, [c, second], more, rfl, rfl, ?_⟩
        rw [crlf_cons hc, crlf_cons hsecond.1]
        rfl
      · rw [if_neg hpair] at h ⊢
        rw [if_neg hpair]
        generalize hlater : Cursor.Extent.push e' _ _ _ _ = later
        obtain ⟨hcomplete, read, more, rfl, htaken, htaken'⟩ := ih rfl h later
        refine ⟨hcomplete, c :: read, more, rfl, ?_, ?_⟩
        · rw [htaken]
          simp only [Cursor.Extent.push, List.length_cons]
          omega
        · rw [htaken', crlf_cons hc, ← hlater]
          simp only [Cursor.Extent.push, List.length_cons]
          omega

/-- The byte order mark is that of the text. -/
theorem contents_withCrlf (text : String) :
    Cursor.contents (Text.withCrlf text) = crlf (Cursor.contents text) := by
  have hlist : (Text.withCrlf text).toList = crlf text.toList := String.toList_ofList
  by_cases hmark : text.toList.head? = some '\uFEFF'
  · obtain ⟨cs, hcs⟩ := List.head?_eq_some_iff.mp hmark
    rw [Cursor.contents, Cursor.contents, hlist, hcs, crlf_cons (by decide)]
    rfl
  · rw [Cursor.contents_eq_toList hmark, ← hlist]
    refine Cursor.contents_eq_toList ?_
    rw [hlist]
    exact fun hhead ↦ hmark ((head?_crlf (by decide) (by decide)).mp hhead)

end

namespace Cursor

/-! ## Cursors at the same position -/

theorem mem_of_mem_contents {text : String} {c : Char} (h : c ∈ contents text) :
    c ∈ text.toList := by
  rw [contents] at h
  split at h
  · next heq => exact heq ▸ List.mem_cons_of_mem _ h
  · exact h

/-- Other characters do not complete a line. -/
theorem endsLine_of_ne {ch : Char} {rest : List Char} (hfeed : ch ≠ '\n') (hreturn : ch ≠ '\r') :
    endsLine ch rest = false := by
  simp [endsLine, hfeed, hreturn]

/-- The cursors are at the same position, and the second one is in front of the same characters with
longer line ends. -/
structure Returned (c c' : Cursor) : Prop where
  /-- The positions are the same. -/
  position : c'.position = c.position
  /-- The characters to come. -/
  rest : c'.rest = crlf c.rest
  /-- The first text has no carriage returns. -/
  noReturn : '\r' ∉ c.rest

variable {c c' : Cursor} {ch : Char} {rest : List Char}

theorem Returned.step (h : Returned c c') (hrest : c.rest = ch :: rest) (hch : ch ≠ '\n') :
    Returned c.step c'.step := by
  have hreturn : '\r' ∉ ch :: rest := hrest ▸ h.noReturn
  rw [List.mem_cons, not_or] at hreturn
  have hrest' : c'.rest = ch :: crlf rest := by rw [h.rest, hrest, crlf_cons hch]
  refine ⟨?_, ?_, ?_⟩
  · rw [position_step hrest, position_step hrest', endsLine_of_ne hch (Ne.symm hreturn.1),
      endsLine_of_ne hch (Ne.symm hreturn.1), h.position]
  · rw [rest_step, rest_step, hrest, hrest']
    rfl
  · rw [rest_step, hrest]
    exact hreturn.2

/-- The pair is one line end. -/
theorem Returned.step_feed (h : Returned c c') (hrest : c.rest = '\n' :: rest) :
    Returned c.step (c'.advance 2) := by
  have hreturn : '\r' ∉ '\n' :: rest := hrest ▸ h.noReturn
  rw [List.mem_cons, not_or] at hreturn
  have hrest' : c'.rest = '\r' :: '\n' :: crlf rest := by rw [h.rest, hrest, crlf_feed]
  have hbehind : c'.step.rest = '\n' :: crlf rest := by
    rw [rest_step, hrest']
    rfl
  refine ⟨?_, ?_, ?_⟩
  · rw [advance_succ, advance_one, position_step hrest, position_step hbehind, position_step hrest',
      h.position]
    rfl
  · rw [rest_advance, rest_step, hrest, hrest']
    rfl
  · rw [rest_step, hrest]
    exact hreturn.2

/-- Moving over the same characters, both stay at the same position. -/
theorem Returned.advance (h : Returned c c') {spelling : List Char} (hahead : spelling <+: c.rest) :
    Returned (c.advance spelling.length) (c'.advance (crlf spelling).length) := by
  induction spelling generalizing c c' with
  | nil => exact h
  | cons ch spelling ih =>
    obtain ⟨rest, hrest⟩ := hahead
    have hbehind : spelling <+: c.step.rest := by
      rw [rest_step, ← hrest]
      exact List.prefix_append _ _
    rw [List.length_cons, advance_succ]
    by_cases hch : ch = '\n'
    · subst hch
      have hlength : (crlf ('\n' :: spelling)).length = 2 + (crlf spelling).length := by
        rw [crlf_feed, List.length_cons, List.length_cons]
        omega
      rw [hlength, advance_add]
      exact ih (h.step_feed hrest.symm) hbehind
    · rw [crlf_cons hch, List.length_cons, advance_succ]
      exact ih (h.step hrest.symm hch) hbehind

end Cursor

namespace Lexer

/-! ## Lexers at the same position -/

/-- The lexers are at the same position, and the second one is in front of the same characters with
longer line ends. -/
structure Returned (lx lx' : Lexer) : Prop where
  /-- Both cut in the same way. -/
  dialect : lx'.dialect = lx.dialect
  /-- Both allow the same levels of sections. -/
  levels : lx'.levels = lx.levels
  /-- Where they are. -/
  cursor : lx.cursor.Returned lx'.cursor

/-- The token stands at the same position, and its lexeme matches. -/
abbrev SamePlace : Token → Token → Prop := Token.Placed fun _ ↦ True

/-- A section of one line is cut into the same tokens in both texts. -/
def CutsReturned (inner : Lexer → Except ScriptError (List Token)) : Prop :=
  ∀ lx lx' tokens, lx.IsBetween → lx'.IsBetween → Returned lx lx' → '\n' ∉ lx.cursor.rest →
    inner lx = .ok tokens → ∃ tokens', inner lx' = .ok tokens' ∧
    List.Forall₂ SamePlace tokens tokens'

section

variable {inner : Lexer → Except ScriptError (List Token)} {lx lx' lx₁ lx₁' : Lexer}
  {opening opening' : Position} {spelling : List Char} {l : Lexeme}

/-- Having passed the same characters, both are at the same position. -/
theorem Returned.passed (h : Returned lx lx') (hp : Passed lx spelling lx₁)
    (hp' : Passed lx' (crlf spelling) lx₁') : Returned lx₁ lx₁' := by
  rw [hp.moved, hp'.moved]
  exact ⟨h.dialect, h.levels, h.cursor.advance hp.ahead⟩

/-- Being at the same position, both have passed the same characters. -/
theorem Returned.spelling_eq (h : Returned lx lx') (h₁ : Returned lx₁ lx₁') {spelling' : List Char}
    (hp : Passed lx spelling lx₁) (hp' : Passed lx' spelling' lx₁') :
    spelling' = crlf spelling := by
  have hrest := h.cursor.rest
  rw [hp.rest_eq, hp'.rest_eq, h₁.cursor.rest, crlf_append] at hrest
  exact List.append_cancel_right hrest

/-- Within a line, both move over the same characters. -/
theorem Returned.advance (h : Returned lx lx') {n : Nat} (hn : n ≤ lx.cursor.rest.length)
    (hline : '\n' ∉ lx.cursor.rest.take n) :
    Returned { lx with cursor := lx.cursor.advance n }
      { lx' with cursor := lx'.cursor.advance n } := by
  have hcursor := h.cursor.advance (List.take_prefix n lx.cursor.rest)
  rw [crlf_eq_self hline, List.length_take, Nat.min_eq_left hn] at hcursor
  exact ⟨h.dialect, h.levels, hcursor⟩

/-! ### Strings -/

/-- No line break is passed between the two states. -/
def WithinLine (lx lx₁ : Lexer) : Prop := ∀ spelling, Passed lx spelling lx₁ → '\n' ∉ spelling

theorem WithinLine.behind (h : WithinLine lx lx₁) {lx₂ : Lexer} (hp : Passed lx spelling lx₂) :
    WithinLine lx₂ lx₁ := fun _ hp₂ hmem ↦ h _ (hp.trans hp₂) (List.mem_append_right _ hmem)

theorem WithinLine.before (h : WithinLine lx lx₁) {lx₂ : Lexer} (hp : Passed lx spelling lx₂)
    {text : List Char} {parts : List Section} {found : List Char × List Section}
    (hrest : Contents inner text parts lx₂ found lx₁) : '\n' ∉ spelling := by
  obtain ⟨more, hmore, -⟩ := hrest.exists_passed
  exact fun hmem ↦ h _ (hp.trans hmore) (List.mem_append_left _ hmem)

/-- Within a line, both can move over the same characters. -/
theorem Returned.exists_passed (h : Returned lx lx') (hp : Passed lx spelling lx₁)
    (hline : '\n' ∉ spelling) : ∃ lx₁', Passed lx' spelling lx₁' ∧ Returned lx₁ lx₁' := by
  have hrest : lx'.cursor.rest = spelling ++ crlf lx₁.cursor.rest := by
    rw [h.cursor.rest, hp.rest_eq, crlf_append, crlf_eq_self hline]
  have hp' := passed_append hrest
  refine ⟨_, hp', h.passed hp ?_⟩
  rwa [crlf_eq_self hline]

/-- A section of one line is in front of both lexers. -/
theorem Returned.sectionAt (h : Returned lx lx') {body : String} {mark brace : Char}
    (hp : Passed lx (mark :: brace :: (body.toList ++ ['\x7d'])) lx₁)
    (hline : '\n' ∉ mark :: brace :: (body.toList ++ ['\x7d'])) :
    Returned (lx.sectionAt 2 body) (lx'.sectionAt 2 body) ∧
      '\n' ∉ (lx.sectionAt 2 body).cursor.rest := by
  have hbody {c : Char} (hc : c ∉ mark :: brace :: (body.toList ++ ['\x7d'])) :
      c ∉ Cursor.contents body := fun hmem ↦ by
    simp [Cursor.mem_of_mem_contents hmem] at hc
  have hreturn : '\r' ∉ mark :: brace :: (body.toList ++ ['\x7d']) := fun hmem ↦
    h.cursor.noReturn (hp.ahead.subset hmem)
  -- the sections begin at the same position
  have hopening : [mark, brace] <+: lx.cursor.rest :=
    List.IsPrefix.trans ⟨body.toList ++ ['\x7d'], rfl⟩ hp.ahead
  have hplace := (h.cursor.advance hopening).position
  rw [crlf_eq_self fun hmem ↦ hline (List.mem_append_left _ hmem)] at hplace
  refine ⟨⟨h.dialect, ?_, hplace, (crlf_eq_self (hbody hline)).symm, hbody hreturn⟩, hbody hline⟩
  exact congrArg (· - 1) h.levels

/-- The content of a string of one line is the same. -/
theorem Contents.returned (hinner : CutsReturned inner) {text : List Char}
    {parts parts' : List Section} {found : List Char × List Section}
    (hcontents : Contents inner text parts lx found lx₁) (h : Returned lx lx')
    (hbare : lx.dialect.IsBare) (hparts : List.Forall₂ (Section.Matches SamePlace) parts parts')
    (hline : WithinLine lx lx₁) :
    ∃ parts₁ lx₁', Contents inner text parts' lx' (found.1, parts₁) lx₁' ∧
      List.Forall₂ (Section.Matches SamePlace) found.2 parts₁ ∧ Returned lx₁ lx₁' := by
  induction hcontents generalizing lx' parts' with
  | close hp =>
    obtain ⟨lx₁', hp', h₁⟩ := h.exists_passed hp (hline _ hp)
    exact ⟨parts', lx₁', .close hp', hparts, h₁⟩
  | escape hp hrest ih =>
    obtain ⟨lx₁', hp', h₁⟩ := h.exists_passed hp (hline.before hp hrest)
    obtain ⟨parts₁, lx₂', hrest', hall⟩ :=
      ih h₁ (hp.dialect_eq ▸ hbare) hparts (hline.behind hp)
    exact ⟨parts₁, lx₂', .escape hp' hrest', hall⟩
  | @embedded _ _ _ _ _ _ body _ hp hslash hquote hlevels hbody hcut hrest ih =>
    have hclean := hline.before hp hrest
    obtain ⟨lx₁', hp', h₁⟩ := h.exists_passed hp hclean
    have hbare' : lx'.dialect.IsBare := h.dialect ▸ hbare
    obtain ⟨hsame, hsection⟩ := h.sectionAt hp hclean
    obtain ⟨tokens', hcut', hmatches⟩ := hinner _ _ _ (isBetween_sectionAt hbare 2 body)
      (isBetween_sectionAt hbare' 2 body) hsame hsection hcut
    obtain ⟨parts₁, lx₂', hrest', hall⟩ := ih h₁ (hp.dialect_eq ▸ hbare)
      (.cons (.tokens hmatches) (forall₂_closeText .text _ hparts)) (hline.behind hp)
    rw [← h.dialect] at hp' hslash hquote
    exact ⟨parts₁, lx₂', .embedded hp' hslash hquote (h.levels ▸ hlevels) hbody hcut' hrest', hall⟩
  | char hp hslash hquote hsection hrest ih =>
    obtain ⟨lx₁', hp', h₁⟩ := h.exists_passed hp (hline.before hp hrest)
    obtain ⟨parts₁, lx₂', hrest', hall⟩ :=
      ih h₁ (hp.dialect_eq ▸ hbare) hparts (hline.behind hp)
    rw [← h.dialect, ← head?_crlf (by decide) (by decide), ← h₁.cursor.rest] at hsection
    exact ⟨parts₁, lx₂', .char hp' hslash hquote hsection hrest', hall⟩

theorem kind_of_readString (hread : readString inner lx = .ok l lx₁) :
    l.kind = .str ∨ l.kind = .interpolated := by
  obtain ⟨found, -, rfl⟩ := readString_eq_ok_iff.mp hread
  exact kind_literalOf _ found

theorem kind_of_readPlainString (hread : readPlainString lx = .ok l lx₁) : l.kind = .str := by
  rw [readPlainString, get_bind_run] at hread
  obtain ⟨run, lx₂, -, hread⟩ := bind_eq_ok_iff.mp hread
  cases hread
  rfl

theorem readString_returned (hinner : CutsReturned inner) (h : Returned lx lx')
    (hbare : lx.dialect.IsBare) (hne : lx.cursor.rest ≠ [])
    (hread : readString inner lx = .ok l lx₁)
    (hline : '\n' ∉ l.text.toList) :
    ∃ l' lx₁', readString inner lx' = .ok l' lx₁' ∧ Lexeme.Matches SamePlace l l' ∧
      Returned lx₁ lx₁' := by
  have hone : 1 ≤ lx.cursor.rest.length := List.length_pos_iff.mpr hne
  have hone' : 1 ≤ lx'.cursor.rest.length :=
    Nat.le_trans hone (h.cursor.rest ▸ length_le_length_crlf _)
  have hreads := (readString_reads hne hread).passed
  have hwithin : WithinLine lx lx₁ := fun spelling hp ↦ hreads.unique hp ▸ hline
  obtain ⟨found, hcontents, rfl⟩ := readString_eq_ok_iff.mp hread
  have hfirst := h.advance hone (hwithin.before (passed_take hone) hcontents)
  obtain ⟨parts', lx₁', hcontents', hmatches, h₁⟩ :=
    hcontents.returned hinner hfirst hbare .nil (hwithin.behind (passed_take hone))
  -- both have moved over the same spelling
  obtain ⟨spelling, hspelling, -⟩ := hcontents.exists_passed
  obtain ⟨spelling', hspelling', -⟩ := hcontents'.exists_passed
  have hpassed := (passed_take hone).trans hspelling
  have hpassed' := (passed_take hone').trans hspelling'
  have hraw : lx₁'.cursor.since lx'.cursor.pos = lx₁.cursor.since lx.cursor.pos := by
    rw [hpassed.since_eq, hpassed'.since_eq, h.spelling_eq h₁ hpassed hpassed',
      crlf_eq_self (hwithin _ hpassed)]
  have hplain (raw s : String) : Lexeme.Matches SamePlace (.str raw s) (.str raw s) :=
    .same (by simp [Lexeme.kind])
  refine ⟨_, lx₁', readString_eq_ok_iff.mpr ⟨_, hcontents', rfl⟩, ?_, h₁⟩
  rw [hraw]
  exact literalOf_related .text hplain .interpolated _ _ hmatches

/-! ### Lexemes -/

theorem readPlainString_returned (h : Returned lx lx') (hne : lx.cursor.rest ≠ [])
    (hread : readPlainString lx = .ok l lx₁) (hline : '\n' ∉ l.text.toList) :
    ∃ lx₁', readPlainString lx' = .ok l lx₁' := by
  rw [readPlainString, get_bind_run] at hread
  obtain ⟨run, lx₂, hrun, hread⟩ := bind_eq_ok_iff.mp hread
  simp only [scanExcept, scan_bind_run, Cursor.scanQuoted, Cursor.opened, if_true] at hrun
  split_ifs at hrun with hcomplete
  · obtain ⟨read, more, hread₀, -, htaken, hall⟩ := exists_eq_append_of_quotedExtent rfl hcomplete
    rw [show Cursor.Extent.empty.taken = 0 from rfl, Nat.zero_add] at htaken
    obtain ⟨quote, rest, hrest⟩ := List.exists_cons_of_ne_nil hne
    obtain rfl : rest = read ++ more := by
      rw [← hread₀, Cursor.rest_step, hrest]
      rfl
    cases hrun
    cases hread
    have hraw : (lx.cursor.step.advance read.length).since lx.cursor.pos = String.ofList
      (quote :: read) := by
      rw [← Cursor.advance_succ, Cursor.since_advance (by simp [hrest]), hrest]
      simp
    dsimp only [Cursor.closed, Lexeme.text] at hline ⊢
    simp only [htaken, Bool.false_and, Bool.false_eq_true, if_false, hraw,
      String.toList_ofList] at hline ⊢
    have hrest' : lx'.cursor.rest = quote :: read ++ crlf more := by
      rw [h.cursor.rest, hrest, ← List.cons_append, crlf_append, crlf_eq_self hline]
    have hscan : Cursor.scanQuoted '\'' '\\' ⟨true, false⟩ lx'.cursor =
        (.ok (Cursor.quotedExtent '\'' '\\' lx.cursor.step.rest .empty).run,
          lx'.cursor.advance (read.length + 1)) := by
      have hstep : lx'.cursor.step.rest = read ++ crlf more := by
        rw [Cursor.rest_step, hrest']
        rfl
      simp only [Cursor.scanQuoted, Cursor.opened, if_true, hstep, hall (crlf more),
        if_pos hcomplete, Cursor.closed, htaken, Cursor.advance_succ, Bool.false_and,
        Bool.false_eq_true, if_false]
    refine ⟨{ lx' with cursor := lx'.cursor.advance (read.length + 1) }, ?_⟩
    rw [readPlainString, get_bind_run, bind_eq_of_ok (scanExcept_of_ok hscan), get_bind_run]
    dsimp only
    rw [Cursor.since_advance (by simp [hrest']), hrest']
    simp
  · simp at hrun

/-- A comment that spans lines is spelled with longer line ends. -/
theorem readBlockComment_returned (h : Returned lx lx') {rest : List Char}
    (hrest : lx.cursor.rest = '/' :: '*' :: rest) (hread : readBlockComment lx = .ok l lx₁) :
    ∃ l' lx₁', readBlockComment lx' = .ok l' lx₁' ∧ Lexeme.Matches SamePlace l l' ∧
      Returned lx₁ lx₁' := by
  have hgap (text : String) : (Lexeme.comment ("/*" ++ text ++ "*/")).IsGap :=
    ⟨.inl rfl, '/', by simp [Lexeme.text], by decide⟩
  have hrest' : lx'.cursor.rest = '/' :: '*' :: crlf rest := by
    rw [h.cursor.rest, hrest, crlf_cons (by decide), crlf_cons (by decide)]
  have hopened : (lx.cursor.advance 1).step.rest = rest := by
    rw [Cursor.rest_step, Cursor.rest_advance, hrest]
    rfl
  have hopened' : (lx'.cursor.advance 1).step.rest = crlf rest := by
    rw [Cursor.rest_step, Cursor.rest_advance, hrest']
    rfl
  simp only [readBlockComment, get_bind_run, pass_bind_run, scan_bind_run, Cursor.scanUpTo,
    Cursor.opened, if_true, hopened, hopened'] at hread ⊢
  split_ifs at hread with hsuccess
  · obtain ⟨hcomplete, read, more, rfl, htaken, htaken'⟩ :=
      upToExtent_crlf (by decide) (by decide) rfl hsuccess .empty
    rw [show Cursor.Extent.empty.taken = 0 from rfl, Nat.zero_add] at htaken htaken'
    have hsuccess' : (Cursor.upToExtent '*' '/' (crlf (read ++ more)) .empty).run.success = true :=
      hcomplete
    rw [if_pos hsuccess']
    cases hread
    refine ⟨_, _, rfl, .gap rfl (hgap _) (hgap _), h.dialect, h.levels, ?_⟩
    have hahead : '/' :: '*' :: read <+: lx.cursor.rest := hrest ▸ List.prefix_append _ more
    have hcursor := h.cursor.advance hahead
    rw [crlf_cons (by decide), crlf_cons (by decide)] at hcursor
    simp only [List.length_cons, Cursor.advance_succ] at hcursor
    simpa [Cursor.closed, htaken, htaken', Cursor.advance_one] using hcursor
  · simp at hread

theorem Returned.text_scanWhile (h : Returned lx lx') {p : Char → Bool} (hfeed : p '\n' = false)
    (hreturn : p '\r' = false) (emptyFails : Bool) :
    (Cursor.scanWhile p emptyFails .plain lx'.cursor).1.text =
      (Cursor.scanWhile p emptyFails .plain lx.cursor).1.text := by
  rw [ScriptFront.Lexer.text_scanWhile, ScriptFront.Lexer.text_scanWhile, h.cursor.rest,
    takeWhile_crlf hfeed hreturn]

theorem not_mem_numberRun {c : Char} (hc : c.isDigit = false) (hpoint : c ≠ '.') (cs : List Char) :
    c ∉ Cursor.numberRun cs := by
  have hdigits (cs : List Char) : c ∉ cs.takeWhile Char.isDigit := not_mem_takeWhile hc
  rw [Cursor.numberRun]
  split
  · dsimp only
    split
    · exact hdigits _
    · rw [List.mem_append, List.mem_cons]
      rintro (hmem | rfl | hmem)
      · exact hdigits _ hmem
      · exact hpoint rfl
      · exact hdigits _ hmem
  · exact hdigits _

theorem beginning?_crlf {c : Char} {rest : List Char} (hreturn : c ≠ '\r') :
    beginning? c (crlf rest) = beginning? c rest :=
  beginning?_congr (fun hc ↦ absurd hc hreturn) (head?_crlf (by decide) (by decide))
    (head?_crlf (by decide) (by decide)) longestSymbol?_crlf

/-- Of one shape, the same is read within a line, and in comments. -/
theorem readFrom_returned (hinner : CutsReturned inner) (h : Returned lx lx')
    (hbare : lx.dialect.IsBare) {c : Char} {rest : List Char} {b : Beginning}
    (hrest : lx.cursor.rest = c :: rest) (hc : c ≠ '\n') (hreturn : c ≠ '\r')
    (hb : beginning? c rest = some b) (hread : readFrom inner b lx = .ok l lx₁)
    (hline : l.kind = .str ∨ l.kind = .interpolated → '\n' ∉ l.text.toList) :
    ∃ l' lx₁', readFrom inner b lx' = .ok l' lx₁' ∧ Lexeme.Matches SamePlace l l' ∧
      Returned lx₁ lx₁' := by
  have hne : lx.cursor.rest ≠ [] := by simp [hrest]
  have hreads := readLexeme_reads hrest (readLexeme_eq_ok_iff.mpr ⟨b, hb, hread⟩)
  have hrest' : lx'.cursor.rest = c :: crlf rest := by rw [h.cursor.rest, hrest, crlf_cons hc]
  have hb' := (beginning?_crlf hreturn).trans hb
  -- what is spelled without a line break is the same
  have hsame (lx₁' : Lexer) (hread' : readFrom inner b lx' = .ok l lx₁')
      (hl : l.kind ≠ .interpolated) (hline : '\n' ∉ l.text.toList) :
      ∃ l' lx₁', readFrom inner b lx' = .ok l' lx₁' ∧ Lexeme.Matches SamePlace l l' ∧
        Returned lx₁ lx₁' := by
    refine ⟨l, lx₁', hread', .same hl, h.passed hreads.passed ?_⟩
    rw [crlf_eq_self hline]
    exact (readLexeme_reads hrest' (readLexeme_eq_ok_iff.mpr ⟨b, hb', hread'⟩)).passed
  have hscanned {p : Char → Bool} (hp : p '\n' = false) :
      '\n' ∉ (String.ofList (lx.cursor.rest.takeWhile p)).toList := by
    rw [String.toList_ofList]
    exact not_mem_takeWhile hp
  cases b with
  | blanks =>
    have hread' :=
      scan_same hread (h.text_scanWhile (p := Cursor.isSpacing) (by decide) (by decide) false)
    cases hread
    exact hsame _ hread' (by simp [Lexeme.kind]) (hscanned (by decide))
  | lineFeed => exact absurd (fits_of_beginning? hb) hc
  | linePair => exact absurd (fits_of_beginning? hb).1 hreturn
  | lineReturn => exact absurd (fits_of_beginning? hb) hreturn
  | lineComment =>
    have hread' := scan_same hread
      (h.text_scanWhile (p := fun c ↦ c != '\n' && c != '\r') (by decide) (by decide) false)
    cases hread
    exact hsame _ hread' (by simp [Lexeme.kind]) (hscanned (by decide))
  | blockComment =>
    obtain ⟨rfl, hstar⟩ := fits_of_beginning? hb
    obtain ⟨behind, rfl⟩ := List.head?_eq_some_iff.mp hstar
    exact readBlockComment_returned h hrest hread
  | quoted => exact readString_returned hinner h hbare hne hread (hline (kind_of_readString hread))
  | plain =>
    have hkind := kind_of_readPlainString hread
    obtain ⟨lx₁', hread'⟩ := readPlainString_returned h hne hread (hline (.inl hkind))
    exact hsame _ hread' (by simp [hkind]) (hline (.inl hkind))
  | number =>
    have htext : (Cursor.scanNumber .plain lx'.cursor).1.text =
        (Cursor.scanNumber .plain lx.cursor).1.text :=
      congrArg String.ofList (h.cursor.rest ▸ numberRun_crlf)
    have hrun := not_mem_numberRun (by decide : '\n'.isDigit = false) (by decide) lx.cursor.rest
    rw [← String.toList_ofList (l := Cursor.numberRun _)] at hrun
    have hread' := scan_same
      (f := fun text ↦ .number text ((Number.ofText? text).getD (.zero false))) hread htext
    cases hread
    exact hsame _ hread' (by simp [Lexeme.kind]) hrun
  | name =>
    have hread' :=
      scan_same hread (h.text_scanWhile (p := Text.isNameChar) (by decide) (by decide) true)
    cases hread
    refine hsame _ hread' (kind_ofWord_ne _).2 ?_
    rw [text_ofWord]
    exact hscanned (by decide)
  | symbol lexeme =>
    obtain ⟨text, htext, rfl, -⟩ := fits_of_beginning? hb
    have hsymbols : ∀ text ∈ Lexeme.symbols, '\n' ∉ text.toList := by decide
    cases hread
    exact hsame _ rfl (by simp [Lexeme.kind]) (hsymbols text htext)

/-- **One lexeme.** Within a line, and in comments, the same is read. -/
theorem readLexeme_returned (hinner : CutsReturned inner) (h : Returned lx lx')
    (hbare : lx.dialect.IsBare) {c : Char} {rest : List Char} (hrest : lx.cursor.rest = c :: rest)
    (hc : c ≠ '\n') (hread : readLexeme inner c rest lx = .ok l lx₁)
    (hline : l.kind = .str ∨ l.kind = .interpolated → '\n' ∉ l.text.toList) :
    ∃ l' lx₁', readLexeme inner c (crlf rest) lx' = .ok l' lx₁' ∧ Lexeme.Matches SamePlace l l' ∧
      Returned lx₁ lx₁' := by
  have hreturn : c ≠ '\r' := by
    rintro rfl
    exact h.cursor.noReturn (hrest ▸ List.mem_cons_self ..)
  obtain ⟨b, hb, hread⟩ := readLexeme_eq_ok_iff.mp hread
  obtain ⟨l', lx₁', hread', hmatches, h₁⟩ :=
    readFrom_returned hinner h hbare hrest hc hreturn hb hread hline
  have hb' := (beginning?_crlf hreturn).trans hb
  exact ⟨l', lx₁', readLexeme_eq_ok_iff.mpr ⟨b, hb', hread'⟩, hmatches, h₁⟩

/-! ## Tokens -/

/-- A string literal of one line, or another token. -/
def IsClean (t : Token) : Prop := t.kind = .str ∨ t.kind = .interpolated → '\n' ∉ t.text.toList

theorem readTokenWith_returned (hinner : CutsReturned inner) {t : Token} (h : Returned lx lx')
    (hbare : lx.dialect.IsBare) (hend : t.isEnd = false)
    (hread : readTokenWith inner lx = .ok t lx₁)
    (hclean : IsClean t) :
    ∃ t' lx₁', readTokenWith inner lx' = .ok t' lx₁' ∧ SamePlace t t' ∧ Returned lx₁ lx₁' := by
  cases hrest : lx.cursor.rest with
  | nil =>
    rw [readTokenWith_end hrest] at hread
    cases hread
    cases hend
  | cons c rest =>
    rw [readTokenWith, get_bind_run, hrest] at hread
    obtain ⟨l, lx₂, hl, hread⟩ := bind_eq_ok_iff.mp hread
    cases hread
    have hsame {l' : Lexeme} (hl' : Lexeme.Matches SamePlace l l') :
        SamePlace (.mk l lx.cursor.position (lx.base + lx.cursor.pos) 0)
          (.mk l' lx'.cursor.position (lx'.base + lx'.cursor.pos) 0) := by
      rw [h.cursor.position]
      exact .mk trivial hl'
    by_cases hc : c = '\n'
    · subst hc
      cases hl
      have hgap : (Lexeme.newLine "\n").IsGap := ⟨.inr rfl, '\n', rfl, by decide⟩
      have hgap' : (Lexeme.newLine "\r\n").IsGap := ⟨.inr rfl, '\r', rfl, by decide⟩
      have hmatches : Lexeme.Matches SamePlace (.newLine "\n") (.newLine "\r\n") :=
        .gap rfl hgap hgap'
      have hrest' : lx'.cursor.rest = crlf ['\n'] ++ crlf rest := by
        rw [h.cursor.rest, hrest]
        rfl
      refine ⟨_, _, ?_, hsame hmatches,
        h.passed (passed_append (show lx.cursor.rest = ['\n'] ++ rest from hrest))
          (passed_append hrest')⟩
      rw [readTokenWith, get_bind_run, h.cursor.rest, hrest, crlf_feed]
      rfl
    · obtain ⟨l', lx₁', hl', hmatches, h₁⟩ := readLexeme_returned hinner h hbare hrest hc hl hclean
      refine ⟨_, lx₁', ?_, hsame hmatches, h₁⟩
      rw [readTokenWith, get_bind_run, h.cursor.rest, hrest, crlf_cons hc]
      exact bind_eq_of_ok hl'

/-- **The tokens of both texts** stand at the same positions. -/
theorem Cuts.returned (hinner : CutsReturned inner) {tokens : List Token}
    (hcuts : Cuts inner lx tokens lx₁) (h : Returned lx lx') (hlx : lx.IsBetween)
    (hclean : ∀ t ∈ tokens, IsClean t) :
    ∃ tokens' lx₁', Cuts inner lx' tokens' lx₁' ∧ List.Forall₂ SamePlace tokens tokens' ∧
      Returned lx₁ lx₁' := by
  induction hcuts generalizing lx' with
  | nil => exact ⟨[], lx', .nil, .nil, h⟩
  | @blank lx lx₂ lx₁ t tokens hread ht hcuts ih =>
    have hend := isEnd_of_kind ht (by decide)
    obtain ⟨t', lx₂', hread', hsame, h₂⟩ := readTokenWith_returned hinner h hlx.bare hend hread
      (by simp [IsClean, ht])
    obtain ⟨tokens', lx₁', hcuts', hall, h₁⟩ :=
      ih h₂ ((reads_of_readTokenWith hread hend).isBetween hlx) hclean
    exact ⟨tokens', lx₁', .blank hread' (hsame.lexeme.kind_eq.trans ht) hcuts', hall, h₁⟩
  | @token lx lx₂ lx₁ t tokens hread ht hend hcuts ih =>
    obtain ⟨hcleanFirst, hcleanRest⟩ := List.forall_mem_cons.mp hclean
    obtain ⟨t', lx₂', hread', hsame, h₂⟩ := readTokenWith_returned hinner h hlx.bare hend hread
      hcleanFirst
    have hkind := hsame.lexeme.kind_eq
    have hend' : t'.isEnd = false := by rwa [Token.isEnd, hkind]
    have hnumbered : SamePlace (t.withIndex lx.index) (t'.withIndex lx'.index) := by
      obtain ⟨hplace, hl⟩ := hsame
      exact .mk hplace hl
    obtain ⟨tokens', lx₁', hcuts', hall, h₁⟩ :=
      ih (show Returned lx₂.counting lx₂'.counting from ⟨h₂.dialect, h₂.levels, h₂.cursor⟩)
        ((reads_of_readTokenWith hread hend).isBetween hlx).counting hcleanRest
    exact ⟨_, lx₁', .token hread' (hkind ▸ ht) hend' hcuts', .cons hnumbered hall, h₁⟩

theorem CutsAll.returned (hinner : CutsReturned inner) {tokens : List Token}
    (h : CutsAll inner lx tokens) (hlx : lx.IsBetween) (hreturned : Returned lx lx')
    (hclean : ∀ t ∈ tokens, IsClean t) :
    ∃ tokens', CutsAll inner lx' tokens' ∧ List.Forall₂ SamePlace tokens tokens' := by
  obtain ⟨body, lx₁, hcuts, hrest, rfl⟩ := h
  obtain ⟨body', lx₁', hcuts', hall, h₁⟩ := hcuts.returned hinner hreturned hlx fun t ht ↦
    hclean t (List.mem_append_left _ ht)
  have hend : SamePlace lx₁.endToken lx₁'.endToken := by
    rw [endToken, endToken, h₁.cursor.position]
    exact .mk trivial (.same (by simp [Lexeme.kind]))
  refine ⟨_, ⟨body', lx₁', hcuts', ?_, rfl⟩, List.rel_append hall (.cons hend .nil)⟩
  rw [h₁.cursor.rest, hrest, crlf_nil]

/-- What tokens are spelled with stands in the text. -/
theorem Cuts.mem_rest {tokens : List Token} (hcuts : Cuts inner lx tokens lx₁) {c : Char} :
    ∀ t ∈ tokens, c ∈ t.text.toList → c ∈ lx.cursor.rest := by
  induction hcuts with
  | nil => simp
  | blank hread ht _ ih =>
    have hreads := reads_of_readTokenWith hread (isEnd_of_kind ht (by decide))
    intro u hu hc
    rw [hreads.passed.rest_eq]
    exact List.mem_append_right _ (ih u hu hc)
  | token hread _ hend _ ih =>
    have hreads := reads_of_readTokenWith hread hend
    intro u hu hc
    rw [hreads.passed.rest_eq]
    rcases List.mem_cons.mp hu with rfl | hu
    · exact List.mem_append_left _ hc
    · exact List.mem_append_right _ (ih u hu hc)

/-- Sections of one line are cut alike, however deep they are nested. -/
theorem cutsReturned_sectionTokens (levels : Nat) : CutsReturned (sectionTokens levels) := by
  induction levels with
  | zero =>
    intro lx lx' tokens _ _ _ _ h
    cases h
  | succ levels ih =>
    intro lx lx' tokens hlx hlx' hreturned hline h
    have hall := (sectionTokens_eq_ok_iff hlx levels).mp h
    have hclean (t : Token) (ht : t ∈ tokens) : IsClean t := by
      obtain ⟨body, lx₁, hcuts, -, rfl⟩ := hall
      rcases List.mem_append.mp ht with ht | ht
      · exact fun _ hmem ↦ hline (hcuts.mem_rest t ht hmem)
      · rw [List.mem_singleton.mp ht]
        simp [IsClean, endToken, Token.kind, Token.lexeme, Lexeme.kind]
    obtain ⟨tokens', hall', hsame⟩ := hall.returned ih hlx hreturned hclean
    exact ⟨tokens', (sectionTokens_eq_ok_iff hlx' levels).mpr hall', hsame⟩

/-- **Other line ends.** Without carriage returns, and without line breaks in string literals, a
text is cut into tokens at the same positions if its line ends are written as pairs. -/
theorem exists_tokenize_withCrlf {d : Dialect} (hbare : d.IsBare) {text : String}
    {tokens : List Token}
    (hreturn : '\r' ∉ text.toList) (h : (ofText d text).tokenize = .ok tokens)
    (hclean : ∀ t ∈ tokens, IsClean t) :
    ∃ tokens', (ofText d (Text.withCrlf text)).tokenize = .ok tokens' ∧
      List.Forall₂ SamePlace tokens tokens' := by
  have hcursor : (Cursor.ofText text).Returned (.ofText (Text.withCrlf text)) :=
    ⟨Cursor.position_ofText_eq _ _, contents_withCrlf text,
      fun hmem ↦ hreturn (Cursor.mem_of_mem_contents hmem)⟩
  have hreturned : Returned (ofText d text) (ofText d (Text.withCrlf text)) :=
    ⟨rfl, rfl, hcursor⟩
  have hall := (tokenize_eq_ok_iff (isBetween_ofText hbare text)).mp h
  obtain ⟨tokens', hall', hsame⟩ := hall.returned (cutsReturned_sectionTokens _)
    (isBetween_ofText hbare text) hreturned hclean
  exact ⟨tokens', (tokenize_eq_ok_iff (isBetween_ofText hbare _)).mpr hall', hsame⟩

end

end Lexer

end ScriptFront
