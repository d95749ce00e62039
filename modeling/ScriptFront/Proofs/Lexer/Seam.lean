import ScriptFront.Proofs.Lexer.Cuts
import ScriptFront.Proofs.Window.Joins

/-!
# Texts that go on

A lexer that stands in front of some characters may find more of them behind than another one does.
What it cuts first is the same as long as the other one succeeds, provided that the additional
characters begin with a line feed: no lexeme goes on over it but a carriage return, and nothing that
is complete before the line feed is looked at again. So a text that is followed by a line feed and
another text has the tokens of both, with a line break between them.

The statement is made about a lexer that *goes on* where another one stops. With no additional
characters it says that the tokens of a text are the same wherever the text stands, which is what is
needed for embedded sections and for the second text.
-/

namespace ScriptFront

/-! ## Lists of characters that go on -/

/-- Additional characters: none, or a line feed and more. -/
def IsTail (tail : List Char) : Prop := ∀ c ∈ tail.head?, c = '\n'

theorem isTail_nil : IsTail [] := by
  intro c hc
  cases hc

theorem isTail_cons (cs : List Char) : IsTail ('\n' :: cs) := by
  intro c hc
  exact (Option.some.inj hc).symm

section

variable {tail cs : List Char} {c : Char} {p : Char → Bool}

/-- What follows a character is the same, unless nothing follows it. -/
theorem IsTail.head?_append (h : IsTail tail) (hc : c ≠ '\n') :
    (cs ++ tail).head? = some c ↔ cs.head? = some c := by
  cases cs with
  | nil =>
    constructor
    · intro hhead
      exact absurd (h c hhead) hc
    · intro hhead
      cases hhead
  | cons d cs => rfl

theorem IsTail.takeWhile_append (h : IsTail tail) (hp : p '\n' = false) :
    (cs ++ tail).takeWhile p = cs.takeWhile p := by
  induction cs with
  | nil =>
    refine Lexer.takeWhile_eq_nil fun c hc ↦ ?_
    rw [h c hc, hp]
  | cons c cs ih => rw [List.cons_append, List.takeWhile_cons, List.takeWhile_cons, ih]

theorem IsTail.dropWhile_append (h : IsTail tail) (hp : p '\n' = false) :
    (cs ++ tail).dropWhile p = cs.dropWhile p ++ tail := by
  have hsplit := List.takeWhile_append_dropWhile (p := p) (l := cs ++ tail)
  rw [h.takeWhile_append hp] at hsplit
  have hwhole := List.takeWhile_append_dropWhile (p := p) (l := cs)
  refine List.append_cancel_left (?_ : cs.takeWhile p ++ _ = cs.takeWhile p ++ _)
  rw [hsplit, ← List.append_assoc, hwhole]

theorem IsTail.numberRun_append (h : IsTail tail) :
    Cursor.numberRun (cs ++ tail) = Cursor.numberRun cs := by
  have hdigit : Char.isDigit '\n' = false := by decide
  rw [Cursor.numberRun, Cursor.numberRun, h.takeWhile_append hdigit, h.dropWhile_append hdigit]
  cases hrest : cs.dropWhile Char.isDigit with
  | nil =>
    rw [List.nil_append]
    split
    · next rest => exact absurd (h '.' rfl) (by decide)
    · rfl
  | cons d rest =>
    rw [List.cons_append]
    by_cases hd : d = '.'
    · subst hd
      simp only [h.takeWhile_append hdigit]
    · split
      · next heq => exact absurd (List.cons.inj heq).1 hd
      · split
        · next heq => exact absurd (List.cons.inj heq).1 hd
        · rfl

/-- The text of a block comment ends at the first pair of marks. -/
theorem upToExtent_append (tail : List Char) {first second : Char} {e : Cursor.Extent}
    (he : e.complete = false)
    (h : (Cursor.upToExtent first second cs e).complete = true) :
    Cursor.upToExtent first second (cs ++ tail) e = Cursor.upToExtent first second cs e := by
  induction cs generalizing e with
  | nil => simp [Cursor.upToExtent, he] at h
  | cons c rest ih =>
    have hrest : rest ≠ [] := by
      rintro rfl
      simp [Cursor.upToExtent, Cursor.Extent.push] at h
    rw [Cursor.upToExtent] at h ⊢
    rw [List.cons_append, Cursor.upToExtent, List.head?_append_of_ne_nil rest hrest,
      Lexer.push_append hrest]
    split
    · rfl
    · next hpair =>
      rw [if_neg hpair] at h
      exact ih rfl h

/-- No symbol goes on over a line feed. -/
theorem IsTail.longestSymbol?_append (h : IsTail tail) {rest : List Char} :
    Lexeme.longestSymbol? (c :: (rest ++ tail).take 1) = Lexeme.longestSymbol?
      (c :: rest.take 1) := by
  cases rest with
  | cons d rest => rfl
  | nil =>
    cases tail with
    | nil => rfl
    | cons d tail =>
      obtain rfl := h d rfl
      -- each comparison with a symbol of two characters fails at the line feed
      rfl

end

namespace Lexer

/-! ## Lexers that go on -/

/-- In front of the second lexer stand the characters that are left to the first one, and then
`tail`. -/
structure Extends (tail : List Char) (lx lx' : Lexer) : Prop where
  /-- Both cut in the same way. -/
  dialect : lx'.dialect = lx.dialect
  /-- Both allow the same levels of sections. -/
  levels : lx'.levels = lx.levels
  /-- The characters in front of them. -/
  rest : lx'.cursor.rest = lx.cursor.rest ++ tail

/-- A section is cut into the same tokens wherever its text stands. -/
def CutsAlike (inner : Lexer → Except ScriptError (List Token)) : Prop :=
  ∀ lx lx' tokens, lx.IsBetween → lx'.IsBetween → Extends [] lx lx' → inner lx = .ok tokens →
    ∃ tokens', inner lx' = .ok tokens' ∧ Section.Similar (.tokens tokens) (.tokens tokens')

section

variable {inner : Lexer → Except ScriptError (List Token)} {tail : List Char}
  {lx lx' lx₁ lx₁' : Lexer} {opening opening' : Position}

theorem Extends.advance (h : Extends tail lx lx') {n : Nat} (hn : n ≤ lx.cursor.rest.length) :
    Extends tail { lx with cursor := lx.cursor.advance n }
      { lx' with cursor := lx'.cursor.advance n } := by
  refine ⟨h.dialect, h.levels, ?_⟩
  dsimp only
  rw [Cursor.rest_advance, Cursor.rest_advance, h.rest, List.drop_append_of_le_length hn]

/-- Having passed the same characters, both stand as before. -/
theorem Extends.passed (h : Extends tail lx lx') {spelling : List Char}
    (hp : Passed lx spelling lx₁)
    (hp' : Passed lx' spelling lx₁') : Extends tail lx₁ lx₁' := by
  rw [hp.moved, hp'.moved]
  exact h.advance hp.ahead.length_le

/-- Standing as before, both have passed the same characters. -/
theorem Extends.spelling_eq (h : Extends tail lx lx') (h₁ : Extends tail lx₁ lx₁')
    {spelling spelling' : List Char} (hp : Passed lx spelling lx₁)
    (hp' : Passed lx' spelling' lx₁') :
    spelling' = spelling := by
  have hrest := h.rest
  rw [hp.rest_eq, hp'.rest_eq, h₁.rest, List.append_assoc] at hrest
  exact List.append_cancel_right hrest

/-- A section is cut by lexers in front of the same characters. -/
theorem Extends.forSection (h : Extends tail lx lx') {start start' : Position}
    {offset offset' : Nat}
    {text : String} :
    Extends [] (lx.forSection start offset text) (lx'.forSection start' offset' text) := by
  refine ⟨h.dialect, ?_, (List.append_nil _).symm⟩
  rw [Lexer.forSection, Lexer.forSection, h.levels]

theorem Extends.exists_passed (h : Extends tail lx lx') {spelling : List Char}
    (hp : Passed lx spelling lx₁) : ∃ lx₁', Passed lx' spelling lx₁' ∧ Extends tail lx₁ lx₁' := by
  have hrest : lx'.cursor.rest = spelling ++ (lx₁.cursor.rest ++ tail) := by
    rw [h.rest, hp.rest_eq, List.append_assoc]
  have hp' := passed_append hrest
  exact ⟨_, hp', h.passed hp hp'⟩

/-- The content of a string is the same. -/
theorem Contents.extends (hinner : CutsAlike inner) (htail : IsTail tail) {text : List Char}
    {parts parts' : List Section} {found : List Char × List Section}
    (hcontents : Contents inner text parts lx found lx₁) (h : Extends tail lx lx')
    (hbare : lx.dialect.IsBare) (hparts : List.Forall₂ Section.Similar parts parts') :
    ∃ parts₁ lx₁', Contents inner text parts' lx' (found.1, parts₁) lx₁' ∧
      List.Forall₂ Section.Similar found.2 parts₁ ∧ Extends tail lx₁ lx₁' := by
  induction hcontents generalizing lx' parts' with
  | close hp =>
    obtain ⟨lx₁', hp', h₁⟩ := h.exists_passed hp
    exact ⟨parts', lx₁', .close hp', hparts, h₁⟩
  | escape hp _ ih =>
    obtain ⟨lx₁', hp', h₁⟩ := h.exists_passed hp
    obtain ⟨parts₁, lx₂', hrest', hall⟩ := ih h₁ (hp.dialect_eq ▸ hbare) hparts
    exact ⟨parts₁, lx₂', .escape hp' hrest', hall⟩
  | @embedded _ _ _ _ _ _ body _ hp hslash hquote hlevels hbody hcut _ ih =>
    obtain ⟨lx₁', hp', h₁⟩ := h.exists_passed hp
    have hbare' : lx'.dialect.IsBare := h.dialect ▸ hbare
    obtain ⟨tokens', hcut', hsimilar⟩ := hinner _ _ _ (isBetween_sectionAt hbare 2 body)
      (isBetween_sectionAt hbare' 2 body) h.forSection hcut
    obtain ⟨parts₁, lx₂', hrest', hall⟩ :=
      ih h₁ (hp.dialect_eq ▸ hbare) (.cons hsimilar (forall₂_closeText .text _ hparts))
    rw [← h.dialect] at hp' hslash hquote
    exact ⟨parts₁, lx₂', .embedded hp' hslash hquote (h.levels ▸ hlevels) hbody hcut' hrest', hall⟩
  | char hp hslash hquote hsection _ ih =>
    obtain ⟨lx₁', hp', h₁⟩ := h.exists_passed hp
    obtain ⟨parts₁, lx₂', hrest', hall⟩ := ih h₁ (hp.dialect_eq ▸ hbare) hparts
    -- what follows the whole text is no brace, so no section begins where none did
    rw [← h.dialect, ← htail.head?_append (by decide), ← h₁.rest] at hsection
    exact ⟨parts₁, lx₂', .char hp' hslash hquote hsection hrest', hall⟩

theorem readString_extends (hinner : CutsAlike inner) (htail : IsTail tail) {l : Lexeme}
    (h : Extends tail lx lx') (hbare : lx.dialect.IsBare) (hne : lx.cursor.rest ≠ [])
    (hread : readString inner lx = .ok l lx₁) :
    ∃ l' lx₁', readString inner lx' = .ok l' lx₁' ∧ l.Similar l' ∧ Extends tail lx₁ lx₁' := by
  obtain ⟨found, hcontents, rfl⟩ := readString_eq_ok_iff.mp hread
  have hone : 1 ≤ lx.cursor.rest.length := List.length_pos_iff.mpr hne
  have hone' : 1 ≤ lx'.cursor.rest.length := by
    rw [h.rest, List.length_append]
    omega
  obtain ⟨parts', lx₁', hcontents', hsimilar, h₁⟩ :=
    hcontents.extends hinner htail (h.advance hone) hbare .nil
  -- both have moved over the same spelling
  obtain ⟨spelling, hspelling, -⟩ := hcontents.exists_passed
  obtain ⟨spelling', hspelling', -⟩ := hcontents'.exists_passed
  have hpassed := (passed_take hone).trans hspelling
  have hpassed' := (passed_take hone').trans hspelling'
  have hraw : lx₁'.cursor.since lx'.cursor.pos = lx₁.cursor.since lx.cursor.pos := by
    rw [hpassed.since_eq, hpassed'.since_eq, h.spelling_eq h₁ hpassed hpassed']
  refine ⟨_, lx₁', readString_eq_ok_iff.mpr ⟨_, hcontents', rfl⟩, ?_, h₁⟩
  have hplain (raw s : String) : (Lexeme.str raw s).Similar (.str raw s) :=
    .same (by simp [Lexeme.kind]) (by simp [Lexeme.kind])
  rw [hraw]
  exact literalOf_related .text hplain .interpolated _ _ hsimilar

theorem scanExcept_of_ok {α : Type} {f : Cursor → Except ScriptError α × Cursor}
    {a : α} {c : Cursor}
    (h : f lx.cursor = (.ok a, c)) : scanExcept f lx = .ok a { lx with cursor := c } := by
  rw [scanExcept, scan_bind_run, h]
  rfl

theorem readPlainString_extends {l : Lexeme} (h : Extends tail lx lx') (hne : lx.cursor.rest ≠ [])
    (hread : readPlainString lx = .ok l lx₁) :
    (∃ lx₁', readPlainString lx' = .ok l lx₁') ∧ l.kind = .str := by
  have hone : 1 ≤ lx.cursor.rest.length := List.length_pos_iff.mpr hne
  have hrest : lx'.cursor.step.rest = lx.cursor.step.rest ++ tail := by
    rw [Cursor.rest_step, Cursor.rest_step, h.rest, List.drop_append_of_le_length hone]
  rw [readPlainString, get_bind_run] at hread
  obtain ⟨run, lx₂, hrun, hread⟩ := bind_eq_ok_iff.mp hread
  simp only [scanExcept, scan_bind_run, Cursor.scanQuoted, Cursor.opened, if_true] at hrun
  split_ifs at hrun with hcomplete
  · obtain ⟨read, more, hread₀, -, htaken, hall⟩ := exists_eq_append_of_quotedExtent rfl hcomplete
    have hsame : Cursor.quotedExtent '\'' '\\' lx'.cursor.step.rest .empty =
        Cursor.quotedExtent '\'' '\\' lx.cursor.step.rest .empty := by
      rw [hrest, ← hall (more ++ tail), hread₀, List.append_assoc]
    rw [show Cursor.Extent.empty.taken = 0 from rfl, Nat.zero_add] at htaken
    have hcount : 1 + read.length ≤ lx.cursor.rest.length := by
      have hlen := congrArg List.length hread₀
      rw [Cursor.rest_step, List.length_drop, List.length_append] at hlen
      omega
    have hcount' : 1 + read.length ≤ lx'.cursor.rest.length := by
      rw [h.rest, List.length_append]
      omega
    cases hrun
    cases hread
    have hscan : Cursor.scanQuoted '\'' '\\' ⟨true, false⟩ lx'.cursor =
        (.ok (Cursor.quotedExtent '\'' '\\' lx.cursor.step.rest .empty).run,
          lx'.cursor.advance (1 + read.length)) := by
      simp only [Cursor.scanQuoted, Cursor.opened, if_true, hsame, if_pos hcomplete, Cursor.closed,
        htaken, Nat.add_comm 1, Cursor.advance_succ, Bool.false_and, Bool.false_eq_true, if_false]
    -- both cursors move over the same characters
    refine ⟨⟨{ lx' with cursor := lx'.cursor.advance (1 + read.length) }, ?_⟩, rfl⟩
    rw [readPlainString, get_bind_run, bind_eq_of_ok (scanExcept_of_ok hscan), get_bind_run]
    dsimp only
    rw [Cursor.since_advance hcount', h.rest, List.take_append_of_le_length hcount,
      ← Cursor.since_advance hcount, htaken, Nat.add_comm 1, Cursor.advance_succ]
    rfl
  · simp at hrun

theorem readBlockComment_extends {l : Lexeme} {rest : List Char} (h : Extends tail lx lx')
    (hrest : lx.cursor.rest = '/' :: '*' :: rest) (hread : readBlockComment lx = .ok l lx₁) :
    (∃ lx₁', readBlockComment lx' = .ok l lx₁') ∧ l.kind = .comment := by
  simp only [readBlockComment, get_bind_run, pass_bind_run, scan_bind_run, Cursor.scanUpTo,
    Cursor.opened, if_true] at hread ⊢
  split_ifs at hread with hsuccess
  · have hopened :
        ((lx'.cursor.advance 1).step).rest = ((lx.cursor.advance 1).step).rest ++ tail := by
      rw [Cursor.rest_step, Cursor.rest_step, Cursor.rest_advance, Cursor.rest_advance,
        h.rest, hrest]
      rfl
    have hsame := upToExtent_append tail rfl hsuccess
    rw [← hopened] at hsame
    rw [hsame, if_pos hsuccess]
    cases hread
    exact ⟨⟨_, rfl⟩, rfl⟩
  · simp at hread

/-- The state behind a lexeme that both have read: the additional characters are those of before, or
a carriage return at the end has taken the line feed that begins them. -/
structure Crosses (tail : List Char) (l : Lexeme) (lx₁ lx₁' : Lexer) : Prop where
  /-- Some characters are additional. -/
  exists_extends : ∃ tail', Extends tail' lx₁ lx₁' ∧
    (tail' = tail ∨ l.kind = .newLine ∧ lx₁.cursor.rest = [] ∧ tail = '\n' :: tail')

theorem Extends.text_scanWhile (h : Extends tail lx lx') (htail : IsTail tail) {p : Char → Bool}
    (hp : p '\n' = false) (emptyFails : Bool) :
    (Cursor.scanWhile p emptyFails .plain lx'.cursor).1.text =
      (Cursor.scanWhile p emptyFails .plain lx.cursor).1.text := by
  rw [ScriptFront.Lexer.text_scanWhile, ScriptFront.Lexer.text_scanWhile, h.rest,
    htail.takeWhile_append hp]

/-- A lexeme that shows only the text of a run is the same where the text is. -/
theorem scan_same {run : Cursor → Run × Cursor} {f : String → Lexeme} {l : Lexeme}
    (hread : (do return f (← scan run).text : LexM Lexeme) lx = .ok l lx₁)
    (htext : (run lx'.cursor).1.text = (run lx.cursor).1.text) :
    (do return f (← scan run).text : LexM Lexeme) lx' =
      .ok l { lx' with cursor := (run lx'.cursor).2 } := by
  rw [scan_bind_run, pure_run] at hread ⊢
  cases hread
  rw [htext]

/-- The shape of a lexeme shows without the additional characters, unless it is a carriage return
that nothing follows yet. -/
theorem beginning?_append (htail : IsTail tail) {c : Char} {rest : List Char}
    (h : c = '\r' → rest = [] → tail = []) :
    beginning? c (rest ++ tail) = beginning? c rest := by
  refine beginning?_congr (fun hc ↦ ?_) (htail.head?_append (by decide))
    (htail.head?_append (by decide)) htail.longestSymbol?_append
  cases rest with
  | nil => rw [h hc rfl, List.append_nil]
  | cons d rest => rfl

/-- Of one shape, similar lexemes are read, whatever may follow. -/
theorem readFrom_extends (hinner : CutsAlike inner) (htail : IsTail tail) {l : Lexeme} {c : Char}
    {rest : List Char} {b : Beginning} (h : Extends tail lx lx') (hbare : lx.dialect.IsBare)
    (hrest : lx.cursor.rest = c :: rest) (hb : beginning? c rest = some b)
    (hb' : beginning? c (rest ++ tail) = some b) (hread : readFrom inner b lx = .ok l lx₁) :
    ∃ l' lx₁', readFrom inner b lx' = .ok l' lx₁' ∧ l.Similar l' ∧ Extends tail lx₁ lx₁' := by
  have hne : lx.cursor.rest ≠ [] := by simp [hrest]
  have hreads := readLexeme_reads hrest (readLexeme_eq_ok_iff.mpr ⟨b, hb, hread⟩)
  have hrest' : lx'.cursor.rest = c :: (rest ++ tail) := by rw [h.rest, hrest, List.cons_append]
  -- but for strings, both read the same lexeme
  have hsame (lx₁' : Lexer) (hread' : readFrom inner b lx' = .ok l lx₁')
      (hl : l.Similar l) :
      ∃ l' lx₁', readFrom inner b lx' = .ok l' lx₁' ∧ l.Similar l' ∧ Extends tail lx₁ lx₁' :=
    ⟨l, lx₁', hread', hl, h.passed hreads.passed
      (readLexeme_reads hrest' (readLexeme_eq_ok_iff.mpr ⟨b, hb', hread'⟩)).passed⟩
  cases b with
  | blanks =>
    have hread' :=
      scan_same hread (h.text_scanWhile htail (p := Cursor.isSpacing) (by decide) false)
    cases hread
    exact hsame _ hread' (.same (by simp [Lexeme.kind]) (by simp [Lexeme.kind]))
  | lineFeed | linePair | lineReturn =>
    cases hread
    exact hsame _ rfl (.newLine (by decide) (by decide))
  | lineComment =>
    have hread' := scan_same hread
      (h.text_scanWhile htail (p := fun c ↦ c != '\n' && c != '\r') (by decide) false)
    cases hread
    exact hsame _ hread' (.same (by simp [Lexeme.kind]) (by simp [Lexeme.kind]))
  | blockComment =>
    obtain ⟨rfl, hstar⟩ := fits_of_beginning? hb
    obtain ⟨behind, rfl⟩ := List.head?_eq_some_iff.mp hstar
    obtain ⟨⟨lx₁', hread'⟩, hkind⟩ := readBlockComment_extends h hrest hread
    exact hsame _ hread' (.same (by simp [hkind]) (by simp [hkind]))
  | quoted => exact readString_extends hinner htail h hbare hne hread
  | plain =>
    obtain ⟨⟨lx₁', hread'⟩, hkind⟩ := readPlainString_extends h hne hread
    exact hsame _ hread' (.same (by simp [hkind]) (by simp [hkind]))
  | number =>
    have htext : (Cursor.scanNumber .plain lx'.cursor).1.text =
        (Cursor.scanNumber .plain lx.cursor).1.text :=
      congrArg String.ofList (h.rest ▸ htail.numberRun_append)
    have hread' := scan_same
      (f := fun text ↦ .number text ((Number.ofText? text).getD (.zero false))) hread htext
    cases hread
    exact hsame _ hread' (.same (by simp [Lexeme.kind]) (by simp [Lexeme.kind]))
  | name =>
    have hread' := scan_same hread (h.text_scanWhile htail (p := Text.isNameChar) (by decide) true)
    cases hread
    exact hsame _ hread' (.same (kind_ofWord_ne _).1 (kind_ofWord_ne _).2)
  | symbol lexeme =>
    obtain ⟨text, -, rfl, -⟩ := fits_of_beginning? hb
    cases hread
    exact hsame _ rfl (.same (by simp [Lexeme.kind]) (by simp [Lexeme.kind]))

/-- **One lexeme.** What is read first is similar, whatever may follow. -/
theorem readLexeme_extends (hinner : CutsAlike inner) (htail : IsTail tail) {l : Lexeme} {c : Char}
    {rest : List Char} (h : Extends tail lx lx') (hbare : lx.dialect.IsBare)
    (hrest : lx.cursor.rest = c :: rest) (hread : readLexeme inner c rest lx = .ok l lx₁) :
    ∃ l' lx₁', readLexeme inner c (rest ++ tail) lx' = .ok l' lx₁' ∧ l.Similar l' ∧
      Crosses tail l lx₁ lx₁' := by
  obtain ⟨b, hb, hread⟩ := readLexeme_eq_ok_iff.mp hread
  by_cases hlast : c = '\r' ∧ rest = [] ∧ tail ≠ []
  · -- the line feed that begins the additional characters belongs to the line break
    obtain ⟨rfl, rfl, hne⟩ := hlast
    obtain ⟨d, tail, rfl⟩ := List.exists_cons_of_ne_nil hne
    obtain rfl := htail d rfl
    obtain rfl : Beginning.lineReturn = b := Option.some.inj hb
    cases hread
    have hnil : (lx.cursor.advance 1).rest = [] := by rw [Cursor.rest_advance, hrest]; rfl
    refine ⟨_, { lx' with cursor := lx'.cursor.advance 2 }, rfl,
      .newLine (a := "\r") (by decide) (by decide), tail, ⟨h.dialect, h.levels, ?_⟩,
      .inr ⟨rfl, hnil, rfl⟩⟩
    dsimp only
    rw [hnil, Cursor.rest_advance, h.rest, hrest]
    rfl
  · have hb' : beginning? c (rest ++ tail) = some b := by
      rw [beginning?_append htail fun hc hnil ↦ by_contra fun hne ↦ hlast ⟨hc, hnil, hne⟩, hb]
    obtain ⟨l', lx₁', hread', hl, h₁⟩ := readFrom_extends hinner htail h hbare hrest hb hb' hread
    exact ⟨l', lx₁', readLexeme_eq_ok_iff.mpr ⟨b, hb', hread'⟩, hl, tail, h₁, .inl rfl⟩

/-! ## Tokens -/

theorem readTokenWith_extends (hinner : CutsAlike inner) (htail : IsTail tail) {t : Token}
    (h : Extends tail lx lx') (hbare : lx.dialect.IsBare) (hend : t.isEnd = false)
    (hread : readTokenWith inner lx = .ok t lx₁) :
    ∃ t' lx₁', readTokenWith inner lx' = .ok t' lx₁' ∧ t.Similar t' ∧
      Crosses tail t.lexeme lx₁ lx₁' := by
  obtain ⟨c, rest, l, hrest, hl, rfl⟩ := exists_readLexeme hread hend
  obtain ⟨l', lx₁', hl', hsimilar, hcrosses⟩ := readLexeme_extends hinner htail h hbare hrest hl
  have hrest' : lx'.cursor.rest = c :: (rest ++ tail) := by rw [h.rest, hrest, List.cons_append]
  exact ⟨_, lx₁', readTokenWith_of_readLexeme hrest' hl', .mk hsimilar, hcrosses⟩

/-- Where the cut of a text that goes on has come when the first text ends. -/
structure Seam (tail : List Char) (tokens : List Token) (lx lx' : Lexer) : Prop where
  /-- All additional characters are left, or the last token is a line break that has taken the first
  of them. -/
  exists_extends : ∃ tail', Extends tail' lx lx' ∧
    (tail' = tail ∨ tail = '\n' :: tail' ∧ ∃ t ∈ tokens.getLast?, Window.isNewLine t = true)

/-- **The tokens of a text that goes on.** They are similar as far as the first text goes. -/
theorem Cuts.extends (hinner : CutsAlike inner) (htail : IsTail tail) {tokens : List Token}
    (hcuts : Cuts inner lx tokens lx₁) (h : Extends tail lx lx') (hlx : lx.IsBetween) :
    ∃ tokens' lx₁', Cuts inner lx' tokens' lx₁' ∧ List.Forall₂ Token.Similar tokens tokens' ∧
      Seam tail tokens lx₁ lx₁' := by
  induction hcuts generalizing lx' with
  | nil => exact ⟨[], lx', .nil, .nil, tail, h, .inl rfl⟩
  | @blank lx lx₂ lx₁ t tokens hread ht hcuts ih =>
    have hend := isEnd_of_kind ht (by decide)
    obtain ⟨t', lx₂', hread', hsimilar, tail', h₂, hcross⟩ :=
      readTokenWith_extends hinner htail h hlx.bare hend hread
    have ht' : t'.kind = .whitespace := hsimilar.kind_eq.trans ht
    have htail' : tail' = tail := by
      rcases hcross with rfl | ⟨hbreak, -⟩
      · rfl
      · exact absurd (hbreak.symm.trans ht) (by decide)
    obtain ⟨tokens', lx₁', hcuts', hall, hseam⟩ :=
      ih (htail' ▸ h₂) ((reads_of_readTokenWith hread hend).isBetween hlx)
    exact ⟨tokens', lx₁', .blank hread' ht' hcuts', hall, hseam⟩
  | @token lx lx₂ lx₁ t tokens hread ht hend hcuts ih =>
    obtain ⟨t', lx₂', hread', hsimilar, tail', h₂, hcross⟩ :=
      readTokenWith_extends hinner htail h hlx.bare hend hread
    have ht' : t'.kind ≠ .whitespace := hsimilar.kind_eq ▸ ht
    have hend' : t'.isEnd = false := hsimilar.isEnd_eq ▸ hend
    have hnumbered : Token.Similar (t.withIndex lx.index) (t'.withIndex lx'.index) := by
      obtain ⟨hl⟩ := hsimilar
      exact .mk hl
    rcases hcross with rfl | ⟨hbreak, hnil, hsplit⟩
    · obtain ⟨tokens', lx₁', hcuts', hall, tail'', h₁, hseam⟩ :=
        ih (show Extends _ lx₂.counting lx₂'.counting from ⟨h₂.dialect, h₂.levels, h₂.rest⟩)
          ((reads_of_readTokenWith hread hend).isBetween hlx).counting
      refine ⟨_, lx₁', .token hread' ht' hend' hcuts', .cons hnumbered hall, tail'', h₁, ?_⟩
      refine hseam.imp id fun ⟨hsplit, u, hu, hbreak⟩ ↦ ⟨hsplit, u, ?_, hbreak⟩
      cases tokens with
      | nil => cases hu
      | cons v tokens => exact hu
    · -- nothing is left of the first text
      obtain ⟨rfl, rfl⟩ := hcuts.eq_nil hnil
      refine ⟨[_], lx₂'.counting, .token hread' ht' hend' .nil, .cons hnumbered .nil, tail',
        ⟨h₂.dialect, h₂.levels, h₂.rest⟩, .inr ⟨hsplit, _, rfl, ?_⟩⟩
      exact beq_iff_eq.mpr hbreak

/-! ## Texts in another place -/

theorem CutsAll.inOrder {tokens : List Token} (h : CutsAll inner lx tokens) : InOrder tokens := by
  rw [InOrder, ← List.pairwise_map, h.map_index_eq]
  exact List.pairwise_lt_range'

/-- The tokens of a text are similar wherever the text stands. -/
theorem CutsAll.extends (hinner : CutsAlike inner) {tokens : List Token}
    (h : CutsAll inner lx tokens) (hlx : lx.IsBetween) (hext : Extends [] lx lx') :
    ∃ tokens', CutsAll inner lx' tokens' ∧ List.Forall₂ Token.Similar tokens tokens' := by
  obtain ⟨body, lx₁, hcuts, hrest, rfl⟩ := h
  obtain ⟨body', lx₁', hcuts', hall, tail, h₁, hseam⟩ := hcuts.extends hinner isTail_nil hext hlx
  obtain rfl : tail = [] := hseam.resolve_right (by simp)
  have hend : Token.Similar lx₁.endToken lx₁'.endToken :=
    .mk (.same (by simp [Lexeme.kind]) (by simp [Lexeme.kind]))
  refine ⟨_, ⟨body', lx₁', hcuts', ?_, rfl⟩, List.rel_append hall (.cons hend .nil)⟩
  rw [h₁.rest, hrest, List.append_nil]

/-- Sections are cut alike, however deep they are nested. -/
theorem cutsAlike_sectionTokens (levels : Nat) : CutsAlike (sectionTokens levels) := by
  induction levels with
  | zero =>
    intro lx lx' tokens _ _ _ h
    cases h
  | succ levels ih =>
    intro lx lx' tokens hlx hlx' hext h
    have hall := (sectionTokens_eq_ok_iff hlx levels).mp h
    obtain ⟨tokens', hall', hsimilar⟩ := hall.extends ih hlx hext
    exact ⟨tokens', (sectionTokens_eq_ok_iff hlx' levels).mpr hall',
      .tokens hall.closed hall'.inOrder hsimilar⟩

/-! ## A text behind another one -/

theorem isBetween_ofText {d : Dialect} (hbare : d.IsBare) (text : String) :
    (ofText d text).IsBetween :=
  ⟨hbare, rfl, rfl⟩

/-- A line feed is the next token. -/
theorem cuts_newLine {rest : List Char} (hrest : lx.cursor.rest = '\n' :: rest) :
    Cuts inner lx [.mk (.newLine "\n") lx.cursor.position (lx.base + lx.cursor.pos) lx.index]
      (Lexer.counting { lx with cursor := lx.cursor.advance 1 }) := by
  refine .token (t := .mk (.newLine "\n") lx.cursor.position (lx.base + lx.cursor.pos) 0) ?_
    (by simp [Token.kind, Token.lexeme, Lexeme.kind]) rfl .nil
  rw [readTokenWith, get_bind_run, hrest]
  rfl

/-- The byte order mark of a text is that of a text that begins with it. -/
theorem contents_append {text more : String} :
    Cursor.contents (text ++ "\n" ++ more) = Cursor.contents text ++ '\n' :: more.toList := by
  have hsplit : (text ++ "\n" ++ more).toList = text.toList ++ '\n' :: more.toList := by simp
  by_cases hmark : text.toList.head? = some '\uFEFF'
  · obtain ⟨cs, hcs⟩ := List.head?_eq_some_iff.mp hmark
    rw [Cursor.contents, Cursor.contents, hsplit, hcs]
    rfl
  · rw [Cursor.contents_eq_toList hmark, ← hsplit]
    refine Cursor.contents_eq_toList ?_
    rw [hsplit]
    cases hcs : text.toList with
    | nil => simp
    | cons c cs => rwa [hcs] at hmark

/-- **The tokens of a text behind another one.** Where the tokens of the first text end there is a
line break, and behind it are the tokens of the second text. -/
theorem exists_tokenize_append {d : Dialect} (hbare : d.IsBare) {text more : String}
    {tokens moreTokens : List Token} (hmark : more.toList.head? ≠ some '\uFEFF')
    (h : (ofText d text).tokenize = .ok tokens)
    (hmore : (ofText d more).tokenize = .ok moreTokens) :
    ∃ joined m rest, (ofText d (text ++ "\n" ++ more)).tokenize = .ok joined ∧ InOrder joined ∧
      m.lexeme.IsLineBreak ∧ Joins (m :: rest) tokens joined ∧
        List.Forall₂ Token.Similar moreTokens rest := by
  have hjoined := isBetween_ofText hbare (text ++ "\n" ++ more)
  have halike : CutsAlike (ofText d text).inner := cutsAlike_sectionTokens _
  have hext : Extends ('\n' :: more.toList) (ofText d text) (ofText d (text ++ "\n" ++ more)) :=
    ⟨rfl, rfl, contents_append⟩
  obtain ⟨body, lx₁, hcuts, hrest, rfl⟩ := (tokenize_eq_ok_iff (isBetween_ofText hbare text)).mp h
  have hall := (tokenize_eq_ok_iff (isBetween_ofText hbare more)).mp hmore
  obtain ⟨body', lx₁', hcuts', hsimilar, tail, h₁, hseam⟩ :=
    hcuts.extends halike (isTail_cons _) hext (isBetween_ofText hbare text)
  have hend := hcuts.isEnd_eq_false
  -- behind the line break the lexer stands as in front of the second text
  have hbehind {lx₂ : Lexer} {front : List Token} (hcuts₂ : Cuts (ofText d text).inner
      (ofText d (text ++ "\n" ++ more)) front lx₂) (hrest₂ : lx₂.cursor.rest = more.toList) :
      ∃ rest, (ofText d (text ++ "\n" ++ more)).tokenize = .ok (front ++ rest) ∧
        InOrder (front ++ rest) ∧ List.Forall₂ Token.Similar moreTokens rest := by
    have hsame : Extends [] (ofText d more) lx₂ := by
      refine ⟨hcuts₂.dialect_eq, hcuts₂.levels_eq, ?_⟩
      rw [hrest₂, List.append_nil]
      exact (Cursor.contents_eq_toList hmark).symm
    obtain ⟨rest, ⟨body₂, lx₃, hcuts₃, hnil, rfl⟩, hrestSimilar⟩ :=
      hall.extends halike (isBetween_ofText hbare more) hsame
    have hjoinedAll : CutsAll (ofText d text).inner (ofText d (text ++ "\n" ++ more))
        (front ++ (body₂ ++ [lx₃.endToken])) :=
      ⟨front ++ body₂, lx₃, hcuts₂.append hcuts₃, hnil, (List.append_assoc _ _ _).symm⟩
    exact ⟨_, (tokenize_eq_ok_iff hjoined).mpr hjoinedAll, hjoinedAll.inOrder, hrestSimilar⟩
  rcases hseam with rfl | ⟨hsplit, t, ht, hbreak⟩
  · have hrest₁ : lx₁'.cursor.rest = '\n' :: more.toList := by rw [h₁.rest, hrest, List.nil_append]
    have hfront := hcuts'.append (cuts_newLine hrest₁)
    obtain ⟨rest, htokens, horder, hrestSimilar⟩ := hbehind hfront (by
      rw [counting]
      dsimp only
      rw [Cursor.rest_advance, hrest₁]
      rfl)
    rw [List.append_assoc] at htokens horder
    exact ⟨_, _, rest, htokens, horder, ⟨"\n", by decide, rfl⟩,
      Joins.append hsimilar hend (.stop rfl), hrestSimilar⟩
  · -- the line feed was taken by a carriage return
    obtain rfl : tail = more.toList := (List.cons.inj hsplit).2.symm
    obtain ⟨rest, htokens, horder, hrestSimilar⟩ :=
      hbehind hcuts' (by rw [h₁.rest, hrest, List.nil_append])
    obtain ⟨front, rfl⟩ := List.getLast?_eq_some_iff.mp ht
    have hlast := List.forall₂_reverse_iff.mpr hsimilar
    rw [List.reverse_append] at hlast
    obtain ⟨t', back, ht', hback, hsplit'⟩ := List.forall₂_cons_left_iff.mp hlast
    obtain rfl : body' = back.reverse ++ [t'] := by
      rw [← List.reverse_cons, ← hsplit', List.reverse_reverse]
    have hfront : List.Forall₂ Token.Similar front back.reverse := by
      rw [← List.forall₂_reverse_iff, List.reverse_reverse]
      exact hback
    obtain ⟨hn, hm⟩ := ht'.lexeme.isLineBreak (beq_iff_eq.mp hbreak)
    rw [List.append_assoc] at htokens horder ⊢
    exact ⟨_, t', rest, htokens, horder, hm, Joins.append hfront
      (fun u hu ↦ hend u (List.mem_append_left _ hu)) (.last hn rfl hm rfl), hrestSimilar⟩

end

end Lexer

end ScriptFront
