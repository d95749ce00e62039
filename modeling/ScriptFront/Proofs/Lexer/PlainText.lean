import ScriptFront.Proofs.Lexer.Delivery
import ScriptFront.Proofs.Number.Numerals
import ScriptFront.Proofs.Tree.Plain

/-!
# The text of a plain expression consists of its words

For each shape of word it is shown that a lexer reads it back, given what may follow: behind a name
anything but a character of names, behind a number no further digits, behind a sign no character
that it forms a longer mark with, behind an operator a blank. The text of a plain expression is made
so that these conditions hold, whatever the expression is.
-/

namespace ScriptFront.Lexer

/-! ## Characters -/

/-- A character that begins neither a name nor a number, a string, a blank or a line break. -/
def isMark (c : Char) : Bool :=
  !Cursor.isSpacing c && c != '\n' && c != '\r' && c != '"' && c != '\'' && !c.isDigit &&
    !Text.isNameStart c

theorem isSpacing_eq_false_of_isMark {c : Char} (h : isMark c = true) :
    Cursor.isSpacing c = false := by
  simp only [isMark, Bool.and_eq_true, Bool.not_eq_true'] at h
  exact h.1.1.1.1.1.1

theorem ne_of_isNameStart {c d : Char} (h : Text.isNameStart c = true)
    (hd : Text.isNameStart d = false) : c ≠ d := by
  rintro rfl
  rw [h] at hd
  exact absurd hd (by simp)

theorem not_isDigit_of_isNameStart {c : Char} (h : Text.isNameStart c = true) :
    c.isDigit = false := by
  rw [← Bool.not_eq_true]
  intro hdigit
  have hle : 48 ≤ c.toNat ∧ c.toNat ≤ 57 := by
    simpa [Char.isDigit, UInt32.le_iff_toNat_le] using hdigit
  have hnone : ∀ n < 10, Text.isNameStart (.ofNat (48 + n)) = false := by decide
  have hc : Char.ofNat (48 + (c.toNat - 48)) = c := by
    rw [Nat.add_sub_cancel' hle.1, Char.ofNat_toNat]
  have := hnone (c.toNat - 48) (by omega)
  simp [hc, h] at this

theorem not_isSpacing_of_isNameStart {c : Char} (h : Text.isNameStart c = true) :
    Cursor.isSpacing c = false := by
  simp [Cursor.isSpacing, ne_of_isNameStart h (show Text.isNameStart ' ' = false by decide),
    ne_of_isNameStart h (show Text.isNameStart '\t' = false by decide)]

/-! ## Words and marks -/

/-- What may stand behind a name or a number. -/
structure EndsWord (cs : List Char) : Prop where
  /-- No character of names. -/
  name : ∀ c ∈ cs.head?, Text.isNameChar c = false
  /-- No point with a digit behind it. -/
  point : ∀ d rest, cs = '.' :: d :: rest → d.isDigit = false

theorem endsWord_nil : EndsWord [] := ⟨by simp, by simp⟩

theorem endsWord_cons {c : Char} {rest : List Char} (h : Text.isNameChar c = false)
    (hpoint : c ≠ '.') : EndsWord (c :: rest) := by
  refine ⟨by simpa using h, fun d more hsplit ↦ ?_⟩
  exact absurd (List.cons.inj hsplit).1 hpoint

/-- A digit can go on with a name. -/
theorem isNameChar_of_isDigit {c : Char} (h : c.isDigit = true) : Text.isNameChar c = true := by
  have hle : 48 ≤ c.toNat ∧ c.toNat ≤ 57 := by
    simpa [Char.isDigit, UInt32.le_iff_toNat_le] using h
  have hsmall : c.val < 128 := by
    rw [UInt32.lt_iff_toNat_lt]
    exact Nat.lt_of_le_of_lt hle.2 (by decide)
  simp [Text.isNameChar, Text.isWordChar, Text.isNumeral, hsmall, h]

theorem EndsWord.not_isDigit {cs : List Char} (h : EndsWord cs) :
    ∀ c ∈ cs.head?, c.isDigit = false := by
  intro c hc
  rw [← Bool.not_eq_true]
  intro hdigit
  have := h.name c hc
  rw [isNameChar_of_isDigit hdigit] at this
  exact absurd this (by simp)

theorem readsFirst_word {word : String} {c : Char} {cs rest : List Char}
    (hword : word.toList = c :: cs) (hc : Text.isNameStart c = true)
    (hcs : ∀ d ∈ cs, Text.isNameChar d = true) (hrest : EndsWord rest) :
    ReadsFirst (.ofWord word) (word.toList ++ rest) := by
  intro inner lx c' cs' h hlx hsplit
  rw [hword, List.cons_append, List.cons.injEq] at hsplit
  obtain ⟨rfl, rfl⟩ := hsplit
  have hne : ∀ d, Text.isNameStart d = false → c ≠ d := fun d hd ↦ ne_of_isNameStart hc hd
  have hrun : (Cursor.scanName .plain lx.cursor).1.text = word := by
    have hall : ∀ d ∈ c :: cs, Text.isNameChar d = true :=
      List.forall_mem_cons.mpr ⟨Text.isNameChar_of_isNameStart hc, hcs⟩
    rw [Cursor.scanName, text_scanWhile, hlx, hword, List.takeWhile_append_of_pos hall,
      takeWhile_eq_nil hrest.name, List.append_nil, ← hword, String.ofList_toList]
  refine ⟨{ lx with cursor := (Cursor.scanName .plain lx.cursor).2 }, ?_⟩
  simp only [readLexeme, ite_run]
  rw [if_neg (by simp [not_isSpacing_of_isNameStart hc]), if_neg (hne _ (by decide)),
    if_neg (hne _ (by decide)), if_neg (fun hslash ↦ hne _ (by decide) hslash.1),
    if_neg (fun hslash ↦ hne _ (by decide) hslash.1), if_neg (hne _ (by decide)),
    if_neg (hne _ (by decide)), if_neg (by simp [not_isDigit_of_isNameStart hc]), if_pos hc,
    scan_bind_run, hrun]
  rfl

theorem readsFirst_symbol {text : String} {c : Char} {cs rest : List Char}
    (hsplit : text.toList ++ rest = c :: cs) (hmark : isMark c = true)
    (hcomment : c = '/' → cs.head? ≠ some '/' ∧ cs.head? ≠ some '*')
    (hlongest : Lexeme.longestSymbol? (c :: cs.take 1) = some (.symbol text)) :
    ReadsFirst (.symbol text) (text.toList ++ rest) := by
  intro inner lx c' cs' h hlx hsplit'
  obtain ⟨rfl, rfl⟩ := List.cons.inj (hsplit.symm.trans hsplit')
  simp only [isMark, Bool.and_eq_true, Bool.not_eq_true', bne_iff_ne, ne_eq] at hmark
  obtain ⟨⟨⟨⟨⟨⟨hspacing, hfeed⟩, hreturn⟩, hquote⟩, hsingle⟩, hdigit⟩, hname⟩ := hmark
  refine ⟨{ lx with cursor := lx.cursor.advance text.length }, ?_⟩
  simp only [readLexeme, ite_run]
  rw [if_neg (by simp [hspacing]), if_neg hfeed, if_neg hreturn,
    if_neg (fun hslash ↦ (hcomment hslash.1).1 hslash.2),
    if_neg (fun hslash ↦ (hcomment hslash.1).2 hslash.2), if_neg hquote, if_neg hsingle,
    if_neg (by simp [hdigit]), if_neg (by simp [hname])]
  simp only [hlongest, pass_bind_run]
  rfl

/-- A numeral is read to its end. -/
theorem readsFirst_numeral {text : String} (htext : IsNumeral text.toList) {rest : List Char}
    (hrest : EndsWord rest) :
    ReadsFirst (.number text ((Number.ofText? text).getD (.zero false))) (text.toList ++ rest) := by
  intro inner lx c cs h hlx hsplit
  obtain ⟨d, ds, hfirst, hdigit⟩ := htext.exists_digit
  rw [hfirst, List.cons_append, List.cons.injEq] at hsplit
  obtain ⟨rfl, rfl⟩ := hsplit
  have hne : ∀ e : Char, e.isDigit = false → d ≠ e := by
    rintro e he rfl
    rw [hdigit] at he
    exact absurd he (by simp)
  have hspacing : Cursor.isSpacing d = false := by
    simp [Cursor.isSpacing, hne ' ' (by decide), hne '\t' (by decide)]
  have hrun : (Cursor.scanNumber .plain lx.cursor).1.text = text := by
    have hread := htext.numberRun_eq hrest.not_isDigit hrest.point
    rw [← hlx] at hread
    have hscan : (Cursor.scanNumber .plain lx.cursor).1.text =
        String.ofList (Cursor.numberRun lx.cursor.rest) := rfl
    rw [hscan, hread, String.ofList_toList]
  refine ⟨{ lx with cursor := (Cursor.scanNumber .plain lx.cursor).2 }, ?_⟩
  simp only [readLexeme, ite_run]
  rw [if_neg (by simp [hspacing]), if_neg (hne _ (by decide)), if_neg (hne _ (by decide)),
    if_neg (fun hslash ↦ hne _ (by decide) hslash.1),
    if_neg (fun hslash ↦ hne _ (by decide) hslash.1), if_neg (hne _ (by decide)),
    if_neg (hne _ (by decide)), if_pos hdigit, scan_bind_run, hrun]
  rfl

/-- A written number is read back. -/
theorem readsFirst_number {n : Number} (hn : n.IsWritten) {rest : List Char}
    (hrest : EndsWord rest) : ReadsFirst (.number n.text n) (n.text.toList ++ rest) := by
  obtain ⟨mantissa, exponent, hfinite⟩ := hn.finite
  have hnumeral : IsNumeral n.text.toList := hfinite ▸ Number.isNumeral_text mantissa exponent
  have hread := readsFirst_numeral hnumeral hrest
  rwa [hn.reads] at hread

/-- A line break is read by itself. -/
theorem readsFirst_newLine (rest : List Char) :
    ReadsFirst (.newLine "\n") ((Lexeme.newLine "\n").text.toList ++ rest) := by
  intro inner lx c cs h hlx hsplit
  obtain ⟨rfl, rfl⟩ : '\n' = c ∧ rest = cs := List.cons.inj hsplit
  exact ⟨{ lx with cursor := lx.cursor.advance 1 }, rfl⟩

/-! ## Strings -/

/-- No section begins at the first of these characters, nor at any other. -/
theorem no_section_cons {c : Char} {cs : List Char} (h : ¬ ['#', '\x7b'] <:+: c :: cs) :
    ¬ (c = '#' ∧ cs.head? = some '\x7b') ∧ ¬ ['#', '\x7b'] <:+: cs := by
  refine ⟨?_, fun hcs ↦ h (hcs.trans (List.suffix_cons c cs).isInfix)⟩
  rintro ⟨rfl, hhead⟩
  obtain ⟨rest, rfl⟩ := List.head?_eq_some_iff.mp hhead
  exact h ⟨[], rest, rfl⟩

/-- A character is written as itself, or behind a backslash by the one that stands for it. -/
theorem escapeChar_cases (c : Char) :
    (∃ d, Text.escapeChar c = ['\\', d] ∧ Text.unescape d = c) ∨
      (Text.escapeChar c = [c] ∧ c ≠ '\\' ∧ c ≠ '"') := by
  unfold Text.escapeChar
  split
  · exact .inl ⟨'"', rfl, by decide⟩
  · exact .inl ⟨'\\', rfl, by decide⟩
  · exact .inl ⟨'n', rfl, by decide⟩
  · exact .inl ⟨'r', rfl, by decide⟩
  · exact .inl ⟨'t', rfl, by decide⟩
  · next hquote hslash _ _ _ => exact .inr ⟨rfl, hslash, hquote⟩

/-- The first written character is a brace only if the first character is one. -/
theorem head?_escaped {cs rest : List Char}
    (h : (cs.flatMap Text.escapeChar ++ '"' :: rest).head? = some '\x7b') :
    cs.head? = some '\x7b' := by
  cases cs with
  | nil => simp at h
  | cons c cs =>
    rw [List.flatMap_cons, List.append_assoc] at h
    rcases escapeChar_cases c with ⟨d, hd, -⟩ | ⟨hc, -, -⟩
    · simp [hd] at h
    · simpa [hc] using h

/-- The content of a quoted text without sections is read back, up to and with the closing quote. -/
theorem contents_escaped (inner : Lexer → Except ScriptError (List Token)) (text : List Char)
    {cs rest : List Char} {lx : Lexer} (h : lx.IsPlain) (hcs : ¬ ['#', '\x7b'] <:+: cs)
    (hrest : lx.cursor.rest = cs.flatMap Text.escapeChar ++ '"' :: rest) :
    ∃ lx', Contents inner text [] lx (cs.reverse ++ text, []) lx' ∧ lx'.cursor.rest = rest := by
  induction cs generalizing lx text with
  | nil =>
    have hpassed := passed_append (show _ = ['"'] ++ rest from hrest)
    exact ⟨_, .close hpassed, hpassed.behind hrest⟩
  | cons c cs ih =>
    obtain ⟨hfirst, hcs⟩ := no_section_cons hcs
    rw [List.flatMap_cons, List.append_assoc] at hrest
    have hpassed := passed_append hrest
    have hplain : IsPlain { lx with cursor := lx.cursor.advance (Text.escapeChar c).length } :=
      ⟨h.marker, h.rules, h.extensions⟩
    rw [List.reverse_cons, List.append_assoc, List.singleton_append]
    obtain ⟨lx', hcontents, hbehind⟩ := ih (c :: text) hplain hcs (hpassed.behind hrest)
    refine ⟨lx', ?_, hbehind⟩
    rcases escapeChar_cases c with ⟨d, hd, rfl⟩ | ⟨hc, hslash, hquote⟩
    · exact .escape (hd ▸ hpassed) hcontents
    · refine .char (hc ▸ hpassed) hslash hquote (fun hopens ↦ ?_) hcontents
      rw [hpassed.behind hrest] at hopens
      exact hfirst ⟨hopens.1.trans h.marker, head?_escaped hopens.2⟩

theorem toList_quote (s : String) :
    (Text.quote s).toList = '"' :: (s.toList.flatMap Text.escapeChar ++ ['"']) := by
  simp [Text.quote, Text.escape]

/-- A quoted text without sections is read back. -/
theorem readsFirst_quoted {s : String} (hs : ¬ ['#', '\x7b'] <:+: s.toList) (rest : List Char) :
    ReadsFirst (.str (Text.quote s) s) ((Text.quote s).toList ++ rest) := by
  intro inner lx c cs h hlx hsplit
  rw [toList_quote, List.cons_append, List.cons.injEq, List.append_assoc] at hsplit
  obtain ⟨rfl, rfl⟩ := hsplit
  have hlx' := hlx
  rw [toList_quote, List.cons_append, List.append_assoc, List.singleton_append] at hlx
  have hpassed : IsPlain { lx with cursor := lx.cursor.advance 1 } :=
    ⟨h.marker, h.rules, h.extensions⟩
  obtain ⟨lx', hcontents, hrest⟩ :=
    contents_escaped inner [] hpassed hs (by rw [Cursor.rest_advance, hlx]; rfl)
  have hread : readString inner lx = .ok (.str (lx'.cursor.since lx.cursor.pos) s) lx' :=
    readString_eq_ok_iff.mpr ⟨_, hcontents, by simp [literalOf]⟩
  have hne : lx.cursor.rest ≠ [] := by simp [hlx]
  -- what was read is the text up to where the lexer stands now
  have hraw : lx'.cursor.since lx.cursor.pos = Text.quote s := by
    have hsame := (readString_reads hne hread).passed.rest_eq
    rw [hrest, hlx'] at hsame
    exact (String.toList_inj.mp (List.append_cancel_right hsame)).symm
  refine ⟨lx', ?_⟩
  simp only [readLexeme, ite_run]
  rw [if_neg (by decide), if_neg (by decide), if_neg (by decide), if_neg (by simp),
    if_neg (by simp), if_pos trivial, hread, hraw]

/-! ## Texts that consist of words -/

namespace Lexes

variable {rest : List Char} {ls : List Lexeme}

/-- A lexeme with a known spelling in front of what may follow it. -/
theorem spelled {l : Lexeme} {cs : List Char} (hcs : l.text.toList = cs)
    (hfirst : ReadsFirst l (cs ++ rest)) (hne : cs ≠ []) (htrivia : l.isTrivia = false)
    (hend : l.kind ≠ .endOfInput) (h : Lexes rest ls) : Lexes (cs ++ rest) (l :: ls) := by
  subst hcs
  exact .cons hfirst hne htrivia hend h

theorem word {text : String} {c : Char} {cs : List Char} (hsplit : text.toList = c :: cs)
    (hc : Text.isNameStart c = true) (hcs : ∀ d ∈ cs, Text.isNameChar d = true)
    (hrest : EndsWord rest) (h : Lexes rest ls) :
    Lexes (text.toList ++ rest) (.ofWord text :: ls) := by
  refine .spelled (by rw [text_ofWord]) (readsFirst_word hsplit hc hcs hrest) (by simp [hsplit]) ?_
    (kind_ofWord text) h
  unfold Lexeme.ofWord
  split
  · rfl
  · rfl
  · rfl
  · unfold Lexeme.keyword?
    split <;> rfl

theorem ofWord_eq_ident {name : String} (h : IsName name) : Lexeme.ofWord name = .ident name := by
  have hliteral := h.notLiteral
  simp only [literalWords, List.mem_cons, List.not_mem_nil, or_false, not_or] at hliteral
  unfold Lexeme.ofWord
  split
  · exact absurd rfl hliteral.1
  · exact absurd rfl hliteral.2.1
  · exact absurd rfl hliteral.2.2
  · rw [Lexeme.keyword?, if_neg (by simpa using h.notKeyword)]
    rfl

theorem name {name : String} (hname : IsName name) (hrest : EndsWord rest) (h : Lexes rest ls) :
    Lexes (name.toList ++ rest) (.ident name :: ls) := by
  obtain ⟨c, cs, hsplit, hc, hcs⟩ := hname.isWord
  rw [← ofWord_eq_ident hname]
  exact h.word hsplit hc hcs hrest

/-- A symbol in front of what may follow it. -/
theorem symbol {text : String} {c : Char} {cs : List Char} (hsplit : text.toList ++ rest = c :: cs)
    (hne : text.toList ≠ []) (hmark : isMark c = true)
    (hcomment : c = '/' → cs.head? ≠ some '/' ∧ cs.head? ≠ some '*')
    (hlongest : Lexeme.longestSymbol? (c :: cs.take 1) = some (.symbol text)) (h : Lexes rest ls) :
    Lexes (text.toList ++ rest) (.symbol text :: ls) :=
  spelled rfl (readsFirst_symbol hsplit hmark hcomment hlongest) hne rfl (by simp [Lexeme.kind]) h

/-- Marks that no longer symbol begins with. -/
def loneMarks : List Char := ['(', ')', '[', ']', ',', '.']

theorem longestSymbol?_loneMark {c : Char} (hc : c ∈ loneMarks) (rest : List Char) :
    Lexeme.longestSymbol? (c :: rest.take 1) = some (.symbol (String.singleton c)) := by
  simp only [loneMarks, List.mem_cons, List.not_mem_nil, or_false] at hc
  rcases hc with rfl | rfl | rfl | rfl | rfl | rfl <;> rfl

theorem mark {c : Char} (hc : c ∈ loneMarks) (h : Lexes rest ls) :
    Lexes (c :: rest) (.symbol (String.singleton c) :: ls) := by
  have hmark : loneMarks.all isMark = true := by decide
  have hslash : c ≠ '/' := by
    rintro rfl
    exact absurd hc (by decide)
  have hsplit : (String.singleton c).toList ++ rest = c :: rest := by simp
  rw [← hsplit]
  exact h.symbol hsplit (by simp) (List.all_eq_true.mp hmark c hc) (fun h ↦ absurd h hslash)
    (longestSymbol?_loneMark hc rest)

theorem longestSymbol?_not (hrest : rest.head? ≠ some '=') :
    Lexeme.longestSymbol? ('!' :: rest.take 1) = some (.symbol "!") := by
  cases rest with
  | nil => rfl
  | cons d rest =>
    have hd : ('=' == d) = false := by
      rw [beq_eq_false_iff_ne]
      rintro rfl
      exact hrest rfl
    simp [Lexeme.longestSymbol?, Lexeme.symbols, List.find?, List.isPrefixOf, hd]

theorem not (hrest : rest.head? ≠ some '=') (h : Lexes rest ls) :
    Lexes ('!' :: rest) (.symbol "!" :: ls) :=
  h.symbol (show "!".toList ++ rest = '!' :: rest from rfl) (by simp) (by decide)
    (fun hslash ↦ absurd hslash (by decide)) (longestSymbol?_not hrest)

theorem longestSymbol?_minus (heq : rest.head? ≠ some '=') (hminus : rest.head? ≠ some '-') :
    Lexeme.longestSymbol? ('-' :: rest.take 1) = some (.symbol "-") := by
  cases rest with
  | nil => rfl
  | cons d rest =>
    have hd : ('=' == d) = false ∧ ('-' == d) = false := by
      rw [beq_eq_false_iff_ne, beq_eq_false_iff_ne]
      exact ⟨by rintro rfl; exact heq rfl, by rintro rfl; exact hminus rfl⟩
    simp [Lexeme.longestSymbol?, Lexeme.symbols, List.find?, List.isPrefixOf, hd.1, hd.2]

theorem minus (heq : rest.head? ≠ some '=') (hminus : rest.head? ≠ some '-') (h : Lexes rest ls) :
    Lexes ('-' :: rest) (.symbol "-" :: ls) :=
  h.symbol (show "-".toList ++ rest = '-' :: rest from rfl) (by simp) (by decide)
    (fun hslash ↦ absurd hslash (by decide)) (longestSymbol?_minus heq hminus)

/-- Two equal signs are one mark, whatever follows. -/
theorem change {mark : String} (hmark : mark = "++" ∨ mark = "--") (h : Lexes rest ls) :
    Lexes (mark.toList ++ rest) (.symbol mark :: ls) := by
  rcases hmark with rfl | rfl
  · exact h.symbol (show "++".toList ++ rest = '+' :: '+' :: rest from rfl) (by simp) (by decide)
      (fun hslash ↦ absurd hslash (by decide)) rfl
  · exact h.symbol (show "--".toList ++ rest = '-' :: '-' :: rest from rfl) (by simp) (by decide)
      (fun hslash ↦ absurd hslash (by decide)) rfl

/-- A mark that is the longest one at its place if a blank follows. -/
def IsBlankedMark (text : String) : Prop :=
  ∃ c cs, text.toList = c :: cs ∧ isMark c = true ∧
    (c = '/' → cs.head? ≠ some '/' ∧ cs.head? ≠ some '*') ∧
    Lexeme.longestSymbol? (c :: (cs ++ [' ']).take 1) = some (.symbol text)

theorem isBlankedMark_operator (op : Operator) : IsBlankedMark op.symbol := by
  rcases op with op | op | op <;> cases op <;> exact ⟨_, _, rfl, by decide, by decide, rfl⟩

theorem isBlankedMark_assignOp (op : AssignOp) : IsBlankedMark op.symbol := by
  cases op <;> exact ⟨_, _, rfl, by decide, by decide, rfl⟩

theorem blankedMark {text : String} (hmark : IsBlankedMark text) (h : Lexes (' ' :: rest) ls) :
    Lexes (text.toList ++ ' ' :: rest) (.symbol text :: ls) := by
  obtain ⟨c, cs, hspelling, hc, hslash, hlongest⟩ := hmark
  have htake : (cs ++ ' ' :: rest).take 1 = (cs ++ [' ']).take 1 := by cases cs <;> rfl
  have hsplit : text.toList ++ ' ' :: rest = c :: (cs ++ ' ' :: rest) := by
    rw [hspelling, List.cons_append]
  refine h.symbol hsplit (by simp [hspelling]) hc (fun hcomment ↦ ?_) (htake ▸ hlongest)
  cases cs with
  | nil => simp
  | cons d cs => exact hslash hcomment

theorem number {n : Number} (hn : n.IsWritten) (hrest : EndsWord rest) (h : Lexes rest ls) :
    Lexes (n.text.toList ++ rest) (.number n.text n :: ls) := by
  obtain ⟨mantissa, exponent, hfinite⟩ := hn.finite
  obtain ⟨d, ds, hfirst, -⟩ :=
    (hfinite ▸ Number.isNumeral_text mantissa exponent : IsNumeral n.text.toList).exists_digit
  exact spelled rfl (readsFirst_number hn hrest) (by simp [hfirst]) rfl (by simp [Lexeme.kind]) h

theorem newLine (h : Lexes rest ls) : Lexes ('\n' :: rest) (.newLine "\n" :: ls) :=
  spelled rfl (readsFirst_newLine rest) (by simp [Lexeme.text]) rfl (by simp [Lexeme.kind]) h

theorem quoted {s : String} (hs : ¬ ['#', '\x7b'] <:+: s.toList) (h : Lexes rest ls) :
    Lexes ((Text.quote s).toList ++ rest) (.str (Text.quote s) s :: ls) :=
  spelled rfl (readsFirst_quoted hs rest) (by simp [toList_quote]) rfl (by simp [Lexeme.kind]) h

end Lexes

/-! ## Expressions -/

/-- How the text of some words begins: with a minus sign only if no minus sign may stand before the
first word. -/
structure Starts (c : Char) (words : List Lexeme) : Prop where
  /-- It is no blank. -/
  solid : Cursor.isSpacing c = false
  /-- It is no equals sign. -/
  notEquals : c ≠ '='
  /-- It is no byte order mark. -/
  notByteOrder : c ≠ '\uFEFF'
  /-- It is a minus sign only before words that show it. -/
  minus : c = '-' → ∃ l ∈ words.head?, l.followsMinus = false

theorem Starts.append {c : Char} {words : List Lexeme} (h : Starts c words) (more : List Lexeme) :
    Starts c (words ++ more) := by
  refine ⟨h.solid, h.notEquals, h.notByteOrder, fun hminus ↦ ?_⟩
  obtain ⟨l, hl, hfollows⟩ := h.minus hminus
  exact ⟨l, by simp [List.head?_append, Option.mem_def.mp hl], hfollows⟩

/-- Characters that may begin the text of any words. -/
def isSafeStart (c : Char) : Bool :=
  !Cursor.isSpacing c && c != '=' && c != '\uFEFF' && c != '-'

theorem starts_of_isSafeStart {c : Char} (h : isSafeStart c = true) (words : List Lexeme) :
    Starts c words := by
  simp only [isSafeStart, Bool.and_eq_true, Bool.not_eq_true', bne_iff_ne, ne_eq] at h
  exact ⟨h.1.1.1, h.1.1.2, h.1.2, fun hminus ↦ absurd hminus h.2⟩

theorem isSafeStart_of_isNameStart {c : Char} (h : Text.isNameStart c = true) :
    isSafeStart c = true := by
  simp [isSafeStart, not_isSpacing_of_isNameStart h,
    ne_of_isNameStart h (show Text.isNameStart '=' = false by decide),
    ne_of_isNameStart h (show Text.isNameStart '\uFEFF' = false by decide +kernel),
    ne_of_isNameStart h (show Text.isNameStart '-' = false by decide)]

theorem isSafeStart_of_isDigit {c : Char} (h : c.isDigit = true) : isSafeStart c = true := by
  have hne : ∀ d : Char, d.isDigit = false → c ≠ d := by
    rintro d hd rfl
    rw [h] at hd
    exact absurd hd (by simp)
  simp [isSafeStart, Cursor.isSpacing, hne ' ' (by decide), hne '\t' (by decide),
    hne '=' (by decide), hne '\uFEFF' (by decide), hne '-' (by decide)]

/-- The text consists of the words, whatever may follow it. -/
structure Spells (text : String) (words : List Lexeme) : Prop where
  /-- It begins as the words allow. -/
  starts : ∃ c cs, text.toList = c :: cs ∧ Starts c words
  /-- It consists of the words. -/
  lexes : ∀ {rest : List Char} {ls : List Lexeme}, EndsWord rest → Lexes rest ls →
    Lexes (text.toList ++ rest) (words ++ ls)

namespace Spells

variable {text left right : String} {words leftWords rightWords : List Lexeme}

/-- A blank may stand before such a text. -/
theorem blank (h : Spells text words) {rest : List Char} {ls : List Lexeme} (hrest : EndsWord rest)
    (hls : Lexes rest ls) : Lexes (' ' :: (text.toList ++ rest)) (words ++ ls) := by
  obtain ⟨c, cs, hsplit, hstarts⟩ := h.starts
  refine .blank ?_ (h.lexes hrest hls)
  simpa [hsplit] using hstarts.solid

theorem name {name : String} (h : IsName name) : Spells name [.ident name] := by
  refine ⟨?_, fun hrest hls ↦ hls.name h hrest⟩
  obtain ⟨c, cs, hsplit, hc, -⟩ := h.isWord
  exact ⟨c, cs, hsplit, starts_of_isSafeStart (isSafeStart_of_isNameStart hc) _⟩

/-- A reserved word that stands for a literal. -/
theorem word {c : Char} {cs : List Char} (hsplit : text.toList = c :: cs)
    (hc : Text.isNameStart c = true) (hcs : ∀ d ∈ cs, Text.isNameChar d = true) :
    Spells text [.ofWord text] :=
  ⟨⟨c, cs, hsplit, starts_of_isSafeStart (isSafeStart_of_isNameStart hc) _⟩,
    fun hrest hls ↦ hls.word hsplit hc hcs hrest⟩

theorem number {n : Number} (h : n.IsWritten) : Spells n.text [.number n.text n] := by
  refine ⟨?_, fun hrest hls ↦ hls.number h hrest⟩
  obtain ⟨mantissa, exponent, rfl⟩ := h.finite
  obtain ⟨d, ds, hfirst, hdigit⟩ := (Number.isNumeral_text mantissa exponent).exists_digit
  exact ⟨d, ds, hfirst, starts_of_isSafeStart (isSafeStart_of_isDigit hdigit) _⟩

/-- A minus sign before a text that does not begin with one. -/
theorem minus (h : Spells text words) (hfirst : ∀ c ∈ text.toList.head?, c ≠ '-') :
    Spells ("-" ++ text) (.symbol "-" :: words) := by
  obtain ⟨c, cs, hsplit, hstarts⟩ := h.starts
  refine ⟨⟨'-', text.toList, by simp, by decide, by decide, by decide, fun _ ↦ ⟨_, rfl, rfl⟩⟩,
    fun hrest hls ↦ ?_⟩
  have hminus := (h.lexes hrest hls).minus (by simpa [hsplit] using hstarts.notEquals)
    (by simpa [hsplit] using hfirst)
  simpa using hminus

theorem literal {value : Value} (h : value.IsPlain) : Spells value.text value.words := by
  cases h with
  | null =>
    exact word (show "null".toList = 'n' :: ['u', 'l', 'l'] from rfl) (by decide)
      (List.all_eq_true.mp (by decide))
  | bool b =>
    cases b with
    | false =>
      exact word (show "false".toList = 'f' :: ['a', 'l', 's', 'e'] from rfl) (by decide)
        (List.all_eq_true.mp (by decide))
    | true =>
      exact word (show "true".toList = 't' :: ['r', 'u', 'e'] from rfl) (by decide)
        (List.all_eq_true.mp (by decide))
  | str hs =>
    exact ⟨⟨'"', _, toList_quote _, starts_of_isSafeStart (by decide) _⟩,
      fun _ hls ↦ hls.quoted hs⟩
  | number hn =>
    obtain ⟨mantissa, exponent, rfl⟩ := hn.finite
    exact number hn
  | negative hn =>
    have hnumber := number hn
    obtain ⟨mantissa, exponent, rfl⟩ := hn.finite
    have htext : Value.text (.number (Number.finite false mantissa exponent).negate) =
        "-" ++ Number.text (.finite false mantissa exponent) := by
      rw [← String.toList_inj, Value.text, Number.negate, Bool.not_false,
        Number.toList_text_negate]
      simp
    rw [htext]
    obtain ⟨d, ds, hfirst, hdigit⟩ := (Number.isNumeral_text mantissa exponent).exists_digit
    refine hnumber.minus fun c hc ↦ ?_
    rw [hfirst] at hc
    obtain rfl := Option.some.inj hc
    rintro rfl
    exact absurd hdigit (by decide)

theorem not (h : Spells text words) : Spells ("!" ++ text) (.symbol "!" :: words) := by
  obtain ⟨c, cs, hsplit, hstarts⟩ := h.starts
  refine ⟨⟨'!', text.toList, by simp, starts_of_isSafeStart (by decide) _⟩, fun hrest hls ↦ ?_⟩
  have hnot := (h.lexes hrest hls).not (by simpa [hsplit] using hstarts.notEquals)
  simpa using hnot

/-- A minus sign before words that may follow it. -/
theorem negate (h : Spells text words) (hfirst : ∀ l ∈ words.head?, l.followsMinus = true) :
    Spells ("-" ++ text) (.symbol "-" :: words) := by
  refine h.minus fun c hc ↦ ?_
  obtain ⟨d, ds, hsplit, hstarts⟩ := h.starts
  rw [hsplit] at hc
  obtain rfl := Option.some.inj hc
  intro hminus
  obtain ⟨l, hl, hfollows⟩ := hstarts.minus hminus
  rw [hfirst l hl] at hfollows
  exact absurd hfollows (by simp)

/-- Two equal signs before a text. -/
theorem preChange (h : Spells text words) {mark : String} (hmark : mark = "++" ∨ mark = "--") :
    Spells (mark ++ text) (.symbol mark :: words) := by
  refine ⟨?_, fun hrest hls ↦ ?_⟩
  · rcases hmark with rfl | rfl
    · exact ⟨'+', '+' :: text.toList, by simp, starts_of_isSafeStart (by decide) _⟩
    · exact ⟨'-', '-' :: text.toList, by simp, by decide, by decide, by decide,
        fun _ ↦ ⟨_, rfl, rfl⟩⟩
  · have hchange := (h.lexes hrest hls).change hmark
    simpa using hchange

/-- A text in parentheses. -/
theorem parens (h : Spells text words) :
    Spells ("(" ++ text ++ ")") (parenthesizedWords words) := by
  refine ⟨⟨'(', text.toList ++ [')'], by simp, starts_of_isSafeStart (by decide) _⟩,
    fun hrest hls ↦ ?_⟩
  have hclose := hls.mark (c := ')') (by decide)
  have hopen := (h.lexes (endsWord_cons (by decide) (by decide)) hclose).mark (c := '(') (by decide)
  simpa [parenthesizedWords] using hopen

/-- Two texts with a mark between them, and blanks around it. -/
theorem joined (hleft : Spells left leftWords) (hright : Spells right rightWords) {mark : String}
    (hmark : Lexes.IsBlankedMark mark) :
    Spells (left ++ " " ++ mark ++ " " ++ right) (leftWords ++ .symbol mark :: rightWords) := by
  obtain ⟨c, cs, hsplit, hstarts⟩ := hleft.starts
  refine ⟨⟨c, cs ++ (" " ++ mark ++ " " ++ right).toList, by simp [hsplit], hstarts.append _⟩,
    fun {rest ls} hrest hls ↦ ?_⟩
  have hsolid : ∀ c ∈ (mark.toList ++ ' ' :: (right.toList ++ rest)).head?,
      Cursor.isSpacing c = false := by
    obtain ⟨d, ds, hspelling, hd, -⟩ := hmark
    simpa [hspelling] using isSpacing_eq_false_of_isMark hd
  have hrightLexes := (hright.blank hrest hls).blankedMark hmark
  have hall := hleft.lexes (endsWord_cons (by decide) (by decide)) (hrightLexes.blank hsolid)
  simpa using hall

/-- The same, in parentheses. -/
theorem group (hleft : Spells left leftWords) (hright : Spells right rightWords) (op : Operator) :
    Spells (Format.operation left op right)
      (parenthesizedWords (operationWords op leftWords rightWords)) := by
  have htext : Format.operation left op right =
      "(" ++ (left ++ " " ++ op.symbol ++ " " ++ right) ++ ")" := by
    simp only [Format.operation, String.append_assoc]
  rw [htext]
  exact (hleft.joined hright (Lexes.isBlankedMark_operator op)).parens

/-- The target of a link. -/
theorem target {form : Form} {depth : Nat} (h : Spells (form.textAt depth) form.words)
    (position : Position) (scope : ScopeId) :
    Spells (targetText depth (.mk form position scope))
      (targetWords (.mk form position scope)) := by
  rw [targetText, targetWords]
  split
  · exact h.parens
  · exact h

/-- A text with a link behind it, if the link is read back. -/
theorem link {link : String} {linkWords : List Lexeme} (h : Spells text words)
    (hends : ∀ rest, EndsWord (link.toList ++ rest))
    (hlink : ∀ {rest : List Char} {ls : List Lexeme}, EndsWord rest → Lexes rest ls →
      Lexes (link.toList ++ rest) (linkWords ++ ls)) :
    Spells (text ++ link) (words ++ linkWords) := by
  obtain ⟨d, ds, htext, hstarts⟩ := h.starts
  refine ⟨⟨d, ds ++ link.toList, by simp [htext], hstarts.append _⟩, fun {rest ls} hrest hls ↦ ?_⟩
  have hall := h.lexes (hends rest) (hlink hrest hls)
  simpa using hall

theorem member (h : Spells text words) {name : String} (hname : IsName name) :
    Spells (text ++ "." ++ name) (words ++ [.symbol ".", .ident name]) := by
  rw [String.append_assoc]
  refine h.link (fun rest ↦ ?_) fun {rest ls} hrest hls ↦ ?_
  · -- the point is not read with the number before it, for a name begins with no digit
    obtain ⟨c, cs, hsplit, hc, -⟩ := hname.isWord
    have hlink : ("." ++ name).toList ++ rest = '.' :: c :: (cs ++ rest) := by simp [hsplit]
    rw [hlink]
    refine ⟨by simp; decide, fun d more hcons ↦ ?_⟩
    obtain ⟨rfl, -⟩ := List.cons.inj (List.cons.inj hcons).2
    exact not_isDigit_of_isNameStart hc
  · have hdot := (hls.name hname hrest).mark (c := '.') (by decide)
    simpa using hdot

theorem index (h : Spells text words) {key : String} {keyWords : List Lexeme}
    (hkey : Spells key keyWords) :
    Spells (text ++ "[" ++ key ++ "]") (words ++ .symbol "[" :: (keyWords ++ [.symbol "]"])) := by
  rw [String.append_assoc, String.append_assoc]
  refine h.link (fun rest ↦ ?_) fun {rest ls} hrest hls ↦ ?_
  · rw [String.toList_append]
    exact endsWord_cons (c := '[') (by decide) (by decide)
  · have hclose := hls.mark (c := ']') (by decide)
    have hopen := (hkey.lexes (endsWord_cons (by decide) (by decide)) hclose).mark (c := '[')
      (by decide)
    simpa using hopen

/-- Two equal signs behind a text. -/
theorem postChange (h : Spells text words) {mark : String} (hmark : mark = "++" ∨ mark = "--") :
    Spells (text ++ mark) (words ++ [.symbol mark]) := by
  refine h.link (fun rest ↦ ?_) fun {rest ls} hrest hls ↦ hls.change hmark
  rcases hmark with rfl | rfl
  · exact endsWord_cons (c := '+') (by decide) (by decide)
  · exact endsWord_cons (c := '-') (by decide) (by decide)

end Spells

theorem exists_commaSeparated_cons (text : String) (texts : List String) :
    ∃ more, Format.commaSeparated (text :: texts) = text ++ more := by
  cases texts with
  | nil => exact ⟨"", by simp [Format.commaSeparated]⟩
  | cons next texts =>
    exact ⟨_, by rw [Format.commaSeparated, String.intercalate_cons_cons, String.append_assoc]⟩

/-- Texts with commas between them. -/
theorem lexes_commaSeparated {depth : Nat} {items : List Expr}
    (h : ∀ e ∈ items, Spells (e.textAt depth) e.words) {rest : List Char} {ls : List Lexeme}
    (hrest : EndsWord rest) (hls : Lexes rest ls) :
    Lexes ((Format.commaSeparated (exprTexts depth items)).toList ++ rest)
      (listWords items ++ ls) := by
  induction items with
  | nil => simpa [exprTexts, Format.commaSeparated, listWords] using hls
  | cons e items ih =>
    have he := h e (by simp)
    cases items with
    | nil =>
      have hone := he.lexes hrest hls
      simpa [exprTexts, Format.commaSeparated, listWords, moreWords] using hone
    | cons next items =>
      have hmore := ih fun e he ↦ h e (by simp [he])
      have hfirst : ∀ c ∈ ((Format.commaSeparated (exprTexts depth (next :: items))).toList ++
          rest).head?, Cursor.isSpacing c = false := by
        obtain ⟨c, cs, hsplit, hstarts⟩ := (h next (by simp)).starts
        obtain ⟨more, hmore⟩ := exists_commaSeparated_cons (next.textAt depth)
          (exprTexts depth items)
        rw [exprTexts, hmore]
        simpa [hsplit] using hstarts.solid
      have hcomma := (hmore.blank hfirst).mark (c := ',') (by decide)
      have hall := he.lexes (endsWord_cons (by decide) (by decide)) hcomma
      simpa [exprTexts, Format.commaSeparated, String.intercalate_cons_cons, listWords, moreWords]
        using hall

theorem spells_array {depth : Nat} {items : List Expr}
    (h : ∀ e ∈ items, Spells (e.textAt depth) e.words) :
    Spells ("[" ++ Format.commaSeparated (exprTexts depth items) ++ "]")
      (.symbol "[" :: (listWords items ++ [.symbol "]"])) := by
  refine ⟨⟨'[', (Format.commaSeparated (exprTexts depth items)).toList ++ [']'], by simp,
    starts_of_isSafeStart (by decide) _⟩, fun {rest ls} hrest hls ↦ ?_⟩
  have hclose := hls.mark (c := ']') (by decide)
  have hopen :=
    (lexes_commaSeparated h (endsWord_cons (by decide) (by decide)) hclose).mark (c := '[')
    (by decide)
  simpa using hopen

theorem Spells.call {text : String} {words : List Lexeme} {depth : Nat} {args : List Expr}
    (htarget : Spells text words) (h : ∀ e ∈ args, Spells (e.textAt depth) e.words) :
    Spells (text ++ "(" ++ Format.commaSeparated (exprTexts depth args) ++ ")")
      (words ++ .symbol "(" :: (listWords args ++ [.symbol ")"])) := by
  rw [String.append_assoc, String.append_assoc]
  refine htarget.link (fun rest ↦ ?_) fun {rest ls} hrest hls ↦ ?_
  · rw [String.toList_append]
    exact endsWord_cons (c := '(') (by decide) (by decide)
  · have hclose := hls.mark (c := ')') (by decide)
    have hopen := (lexes_commaSeparated h (endsWord_cons (by decide) (by decide)) hclose).mark
      (c := '(') (by decide)
    simpa using hopen

/-- **The text of a plain expression consists of its words.** -/
theorem spells_of_isPlain {e : Expr} (h : e.IsPlain) (depth : Nat) :
    Spells (e.textAt depth) e.words := by
  have hunary : ∀ (op : UnaryOp) (operand : Expr) (position : Position) (scope : ScopeId),
      Spells ((Expr.mk (.unary op operand) position scope).textAt depth)
          (Expr.mk (.unary op operand) position scope).words ↔
        Spells (op.marks.1 ++ operand.textAt depth ++ op.marks.2)
          (markWords op.marks.1 ++ operand.words ++ markWords op.marks.2) :=
    fun _ _ _ _ ↦ Iff.rfl
  induction h with
  | var hname => exact .name hname
  | constant hvalue => exact .literal hvalue
  | not h ih => simpa [hunary, UnaryOp.marks, markWords] using ih.not
  | negate h hfirst ih => simpa [hunary, UnaryOp.marks, markWords] using ih.negate hfirst
  | preChange hop h hassignable ih =>
    rcases hop with rfl | rfl
    · simpa [hunary, UnaryOp.marks, markWords] using ih.preChange (.inl rfl)
    · simpa [hunary, UnaryOp.marks, markWords] using ih.preChange (.inr rfl)
  | postChange hop h hassignable ih =>
    rcases hop with rfl | rfl
    · simpa [hunary, UnaryOp.marks, markWords] using ih.postChange (.inl rfl)
    · simpa [hunary, UnaryOp.marks, markWords] using ih.postChange (.inr rfl)
  | binary hleft hright ihleft ihright => exact ihleft.group ihright _
  | compare hleft hright ihleft ihright => exact ihleft.group ihright _
  | condition hleft hright ihleft ihright => exact ihleft.group ihright _
  | array hitems ih => exact spells_array ih
  | @index target key position scope htarget hkey ihtarget ihkey =>
    obtain ⟨form, position, scope⟩ := target
    exact (ihtarget.target position scope).index ihkey
  | @member target name position scope htarget hname ih =>
    obtain ⟨form, position, scope⟩ := target
    exact (ih.target position scope).member hname
  | @call target args position scope htarget hargs ihtarget ihargs =>
    obtain ⟨form, position, scope⟩ := target
    exact (ihtarget.target position scope).call ihargs

/-! ## Scripts -/

/-- The text of a plain statement consists of its words. -/
theorem spells_of_isPlainStatement {e : Expr} (h : e.IsPlainStatement) (depth : Nat) :
    Spells (e.textAt depth) e.statementWords := by
  cases h with
  | expression h =>
    rw [Expr.statementWords_of_isPlain h]
    exact spells_of_isPlain h depth
  | @assign target value op position scope htarget hassignable hvalue =>
    have hjoined := (spells_of_isPlain htarget depth).joined (spells_of_isPlain hvalue depth)
      (Lexes.isBlankedMark_assignOp op)
    have htext : (Expr.mk (.assign target op (some value) false) position scope).textAt depth =
        target.textAt depth ++ " " ++ op.symbol ++ " " ++ value.textAt depth := by
      simp [Expr.textAt, Form.textAt, optionText, String.append_assoc]
    rw [htext]
    exact hjoined

/-- The text of plain statements, one a line, consists of their words. -/
theorem lexes_scriptText {statements : List Expr}
    (h : ∀ e ∈ statements, e.IsPlainStatement) :
    Lexes (scriptText statements).toList (lineWords statements) := by
  induction statements with
  | nil => exact .nil
  | cons e statements ih =>
    have hlater := (ih fun e he ↦ h e (List.mem_cons_of_mem _ he)).newLine
    have hline := (spells_of_isPlainStatement (h e List.mem_cons_self) 0).lexes
      (endsWord_cons (by decide) (by decide)) hlater
    simpa [scriptText, statementTexts, Format.tabs, lineWords] using hline

end ScriptFront.Lexer
