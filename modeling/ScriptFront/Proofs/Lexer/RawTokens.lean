import ScriptFront.Proofs.Lexer.Contents

/-!
# Raw tokens tile the text

Reading a raw token moves the lexer over the spelling of the token and does nothing else. This is
one fact for each shape of token; everything about a list of raw tokens follows from it by induction
on the list: their spellings join to the text, and offsets and positions are those of the places
where the spellings stand.

The spelling is not always what was cut out of the text. A comment is put together again from its
marks and its content, a word becomes a truth value that knows its own spelling, and a symbol is
taken from a table; these are the cases in which there is something to show.
-/

namespace ScriptFront.Lexer

/-! ## Reading a lexeme -/

/-- A lexeme other than the end of the text was read, by moving over its spelling. -/
structure Reads (lx : Lexer) (l : Lexeme) (lx' : Lexer) : Prop where
  /-- The lexer has moved over the spelling. -/
  passed : Passed lx l.text.toList lx'
  /-- The spelling has a character. -/
  nonempty : l.text.toList ≠ []
  /-- The end of the text is no such lexeme. -/
  notEnd : l.kind ≠ .endOfInput

theorem reads_of_passed {lx lx' : Lexer} {l : Lexeme} {spelling : List Char}
    (h : Passed lx spelling lx') (htext : l.text = String.ofList spelling) (hne : spelling ≠ [])
    (hend : l.kind ≠ .endOfInput) : Reads lx l lx' := by
  have hlist : l.text.toList = spelling := by rw [htext, String.toList_ofList]
  exact ⟨by rwa [hlist], by rwa [hlist], hend⟩

theorem reads_of_append {lx : Lexer} {l : Lexeme} {spelling rest : List Char}
    (hrest : lx.cursor.rest = spelling ++ rest) (htext : l.text = String.ofList spelling)
    (hne : spelling ≠ []) (hend : l.kind ≠ .endOfInput) :
    Reads lx l { lx with cursor := lx.cursor.advance spelling.length } :=
  reads_of_passed (passed_append hrest) htext hne hend

/-! ## Shapes that may span lines -/

/-- A text read up to a closing pair is the text before the first place of the pair. -/
theorem upToExtent_complete {first second : Char} {cs : List Char} {e : Cursor.Extent}
    (he : e.complete = false)
    (h : (Cursor.upToExtent first second cs e).complete = true) :
    ∃ read rest, cs = read ++ first :: second :: rest ∧
      (Cursor.upToExtent first second cs e).text = read.reverse ++ e.text ∧
      (Cursor.upToExtent first second cs e).taken = e.taken + read.length + 2 := by
  induction cs generalizing e with
  | nil => simp [Cursor.upToExtent, he] at h
  | cons c rest ih =>
    rw [Cursor.upToExtent] at h ⊢
    by_cases hpair : c = first ∧ rest.head? = some second
    · obtain ⟨rfl, hhead⟩ := hpair
      obtain ⟨tail, rfl⟩ := List.head?_eq_some_iff.mp hhead
      refine ⟨[], tail, rfl, ?_, ?_⟩
      · simp [Cursor.Extent.finish]
      · simp [Cursor.Extent.finish]
    · rw [if_neg hpair] at h ⊢
      obtain ⟨read, tail, rfl, htext, htaken⟩ := ih (by rfl) h
      refine ⟨c :: read, tail, rfl, ?_, ?_⟩
      · rw [htext]
        simp [Cursor.Extent.push]
      · rw [htaken]
        simp only [Cursor.Extent.push, List.length_cons]
        omega

/-- What completes a line depends on the next character only. -/
theorem endsLine_append {read : List Char} (hread : read ≠ []) (c : Char) (more : List Char) :
    endsLine c (read ++ more) = endsLine c read := by
  rw [endsLine, endsLine, List.head?_append_of_ne_nil read hread]

theorem push_append {read : List Char} (hread : read ≠ []) (e : Cursor.Extent) (meaning c : Char)
    (more : List Char) (width : Nat) :
    e.push meaning c (read ++ more) width = e.push meaning c read width := by
  rw [Cursor.Extent.push, Cursor.Extent.push, endsLine_append hread]

/-- Quoted text is all in what is taken, which ends in the closing quote: whatever follows, the same
is read. -/
theorem exists_eq_append_of_quotedExtent {quote mark : Char} {cs : List Char} {e : Cursor.Extent}
    (he : e.complete = false) (h : (Cursor.quotedExtent quote mark cs e).complete = true) :
    ∃ read more, cs = read ++ more ∧ read ≠ [] ∧
      (Cursor.quotedExtent quote mark cs e).taken = e.taken + read.length ∧ ∀ more',
        Cursor.quotedExtent quote mark (read ++ more') e = Cursor.quotedExtent quote mark cs e := by
  fun_induction Cursor.quotedExtent quote mark cs e with
  | case1 e => simp [he] at h
  | case2 e => simp [Cursor.Extent.skip, he] at h
  | case3 e d rest ih =>
    obtain ⟨read, more, rfl, hne, htaken, hall⟩ := ih rfl h
    refine ⟨mark :: d :: read, more, rfl, List.cons_ne_nil _ _, ?_, fun more' ↦ ?_⟩
    · rw [htaken]
      simp only [Cursor.Extent.push, List.length_cons]
      omega
    · rw [← hall more', push_append hne, List.cons_append, List.cons_append,
        Cursor.quotedExtent.eq_def]
      dsimp only
      rw [if_pos rfl, push_append hne]
  | case4 rest e hmark =>
    refine ⟨[quote], rest, rfl, List.cons_ne_nil _ _, rfl, fun more' ↦ ?_⟩
    rw [List.singleton_append, Cursor.quotedExtent.eq_def]
    dsimp only
    rw [if_neg hmark, if_pos rfl]
  | case5 c rest e hmark hquote ih =>
    obtain ⟨read, more, rfl, hne, htaken, hall⟩ := ih rfl h
    refine ⟨c :: read, more, rfl, List.cons_ne_nil _ _, ?_, fun more' ↦ ?_⟩
    · rw [htaken]
      simp only [Cursor.Extent.push, List.length_cons]
      omega
    · rw [← hall more', push_append hne, List.cons_append, Cursor.quotedExtent.eq_def]
      dsimp only
      rw [if_neg hmark, if_neg hquote, push_append hne]

/-! ## Strings -/

theorem readString_reads {inner : Lexer → Except ScriptError (List Token)} {lx lx' : Lexer}
    {l : Lexeme} (hne : lx.cursor.rest ≠ []) (h : readString inner lx = .ok l lx') :
    Reads lx l lx' := by
  obtain ⟨found, hcontents, rfl⟩ := readString_eq_ok_iff.mp h
  obtain ⟨spelling, hspelling, -⟩ := hcontents.exists_passed
  have hpassed := (passed_take (List.length_pos_iff.mpr hne)).trans hspelling
  refine reads_of_passed hpassed ((text_literalOf _ _).trans hpassed.since_eq) (by simp [hne]) ?_
  rcases kind_literalOf (lx'.cursor.since lx.cursor.pos) found with hkind | hkind <;>
    rw [hkind] <;> decide

theorem readPlainString_reads {lx lx' : Lexer} {l : Lexeme} (hne : lx.cursor.rest ≠ [])
    (h : readPlainString lx = .ok l lx') : Reads lx l lx' := by
  simp only [readPlainString, get_bind_run] at h
  obtain ⟨run, lx₁, hrun, h⟩ := bind_eq_ok_iff.mp h
  simp only [scanExcept, scan_bind_run, Cursor.scanQuoted, Cursor.opened, if_true] at hrun
  split_ifs at hrun with hcomplete
  · obtain ⟨read, more, hrest, -, htaken, -⟩ := exists_eq_append_of_quotedExtent (by rfl) hcomplete
    have hcount : 1 + read.length ≤ lx.cursor.rest.length := by
      have hpos : 0 < lx.cursor.rest.length := List.length_pos_iff.mpr hne
      have hlen := congrArg List.length hrest
      simp only [Cursor.rest_step, List.length_drop, List.length_append] at hlen
      omega
    have hmoved : lx₁ = { lx with cursor := lx.cursor.advance (1 + read.length) } := by
      simp only [pure_run, EStateM.Result.ok.injEq] at hrun
      rw [← hrun.2, htaken, Nat.add_comm 1, Cursor.advance_succ]
      simp [Cursor.closed, Cursor.Extent.empty]
    have hpassed := passed_take hcount
    simp only [get_bind_run, pure_run, EStateM.Result.ok.injEq, hmoved, hpassed.since_eq] at h
    obtain ⟨rfl, rfl⟩ := h
    refine reads_of_passed hpassed rfl ?_ (by simp [Lexeme.kind])
    simpa using hne
  · simp at hrun

/-! ## Comments -/

theorem readBlockComment_reads {lx lx' : Lexer} {l : Lexeme} {rest : List Char}
    (hrest : lx.cursor.rest = '/' :: '*' :: rest) (h : readBlockComment lx = .ok l lx') :
    Reads lx l lx' := by
  simp only [readBlockComment, get_bind_run, pass_bind_run, scan_bind_run, Cursor.scanUpTo,
    Cursor.opened, if_true] at h
  split_ifs at h with hsuccess
  · obtain ⟨read, tail, hcs, htext, htaken⟩ := upToExtent_complete (by rfl) hsuccess
    have hcontent : rest = read ++ '*' :: '/' :: tail := by
      simpa [hrest] using hcs
    simp only [pure_run, EStateM.Result.ok.injEq] at h
    obtain ⟨rfl, rfl⟩ := h
    have hspelled : lx.cursor.rest = ('/' :: '*' :: (read ++ ['*', '/'])) ++ tail := by
      rw [hrest, hcontent]
      simp
    have hpassed := passed_append hspelled
    have hcount : ('/' :: '*' :: (read ++ ['*', '/'])).length = 1 + (1 + (read.length + 2)) := by
      simp only [List.length_cons, List.length_append, List.length_nil]
      omega
    rw [hcount, Cursor.advance_add, Cursor.advance_add, Cursor.advance_one (Cursor.advance 1 _)]
      at hpassed
    rw [show Cursor.Extent.empty.taken = 0 from rfl, Nat.zero_add] at htaken
    simp only [htaken, Cursor.closed, Bool.false_and, if_false, Bool.false_eq_true]
    refine reads_of_passed hpassed ?_ (by simp) (by simp [Lexeme.kind])
    simp only [Lexeme.text, Cursor.Extent.run, htext]
    simp [String.ext_iff, Cursor.Extent.empty]
  · simp at h

/-! ## All lexemes -/

theorem text_ofWord (word : String) : (Lexeme.ofWord word).text = word := by
  unfold Lexeme.ofWord
  split
  · rfl
  · rfl
  · rfl
  · unfold Lexeme.keyword?
    split <;> rfl

theorem kind_ofWord (word : String) : (Lexeme.ofWord word).kind ≠ .endOfInput := by
  unfold Lexeme.ofWord
  split
  · simp [Lexeme.kind]
  · simp [Lexeme.kind]
  · simp [Lexeme.kind]
  · unfold Lexeme.keyword?
    split <;> simp [Lexeme.kind]

theorem kind_ofWord_ne (word : String) :
    (Lexeme.ofWord word).kind ≠ .newLine ∧ (Lexeme.ofWord word).kind ≠ .interpolated := by
  unfold Lexeme.ofWord
  split
  · simp [Lexeme.kind]
  · simp [Lexeme.kind]
  · simp [Lexeme.kind]
  · unfold Lexeme.keyword?
    split <;> simp [Lexeme.kind]

/-- The run of a number is the beginning of the text. -/
theorem numberRun_append (cs : List Char) :
    ∃ rest, cs = Cursor.numberRun cs ++ rest := by
  have hsplit : cs = cs.takeWhile Char.isDigit ++ cs.dropWhile Char.isDigit :=
    List.takeWhile_append_dropWhile.symm
  rw [Cursor.numberRun]
  split
  · next rest hdrop =>
    dsimp only
    split_ifs
    · exact ⟨_, hsplit⟩
    · refine ⟨rest.dropWhile Char.isDigit, ?_⟩
      rw [List.append_assoc, List.cons_append, List.takeWhile_append_dropWhile, ← hdrop]
      exact hsplit
  · exact ⟨_, hsplit⟩

theorem numberRun_ne_nil {c : Char} {rest : List Char} (h : c.isDigit = true) :
    Cursor.numberRun (c :: rest) ≠ [] := by
  have hhead : (c :: rest).takeWhile Char.isDigit ≠ [] := by simp [h]
  rw [Cursor.numberRun]
  split
  · dsimp only
    split_ifs
    · exact hhead
    · simp
  · exact hhead

theorem symbols_ne_empty {s : String} (h : s ∈ Lexeme.symbols) : s.toList ≠ [] := by
  have hall : ∀ s ∈ Lexeme.symbols, s.toList ≠ [] := by decide
  exact hall s h

theorem longestSymbol?_eq_some {cs : List Char} {l : Lexeme}
    (h : Lexeme.longestSymbol? cs = some l) :
    ∃ s ∈ Lexeme.symbols, l = .symbol s ∧ s.toList <+: cs := by
  obtain ⟨s, hs, rfl⟩ := Option.map_eq_some_iff.mp h
  exact ⟨s, List.mem_of_find?_eq_some hs, rfl,
    List.isPrefixOf_iff_prefix.mp (by simpa using List.find?_some hs)⟩

/-- The longest run of characters of one class, the first of which is there, is a spelling. -/
theorem reads_takeWhile {lx : Lexer} {c : Char} {rest : List Char} {p : Char → Bool} {l : Lexeme}
    (hrest : lx.cursor.rest = c :: rest) (hc : p c = true)
    (htext : l.text = String.ofList (lx.cursor.rest.takeWhile p)) (hend : l.kind ≠ .endOfInput) :
    Reads lx l
      { lx with cursor := lx.cursor.advance (lx.cursor.rest.takeWhile p).length } :=
  reads_of_append List.takeWhile_append_dropWhile.symm htext (by simp [hrest, hc]) hend

/-! ## What a lexeme begins with -/

/-- The shapes of lexemes, as the characters that are looked at first tell them apart. -/
inductive Beginning
  /-- A run of blanks. -/
  | blanks
  /-- A line feed. -/
  | lineFeed
  /-- A carriage return and a line feed. -/
  | linePair
  /-- A carriage return without a line feed. -/
  | lineReturn
  /-- A comment up to the end of the line. -/
  | lineComment
  /-- A comment between marks. -/
  | blockComment
  /-- A string in double quotes. -/
  | quoted
  /-- A string in single quotes. -/
  | plain
  /-- A number. -/
  | number
  /-- A name or a word with a meaning of its own. -/
  | name
  /-- The longest symbol that stands there. -/
  | symbol (l : Lexeme)

/-- The shape of the lexeme that begins with `c`, the characters behind it being `rest`. -/
def beginning? (c : Char) (rest : List Char) : Option Beginning :=
  if Cursor.isSpacing c then some .blanks
  else if c = '\n' then some .lineFeed
  else if c = '\r' then
    if rest.head? = some '\n' then some .linePair else some .lineReturn
  else if c = '/' ∧ rest.head? = some '/' then some .lineComment
  else if c = '/' ∧ rest.head? = some '*' then some .blockComment
  else if c = '"' then some .quoted
  else if c = '\'' then some .plain
  else if c.isDigit then some .number
  else if Text.isNameStart c then some .name
  else (Lexeme.longestSymbol? (c :: rest.take 1)).map .symbol

/-- What the first characters of a shape are. -/
def Beginning.Fits (c : Char) (rest : List Char) : Beginning → Prop
  | .blanks => Cursor.isSpacing c = true
  | .lineFeed => c = '\n'
  | .linePair => c = '\r' ∧ rest.head? = some '\n'
  | .lineReturn => c = '\r'
  | .lineComment => c = '/' ∧ rest.head? = some '/'
  | .blockComment => c = '/' ∧ rest.head? = some '*'
  | .quoted => c = '"'
  | .plain => c = '\''
  | .number => c.isDigit = true
  | .name => Text.isNameStart c = true
  | .symbol l => ∃ s ∈ Lexeme.symbols, l = .symbol s ∧ s.toList <+: c :: rest

/-- Read a lexeme of this shape. -/
def readFrom (inner : Lexer → Except ScriptError (List Token)) : Beginning → LexM Lexeme
  | .blanks => do return .whitespace (← scan (Cursor.scanBlanks .plain)).text
  | .lineFeed => do
    pass 1
    return .newLine "\n"
  | .linePair => do
    pass 2
    return .newLine "\r\n"
  | .lineReturn => do
    pass 1
    return .newLine "\r"
  | .lineComment => do return .comment (← scan (Cursor.scanLine .plain)).text
  | .blockComment => readBlockComment
  | .quoted => readString inner
  | .plain => readPlainString
  | .number => do
    let text := (← scan (Cursor.scanNumber .plain)).text
    return .number text ((Number.ofText? text).getD (.zero false))
  | .name => do return .ofWord (← scan (Cursor.scanName .plain)).text
  | .symbol l => do
    pass l.text.length
    return l

section

variable {inner : Lexer → Except ScriptError (List Token)} {c : Char} {rest : List Char}
  {b : Beginning} {lx lx' : Lexer} {l : Lexeme}

theorem fits_of_ite {p : Prop} [Decidable p] {b' : Beginning} {o : Option Beginning}
    (h : (if p then some b' else o) = some b) (hyes : p → b'.Fits c rest)
    (hno : o = some b → b.Fits c rest) : b.Fits c rest := by
  by_cases hp : p
  · rw [if_pos hp] at h
    exact Option.some.inj h ▸ hyes hp
  · rw [if_neg hp] at h
    exact hno h

theorem fits_of_beginning? (h : beginning? c rest = some b) : b.Fits c rest := by
  refine fits_of_ite h id fun h ↦ fits_of_ite h id fun h ↦ ?_
  by_cases hreturn : c = '\r'
  · rw [if_pos hreturn] at h
    exact fits_of_ite h (⟨hreturn, ·⟩) fun h ↦ Option.some.inj h ▸ hreturn
  rw [if_neg hreturn] at h
  refine fits_of_ite h id fun h ↦ fits_of_ite h id fun h ↦ fits_of_ite h id fun h ↦
    fits_of_ite h id fun h ↦ fits_of_ite h id fun h ↦ fits_of_ite h id fun h ↦ ?_
  obtain ⟨l, hl, rfl⟩ := Option.map_eq_some_iff.mp h
  obtain ⟨s, hs, rfl, hahead⟩ := longestSymbol?_eq_some hl
  exact ⟨s, hs, rfl, hahead.trans (by simpa using List.take_prefix 1 rest)⟩

/-- Of the characters behind the first one, few matter. -/
theorem beginning?_congr {rest' : List Char} (hreturn : c = '\r' → rest'.head? = rest.head?)
    (hslash : rest'.head? = some '/' ↔ rest.head? = some '/')
    (hstar : rest'.head? = some '*' ↔ rest.head? = some '*')
    (hsymbol : Lexeme.longestSymbol? (c :: rest'.take 1) =
      Lexeme.longestSymbol? (c :: rest.take 1)) :
    beginning? c rest' = beginning? c rest := by
  simp only [beginning?, hslash, hstar, hsymbol]
  by_cases hc : c = '\r'
  · simp only [hreturn hc]
  · simp only [if_neg hc]

theorem readLexeme_eq (inner : Lexer → Except ScriptError (List Token)) (c : Char)
    (rest : List Char) :
    readLexeme inner c rest = (beginning? c rest).elim
      (do fail (← get).cursor.position (.unexpectedCharacter c)) (readFrom inner) := by
  have helim (p : Prop) [Decidable p] (a b : Option Beginning) (x : LexM Lexeme) :
      (if p then a else b).elim x (readFrom inner) =
        if p then a.elim x (readFrom inner) else b.elim x (readFrom inner) :=
    apply_ite (fun o : Option Beginning ↦ o.elim x (readFrom inner)) p a b
  rw [readLexeme, beginning?]
  cases Lexeme.longestSymbol? (c :: rest.take 1) with
  | none | some =>
    simp only [helim]
    rfl

/-- A lexeme is read as its beginning says. -/
theorem readLexeme_eq_ok_iff :
    readLexeme inner c rest lx = .ok l lx' ↔
      ∃ b, beginning? c rest = some b ∧ readFrom inner b lx = .ok l lx' := by
  rw [readLexeme_eq]
  cases beginning? c rest with
  | none => simp
  | some b => simp

/-- **Every lexeme is read by moving over its spelling.** -/
theorem readLexeme_reads (hrest : lx.cursor.rest = c :: rest)
    (h : readLexeme inner c rest lx = .ok l lx') : Reads lx l lx' := by
  have hne : lx.cursor.rest ≠ [] := by simp [hrest]
  obtain ⟨b, hb, hread⟩ := readLexeme_eq_ok_iff.mp h
  have hfits := fits_of_beginning? hb
  cases b with
  | blanks =>
    cases hread
    exact reads_takeWhile hrest hfits rfl (by simp [Lexeme.kind])
  | lineFeed =>
    obtain rfl : c = '\n' := hfits
    cases hread
    exact reads_of_append (show _ = ['\n'] ++ rest from hrest) rfl (by simp) (by simp [Lexeme.kind])
  | linePair =>
    obtain ⟨rfl, hpair⟩ := hfits
    obtain ⟨tail, rfl⟩ := List.head?_eq_some_iff.mp hpair
    cases hread
    exact reads_of_append (show _ = ['\r', '\n'] ++ tail from hrest) rfl (by simp)
      (by simp [Lexeme.kind])
  | lineReturn =>
    obtain rfl : c = '\r' := hfits
    cases hread
    exact reads_of_append (show _ = ['\r'] ++ rest from hrest) rfl (by simp) (by simp [Lexeme.kind])
  | lineComment =>
    cases hread
    exact reads_takeWhile hrest (by simp [hfits.1]) rfl (by simp [Lexeme.kind])
  | blockComment =>
    obtain ⟨tail, rfl⟩ := List.head?_eq_some_iff.mp hfits.2
    exact readBlockComment_reads (by rw [hrest, hfits.1]) hread
  | quoted => exact readString_reads hne hread
  | plain => exact readPlainString_reads hne hread
  | number =>
    cases hread
    obtain ⟨tail, htail⟩ := numberRun_append lx.cursor.rest
    have hrun : Cursor.numberRun lx.cursor.rest ≠ [] := by
      rw [hrest]
      exact numberRun_ne_nil hfits
    exact reads_of_append htail rfl hrun (by simp [Lexeme.kind])
  | name =>
    cases hread
    exact reads_takeWhile hrest (Text.isNameChar_of_isNameStart hfits) (text_ofWord _)
      (kind_ofWord _)
  | symbol =>
    obtain ⟨s, hs, rfl, hahead⟩ := hfits
    obtain ⟨tail, htail⟩ := hahead
    cases hread
    exact reads_of_append (hrest.trans htail.symm) (by simp [Lexeme.text]) (symbols_ne_empty hs)
      (by simp [Lexeme.kind])

end

/-! ## Lists of raw tokens -/

/-- The tokens from number `index` on, which stand in `s` from place `offset` on: each is followed
directly by the next, and only the last is the end of the text. -/
inductive Tiling (s : List Char) : (offset index : Nat) → List Token → Prop where
  /-- The end of the text stands behind the last character. -/
  | last {index : Nat} :
      Tiling s s.length index [.mk .endOfInput (positionAt s s.length) s.length index]
  /-- A token other than the end, at the position of its offset, and what follows its spelling. -/
  | cons {offset index : Nat} {l : Lexeme} {tokens : List Token} (notEnd : l.kind ≠ .endOfInput)
      (spelled : l.text.toList ++ s.drop (offset + l.text.length) = s.drop offset)
      (rest : Tiling s (offset + l.text.length) (index + 1) tokens) :
      Tiling s offset index (.mk l (positionAt s offset) offset index :: tokens)

/-- A raw token is a lexeme at the place where the lexer stands. -/
theorem readTokenWith_of_readLexeme {inner : Lexer → Except ScriptError (List Token)}
    {lx lx' : Lexer}
    {l : Lexeme} {c : Char} {rest : List Char} (hrest : lx.cursor.rest = c :: rest)
    (h : readLexeme inner c rest lx = .ok l lx') :
    readTokenWith inner lx = .ok (.mk l lx.cursor.position (lx.base + lx.cursor.pos) 0) lx' := by
  rw [readTokenWith, get_bind_run, hrest]
  exact bind_eq_of_ok h

/-- Unless it is the end of the text, a lexeme was read. -/
theorem exists_readLexeme {inner : Lexer → Except ScriptError (List Token)}
    {lx lx' : Lexer} {t : Token}
    (h : readTokenWith inner lx = .ok t lx') (hend : t.isEnd = false) :
    ∃ c rest l, lx.cursor.rest = c :: rest ∧ readLexeme inner c rest lx = .ok l lx' ∧
      t = .mk l lx.cursor.position (lx.base + lx.cursor.pos) 0 := by
  rw [readTokenWith, get_bind_run] at h
  cases hrest : lx.cursor.rest with
  | nil =>
    simp only [hrest] at h
    cases h
    cases hend
  | cons c rest =>
    simp only [hrest] at h
    obtain ⟨l, lx₁, hl, h⟩ := bind_eq_ok_iff.mp h
    cases h
    exact ⟨c, rest, l, rfl, hl, rfl⟩

/-- A raw token is the end of the text exactly when no character is left; otherwise its lexeme is
read from where the lexer stands. -/
theorem readTokenWith_cases {inner : Lexer → Except ScriptError (List Token)} {lx lx' : Lexer}
    {t : Token} (h : readTokenWith inner lx = .ok t lx') :
    ∃ l, t = .mk l lx.cursor.position (lx.base + lx.cursor.pos) 0 ∧
      (lx.cursor.rest = [] ∧ l = .endOfInput ∧ lx' = lx ∨ Reads lx l lx') := by
  rw [readTokenWith, get_bind_run] at h
  cases hrest : lx.cursor.rest with
  | nil =>
    simp only [hrest] at h
    cases h
    exact ⟨_, rfl, .inl ⟨rfl, rfl, rfl⟩⟩
  | cons c rest =>
    simp only [hrest] at h
    obtain ⟨l, lx₁, hl, h⟩ := bind_eq_ok_iff.mp h
    cases h
    exact ⟨l, rfl, .inr (readLexeme_reads hrest hl)⟩

/-- Reading a raw token moves the cursor and changes nothing else. -/
theorem readTokenWith_moved {inner : Lexer → Except ScriptError (List Token)} {lx lx' : Lexer}
    {t : Token} (h : readTokenWith inner lx = .ok t lx') : ∃ c, lx' = { lx with cursor := c } := by
  obtain ⟨l, -, ⟨-, -, rfl⟩ | hreads⟩ := readTokenWith_cases h
  · exact ⟨_, rfl⟩
  · exact ⟨_, hreads.passed.moved⟩

/-- The induction over the tokens of a text: the lexer keeps track of where it stands in `s`, and
each token but the end uses up a character, so the bound on their number is not reached. -/
theorem rawTokensWith_tiling {s : List Char} {fuel : Nat} {done tokens : List Token}
    {lx lx' : Lexer} (hbase : lx.base = 0) (htracks : lx.cursor.Tracks s)
    (hfuel : lx.cursor.rest.length < fuel)
    (h : rawTokensWith fuel done lx = .ok tokens lx') :
    ∃ new, tokens = done.reverse ++ new ∧ Tiling s lx.cursor.pos lx.index new := by
  induction fuel generalizing done lx with
  | zero => omega
  | succ fuel ih =>
    rw [rawTokensWith] at h
    obtain ⟨t, lx₁, ht, h⟩ := bind_eq_ok_iff.mp h
    obtain ⟨l, rfl, hcases⟩ := readTokenWith_cases ht
    have hdrop := htracks.rest_eq.symm
    have hend : Token.isEnd (.mk l lx.cursor.position (lx.base + lx.cursor.pos) 0) =
        (l.kind == .endOfInput) := rfl
    simp only [get_bind_run, set_bind_run, ite_run, hend, beq_iff_eq] at h
    rcases hcases with ⟨hnil, rfl, rfl⟩ | hreads
    · have hpos : lx₁.cursor.pos = s.length := by
        rw [← htracks.whole_eq, Cursor.whole, hnil, List.append_nil, List.length_reverse,
          lx₁.cursor.length_before]
      have hkind : Lexeme.endOfInput.kind = .endOfInput := rfl
      rw [if_pos hkind] at h
      cases h
      refine ⟨_, List.reverse_cons, ?_⟩
      rw [Token.withIndex, Token.position, Token.offset, htracks.position_eq, hbase, hpos,
        Nat.zero_add]
      exact .last
    · rw [if_neg hreads.notEnd] at h
      have hlen : l.text.toList.length ≤ lx.cursor.rest.length := hreads.passed.ahead.length_le
      have hone : 0 < l.text.toList.length := List.length_pos_iff.mpr hreads.nonempty
      have hmoved := hreads.passed.moved
      subst hmoved
      have hless : (lx.cursor.advance l.text.toList.length).rest.length < fuel := by
        simp only [Cursor.rest_advance, List.length_drop]
        omega
      obtain ⟨new, rfl, htiling⟩ := ih (by exact hbase) (by exact htracks.advance _) hless h
      refine ⟨_ :: new, by rw [List.reverse_cons, List.append_assoc]; rfl, ?_⟩
      have hpos := Cursor.pos_advance hlen
      rw [String.length_toList] at hpos
      simp only [String.length_toList, hpos] at htiling
      rw [Token.withIndex, Token.position, Token.offset, htracks.position_eq, hbase, Nat.zero_add]
      refine .cons hreads.notEnd ?_ htiling
      rw [← List.drop_drop, hdrop, ← String.length_toList, ← Cursor.rest_advance]
      exact hreads.passed.rest_eq.symm

theorem Tiling.texts_eq {s : List Char} {offset index : Nat} {tokens : List Token}
    (h : Tiling s offset index tokens) : tokens.flatMap (·.text.toList) = s.drop offset := by
  induction h with
  | last =>
    rw [List.drop_length]
    rfl
  | cons notEnd spelled rest ih => rw [List.flatMap_cons, ih, ← spelled]; rfl

theorem Tiling.ne_nil {s : List Char} {offset index : Nat} {tokens : List Token}
    (h : Tiling s offset index tokens) : tokens ≠ [] := by
  induction h <;> simp

/-- What a tiling says of the token with a number. -/
theorem Tiling.getElem {s : List Char} {offset index : Nat} {tokens : List Token}
    (h : Tiling s offset index tokens) {i : Nat} {t : Token} (ht : tokens[i]? = some t) :
    t.index = index + i ∧
    t.offset = offset + (String.join ((tokens.take i).map Token.text)).length ∧
      t.position = positionAt s t.offset ∧ (t.isEnd = true ↔ i + 1 = tokens.length) := by
  induction h generalizing i with
  | last =>
    obtain ⟨rfl, rfl⟩ : i = 0 ∧ _ = t := by simpa using List.getElem?_eq_some_iff.mp ht
    exact ⟨rfl, rfl, rfl, by simp [Token.isEnd, Token.kind, Token.lexeme, Lexeme.kind]⟩
  | @cons offset index l tokens notEnd spelled rest ih =>
    cases i with
    | zero =>
      obtain rfl : _ = t := by simpa using ht
      refine ⟨rfl, rfl, rfl, ?_⟩
      simpa [Token.isEnd, Token.kind, Token.lexeme, notEnd] using rest.ne_nil
    | succ i =>
      obtain ⟨hindex, hoffset, hposition, hend⟩ := ih (by simpa using ht)
      refine ⟨by omega, ?_, hposition, by simpa using hend⟩
      rw [hoffset, List.take_succ_cons, List.map_cons, String.join_cons, String.length_append,
        ← Nat.add_assoc]
      rfl

/-- **Raw tokens tile the text.** If a text can be cut into raw tokens at all, then, whatever the
dialect and its marker: the spellings join to the text without its byte order mark; the tokens are
numbered from zero; the offset of each is the length of the spellings before it, its line counts the
lines completed before that offset, and its column the characters since the last of them; and the
end of the text is the last token and no other. -/
theorem rawTokens_tile_text {dialect : Dialect} {text : String} {tokens : List Token}
    (h : (ofText dialect text).rawTokens = .ok tokens) :
    String.join (tokens.map Token.text) = String.ofList (Cursor.contents text) ∧
      tokens ≠ [] ∧
      ∀ (i : Nat) (t : Token), tokens[i]? = some t →
        t.index = i ∧ t.offset = (String.join ((tokens.take i).map Token.text)).length ∧
          t.position = positionAt (Cursor.contents text) t.offset ∧
          (t.isEnd = true ↔ i + 1 = tokens.length) := by
  have htiling : Tiling (Cursor.contents text) 0 0 tokens := by
    rw [rawTokens] at h
    cases hrun : rawTokensWith ((ofText dialect text).cursor.left + 1) [] (ofText dialect text) with
    | error e lx => simp [hrun] at h
    | ok found lx =>
      obtain rfl : found = tokens := by simpa [hrun] using h
      obtain ⟨new, hnew, htiling⟩ := rawTokensWith_tiling (by rfl) (Cursor.tracks_ofText text)
        (by rw [Cursor.left_eq_length]; omega) hrun
      rwa [hnew]
  refine ⟨?_, htiling.ne_nil, ?_⟩
  · rw [String.ext_iff, String.toList_join, List.flatMap_map, String.toList_ofList]
    exact htiling.texts_eq
  · intro i t ht
    simpa using htiling.getElem ht

/-- A line end of two characters, a string with an embedded section, and a comment. -/
theorem rawTokens_tile_text_mixed :
    ∃ tokens, (ofText (.plain '#') "a\r\n \"#\x7bb\x7d\"/**/").rawTokens = .ok tokens ∧
      tokens.length = 6 ∧
      String.join (tokens.map Token.text) = "a\r\n \"#\x7bb\x7d\"/**/" ∧
      ∀ t, tokens[4]? = some t → t.position = ⟨2, 8⟩ := by
  obtain ⟨tokens, hrun, htexts⟩ :
      ∃ tokens, (ofText (.plain '#') "a\r\n \"#\x7bb\x7d\"/**/").rawTokens =
      .ok tokens ∧ tokens.map Token.text = ["a", "\r\n", " ", "\"#\x7bb\x7d\"", "/**/", ""] :=
    exists_eq_ok_of_map_eq_some (by decide +kernel)
  obtain ⟨hjoined, -, htoken⟩ := rawTokens_tile_text hrun
  refine ⟨tokens, hrun, ?_, hjoined, fun t ht ↦ ?_⟩
  · simpa using congrArg List.length htexts
  · obtain ⟨-, hoffset, hposition, -⟩ := htoken 4 t ht
    rw [List.map_take, htexts] at hoffset
    rw [hposition, hoffset]
    decide

end ScriptFront.Lexer
