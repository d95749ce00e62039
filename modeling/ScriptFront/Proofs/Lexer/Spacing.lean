import ScriptFront.Proofs.Lexer.Embedding
import ScriptFront.Proofs.Lexer.PlainText

/-!
# Tokens with blanks between them

The spelling of a token says how far the token goes, if only a blank follows it: the characters of a
word, of a number and of a string are all there, no symbol goes on with a blank, and a carriage
return in front of a blank is a line break of its own. So the spellings of the tokens of a text,
joined with blanks, are a text with the same tokens. Only a line comment does not end at a blank.

Except for strings in double quotes, what is read is decided by the spelling and the blank alone,
which is what `Restarts` says. Such a string has sections, with tokens in other places; reading it
is followed along its spelling by two lexers, neither of which comes to what stands behind.
-/

namespace ScriptFront

/-- A number is a numeral. -/
theorem isNumeral_numberRun {c : Char} {rest : List Char} (hdigit : c.isDigit = true) :
    IsNumeral (Cursor.numberRun (c :: rest)) := by
  have hne : (c :: rest).takeWhile Char.isDigit ≠ [] := by simp [hdigit]
  have hdigits (cs : List Char) : ∀ d ∈ cs.takeWhile Char.isDigit, d.isDigit = true :=
    fun d hd ↦ List.mem_takeWhile_imp hd
  rw [Cursor.numberRun]
  split
  · next fraction _ =>
    by_cases hfraction : fraction.takeWhile Char.isDigit = []
    · rw [if_pos (List.isEmpty_iff.mpr hfraction)]
      exact .whole hne (hdigits _)
    · rw [if_neg (by simpa using hfraction)]
      exact .point hne (hdigits _) hfraction (hdigits _)
  · exact .whole hne (hdigits _)

namespace Lexer

variable {inner inner' : Lexer → Except ScriptError (List Token)} {lx lx' lx₁ : Lexer} {t : Token}
  {tokens : List Token} {l : Lexeme} {c : Char} {rest more : List Char}

/-! ## Lexemes without sections -/

/-- In front of a blank, the lexeme is read from its spelling. -/
def Restarts (l : Lexeme) : Prop := ∀ more, ReadsFirst l (l.text.toList ++ ' ' :: more)

theorem restarts_lineBreak {text : String} (h : text ∈ Lexeme.lineBreaks) :
    Restarts (.newLine text) := by
  intro more inner lx c rest _ _ hsplit
  simp only [Lexeme.lineBreaks, List.mem_cons, List.not_mem_nil, or_false] at h
  rcases h with rfl | rfl | rfl <;> obtain ⟨rfl, rfl⟩ := List.cons.inj hsplit <;> exact ⟨_, rfl⟩

/-- Single-quoted text that is complete is read, whatever follows it. -/
theorem readPlainString_eq_ok {extent : Cursor.Extent} {read : List Char}
    (hextent : ∀ more, Cursor.quotedExtent '\'' '\\' (read ++ more) .empty = extent)
    (hcomplete : extent.complete = true) (htaken : extent.taken = read.length)
    (hrest : lx.cursor.rest = '\'' :: (read ++ more)) :
    readPlainString lx = .ok (.str (String.ofList ('\'' :: read)) extent.run.text)
      { lx with cursor := lx.cursor.advance (1 + read.length) } := by
  have hstep : lx.cursor.step.rest = read ++ more := by
    rw [Cursor.rest_step, hrest, List.drop_one, List.tail_cons]
  have hscan : Cursor.scanQuoted '\'' '\\' ⟨true, false⟩ lx.cursor =
      (.ok extent.run, lx.cursor.advance (1 + read.length)) := by
    simp only [Cursor.scanQuoted, Cursor.opened, if_true, hstep, hextent, if_pos hcomplete,
      Cursor.closed, htaken, Nat.add_comm 1, Cursor.advance_succ, Bool.false_and,
      Bool.false_eq_true, if_false]
  have hpassed :
      Passed lx ('\'' :: read) { lx with cursor := lx.cursor.advance ('\'' :: read).length } :=
    passed_append hrest
  have hsince := hpassed.since_eq
  rw [List.length_cons, Nat.add_comm] at hsince
  rw [readPlainString, get_bind_run, bind_eq_of_ok (scanExcept_of_ok hscan), get_bind_run]
  exact congrArg (fun raw ↦ EStateM.Result.ok (Lexeme.str raw extent.run.text) _) hsince

/-- A single-quoted string is read by the characters of its spelling. -/
theorem restarts_readPlainString (hrest : lx.cursor.rest = '\'' :: rest)
    (hread : readPlainString lx = .ok l lx₁) : Restarts l := by
  have hstep : lx.cursor.step.rest = rest := by
    rw [Cursor.rest_step, hrest, List.drop_one, List.tail_cons]
  have hcomplete : (Cursor.quotedExtent '\'' '\\' rest .empty).complete = true := by
    rw [readPlainString, get_bind_run] at hread
    obtain ⟨run, lx₂, hrun, -⟩ := bind_eq_ok_iff.mp hread
    simp only [scanExcept, scan_bind_run, Cursor.scanQuoted, Cursor.opened, if_true, hstep] at hrun
    split_ifs at hrun with hcomplete
    · exact hcomplete
    · cases hrun
  obtain ⟨read, behind, hsplit, -, htaken, hall⟩ := exists_eq_append_of_quotedExtent rfl hcomplete
  rw [show Cursor.Extent.empty.taken = 0 from rfl, Nat.zero_add] at htaken
  rw [readPlainString_eq_ok hall hcomplete htaken (hsplit ▸ hrest)] at hread
  cases hread
  intro more inner lx c rest _ hrest' hcons
  rw [Lexeme.text, String.toList_ofList] at hrest' hcons
  obtain ⟨rfl, rfl⟩ := List.cons.inj hcons
  exact ⟨_, readPlainString_eq_ok hall hcomplete htaken hrest'⟩

theorem restarts_number (hdigit : c.isDigit = true) (rest : List Char) :
    Restarts (.number (String.ofList (Cursor.numberRun (c :: rest)))
      ((Number.ofText? (String.ofList (Cursor.numberRun (c :: rest)))).getD (.zero false))) := by
  intro more
  refine readsFirst_numeral ?_ (endsWord_cons (by decide) (by decide))
  rw [String.toList_ofList]
  exact isNumeral_numberRun hdigit

theorem restarts_word (hname : Text.isNameStart c = true) (rest : List Char) :
    Restarts (.ofWord (String.ofList ((c :: rest).takeWhile Text.isNameChar))) := by
  intro more
  have hword : (String.ofList ((c :: rest).takeWhile Text.isNameChar)).toList =
      c :: rest.takeWhile Text.isNameChar := by
    rw [String.toList_ofList, List.takeWhile_cons_of_pos (Text.isNameChar_of_isNameStart hname)]
  rw [text_ofWord]
  exact readsFirst_word hword hname (fun d hd ↦ List.mem_takeWhile_imp hd)
    (endsWord_cons (by decide) (by decide))

/-- A symbol is the longest one that its characters and a blank begin with. -/
theorem restarts_symbol {text : String} (h : text ∈ Lexeme.symbols) : Restarts (.symbol text) := by
  intro more
  have hmarks : ∀ s ∈ Lexeme.symbols, s.toList ≠ [] ∧ s.toList.head?.all isMark = true := by
    decide +kernel
  have hcomments : ∀ s ∈ Lexeme.symbols, s.toList.head? = some '/' →
      (s.toList.tail ++ [' ']).head? ≠ some '/' ∧ (s.toList.tail ++ [' ']).head? ≠ some '*' := by
    decide +kernel
  have hlongests : ∀ s ∈ Lexeme.symbols, Lexeme.symbols.find? (fun s' ↦ s'.toList.isPrefixOf
      (s.toList.take 1 ++ (s.toList.tail ++ [' ']).take 1)) = some s := by decide +kernel
  obtain ⟨c, cs, hcs⟩ := List.exists_cons_of_ne_nil (hmarks text h).1
  have hmark : isMark c = true := by simpa [hcs] using (hmarks text h).2
  have hcomment := hcomments text h
  have hlongest := hlongests text h
  rw [hcs, List.tail_cons] at hcomment hlongest
  have hbehind : (cs ++ ' ' :: more).take 1 = (cs ++ [' ']).take 1 := by cases cs <;> rfl
  have hnext : (cs ++ ' ' :: more).head? = (cs ++ [' ']).head? := by cases cs <;> rfl
  refine readsFirst_symbol (by rw [hcs, List.cons_append]) hmark
    (fun hslash ↦ hnext ▸ hcomment (congrArg some hslash)) ?_
  rw [hbehind, Lexeme.longestSymbol?]
  exact congrArg (Option.map _) hlongest

theorem readLexeme_restarts (hc : c ≠ '"') (hrest : lx.cursor.rest = c :: rest) :
    Ensures (fun _ ↦ True) (readLexeme inner c rest) lx fun l _ ↦ l.isTrivia = false →
    Restarts l := by
  rw [readLexeme]
  refine .branch (fun _ h ↦ by cases h) fun _ ↦
    .branch (fun _ _ ↦ restarts_lineBreak (by decide)) fun _ ↦
    .branch (fun _ ↦ .branch (fun _ _ ↦ restarts_lineBreak (by decide)) fun _ _ ↦
      restarts_lineBreak (by decide))
    fun _ ↦ .branch (fun _ h ↦ by cases h) fun _ ↦ .branch (fun _ ↦ ?_) fun _ ↦
      .branch (fun hquote ↦ absurd hquote hc)
    fun _ ↦ .branch (fun hplain ↦ ?_) fun _ ↦ .branch (fun hdigit _ ↦ ?_) fun _ ↦
      .branch (fun hname _ ↦ ?_) fun _ ↦ ?_
  · rw [readBlockComment]
    refine .get_bind (Ensures.bind (Q := fun _ _ ↦ True) trivial fun _ lx₁ _ ↦ ?_)
    refine Ensures.bind (Q := fun _ _ ↦ True) trivial fun run lx₂ _ ↦ ?_
    exact .branch (fun _ h ↦ by cases h) fun _ ↦ .throw trivial
  · exact .intro (fun l lx₁ hread _ ↦ restarts_readPlainString (hplain ▸ hrest) hread)
      fun _ _ _ ↦ trivial
  · have hnumber := restarts_number hdigit rest
    rw [← hrest] at hnumber
    exact hnumber
  · have hword := restarts_word hname rest
    rw [← hrest] at hword
    exact hword
  · split
    · next lexeme hsymbol =>
      obtain ⟨s, hs, rfl, -⟩ := longestSymbol?_eq_some hsymbol
      exact fun _ ↦ restarts_symbol hs
    · exact .get_bind (.throw trivial)

/-! ## Tokens -/

theorem IsBetween.isFresh (h : lx.IsBetween) : lx.IsFresh :=
  ⟨h.bare.rules, h.bare.extensions, h.queued, h.ended⟩

/-- A single blank is read by itself. -/
theorem exists_readTokenWith_blank (inner : Lexer → Except ScriptError (List Token))
    (hlx : lx.IsBetween)
    (hrest : lx.cursor.rest = ' ' :: more) (hmore : ∀ c ∈ more.head?, Cursor.isSpacing c = false) :
    ∃ t, t.kind = .whitespace ∧ readTokenWith inner lx = .ok t
      { lx with cursor := lx.cursor.advance 1 } := by
  obtain ⟨position, offset, hread⟩ := (readsFirst_blank hmore).readTokenWith_eq inner hlx.isFresh
    (.inr (by simp [Lexeme.text])) (by simp [Lexeme.text]) hrest
  exact ⟨_, rfl, hread⟩

/-- A token other than a comment is read from its spelling, if a blank follows. -/
theorem readTokenWith_spaced (hlx : lx.IsBetween) (hlx' : lx'.IsBetween)
    (hmarker : lx'.dialect.marker = lx.dialect.marker) (hinner : ∀ k, lx'.levels = k + 1 →
      Recuts inner inner' k)
    (hlevels : t.lexeme.nesting ≤ lx'.levels) (hread : readTokenWith inner lx = .ok t lx₁)
    (hend : t.isEnd = false) (htrivia : t.lexeme.isTrivia = false)
    (hrest' : lx'.cursor.rest = t.text.toList ++ ' ' :: more) :
    ∃ t' lx₁', readTokenWith inner' lx' = .ok t' lx₁' ∧ t.lexeme.Displaced t'.lexeme := by
  have hreads := reads_of_readTokenWith hread hend
  obtain ⟨c, rest, l, hrest, hl, rfl⟩ := exists_readLexeme hread hend
  have hhead : l.text.toList.head? = some c := hreads.head?_eq hrest
  by_cases hc : c = '"'
  · rw [hc, readLexeme_quote] at hl
    obtain ⟨l', lx₁', hl', hdisplaced⟩ :=
      readString_respelled hmarker hlx.bare hlx'.bare hinner hlevels
      (by simp [hrest]) hl hrest'
    obtain ⟨cs, hcs⟩ : ∃ cs, l.text.toList = '"' :: cs := List.head?_eq_some_iff.mp (hc ▸ hhead)
    have hquote : lx'.cursor.rest = '"' :: (cs ++ ' ' :: more) := by
      rw [hrest', ← List.cons_append, ← hcs]
      rfl
    rw [← readLexeme_quote (cs ++ ' ' :: more)] at hl'
    exact ⟨_, lx₁', readTokenWith_of_readLexeme hquote hl', hdisplaced⟩
  · have hsuits : lx'.Suits l := .inr (by rw [hhead]; simpa using hc)
    have hfirst := (readLexeme_restarts hc hrest).of_ok hl htrivia
    obtain ⟨position, offset, hread'⟩ :=
      (hfirst more).readTokenWith_eq inner' hlx'.isFresh hsuits hreads.nonempty hrest'
    exact ⟨_, _, hread', .same ((readLexeme_kind_ne hc rest).of_ok hl)⟩

/-- A lexeme that is not blank begins neither with a blank nor with a byte order mark. -/
theorem readLexeme_head (hblank : l.kind ≠ .whitespace)
    (hread : readLexeme inner c rest lx = .ok l lx₁) :
    Cursor.isSpacing c = false ∧ c ≠ '\uFEFF' := by
  refine ⟨eq_false_of_ne_true fun hspacing ↦ ?_, ?_⟩
  · simp only [readLexeme, ite_run, if_pos hspacing] at hread
    cases hread
    exact hblank rfl
  · rintro rfl
    have hfirsts : ∀ s ∈ Lexeme.symbols, s.toList.head? ≠ some '\uFEFF' := by decide
    have hnone : Lexeme.longestSymbol? ('\uFEFF' :: rest.take 1) = none := by
      refine Option.eq_none_iff_forall_ne_some.mpr fun l hl ↦ ?_
      obtain ⟨s, hs, -, behind, hbehind⟩ := longestSymbol?_eq_some hl
      refine hfirsts s hs ?_
      rw [← List.head?_append_of_ne_nil _ (symbols_ne_empty hs), hbehind, List.head?_cons]
    simp only [readLexeme, ite_run] at hread
    have hslash : '\uFEFF' ≠ '/' := by decide
    rw [if_neg (by decide), if_neg (by decide), if_neg (by decide), if_neg (fun h ↦ hslash h.1),
      if_neg (fun h ↦ hslash h.1), if_neg (by decide), if_neg (by decide), if_neg (by decide),
      if_neg (by decide +kernel), hnone] at hread
    cases hread

/-- The spellings of the tokens, with a blank behind each of them. -/
def spaced (tokens : List Token) : List Char := tokens.flatMap fun t ↦ t.text.toList ++ [' ']

theorem spaced_cons (t : Token) (tokens : List Token) :
    spaced (t :: tokens) = t.text.toList ++ ' ' :: spaced tokens := by
  rw [spaced, List.flatMap_cons, List.append_assoc]
  rfl

/-- With the end of the text, which has no spelling, a blank follows every other token. -/
theorem toList_intercalate_text {last : Token} (hlast : last.text = "") :
    (" ".intercalate ((tokens ++ [last]).map Token.text)).toList = spaced tokens := by
  rw [String.toList_intercalate]
  induction tokens with
  | nil => simp [hlast, spaced]
  | cons t tokens ih =>
    have hne : tokens ++ [last] ≠ [] := by simp
    obtain ⟨u, us, hus⟩ := List.exists_cons_of_ne_nil hne
    rw [spaced_cons, ← ih, List.cons_append, hus]
    simp [List.intercalate]

/-- How the spellings of tokens of a text begin. -/
theorem Cuts.head_spaced (h : Cuts inner lx tokens lx₁) :
    ∀ c ∈ (Lexer.spaced tokens).head?, Cursor.isSpacing c = false ∧ c ≠ '\uFEFF' := by
  induction h with
  | nil => simp [Lexer.spaced]
  | blank _ _ _ ih => exact ih
  | token hread ht hend _ _ =>
    intro c hc
    have hreads := reads_of_readTokenWith hread hend
    obtain ⟨d, rest, l, hrest, hl, rfl⟩ := exists_readLexeme hread hend
    have hhead := hreads.head?_eq hrest
    obtain rfl : d = c := by
      rw [spaced_cons] at hc
      exact Option.some.inj
        (hhead.symm.trans ((List.head?_append_of_ne_nil _ hreads.nonempty).symm.trans hc))
    exact readLexeme_head ht hl

/-- Sections are not nested deeper than the levels allow. The induction is on the levels. -/
theorem Decomposes.nesting_le (h : Decomposes lx t) : t.lexeme.nesting ≤ lx.levels := by
  induction hlevels : lx.levels using Nat.strong_induction_on generalizing lx t with
  | _ levels ih =>
    cases h with
    | str _ _ _ hlexeme => simp [hlexeme, Lexeme.nesting]
    | other _ _ hkind => simp [Lexeme.nesting_of_kind hkind]
    | interpolated _ hlexeme _ hchunks hsection =>
      obtain ⟨tokens, htokens⟩ := hsection
      obtain ⟨-, -, -, hpositive, -⟩ := hchunks.exists_section htokens
      rw [hlexeme, Lexeme.nesting, ← hlevels]
      refine Nat.add_le_of_le_sub hpositive (sectionsNesting_le_iff.mpr fun tokens htokens ↦ ?_)
      obtain ⟨before, body, after, -, -, hinside⟩ := hchunks.exists_section htokens
      exact tokensNesting_le_iff.mpr fun t ht ↦ ih (lx.levels - 1) (by omega) (hinside t ht) rfl

/-- **Tokens with blanks between them.** In front of the spellings of tokens that were cut, none of
which is a comment, with a blank behind each, a lexer cuts the same tokens. -/
theorem Cuts.spaced (hcuts : Cuts inner lx tokens lx₁) (hlx : lx.IsBetween) (hlx' : lx'.IsBetween)
    (hmarker : lx'.dialect.marker = lx.dialect.marker) (hindex : lx'.index = lx.index)
    (hinner : ∀ k, lx'.levels = k + 1 → Recuts inner inner' k)
    (hlevels : tokensNesting tokens ≤ lx'.levels)
    (hcomment : ∀ t ∈ tokens, t.kind ≠ .comment) (hrest' : lx'.cursor.rest = Lexer.spaced tokens) :
    ∃ tokens' lx₁', Cuts inner' lx' tokens' lx₁' ∧ List.Forall₂ Token.Displaced tokens tokens' ∧
      lx₁'.cursor.rest = [] ∧ lx₁'.index = lx₁.index := by
  induction hcuts generalizing lx' with
  | nil => exact ⟨[], lx', .nil, .nil, hrest', hindex⟩
  | @blank lx lx₂ lx₁ t tokens hread ht hcuts ih =>
    have hreads := reads_of_readTokenWith hread (isEnd_of_kind ht (by decide))
    exact ih (hreads.isBetween hlx) hlx' (hreads.dialect_eq ▸ hmarker)
      (hindex.trans hreads.index_eq.symm)
      hinner hlevels hcomment hrest'
  | @token lx lx₂ lx₁ t tokens hread ht hend hcuts ih =>
    have hreads := reads_of_readTokenWith hread hend
    obtain ⟨hfirst, hlater⟩ := List.forall_mem_cons.mp hcomment
    obtain ⟨hnesting, hnestings⟩ := List.forall_mem_cons.mp (tokensNesting_le_iff.mp hlevels)
    rw [spaced_cons] at hrest'
    have htrivia : t.lexeme.isTrivia = false := by
      rw [Lexeme.isTrivia]
      split
      · next hkind => exact absurd hkind hfirst
      · next hkind => exact absurd hkind ht
      · rfl
    obtain ⟨t', lx₂', hread', hsame⟩ :=
      readTokenWith_spaced (t := t) hlx hlx' hmarker hinner hnesting hread hend htrivia hrest'
    have hkind : t'.kind = t.kind := hsame.kind_eq
    have hend' : t'.isEnd = false := by rwa [Token.isEnd, hkind]
    have hreads' := reads_of_readTokenWith hread' hend'
    -- behind the token stands a blank
    have hbehind : lx₂'.counting.cursor.rest = ' ' :: Lexer.spaced tokens := by
      have hpassed := hreads'.passed
      rw [hsame.text_eq] at hpassed
      exact hpassed.behind hrest'
    have hbetween := (hreads'.isBetween hlx').counting
    obtain ⟨u, hu, hblank⟩ := exists_readTokenWith_blank inner' hbetween hbehind
      fun c hc ↦ (hcuts.head_spaced c hc).1
    have hreadsBlank := reads_of_readTokenWith hblank (isEnd_of_kind hu (by decide))
    have hmarker₂ : lx₂'.dialect.marker = lx₂.dialect.marker := by
      rw [hreads'.dialect_eq, hreads.dialect_eq, hmarker]
    have hindex₂ : lx₂'.index + 1 = lx₂.index + 1 := by
      rw [hreads'.index_eq, hreads.index_eq, hindex]
    have hrest₂ : (lx₂'.cursor.advance 1).rest = Lexer.spaced tokens := by
      rw [Cursor.rest_advance, show lx₂'.cursor.rest = _ from hbehind]
      rfl
    obtain ⟨tokens', lx₁', hcuts', hall, hend₁, hindex₁⟩ := ih (hreads.isBetween hlx).counting
      (hreadsBlank.isBetween hbetween) hmarker₂ hindex₂ (hreads'.levels_eq ▸ hinner)
      (hreads'.levels_eq ▸ tokensNesting_le_iff.mpr hnestings) hlater hrest₂
    refine ⟨_, lx₁', .token hread' (hkind.trans_ne ht) hend' (.blank hblank hu hcuts'),
      .cons ?_ hall, hend₁, hindex₁⟩
    rw [hindex]
    exact .mk hsame

/-- **Tokens are self-delimiting.** The spellings of the tokens of a text without comments, joined
with a blank between neighbours, are cut into the same tokens, up to their places and those of the
tokens in sections. -/
theorem exists_tokenize_intercalate {d : Dialect} (hbare : d.IsBare) {text : String}
    (h : (ofText d text).tokenize = .ok tokens) (hcomment : ∀ t ∈ tokens, t.kind ≠ .comment) :
    ∃ tokens', (ofText d (" ".intercalate (tokens.map Token.text))).tokenize = .ok tokens' ∧
      List.Forall₂ Token.Displaced tokens tokens' := by
  have hlx := isBetween_ofText hbare text
  obtain ⟨body, lx₁, hcuts, -, rfl⟩ := (tokenize_eq_ok_iff hlx).mp h
  obtain ⟨hcomments, -⟩ := List.forall_mem_append.mp hcomment
  have hjoined : (" ".intercalate ((body ++ [lx₁.endToken]).map Token.text)).toList = spaced body :=
    toList_intercalate_text rfl
  have hrest : (ofText d (" ".intercalate ((body ++ [lx₁.endToken]).map Token.text))).cursor.rest =
    spaced body := by
    refine (Cursor.contents_eq_toList fun hmark ↦ ?_).trans hjoined
    rw [hjoined] at hmark
    exact (hcuts.head_spaced _ hmark).2 rfl
  have hinner (k : Nat) (hk : d.maxNesting = k + 1) :
      Recuts (sectionTokens d.maxNesting) (sectionTokens d.maxNesting) k := by
    have hsections := recuts_sectionTokens d.maxNesting k
    rwa [← hk] at hsections
  have hnesting : tokensNesting body ≤ d.maxNesting := by
    have hdecomposes := (hcuts.decomposes (cutsSections_sectionTokens hbare rfl) (.refl _)).1
    exact tokensNesting_le_iff.mpr fun t ht ↦ (hdecomposes t ht).nesting_le
  have hlx' := isBetween_ofText hbare (" ".intercalate ((body ++ [lx₁.endToken]).map Token.text))
  obtain ⟨body', lx₁', hcuts', hall, hend, hindex⟩ :=
    hcuts.spaced hlx hlx' rfl rfl hinner hnesting hcomments hrest
  refine ⟨_, (tokenize_eq_ok_iff hlx').mpr ⟨body', lx₁', hcuts', hend, rfl⟩, List.rel_append hall
    (.cons ?_ .nil)⟩
  rw [endToken, endToken, hindex]
  exact .mk (.same (by simp [Lexeme.kind]))

/-- Marks and numbers side by side, a line break, and a string with a string in its section. -/
def sampleMarks : String := "x=-1.5.y\r\n!=\"a#\x7bf('b', \"c\")\x7d\""

theorem exists_tokenize_intercalate_sampleMarks :
    (Dialect.plain '#').IsBare ∧ ∃ tokens, (ofText (.plain '#') sampleMarks).tokenize = .ok tokens ∧
      tokens.map Token.text = ["x", "=", "-", "1.5", ".", "y", "\r\n", "!=",
        "\"a#\x7bf('b', \"c\")\x7d\"", ""] ∧
      (∀ t ∈ tokens, t.kind ≠ .comment) ∧
      ∃ tokens', (ofText (.plain '#') (" ".intercalate (tokens.map Token.text))).tokenize =
      .ok tokens' ∧
        List.Forall₂ Token.Displaced tokens tokens' := by
  have hbare : (Dialect.plain '#').IsBare := ⟨rfl, rfl⟩
  obtain ⟨tokens, hrun, hall⟩ : ∃ tokens, (ofText (.plain '#') sampleMarks).tokenize = .ok tokens ∧
      (tokens.map Token.text, decide (∀ t ∈ tokens, t.kind ≠ .comment)) =
        (["x", "=", "-", "1.5", ".", "y", "\r\n", "!=", "\"a#\x7bf('b', \"c\")\x7d\"", ""], true) :=
    exists_eq_ok_of_map_eq_some (by decide +kernel)
  obtain ⟨htexts, hcomments⟩ := Prod.mk.inj hall
  have hcomment := of_decide_eq_true hcomments
  exact ⟨hbare, tokens, hrun, htexts, hcomment, exists_tokenize_intercalate hbare hrun hcomment⟩

end Lexer

end ScriptFront
