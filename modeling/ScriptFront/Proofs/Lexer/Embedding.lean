import ScriptFront.Proofs.Lexer.Bodies
import ScriptFront.Proofs.Lexer.Matches
import ScriptFront.Proofs.Lexer.Seam

/-!
# Texts in sections

A text that is cut into tokens can be put into a section of a string, and the section then has the
same tokens. Two things are needed. The section has to end where the text does, which is what the
search for its closing brace decides; and the lexer of the section, which allows one level less,
must not come to an end of its levels.

So two lexers are followed that stand in front of the same characters, the second of which allows as
many levels as the tokens of the first are nested. They read the same lexemes, up to the places of
tokens in sections; only a double-quoted string has anything to do with levels.
-/

namespace ScriptFront

/-! ## How deep sections are nested -/

mutual

/-- How deep sections are nested in a lexeme. -/
def Lexeme.nesting : Lexeme → Nat
  | .interpolated _ parts => sectionsNesting parts + 1
  | _ => 0

/-- How deep sections are nested in the parts of a string. -/
def sectionsNesting : List Section → Nat
  | [] => 0
  | .text _ :: rest => sectionsNesting rest
  | .tokens tokens :: rest => max (tokensNesting tokens) (sectionsNesting rest)

/-- How deep sections are nested in tokens. -/
def tokensNesting : List Token → Nat
  | [] => 0
  | .mk lexeme _ _ _ :: rest => max lexeme.nesting (tokensNesting rest)

end

section

variable {tokens : List Token} {parts : List Section} {k : Nat}

theorem Lexeme.nesting_of_kind {l : Lexeme} (h : l.kind ≠ .interpolated) : l.nesting = 0 := by
  cases l with
  | interpolated => exact absurd rfl h
  | _ => rfl

theorem tokensNesting_le_iff : tokensNesting tokens ≤ k ↔ ∀ t ∈ tokens, t.lexeme.nesting ≤ k := by
  induction tokens with
  | nil => simp [tokensNesting]
  | cons t rest ih =>
    obtain ⟨lexeme, position, offset, index⟩ := t
    rw [tokensNesting, Nat.max_le, ih, List.forall_mem_cons]
    rfl

theorem sectionsNesting_le_iff :
    sectionsNesting parts ≤ k ↔ ∀ tokens, Section.tokens tokens ∈ parts →
    tokensNesting tokens ≤ k := by
  induction parts with
  | nil => simp [sectionsNesting]
  | cons part rest ih =>
    cases part with
    | text value => simp [sectionsNesting, ih]
    | tokens tokens =>
      rw [sectionsNesting, Nat.max_le, ih]
      simp

end

/-! ## The same tokens in other places -/

mutual

/-- The lexemes are the same up to the places of tokens in sections. -/
inductive Lexeme.Displaced : Lexeme → Lexeme → Prop
  /-- Without sections they are the same. -/
  | same {l : Lexeme} (h : l.kind ≠ .interpolated) : Lexeme.Displaced l l
  /-- With sections, the tokens of these stand in other places. -/
  | interpolated (raw : String) {parts parts' : List Section}
      (h : List.Forall₂ (Section.Matches Token.Displaced) parts parts') :
      Lexeme.Displaced (.interpolated raw parts) (.interpolated raw parts')

/-- The tokens are the same up to their places, and so are those in their sections. -/
inductive Token.Displaced : Token → Token → Prop
  /-- Positions and offsets may differ. -/
  | mk {l l' : Lexeme} {position position' : Position} {offset offset' index : Nat}
      (h : Lexeme.Displaced l l') :
      Token.Displaced (.mk l position offset index) (.mk l' position' offset' index)

end

/-- Without the spelling of line breaks and without sections there is nothing that similar lexemes
differ in. -/
theorem Lexeme.Similar.eq {l l' : Lexeme} (h : l.Similar l') (htext : l'.text = l.text)
    (hkind : l.kind ≠ .interpolated) : l' = l := by
  cases h with
  | same => rfl
  | newLine => exact congrArg Lexeme.newLine htext
  | interpolated => exact absurd rfl hkind

theorem Lexeme.Displaced.kind_eq {l l' : Lexeme} (h : l.Displaced l') : l'.kind = l.kind := by
  cases h with
  | same => rfl
  | interpolated => rfl

theorem Lexeme.Displaced.text_eq {l l' : Lexeme} (h : l.Displaced l') : l'.text = l.text := by
  cases h with
  | same => rfl
  | interpolated => rfl

namespace Lexer

variable {inner inner' : Lexer → Except ScriptError (List Token)}
    {lx lx' lx₁ lx₁' : Lexer} {t : Token}
  {tokens : List Token} {l : Lexeme} {more : List Char} {opening : Position}

/-- Both lexers have the same characters in front of them, and the same marker. The numbers that
they give to tokens are the same. -/
structure Faces (lx lx' : Lexer) : Prop where
  /-- The characters. -/
  rest : lx'.cursor.rest = lx.cursor.rest
  /-- The marker. -/
  marker : lx'.dialect.marker = lx.dialect.marker
  /-- The number of the next token. -/
  index : lx'.index = lx.index

/-- Texts that are cut by `inner` are cut into the same tokens by `inner'`, which allows `k` levels,
unless sections are nested deeper. -/
def Recuts (inner inner' : Lexer → Except ScriptError (List Token)) (k : Nat) : Prop :=
  ∀ lx lx' tokens, lx.IsBetween → lx'.IsBetween → Faces lx lx' → lx'.levels = k →
  tokensNesting tokens ≤ k →
    inner lx = .ok tokens → ∃ tokens', inner' lx' = .ok tokens' ∧
    List.Forall₂ Token.Displaced tokens tokens'

theorem Faces.advance (h : Faces lx lx') (n : Nat) :
    Faces { lx with cursor := lx.cursor.advance n } { lx' with cursor := lx'.cursor.advance n } :=
  ⟨by simp [h.rest], h.marker, h.index⟩

/-! ## Lexemes other than double-quoted strings -/

/-- Only a double-quoted string has sections. -/
theorem readLexeme_congr {c : Char} (hc : c ≠ '"') (rest : List Char)
    (inner' : Lexer → Except ScriptError (List Token)) :
    readLexeme inner c rest = readLexeme inner' c rest := by
  simp [readLexeme, hc]

/-- In front of the same characters the same lexeme is read, whatever the levels. -/
theorem readLexeme_faces {c : Char} {rest : List Char} {l : Lexeme} (hc : c ≠ '"')
    (hbare : lx.dialect.IsBare)
    (hface : lx'.cursor.rest = lx.cursor.rest) (hrest : lx.cursor.rest = c :: rest)
    (hread : readLexeme inner c rest lx = .ok l lx₁) :
    ∃ lx₁', readLexeme inner' c rest lx' = .ok l lx₁' := by
  rw [readLexeme_congr hc rest (sectionTokens 0)] at hread
  rw [readLexeme_congr hc rest (sectionTokens 0)]
  -- the dialect and the levels of the first lexer make no difference to the second one
  have hext : Extends [] lx (lx'.under lx.dialect lx.levels) := ⟨rfl, rfl, by rwa [List.append_nil]⟩
  obtain ⟨l', lx₂, hread', hsimilar, tail, hext₁, htail⟩ :=
    readLexeme_extends (cutsAlike_sectionTokens 0) isTail_nil hext hbare hrest hread
  rw [List.append_nil] at hread'
  obtain rfl : tail = [] := htail.resolve_right (by simp)
  have hrest' : (lx'.under lx.dialect lx.levels).cursor.rest = c :: rest := hface.trans hrest
  have htext : l'.text = l.text := String.ext
    (hext.spelling_eq hext₁ (readLexeme_reads hrest hread).passed
      (readLexeme_reads hrest' hread').passed)
  obtain rfl := hsimilar.eq htext ((readLexeme_kind_ne hc rest).of_ok hread)
  have hback := ignoresDialect_readLexeme (sectionTokens 0) hc rest (lx'.under lx.dialect lx.levels)
    lx'.dialect lx'.levels
  rw [hread'] at hback
  exact ⟨_, hback⟩

/-! ## Double-quoted strings -/

/-- The sections that were read stay. -/
theorem Contents.mem_found {text : List Char} {parts : List Section}
    {found : List Char × List Section} (h : Contents inner text parts lx found lx₁)
    (hmem : Section.tokens tokens ∈ parts) : Section.tokens tokens ∈ found.2 := by
  induction h with
  | close => exact hmem
  | escape _ _ ih | char _ _ _ _ _ ih => exact ih hmem
  | embedded _ _ _ _ _ _ _ ih => exact ih (List.mem_cons_of_mem _ (mem_closeText.mpr hmem))

/-- What is left of a spelling behind a part of a string, when it stands elsewhere too. -/
theorem Contents.exists_behind {text : List Char} {parts : List Section}
    {found : List Char × List Section} {front spelling : List Char} {lx₂ : Lexer}
    (h : Contents inner text parts lx₁ found lx₂) (hfront : Passed lx front lx₁)
    (hpassed : Passed lx spelling lx₂) (hrest : lx'.cursor.rest = spelling ++ more) :
    ∃ later lx₁', later ≠ [] ∧ spelling = front ++ later ∧ Passed lx₁ later lx₂ ∧
      Passed lx' front lx₁' ∧ lx₁'.cursor.rest = later ++ more := by
  obtain ⟨later, hlater, hne⟩ := h.exists_passed
  obtain rfl := hpassed.unique (hfront.trans hlater)
  have hsplit := hrest.trans (List.append_assoc ..)
  have hfront' := passed_append hsplit
  exact ⟨later, _, hne, rfl, hlater, hfront', hfront'.behind hsplit⟩

/-- The content of a string is the same where its characters stand, whatever follows them. -/
theorem Contents.respelled {text : List Char} {parts parts' : List Section}
    {found : List Char × List Section} {spelling : List Char}
    (hcontents : Contents inner text parts lx found lx₁) (hpassed : Passed lx spelling lx₁)
    (hrest' : lx'.cursor.rest = spelling ++ more)
    (hmarker : lx'.dialect.marker = lx.dialect.marker) (hbare : lx.dialect.IsBare)
    (hbare' : lx'.dialect.IsBare) (hinner : ∀ k, lx'.levels = k + 1 → Recuts inner inner' k)
    (hparts : List.Forall₂ (Section.Matches Token.Displaced) parts parts')
    (hlevels : ∀ tokens, Section.tokens tokens ∈ found.2 → tokensNesting tokens < lx'.levels) :
    ∃ parts₁ lx₁', Contents inner' text parts' lx' (found.1, parts₁) lx₁' ∧
      List.Forall₂ (Section.Matches Token.Displaced) found.2 parts₁ ∧ Passed lx' spelling lx₁' := by
  induction hcontents generalizing lx' parts' spelling with
  | close hp =>
    obtain rfl := hpassed.unique hp
    have hp' := passed_append hrest'
    exact ⟨parts', _, .close hp', hparts, hp'⟩
  | escape hp hrest ih =>
    obtain ⟨later, lx₁', -, rfl, hlater, hp', hbehind⟩ := hrest.exists_behind hp hpassed hrest'
    obtain ⟨parts₁, lx₂', hcontents', hall, hlater'⟩ := ih hlater hbehind
      (by rw [hp'.dialect_eq, hp.dialect_eq, hmarker]) (hp.dialect_eq ▸ hbare)
      (hp'.dialect_eq ▸ hbare') (hp'.levels_eq ▸ hinner) hparts (hp'.levels_eq ▸ hlevels)
    exact ⟨parts₁, lx₂', .escape hp' hcontents', hall, hp'.trans hlater'⟩
  | @embedded _ _ lx _ _ _ body tokens hp hslash hquote _ hbody hcut hrest ih =>
    obtain ⟨later, lx₁', -, rfl, hlater, hp', hbehind⟩ := hrest.exists_behind hp hpassed hrest'
    -- the section is among the parts in the end, so its tokens are not nested too deep
    have hnesting := hlevels tokens (hrest.mem_found List.mem_cons_self)
    obtain ⟨k, hk⟩ := Nat.exists_eq_add_of_le' (Nat.zero_lt_of_lt hnesting)
    have hless : (lx'.sectionAt 2 body).levels = k := congrArg (· - 1) hk
    obtain ⟨tokens', hcut', hdisplaced⟩ :=
      hinner k hk (lx.sectionAt 2 body) (lx'.sectionAt 2 body) tokens
        (isBetween_sectionAt hbare 2 body) (isBetween_sectionAt hbare' 2 body) ⟨rfl, hmarker, rfl⟩
        hless (by omega) hcut
    obtain ⟨parts₁, lx₂', hcontents', hall, hlater'⟩ := ih hlater hbehind
      (by rw [hp'.dialect_eq, hp.dialect_eq, hmarker]) (hp.dialect_eq ▸ hbare)
      (hp'.dialect_eq ▸ hbare') (hp'.levels_eq ▸ hinner)
      (.cons (.tokens hdisplaced) (forall₂_closeText .text _ hparts)) (hp'.levels_eq ▸ hlevels)
    refine ⟨parts₁, lx₂', ?_, hall, hp'.trans hlater'⟩
    rw [← hmarker] at hp' hslash hquote
    exact .embedded hp' hslash hquote (Nat.zero_lt_of_lt hnesting) hbody hcut' hcontents'
  | char hp hslash hquote hsection hrest ih =>
    obtain ⟨later, lx₁', hne, rfl, hlater, hp', hbehind⟩ := hrest.exists_behind hp hpassed hrest'
    obtain ⟨parts₁, lx₂', hcontents', hall, hlater'⟩ := ih hlater hbehind
      (by rw [hp'.dialect_eq, hp.dialect_eq, hmarker]) (hp.dialect_eq ▸ hbare)
      (hp'.dialect_eq ▸ hbare') (hp'.levels_eq ▸ hinner) hparts (hp'.levels_eq ▸ hlevels)
    refine ⟨parts₁, lx₂', .char hp' hslash hquote ?_ hcontents', hall, hp'.trans hlater'⟩
    rw [hmarker, hbehind, List.head?_append_of_ne_nil _ hne]
    rwa [hlater.rest_eq, List.head?_append_of_ne_nil _ hne] at hsection

theorem readString_respelled (hmarker : lx'.dialect.marker = lx.dialect.marker)
    (hbare : lx.dialect.IsBare)
    (hbare' : lx'.dialect.IsBare) (hinner : ∀ k, lx'.levels = k + 1 → Recuts inner inner' k)
    (hlevels : l.nesting ≤ lx'.levels) (hne : lx.cursor.rest ≠ [])
    (hread : readString inner lx = .ok l lx₁)
    (hrest' : lx'.cursor.rest = l.text.toList ++ more) :
    ∃ l' lx₁', readString inner' lx' = .ok l' lx₁' ∧ l.Displaced l' := by
  have hone : 1 ≤ lx.cursor.rest.length := List.length_pos_iff.mpr hne
  have hfirst : (lx.cursor.rest.take 1).length = 1 := by rw [List.length_take, Nat.min_eq_left hone]
  obtain ⟨⟨text, parts⟩, hcontents, rfl⟩ := readString_eq_ok_iff.mp hread
  obtain ⟨spelling, hspelling, -⟩ := hcontents.exists_passed
  have hpassed := (passed_take hone).trans hspelling
  rw [text_literalOf, hpassed.since_eq, String.toList_ofList, List.append_assoc] at hrest'
  have hopening := passed_append hrest'
  have hfound (tokens : List Token) (htokens : Section.tokens tokens ∈ parts) :
      tokensNesting tokens < lx'.levels := by
    rw [literalOf, if_neg (by simp [List.ne_nil_of_mem htokens])] at hlevels
    refine Nat.lt_of_le_of_lt (sectionsNesting_le_iff.mp (Nat.le_refl _) tokens ?_) hlevels
    rw [List.mem_reverse]
    exact mem_closeText.mpr htokens
  obtain ⟨parts', lx₁', hcontents', hdisplaced, hspelling'⟩ := hcontents.respelled hspelling
    (hopening.behind hrest') hmarker hbare hbare' hinner .nil hfound
  have hraw : lx₁'.cursor.since lx'.cursor.pos = lx₁.cursor.since lx.cursor.pos := by
    rw [hpassed.since_eq, (hopening.trans hspelling').since_eq]
  have hplain (raw s : String) : (Lexeme.str raw s).Displaced (.str raw s) :=
    .same (by simp [Lexeme.kind])
  rw [hfirst] at hcontents'
  refine ⟨_, lx₁', readString_eq_ok_iff.mpr ⟨_, hcontents', rfl⟩, ?_⟩
  rw [hraw]
  exact literalOf_related .text hplain .interpolated _ _ hdisplaced

/-! ## Tokens -/

theorem readTokenWith_recuts (h : Faces lx lx') (hbare : lx.dialect.IsBare)
    (hbare' : lx'.dialect.IsBare)
    (hinner : ∀ k, lx'.levels = k + 1 → Recuts inner inner' k)
    (hlevels : t.lexeme.nesting ≤ lx'.levels)
    (hend : t.isEnd = false) (hread : readTokenWith inner lx = .ok t lx₁) :
    ∃ t' lx₁', readTokenWith inner' lx' = .ok t' lx₁' ∧ t.lexeme.Displaced t'.lexeme ∧
    Faces lx₁ lx₁' := by
  have hreads := reads_of_readTokenWith hread hend
  have hsame := h.rest.trans hreads.passed.rest_eq
  obtain ⟨c, rest, l, hrest, hl, rfl⟩ := exists_readLexeme hread hend
  obtain ⟨l', lx₁', hl', hdisplaced⟩ :
      ∃ l' lx₁', readLexeme inner' c rest lx' = .ok l' lx₁' ∧ l.Displaced l' := by
    by_cases hc : c = '"'
    · rw [hc, readLexeme_quote] at hl ⊢
      exact readString_respelled h.marker hbare hbare' hinner hlevels (by simp [hrest]) hl hsame
    · obtain ⟨lx₁', hl'⟩ : ∃ lx₁', readLexeme inner' c rest lx' = .ok l lx₁' :=
        readLexeme_faces hc hbare h.rest hrest hl
      exact ⟨l, lx₁', hl', .same ((readLexeme_kind_ne hc rest).of_ok hl)⟩
  have hrest' := h.rest.trans hrest
  have hpassed' := (readLexeme_reads hrest' hl').passed
  rw [hdisplaced.text_eq] at hpassed'
  refine ⟨_, lx₁', readTokenWith_of_readLexeme hrest' hl', hdisplaced,
    hpassed'.behind hsame, ?_, ?_⟩
  · rw [hreads.dialect_eq, hpassed'.moved]
    exact h.marker
  · rw [hreads.index_eq, hpassed'.moved]
    exact h.index

/-- **The same tokens, with less room for sections.** -/
theorem Cuts.recuts (hcuts : Cuts inner lx tokens lx₁) (h : Faces lx lx') (hlx : lx.IsBetween)
    (hlx' : lx'.IsBetween) (hinner : ∀ k, lx'.levels = k + 1 → Recuts inner inner' k)
    (hlevels : tokensNesting tokens ≤ lx'.levels) :
    ∃ tokens' lx₁', Cuts inner' lx' tokens' lx₁' ∧ List.Forall₂ Token.Displaced tokens tokens' ∧
      Faces lx₁ lx₁' := by
  rw [tokensNesting_le_iff] at hlevels
  induction hcuts generalizing lx' with
  | nil => exact ⟨[], lx', .nil, .nil, h⟩
  | @blank lx lx₂ lx₁ t tokens hread ht hcuts ih =>
    have hend := isEnd_of_kind ht (by decide)
    have hflat :=
      Lexeme.nesting_of_kind (ht.trans_ne (show TokenKind.whitespace ≠ .interpolated by decide))
    obtain ⟨t', lx₂', hread', hsame, h₂⟩ :=
      readTokenWith_recuts h hlx.bare hlx'.bare hinner (by omega) hend hread
    have ht' : t'.kind = .whitespace := hsame.kind_eq.trans ht
    have hreads := reads_of_readTokenWith hread hend
    have hreads' := reads_of_readTokenWith hread' (isEnd_of_kind ht' (by decide))
    obtain ⟨tokens', lx₁', hcuts', hrest⟩ := ih h₂ (hreads.isBetween hlx) (hreads'.isBetween hlx')
      (hreads'.levels_eq ▸ hinner) (hreads'.levels_eq ▸ hlevels)
    exact ⟨tokens', lx₁', .blank hread' ht' hcuts', hrest⟩
  | @token lx lx₂ lx₁ t tokens hread ht hend hcuts ih =>
    obtain ⟨hnesting, hlater⟩ := List.forall_mem_cons.mp hlevels
    obtain ⟨t', lx₂', hread', hsame, h₂⟩ :=
      readTokenWith_recuts (t := t) h hlx.bare hlx'.bare hinner hnesting hend hread
    have hkind : t'.kind = t.kind := hsame.kind_eq
    have ht' : t'.kind ≠ .whitespace := hkind.symm ▸ ht
    have hend' : t'.isEnd = false := by rwa [Token.isEnd, hkind]
    have hreads := reads_of_readTokenWith hread hend
    have hreads' := reads_of_readTokenWith hread' hend'
    obtain ⟨tokens', lx₁', hcuts', hall, h₁⟩ := ih
      (show Faces lx₂.counting lx₂'.counting from ⟨h₂.rest, h₂.marker, congrArg (· + 1) h₂.index⟩)
      (hreads.isBetween hlx).counting (hreads'.isBetween hlx').counting
      (hreads'.levels_eq ▸ hinner) (hreads'.levels_eq ▸ hlater)
    refine ⟨_, lx₁', .token hread' ht' hend' hcuts', .cons ?_ hall, h₁⟩
    rw [h.index]
    exact .mk hsame

theorem CutsAll.recuts (hcuts : CutsAll inner lx tokens) (h : Faces lx lx') (hlx : lx.IsBetween)
    (hlx' : lx'.IsBetween) (hinner : ∀ k, lx'.levels = k + 1 → Recuts inner inner' k)
    (hlevels : tokensNesting tokens ≤ lx'.levels) :
    ∃ tokens', CutsAll inner' lx' tokens' ∧ List.Forall₂ Token.Displaced tokens tokens' := by
  obtain ⟨body, lx₁, hbody, hrest, rfl⟩ := hcuts
  have hlevels' : tokensNesting body ≤ lx'.levels := by
    rw [tokensNesting_le_iff] at hlevels ⊢
    exact fun t ht ↦ hlevels t (List.mem_append_left _ ht)
  obtain ⟨body', lx₁', hbody', hall, h₁⟩ := hbody.recuts h hlx hlx' hinner hlevels'
  refine ⟨_, ⟨body', lx₁', hbody', h₁.rest.trans hrest, rfl⟩, List.rel_append hall (.cons ?_ .nil)⟩
  rw [endToken, endToken, h₁.index]
  exact .mk (.same (by simp [Lexeme.kind]))

/-- A section is cut into the same tokens by a lexer that allows as many levels as there are. The
induction is on the levels. -/
theorem recuts_sectionTokens (levels k : Nat) :
    Recuts (sectionTokens levels) (sectionTokens (k + 1)) k := by
  induction levels generalizing k with
  | zero => exact fun lx lx' tokens _ _ _ _ _ h ↦ nomatch h
  | succ levels ih =>
    intro lx lx' tokens hlx hlx' h hk hlevels hcut
    subst hk
    have hinner (k : Nat) (hk : lx'.levels = k + 1) :
        Recuts (sectionTokens levels) (sectionTokens lx'.levels) k :=
      hk ▸ ih k
    obtain ⟨tokens', hall', hall⟩ :=
      ((sectionTokens_eq_ok_iff hlx levels).mp hcut).recuts h hlx hlx' hinner hlevels
    exact ⟨tokens', (sectionTokens_eq_ok_iff hlx' _).mpr hall', hall⟩

/-! ## A text in a section -/

/-- The string whose only part is a section with this text. -/
def embedded (text : String) : String := "\"#\x7b" ++ text ++ "\x7d\""

theorem toList_embedded (text : String) :
    (embedded text).toList = '"' :: '#' :: '\x7b' :: (text.toList ++ ['\x7d', '"']) := by
  simp [embedded]

/-- Where the section ends behind its text, its tokens are the only part of the string. -/
theorem readString_embedded {body : String} (hmarker : lx.dialect.marker = '#')
    (hlevels : 0 < lx.levels)
    (hbody : IsBody body.toList)
    (hrest : lx.cursor.rest = '"' :: '#' :: '\x7b' :: (body.toList ++ ['\x7d', '"']))
    (hcut : inner (lx.sectionAt 3 body) = .ok tokens) :
    ∃ raw lx₁, readString inner lx = .ok (.interpolated raw [.tokens tokens]) lx₁ ∧
    lx₁.cursor.rest = [] := by
  obtain ⟨lx₁, hquote, hrest₁⟩ := exists_passed (show _ = ['"'] ++ _ from hrest)
  have hmarker₁ : lx₁.dialect.marker = '#' := hquote.dialect_eq ▸ hmarker
  have hmark : lx₁.cursor.rest =
      lx₁.dialect.marker :: '\x7b' :: (body.toList ++ ['\x7d']) ++ ['"'] := by
    rw [hrest₁, hmarker₁]
    simp
  obtain ⟨lx₂, hsection, hrest₂⟩ := exists_passed hmark
  obtain ⟨lx₃, hclose, hrest₃⟩ := exists_passed (show _ = ['"'] ++ [] from hrest₂)
  have hplace : lx₁.sectionAt 2 body = lx.sectionAt 3 body :=
    ((Reached.refl lx).passed hquote).sectionAt_eq 2 body
  have hcontents : Contents inner [] [] lx₁ ([], [.tokens tokens]) lx₃ :=
    .embedded hsection (by simp [hmarker₁]) (by simp [hmarker₁]) (hquote.levels_eq ▸ hlevels)
      (hbody.trans (congrArg some String.length_toList)) (hplace ▸ hcut) (.close hclose)
  rw [hquote.moved] at hcontents
  exact ⟨_, lx₃, readString_eq_ok_iff.mpr ⟨_, hcontents, rfl⟩, hrest₃⟩

/-- **Scripts in sections.** A text that is cut into tokens without coming to the last level, whose
braces are balanced, is also cut into these tokens in a section, and the string has no other part.
The texts of comments and of strings with sections must be harmless, as the section ends where the
search for its brace says. -/
theorem exists_tokenize_embedded {d : Dialect} (hbare : d.IsBare)
    (hmarker : d.marker = Dialect.defaultMarker)
    {text : String} (h : (ofText d text).tokenize = .ok tokens)
    (hnesting : tokensNesting tokens < d.maxNesting)
    (hbalance : BracesBalance tokens) (hharmless : Harmless tokens) :
    ∃ t last tokens', (ofText d (embedded text)).tokenize = .ok [t, last] ∧
      t.lexeme = .interpolated (embedded text) [.tokens tokens'] ∧ last.kind = .endOfInput ∧
        List.Forall₂ Token.Displaced tokens tokens' := by
  have hbody := isBody_of_tokenize hbare h hbalance hharmless
  obtain ⟨k, hk⟩ := Nat.exists_eq_add_of_le' (Nat.zero_lt_of_lt hnesting)
  have hbetween := isBetween_ofText hbare text
  have hbetween' := isBetween_ofText hbare (embedded text)
  have hrest : (ofText d (embedded text)).cursor.rest = '"' :: '#' :: '\x7b' ::
    (text.toList ++ ['\x7d', '"']) :=
    (Cursor.contents_eq_toList (by simp [toList_embedded])).trans (toList_embedded text)
  -- the section has the same tokens
  have hless : ((ofText d (embedded text)).sectionAt 3 text).levels = k := congrArg (· - 1) hk
  have hfaces : Faces (ofText d text) ((ofText d (embedded text)).sectionAt 3 text) :=
    ⟨rfl, rfl, rfl⟩
  have hsection : ((ofText d (embedded text)).sectionAt 3 text).IsBetween :=
    isBetween_sectionAt hbare 3 text
  have hinner (n : Nat) (hn : k = n + 1) :
      Recuts (sectionTokens d.maxNesting) (sectionTokens k) n :=
    hn ▸ recuts_sectionTokens d.maxNesting n
  obtain ⟨tokens', hcut, hall⟩ :=
    ((tokenize_eq_ok_iff hbetween).mp h).recuts hfaces hbetween hsection
    (hless.symm ▸ hinner) (by omega)
  have hcut' : (ofText d (embedded text)).inner ((ofText d (embedded text)).sectionAt 3 text) =
    .ok tokens' := by
    rw [hless] at hcut
    rw [Lexer.inner, show (ofText d (embedded text)).levels = k + 1 from hk]
    exact (sectionTokens_eq_ok_iff hsection k).mpr hcut
  -- and the string is the whole text
  obtain ⟨raw, lx₁, hread, hend⟩ :=
    readString_embedded hmarker (Nat.zero_lt_of_lt hnesting) hbody hrest hcut'
  rw [← readLexeme_quote ('#' :: '\x7b' :: (text.toList ++ ['\x7d', '"']))] at hread
  have hraw : raw = embedded text := by
    have hsplit := (readLexeme_reads hrest hread).passed.rest_eq
    rw [hrest, ← toList_embedded, hend, List.append_nil] at hsplit
    exact (String.ext hsplit).symm
  have htoken := readTokenWith_of_readLexeme hrest hread
  have hcuts := Cuts.token htoken (by simp [Token.kind, Token.lexeme, Lexeme.kind]) rfl .nil
  exact ⟨_, _, tokens', (tokenize_eq_ok_iff hbetween').mpr ⟨_, _, hcuts, hend, rfl⟩, hraw ▸ rfl,
    rfl, hall⟩

/-- A call with a brace in a string, a comment with braces, and a map with a section of its own. -/
def sampleCall : String := "f(\"\x7d\", /* \x7ba\x7d */ \x7bk: \"#\x7bb\x7d\"\x7d)"

theorem exists_tokenize_embedded_sampleCall :
    (Dialect.plain '#').IsBare ∧ ∃ tokens, (ofText (.plain '#') sampleCall).tokenize = .ok tokens ∧
      tokensNesting tokens < Dialect.defaultNesting ∧ BracesBalance tokens ∧ Harmless tokens ∧
      ∃ t last tokens', (ofText (.plain '#') (embedded sampleCall)).tokenize = .ok [t, last] ∧
        t.lexeme = .interpolated (embedded sampleCall) [.tokens tokens'] ∧ last.kind = .endOfInput ∧
        List.Forall₂ Token.Displaced tokens tokens' := by
  have hbare : (Dialect.plain '#').IsBare := ⟨rfl, rfl⟩
  obtain ⟨tokens, hrun, hcan⟩ : ∃ tokens, (ofText (.plain '#') sampleCall).tokenize = .ok tokens ∧
      decide (tokensNesting tokens < Dialect.defaultNesting ∧ BracesBalance tokens ∧
        Harmless tokens) = true :=
    exists_eq_ok_of_map_eq_some (by decide +kernel)
  obtain ⟨hnesting, hbalance, hharmless⟩ := of_decide_eq_true hcan
  exact ⟨hbare, tokens, hrun, hnesting, hbalance, hharmless,
    exists_tokenize_embedded hbare rfl hrun hnesting hbalance hharmless⟩

/-- A string, in whose section stands a string with a brace. -/
def sampleBrace : String := "\"#\x7b\"\x7d\"\x7d\""

/-- For the search the quote in front of the brace closes the quotation, and the section ends at
this brace. -/
theorem not_exists_tokenize_embedded :
    ¬ ∀ text tokens, (ofText (.plain '#') text).tokenize = .ok tokens →
      tokensNesting tokens < Dialect.defaultNesting → BracesBalance tokens →
      ∃ t last tokens', (ofText (.plain '#') (embedded text)).tokenize = .ok [t, last] ∧
        t.lexeme = .interpolated (embedded text) [.tokens tokens'] ∧ last.kind = .endOfInput ∧
        List.Forall₂ Token.Displaced tokens tokens' := by
  intro hall
  obtain ⟨tokens, hrun, hcan⟩ : ∃ tokens, (ofText (.plain '#') sampleBrace).tokenize = .ok tokens ∧
      decide (tokensNesting tokens < Dialect.defaultNesting ∧ BracesBalance tokens) = true :=
    exists_eq_ok_of_map_eq_some (by decide +kernel)
  obtain ⟨hnesting, hbalance⟩ := of_decide_eq_true hcan
  obtain ⟨t, last, tokens', hembedded, -⟩ := hall sampleBrace tokens hrun hnesting hbalance
  have hfails : (ofText (.plain '#') (embedded sampleBrace)).tokenize.isOk = false := by
    decide +kernel
  rw [hembedded] at hfails
  cases hfails

end Lexer

end ScriptFront
