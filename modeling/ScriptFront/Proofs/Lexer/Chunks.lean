import Mathlib.Data.List.Chain
import ScriptFront.Proofs.Lexer.PlainText
import ScriptFront.Proofs.Lexer.Cuts
import ScriptFront.Proofs.Lexer.Sections

/-!
# Strings are made of chunks

What stands between the quotes of a string is a row of chunks, and each part of the string is what
one of them says. Literal text is said by the characters themselves or behind a backslash; a section
is a marker and a text between braces, which a lexer of its own, that stands in front of this text
and allows one level less, has cut into tokens.

Reading a string takes the chunks one after the other. The chunk that is being read is not complete
before the next section or the closing quote, so the induction over the characters carries it along:
the characters of it that were passed, and the text that they say.

The tokens of a section are cut in the same way, so `Decomposes` is said of them as well, at any
depth.
-/

namespace ScriptFront

open Relation (ReflTransGen)

/-- The part is literal text. -/
def Section.IsText (part : Section) : Prop := ∃ value, part = .text value

/-- In a string with this marker, and in front of the characters `after`, the characters say this
text: a backslash protects what follows it, and there is no other quote and no other marker in front
of a brace. -/
inductive Says (marker : Char) (after : List Char) : List Char → List Char → Prop
  /-- Nothing. -/
  | nil : Says marker after [] []
  /-- A character behind a backslash. -/
  | escape {d : Char} {cs text : List Char} (h : Says marker after cs text) :
      Says marker after ('\\' :: d :: cs) (Text.unescape d :: text)
  /-- A character that stands for itself. -/
  | char {c : Char} {cs text : List Char} (hslash : c ≠ '\\') (hquote : c ≠ '"')
      (hsection : ¬ (c = marker ∧ (cs ++ after).head? = some '\x7b'))
      (h : Says marker after cs text) :
      Says marker after (c :: cs) (c :: text)

namespace Lexer

/-- The token stands `n` characters ahead. -/
structure Stands (lx : Lexer) (n : Nat) (t : Token) : Prop where
  /-- Its spelling is found there. -/
  ahead : t.text.toList <+: lx.cursor.rest.drop n
  /-- Its line and column are those of the place. -/
  position : t.position = (lx.cursor.advance n).position
  /-- Its offset is that of the place. -/
  offset : t.offset = lx.base + (lx.cursor.advance n).pos

mutual

/-- **What a token is made of**, cut by this lexer from the text ahead. -/
inductive Decomposes : Lexer → Token → Prop
  /-- A string with sections: chunks between quotes, one for each part. Some part is a section, no
  text is empty, and no two texts stand side by side. -/
  | interpolated {lx : Lexer} {t : Token} {n : Nat} {cs : List Char} {parts : List Section}
      (hstands : lx.Stands n t) (hlexeme : t.lexeme = .interpolated t.text parts)
      (htext : t.text.toList = '"' :: cs) (hchunks : Chunks lx (n + 1) cs parts)
      (hsection : ∃ tokens, Section.tokens tokens ∈ parts) (hempty : Section.text "" ∉ parts)
      (halternate : parts.IsChain fun part next ↦ ¬ (part.IsText ∧ next.IsText)) : Decomposes lx t
  /-- A string without sections, which is what is said between the quotes. -/
  | str {lx : Lexer} {t : Token} {n : Nat} {cs value : List Char} (hstands : lx.Stands n t)
      (htext : t.text.toList = '"' :: (cs ++ ['"'])) (hsaid : Says lx.dialect.marker ['"'] cs value)
      (hlexeme : t.lexeme = .str t.text (String.ofList value)) : Decomposes lx t
  /-- A token that does not begin with a double quote. -/
  | other {lx : Lexer} {t : Token} {n : Nat} (hstands : lx.Stands n t)
      (htext : t.text.toList.head? ≠ some '"') (hkind : t.kind ≠ .interpolated) : Decomposes lx t

/-- The characters, `n` characters ahead and in front of `after`, are a chunk for the part. -/
inductive Chunk : Lexer → Nat → List Char → List Char → Section → Prop
  /-- Literal text. -/
  | text {lx : Lexer} {n : Nat} {after cs value : List Char} (hne : cs ≠ [])
      (hsaid : Says lx.dialect.marker after cs value) :
      Chunk lx n after cs (.text (String.ofList value))
  /-- A section, whose text ends in front of the brace that closes it. Its tokens are those that its
  own lexer cuts. -/
  | tokens {lx : Lexer} {n : Nat} {after : List Char} {body : String} {tokens : List Token}
      (hlevels : 0 < lx.levels)
      (hbody : sectionLength? none 1 0 (body.toList ++ ['\x7d']) = some body.length)
      (hcut : (lx.sectionAt (n + 2) body).tokenize = .ok tokens)
      (hinside : ∀ t ∈ tokens, Decomposes (lx.sectionAt (n + 2) body) t) :
      Chunk lx n after (lx.dialect.marker :: '\x7b' :: (body.toList ++ ['\x7d'])) (.tokens tokens)

/-- The characters, `n` characters ahead, are a chunk for each of the parts and the closing
quote. -/
inductive Chunks : Lexer → Nat → List Char → List Section → Prop
  /-- The closing quote. -/
  | close {lx : Lexer} {n : Nat} : Chunks lx n ['"'] []
  /-- A chunk, and what follows it. -/
  | cons {lx : Lexer} {n : Nat} {chunk cs : List Char} {part : Section} {parts : List Section}
      (hchunk : Chunk lx n cs chunk part) (hchunks : Chunks lx (n + chunk.length) cs parts) :
      Chunks lx n (chunk ++ cs) (part :: parts)

end

end Lexer

/-! ## What characters say -/

namespace Says

variable {marker c d : Char} {after after' cs text : List Char}

/-- Of what follows, only the first character counts. -/
theorem congr_head (h : Says marker after cs text) (hafter : after'.head? = after.head?) :
    Says marker after' cs text := by
  induction h with
  | nil => exact .nil
  | escape _ ih => exact .escape ih
  | @char c cs text hslash hquote hsection _ ih =>
    refine .char hslash hquote ?_ ih
    rwa [List.head?_append, hafter, ← List.head?_append]

/-- One more character that stands for itself. -/
theorem concat (h : Says marker (c :: after) cs text) (hslash : c ≠ '\\') (hquote : c ≠ '"')
    (hsection : ¬ (c = marker ∧ after.head? = some '\x7b')) :
    Says marker after (cs ++ [c]) (text ++ [c]) := by
  induction h with
  | nil => exact .char hslash hquote hsection .nil
  | escape _ ih => exact .escape ih
  | char hslash' hquote' hsection' _ ih =>
    refine .char hslash' hquote' ?_ ih
    rwa [List.append_eq, List.append_assoc, List.singleton_append]

/-- One more character behind a backslash. -/
theorem concat_escape (h : Says marker ('\\' :: d :: after) cs text) :
    Says marker after (cs ++ ['\\', d]) (text ++ [Text.unescape d]) := by
  induction h with
  | nil => exact .escape .nil
  | escape _ ih => exact .escape ih
  | char hslash' hquote' hsection' _ ih =>
    refine .char hslash' hquote' ?_ ih
    rwa [List.append_eq, List.append_assoc]

/-- Characters say nothing only if there are none. -/
theorem eq_nil_iff (h : Says marker after cs text) : text = [] ↔ cs = [] := by
  cases h <;> simp

/-- Characters say one thing only. -/
theorem unique {text' : List Char} (h : Says marker after cs text)
    (h' : Says marker after cs text') :
    text = text' := by
  induction h generalizing text' with
  | nil =>
    cases h'
    rfl
  | escape _ ih =>
    cases h' with
    | escape h' => rw [ih h']
    | char hslash => exact absurd rfl hslash
  | char hslash _ _ _ ih =>
    cases h' with
    | escape => exact absurd rfl hslash
    | char _ _ _ h' => rw [ih h']

/-- Where characters say something up to the closing quote, each beginning of them does, and so does
what follows it. -/
theorem exists_rest {chunk said : List Char} (hchunk : Says marker after chunk said)
    (h : Says marker ['"'] cs text)
    (heq : chunk ++ after = cs ++ ['"']) :
    ∃ cs' text', after = cs' ++ ['"'] ∧ Says marker ['"'] cs' text' := by
  induction hchunk generalizing cs text with
  | nil => exact ⟨cs, text, heq, h⟩
  | escape _ ih =>
    cases h with
    | nil => cases heq
    | escape h =>
      simp only [List.cons_append, List.cons.injEq, true_and] at heq
      exact ih h heq.2
    | char hslash =>
      simp only [List.cons_append, List.cons.injEq] at heq
      exact absurd heq.1.symm hslash
  | char hslash hquote _ _ ih =>
    simp only [List.cons_append] at heq
    cases h with
    | nil =>
      simp only [List.nil_append, List.cons.injEq] at heq
      exact absurd heq.1 hquote
    | escape h =>
      simp only [List.cons_append, List.cons.injEq] at heq
      exact absurd heq.1 hslash
    | char _ _ _ h =>
      simp only [List.cons_append, List.cons.injEq] at heq
      exact ih h heq.2

end Says

namespace Lexer

variable {inner : Lexer → Except ScriptError (List Token)} {lx lx' lx₁ lx₂ : Lexer} {t : Token}
  {n : Nat}

/-! ## Lexers on their way -/

/-- The second lexer is the first one, `n` characters on. Nothing is said about the tokens cut so
far. -/
structure Reached (lx : Lexer) (n : Nat) (lx' : Lexer) : Prop where
  /-- They cut in the same way. -/
  dialect : lx'.dialect = lx.dialect
  /-- They allow as many levels. -/
  levels : lx'.levels = lx.levels
  /-- Their texts begin at the same offset. -/
  base : lx'.base = lx.base
  /-- The cursor has moved. -/
  cursor : lx'.cursor = lx.cursor.advance n

theorem Reached.refl (lx : Lexer) : Reached lx 0 lx := ⟨rfl, rfl, rfl, rfl⟩

theorem Reached.advance (h : Reached lx n lx') (m : Nat) :
    Reached lx (n + m) { lx' with cursor := lx'.cursor.advance m } :=
  ⟨h.dialect, h.levels, h.base, by rw [Cursor.advance_add, ← h.cursor]⟩

theorem Reached.passed {cs : List Char} (h : Reached lx n lx') (hpassed : Passed lx' cs lx₂) :
    Reached lx (n + cs.length) lx₂ := by
  rw [hpassed.moved]
  exact h.advance _

theorem Reached.rest_eq (h : Reached lx n lx') : lx'.cursor.rest = lx.cursor.rest.drop n := by
  rw [h.cursor, Cursor.rest_advance]

/-- A section ahead of the second lexer stands further ahead of the first one. -/
theorem Reached.sectionAt_eq (h : Reached lx n lx') (m : Nat) (body : String) :
    lx'.sectionAt m body = lx.sectionAt (n + m) body := by
  rw [sectionAt, sectionAt, forSection, forSection, h.dialect, h.levels, h.base, h.cursor,
    Cursor.advance_add]

/-- Sections of the text are cut by lexers of their own, and what is cut is made as it should be. -/
def CutsSections (inner : Lexer → Except ScriptError (List Token)) (lx : Lexer) : Prop :=
  ∀ n body tokens, 0 < lx.levels → inner (lx.sectionAt n body) = .ok tokens →
    (lx.sectionAt n body).tokenize = .ok tokens ∧ ∀ t ∈ tokens, Decomposes (lx.sectionAt n body) t

/-! ## Reading a string -/

/-- What is asked of the parts of a string beside their chunks. -/
structure Alternate (parts : List Section) : Prop where
  /-- No text is empty. -/
  nonempty : Section.text "" ∉ parts
  /-- No two texts stand side by side. -/
  chain : parts.IsChain fun part next ↦ ¬ (part.IsText ∧ next.IsText)

theorem Alternate.cons_tokens {parts : List Section} (h : Alternate parts) (tokens : List Token) :
    Alternate (.tokens tokens :: parts) := by
  refine ⟨by simpa using h.nonempty, List.isChain_cons.mpr ⟨fun next _ ↦ ?_, h.chain⟩⟩
  rintro ⟨⟨value, hvalue⟩, -⟩
  cases hvalue

theorem Alternate.cons_text {parts : List Section} (h : Alternate parts) {value : String}
    (hvalue : value ≠ "")
    (hparts : ∀ next ∈ parts.head?, ¬ next.IsText) : Alternate (.text value :: parts) := by
  refine ⟨?_, List.isChain_cons.mpr ⟨fun next hnext ↦ ?_, h.chain⟩⟩
  · simpa [eq_comm, hvalue] using h.nonempty
  · exact fun hboth ↦ hparts next hnext hboth.2

/-- The chunk that is complete, in front of others. -/
theorem Chunks.closeText {text pending cs : List Char} {parts : List Section}
    (hsaid : Says lx.dialect.marker cs pending text.reverse)
    (hchunks : Chunks lx (n + pending.length) cs parts) (halternate : Alternate parts)
    (hparts : ∀ next ∈ parts.head?, ¬ next.IsText) :
    ∃ closed, (∀ done, (Lexer.closeText text done).reverse = done.reverse ++ closed) ∧
      Chunks lx n (pending ++ cs) (closed ++ parts) ∧ Alternate (closed ++ parts) := by
  by_cases htext : text = []
  · obtain rfl : pending = [] := hsaid.eq_nil_iff.mp (by rw [htext, List.reverse_nil])
    exact ⟨[], fun done ↦ by simp [Lexer.closeText, htext], hchunks, halternate⟩
  · have hpending : pending ≠ [] := fun hnil ↦ htext (by simpa using hsaid.eq_nil_iff.mpr hnil)
    refine ⟨[.text (String.ofList text.reverse)], fun done ↦ by simp [Lexer.closeText, htext],
      .cons (.text hpending hsaid) hchunks, halternate.cons_text ?_ hparts⟩
    simpa [String.ext_iff] using htext

/-- What reading the content of a string comes to, `pending` being the characters of the chunk that
was begun: chunks up to the closing quote, and their parts behind those that were read before. -/
def ReadsChunks (lx : Lexer) (n : Nat) (pending : List Char) (parts : List Section) (lx' : Lexer)
    (found : List Char × List Section) (lx₂ : Lexer) : Prop :=
  ∃ cs new, Passed lx' cs lx₂ ∧ Chunks lx n (pending ++ cs) new ∧ Alternate new ∧
    (Lexer.closeText found.1 found.2).reverse = parts.reverse ++ new ∧
    (found.2 = parts ∨ ∃ tokens, Section.tokens tokens ∈ new)

/-- A chunk that goes on is read with more characters. -/
theorem ReadsChunks.behind {more pending : List Char} {parts : List Section}
    {found : List Char × List Section} (hpassed : Passed lx' more lx₁)
    (h : ReadsChunks lx n (pending ++ more) parts lx₁ found lx₂) :
    ReadsChunks lx n pending parts lx' found lx₂ := by
  obtain ⟨cs, new, hpassed', hchunks, hrest⟩ := h
  refine ⟨more ++ cs, new, hpassed.trans hpassed', ?_, hrest⟩
  rwa [← List.append_assoc]

/-- The content of a string consists of chunks, `pending` being what was read of the first one. -/
theorem Contents.chunks {text pending : List Char} {parts : List Section}
    {found : List Char × List Section} (hinner : CutsSections inner lx)
    (h : Contents inner text parts lx' found lx₂) (hreached : Reached lx (n + pending.length) lx')
    (hsaid : Says lx.dialect.marker lx'.cursor.rest pending text.reverse) :
    ReadsChunks lx n pending parts lx' found lx₂ := by
  induction h generalizing n pending with
  | close hp =>
    rw [hp.rest_eq] at hsaid
    have hquote : Chunks lx (n + pending.length) ['"'] [] := .close
    obtain ⟨closed, hclosed, hchunks, halternate⟩ :=
      Chunks.closeText (hsaid.congr_head (by rfl)) hquote ⟨by simp, .nil⟩ (by simp)
    rw [List.append_nil] at hchunks halternate
    exact ⟨['"'], closed, hp, hchunks, halternate, hclosed _, .inl rfl⟩
  | escape hp _ ih =>
    have hreached' := hreached.passed hp
    rw [Nat.add_assoc, ← List.length_append] at hreached'
    rw [hp.rest_eq] at hsaid
    refine (ih hreached' ?_).behind hp
    rw [List.reverse_cons]
    exact hsaid.concat_escape
  | @embedded _ _ lx₀ lx₁ _ _ body tokens hp _ _ hlevels hbody hcut _ ih =>
    have hpositive : 0 < lx.levels := hreached.levels ▸ hlevels
    rw [hreached.sectionAt_eq] at hcut
    obtain ⟨htokens, hinside⟩ := hinner _ _ _ hpositive hcut
    rw [hp.rest_eq] at hsaid
    rw [hreached.dialect] at hp hsaid
    -- behind the section a new chunk begins
    have hreached' := hreached.passed hp
    obtain ⟨cs, new, hpassed, hchunks, halternate, hclosed, -⟩ := @ih _ [] hreached' .nil
    have hchunk : Chunk lx (n + pending.length) cs
        (lx.dialect.marker :: '\x7b' :: (body.toList ++ ['\x7d'])) (.tokens tokens) :=
      .tokens hpositive hbody htokens hinside
    obtain ⟨closed, hcloses, hall, halternates⟩ :=
      Chunks.closeText (hsaid.congr_head (by rfl)) (.cons hchunk hchunks)
        (halternate.cons_tokens tokens) (by simp [Section.IsText])
    refine ⟨_, _, hp.trans hpassed, hall, halternates, ?_, .inr ⟨tokens, by simp⟩⟩
    rw [hclosed, List.reverse_cons, hcloses]
    simp
  | char hp hslash hquote hsection _ ih =>
    have hreached' := hreached.passed hp
    rw [Nat.add_assoc, ← List.length_append] at hreached'
    rw [hp.rest_eq] at hsaid
    rw [hreached.dialect] at hsection
    refine (ih hreached' ?_).behind hp
    rw [List.reverse_cons]
    exact hsaid.concat hslash hquote hsection

/-- A single chunk of text is in front of the closing quote. -/
theorem Chunks.exists_says {value : String} {cs : List Char} (h : Chunks lx n cs [.text value]) :
    ∃ content, cs = content ++ ['"'] ∧ Says lx.dialect.marker ['"'] content value.toList := by
  obtain _ | ⟨⟨-, hsaid⟩, hclose⟩ := h
  cases hclose
  exact ⟨_, rfl, by rwa [String.toList_ofList]⟩

/-- Where the tokens of a section come from: a text between braces, behind the marker. -/
theorem Chunks.exists_section {cs : List Char} {parts : List Section} {tokens : List Token}
    (h : Chunks lx n cs parts) (hmem : Section.tokens tokens ∈ parts) :
    ∃ (before : List Char) (body : String) (after : List Char), 0 < lx.levels ∧
      cs = before ++ lx.dialect.marker :: '\x7b' :: (body.toList ++ '\x7d' :: after) ∧
      ∀ t ∈ tokens, Decomposes (lx.sectionAt (n + before.length + 2) body) t := by
  induction parts generalizing n cs with
  | nil => cases hmem
  | cons part parts ih =>
    obtain _ | ⟨hchunk, hchunks⟩ := h
    rcases List.mem_cons.mp hmem with rfl | hmem
    · obtain _ | ⟨hlevels, -, -, hinside⟩ := hchunk
      exact ⟨[], _, _, hlevels, congrArg (_ :: '\x7b' :: ·) (List.append_assoc ..), hinside⟩
    · obtain ⟨before, body, after, hlevels, rfl, hinside⟩ := ih hchunks hmem
      refine ⟨_ ++ before, body, after, hlevels, (List.append_assoc ..).symm, ?_⟩
      rwa [List.length_append, ← Nat.add_assoc]

theorem readString_decomposes {l : Lexeme} {rest : List Char} (hinner : CutsSections inner lx)
    (hreached : Reached lx n lx') (hrest : lx'.cursor.rest = '"' :: rest)
    (h : readString inner lx' = .ok l lx₂) (ht : t.lexeme = l) (hstands : lx.Stands n t) :
    Decomposes lx t := by
  obtain ⟨⟨text, parts⟩, hcontents, rfl⟩ := readString_eq_ok_iff.mp h
  have hopening : Passed lx' ['"'] { lx' with cursor := lx'.cursor.advance 1 } :=
    passed_append (by exact hrest)
  have hreached₁ : Reached lx (n + 1 + ([] : List Char).length) _ := hreached.passed hopening
  obtain ⟨cs, new, hpassed, hchunks, halternate, hclosed, hnew⟩ :=
    hcontents.chunks hinner hreached₁ .nil
  rw [List.nil_append] at hchunks
  rw [List.reverse_nil, List.nil_append] at hclosed
  rw [(hopening.trans hpassed).since_eq] at ht
  have hspelled : t.text = String.ofList (['"'] ++ cs) := by
    rw [Token.text, ht, text_literalOf]
  have htext : t.text.toList = '"' :: cs := by
    rw [hspelled, String.toList_ofList]
    rfl
  rw [literalOf] at ht
  dsimp only at ht hclosed hnew
  by_cases hparts : parts.isEmpty = true
  · rw [if_pos hparts] at ht
    obtain rfl := List.isEmpty_iff.mp hparts
    obtain ⟨content, rfl, hsaid⟩ : ∃ content, cs = content ++ ['"'] ∧
        Says lx.dialect.marker ['"'] content text.reverse := by
      by_cases hempty : text = []
      · subst hempty
        obtain rfl : [] = new := hclosed
        cases hchunks
        exact ⟨[], rfl, .nil⟩
      · obtain rfl : [Section.text (String.ofList text.reverse)] = new := by
          simpa [closeText, hempty] using hclosed
        simpa using hchunks.exists_says
    exact .str hstands htext hsaid (by rw [hspelled, ht])
  · rw [if_neg hparts, hclosed] at ht
    have hsection : ∃ tokens, Section.tokens tokens ∈ new := by
      rcases hnew with rfl | hnew
      · exact absurd rfl hparts
      · exact hnew
    exact .interpolated hstands (by rw [ht, hspelled]) htext hchunks hsection
      halternate.nonempty halternate.chain

/-! ## Tokens -/

/-- A spelling begins with the next character. -/
theorem Reads.head?_eq {l : Lexeme} {c : Char} {rest : List Char} (h : Reads lx l lx')
    (hrest : lx.cursor.rest = c :: rest) : l.text.toList.head? = some c := by
  have hsplit := h.passed.rest_eq
  rw [hrest] at hsplit
  rw [← List.head?_append_of_ne_nil _ h.nonempty, ← hsplit, List.head?_cons]

theorem readTokenWith_decomposes (hinner : CutsSections inner lx) (hreached : Reached lx n lx')
    (h : readTokenWith inner lx' = .ok t lx₂) : Decomposes lx t := by
  have hposition : lx'.cursor.position = (lx.cursor.advance n).position := by rw [hreached.cursor]
  have hoffset : lx'.base + lx'.cursor.pos = lx.base + (lx.cursor.advance n).pos := by
    rw [hreached.base, hreached.cursor]
  rw [readTokenWith, get_bind_run] at h
  cases hrest : lx'.cursor.rest with
  | nil =>
    simp only [hrest] at h
    cases h
    exact .other ⟨List.nil_prefix, hposition, hoffset⟩
      (by simp [Token.text, Token.lexeme, Lexeme.text])
      (by simp [Token.kind, Token.lexeme, Lexeme.kind])
  | cons c rest =>
    simp only [hrest] at h
    obtain ⟨l, lx₁, hl, h⟩ := bind_eq_ok_iff.mp h
    cases h
    have hreads := readLexeme_reads hrest hl
    have hstands : lx.Stands n (.mk l lx'.cursor.position (lx'.base + lx'.cursor.pos) 0) :=
      ⟨hreached.rest_eq ▸ hreads.passed.ahead, hposition, hoffset⟩
    by_cases hc : c = '"'
    · rw [hc] at hrest hl
      rw [readLexeme_quote] at hl
      exact readString_decomposes hinner hreached hrest hl rfl hstands
    · refine .other hstands (fun hquote ↦ hc ?_) ((readLexeme_kind_ne hc rest).of_ok hl)
      exact Option.some.inj ((hreads.head?_eq hrest).symm.trans hquote)

/-- The number of a token does not count. -/
theorem Decomposes.withIndex (h : Decomposes lx t) (index : Nat) :
    Decomposes lx (t.withIndex index) := by
  obtain ⟨l, position, offset, _⟩ := t
  cases h with
  | interpolated hstands hlexeme htext hchunks hsection hempty halternate =>
    exact .interpolated ⟨hstands.ahead, hstands.position, hstands.offset⟩ hlexeme htext hchunks
      hsection hempty
      halternate
  | str hstands htext hsaid hlexeme =>
    exact .str ⟨hstands.ahead, hstands.position, hstands.offset⟩ htext hsaid hlexeme
  | other hstands htext hkind =>
    exact .other ⟨hstands.ahead, hstands.position, hstands.offset⟩ htext hkind

/-! ## Strings without sections -/

/-- Characters that say something up to the closing quote have no section among their chunks. -/
theorem Chunks.tokens_notMem {cs content value : List Char} {parts : List Section}
    {tokens : List Token}
    (h : Chunks lx n cs parts) (hquote : lx.dialect.marker ≠ '"')
    (hslash : lx.dialect.marker ≠ '\\')
    (hcs : cs = content ++ ['"']) (hsaid : Says lx.dialect.marker ['"'] content value) :
    Section.tokens tokens ∉ parts := by
  induction parts generalizing n cs content value with
  | nil => simp
  | cons part parts ih =>
    obtain _ | ⟨hchunk, hchunks⟩ := h
    cases hchunk with
    | text _ hchunk =>
      obtain ⟨content', value', hcs', hsaid'⟩ := hchunk.exists_rest hsaid hcs
      simpa using ih hchunks hcs' hsaid'
    | tokens =>
      exfalso
      simp only [List.cons_append] at hcs
      cases hsaid with
      | nil => exact hquote (List.cons.inj hcs).1
      | escape => exact hslash (List.cons.inj hcs).1
      | char _ _ hsection =>
        obtain ⟨hmarker, hrest⟩ := List.cons.inj hcs
        exact hsection ⟨hmarker.symm, congrArg List.head? hrest.symm⟩

/-- A double-quoted token without a section is a string, and its value is what its characters
say. -/
theorem Decomposes.lexeme_eq {content value : List Char} (h : Decomposes lx t)
    (hquote : lx.dialect.marker ≠ '"') (hslash : lx.dialect.marker ≠ '\\')
    (htext : t.text.toList = '"' :: (content ++ ['"']))
    (hsaid : Says lx.dialect.marker ['"'] content value) :
    t.lexeme = .str t.text (String.ofList value) := by
  cases h with
  | interpolated _ _ htext' hchunks hsection =>
    obtain ⟨tokens, htokens⟩ := hsection
    have hcs := (List.cons.inj (htext'.symm.trans htext)).2
    exact absurd htokens (hchunks.tokens_notMem hquote hslash hcs hsaid)
  | str _ htext' hsaid' hlexeme =>
    have hcs := List.append_cancel_right (List.cons.inj (htext'.symm.trans htext)).2
    subst hcs
    rw [hlexeme, hsaid'.unique hsaid]
  | other _ htext' => exact absurd (by rw [htext]; rfl) htext'

/-- **Every token that is cut is made as it should be.** -/
theorem Cuts.decomposes {tokens : List Token} (h : Cuts inner lx' tokens lx₂)
    (hinner : CutsSections inner lx)
    (hreached : Reached lx n lx') : (∀ t ∈ tokens, Decomposes lx t) ∧ ∃ m, Reached lx m lx₂ := by
  induction h generalizing n with
  | nil => exact ⟨by simp, n, hreached⟩
  | blank hread ht _ ih =>
    exact ih (hreached.passed (reads_of_readTokenWith hread (isEnd_of_kind ht (by decide))).passed)
  | @token lx' lx₁ lx₂ t tokens hread ht hend _ ih =>
    have hreached₁ := hreached.passed (reads_of_readTokenWith hread hend).passed
    obtain ⟨htokens, hlast⟩ :=
      ih ⟨hreached₁.dialect, hreached₁.levels, hreached₁.base, hreached₁.cursor⟩
    have ht := (readTokenWith_decomposes hinner hreached hread).withIndex lx'.index
    exact ⟨List.forall_mem_cons.mpr ⟨ht, htokens⟩, hlast⟩

theorem CutsAll.decomposes {tokens : List Token} (h : CutsAll inner lx tokens)
    (hinner : CutsSections inner lx) : ∀ t ∈ tokens, Decomposes lx t := by
  obtain ⟨body, lx₁, hcuts, hrest, rfl⟩ := h
  obtain ⟨hbody, n, hreached⟩ := hcuts.decomposes hinner (.refl lx)
  have hend :=
    (readTokenWith_decomposes hinner hreached (readTokenWith_end hrest)).withIndex lx₁.index
  exact List.forall_mem_append.mpr ⟨hbody, List.forall_mem_singleton.mpr hend⟩

/-- Sections are cut by lexers one level deeper. The induction is on the levels that are left. -/
theorem cutsSections_sectionTokens {levels : Nat} (hbare : lx.dialect.IsBare)
    (hlevels : lx.levels = levels) :
    CutsSections (sectionTokens levels) lx := by
  induction levels generalizing lx with
  | zero => exact fun _ _ _ hpositive ↦ absurd hlevels (Nat.ne_of_gt hpositive)
  | succ levels ih =>
    intro n body tokens _ hcut
    have hbetween := isBetween_sectionAt hbare n body
    have hdeeper : (lx.sectionAt n body).levels = levels := by
      change lx.levels - 1 = levels
      omega
    have hall := (sectionTokens_eq_ok_iff hbetween levels).mp hcut
    refine ⟨?_, hall.decomposes (ih hbare hdeeper)⟩
    rw [tokenize_eq_ok_iff hbetween, Lexer.inner, hdeeper]
    exact hall

/-- **Strings decompose.** Whatever the marker and the bound on nesting are, without rules and
extensions every token of a text is made as `Decomposes` says, and so are those of the sections of
strings, at any depth. -/
theorem tokenize_decomposes {d : Dialect} (hbare : d.IsBare) {text : String} {tokens : List Token}
    (h : (ofText d text).tokenize = .ok tokens) : ∀ t ∈ tokens, Decomposes (ofText d text) t :=
  ((tokenize_eq_ok_iff ⟨hbare, rfl, rfl⟩).mp h).decomposes (cutsSections_sectionTokens hbare rfl)

/-- A string with text, an escaped quote, a section with a string of its own, and a section more. -/
theorem tokenize_decomposes_nested :
    (Dialect.plain '#').IsBare ∧
      ∃ tokens, (ofText (.plain '#') "x = \"a\\\"#\x7bf(\"#\x7bb\x7d\")\x7d#\x7bc\x7d\"").tokenize =
      .ok tokens ∧
        tokens.map Token.kind = [.ident, .symbol, .interpolated, .endOfInput] ∧
        ∀ t ∈ tokens,
          Decomposes (ofText (.plain '#') "x = \"a\\\"#\x7bf(\"#\x7bb\x7d\")\x7d#\x7bc\x7d\"")
            t := by
  have hbare : (Dialect.plain '#').IsBare := ⟨rfl, rfl⟩
  obtain ⟨tokens, hrun, hkinds⟩ : ∃ tokens,
      (ofText (.plain '#') "x = \"a\\\"#\x7bf(\"#\x7bb\x7d\")\x7d#\x7bc\x7d\"").tokenize =
      .ok tokens ∧
        tokens.map Token.kind = [.ident, .symbol, .interpolated, .endOfInput] :=
    exists_eq_ok_of_map_eq_some (by decide +kernel)
  exact ⟨hbare, tokens, hrun, hkinds, tokenize_decomposes hbare hrun⟩

end Lexer

end ScriptFront

 