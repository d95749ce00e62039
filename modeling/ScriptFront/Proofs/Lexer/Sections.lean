import ScriptFront.Proofs.Lexer.Endings
import ScriptFront.Proofs.Lexer.Similar

/-!
# Numbers of tokens and parts of strings

Whatever rules are set, a lexer numbers the tokens it yields upwards, and so do the lexers of
embedded sections. A string that is read from a text has parts of its own kind: `Sectioned` says
that one of them is a section, and that the tokens of each section are in order. Rules may put other
strings into the stream, with sections that the host has made up; so what is said of all strings of
a stream has to hold of these, too.
-/

namespace ScriptFront

/-! ## Strings at any depth -/

mutual

/-- The parts of the string that the lexeme is, and of those in its sections, satisfy `p`. -/
def Lexeme.EachString (p : List Section → Prop) : Lexeme → Prop
  | .interpolated _ parts => p parts ∧ SectionsEachString p parts
  | _ => True

/-- The parts of the strings in some sections satisfy `p`. -/
def SectionsEachString (p : List Section → Prop) : List Section → Prop
  | [] => True
  | .text _ :: rest => SectionsEachString p rest
  | .tokens tokens :: rest => TokensEachString p tokens ∧ SectionsEachString p rest

/-- The parts of the strings among some tokens satisfy `p`. -/
def TokensEachString (p : List Section → Prop) : List Token → Prop
  | [] => True
  | .mk lexeme _ _ _ :: rest => lexeme.EachString p ∧ TokensEachString p rest

end

section

variable {p : List Section → Prop} {parts more : List Section} {tokens : List Token} {t u : Token}

theorem tokensEachString_iff :
    TokensEachString p tokens ↔ ∀ t ∈ tokens, t.lexeme.EachString p := by
  induction tokens with
  | nil => simp [TokensEachString]
  | cons t rest ih =>
    obtain ⟨lexeme, position, offset, index⟩ := t
    simp [TokensEachString, ih, Token.lexeme]

theorem sectionsEachString_iff : SectionsEachString p parts ↔
    ∀ tokens, Section.tokens tokens ∈ parts → TokensEachString p tokens := by
  induction parts with
  | nil => simp [SectionsEachString]
  | cons part rest ih =>
    cases part with
    | text value => simp [SectionsEachString, ih]
    | tokens tokens => simp [SectionsEachString, ih]

theorem Lexeme.eachString_of_kind {l : Lexeme} (h : l.kind ≠ .interpolated) : l.EachString p := by
  cases l with
  | interpolated => exact absurd rfl h
  | _ => trivial

/-- The parts are those of a string with embedded sections, each with its tokens in order. -/
structure Sectioned (parts : List Section) : Prop where
  /-- One of the parts is a section. -/
  exists_tokens : ∃ tokens, Section.tokens tokens ∈ parts
  /-- Tokens of sections have increasing numbers. -/
  inOrder : ∀ tokens, Section.tokens tokens ∈ parts → InOrder tokens

/-- All strings that rules put into a stream have parts that satisfy `p`. -/
structure SpellingRules.EachString (p : List Section → Prop) (r : SpellingRules) : Prop where
  /-- What takes the place of a spelling. -/
  replacements : ∀ entry ∈ r.replacements, entry.2.EachString p
  /-- What is inserted. -/
  insertions : ∀ entry ∈ r.insertions, entry.2.EachString p

theorem SpellingRules.eachString_empty : SpellingRules.empty.EachString p :=
  ⟨by simp [empty], by simp [empty]⟩

theorem SpellingRules.EachString.apply {r : SpellingRules} (h : r.EachString p)
    (ht : t.lexeme.EachString p) (hu : u ∈ r.apply t) : u.lexeme.EachString p := by
  have hinserted : ∀ u ∈ (r.insertionsAfter t.text).map t.withLexeme, u.lexeme.EachString p := by
    intro u hu
    obtain ⟨lexeme, hlexeme, rfl⟩ := List.mem_map.mp hu
    obtain ⟨entry, hentry, rfl⟩ := List.mem_map.mp hlexeme
    exact h.insertions entry (List.mem_of_mem_filter hentry)
  rw [SpellingRules.apply] at hu
  split at hu
  · next lexeme hlookup =>
    rcases List.mem_cons.mp hu with rfl | hu
    · obtain ⟨before, after, hsplit, -⟩ := List.lookup_eq_some_iff.mp hlookup
      exact h.replacements (t.text, lexeme) (by simp [hsplit])
    · exact hinserted u hu
  · split at hu
    · simp at hu
    · rcases List.mem_cons.mp hu with rfl | hu
      · exact ht
      · exact hinserted u hu

/-- A dialect without extensions, all of whose strings have parts that satisfy `p`. -/
structure Dialect.EachString (p : List Section → Prop) (d : Dialect) : Prop where
  /-- The strings of its rules. -/
  rules : d.rules.EachString p
  /-- The strings of a text. -/
  text : ∀ parts, Sectioned parts → p parts
  /-- There are no extensions. -/
  extensions : d.extensions = []

theorem Dialect.EachString.isTame {d : Dialect} (h : d.EachString p) : d.IsTame := by
  intro e he
  rw [h.extensions] at he
  simp at he

end

namespace Lexer

open Relation (ReflTransGen)

variable {inner : Lexer → Except ScriptError (List Token)} {p : List Section → Prop} {d : Dialect}
  {lx lx' lx₂ : Lexer} {t : Token} {tokens : List Token}

/-- Of a section of a text in this dialect, tokens are cut in order, and their strings have parts
that satisfy `p`. -/
def CutsEachString (p : List Section → Prop) (inner : Lexer → Except ScriptError (List Token))
    (d : Dialect) : Prop :=
  ∀ lx tokens, lx.dialect = d → lx.queued = [] → lx.ended = false → inner lx = .ok tokens →
    InOrder tokens ∧ TokensEachString p tokens

/-! ## Strings -/

/-- The sections among the parts that were read so far. -/
structure Reading (p : List Section → Prop) (parts : List Section) : Prop where
  /-- If there are parts, one of them is a section. -/
  exists_tokens : parts ≠ [] → ∃ tokens, Section.tokens tokens ∈ parts
  /-- Each section is cut as it should be. -/
  cut : ∀ tokens, Section.tokens tokens ∈ parts → InOrder tokens ∧ TokensEachString p tokens

theorem mem_closeText {text : List Char} {parts : List Section} :
    Section.tokens tokens ∈ closeText text parts ↔ Section.tokens tokens ∈ parts := by
  rw [closeText]
  split <;> simp

theorem Contents.reading (hinner : CutsEachString p inner d) {text : List Char}
    {parts : List Section} {found : List Char × List Section}
    (h : Contents inner text parts lx found lx₂) (hd : lx.dialect = d) (hparts : Reading p parts) :
    Reading p found.2 := by
  induction h with
  | close => exact hparts
  | escape hp _ ih | char hp _ _ _ _ ih => exact ih (hp.dialect_eq.trans hd) hparts
  | @embedded _ _ lx _ _ _ body tokens hp _ _ _ _ hcut _ ih =>
    -- the section is cut on its own, in the same dialect
    have hsection := hinner (lx.sectionAt 2 body) tokens hd rfl rfl hcut
    refine ih (hp.dialect_eq.trans hd)
      ⟨fun _ ↦ ⟨tokens, List.mem_cons_self ..⟩, fun other hother ↦ ?_⟩
    rcases List.mem_cons.mp hother with heq | hother
    · obtain rfl := Section.tokens.inj heq
      exact hsection
    · exact hparts.cut other (mem_closeText.mp hother)

theorem readString_eachString (hinner : CutsEachString p inner d)
    (htext : ∀ parts, Sectioned parts → p parts) (hd : lx.dialect = d) :
    Ensures (fun _ ↦ True) (readString inner) lx fun l _ ↦ l.EachString p := by
  refine .intro (fun l lx₁ hread ↦ ?_) fun _ _ _ ↦ trivial
  obtain ⟨found, hcontents, rfl⟩ := readString_eq_ok_iff.mp hread
  have hfound := hcontents.reading hinner hd ⟨by simp, by simp⟩
  rw [literalOf]
  split
  · exact trivial
  · next hparts =>
    have hmem : ∀ tokens, Section.tokens tokens ∈ (closeText found.1 found.2).reverse ↔
        Section.tokens tokens ∈ found.2 := fun tokens ↦ by rw [List.mem_reverse, mem_closeText]
    obtain ⟨tokens, htokens⟩ := hfound.exists_tokens fun hnil ↦ hparts (by rw [hnil]; rfl)
    refine ⟨htext _ ⟨⟨tokens, (hmem _).mpr htokens⟩, fun tokens h ↦ ?_⟩, ?_⟩
    · exact (hfound.cut tokens ((hmem _).mp h)).1
    · exact sectionsEachString_iff.mpr fun tokens h ↦ (hfound.cut tokens ((hmem _).mp h)).2

theorem readLexeme_quote (rest : List Char) : readLexeme inner '"' rest = readString inner := by
  simp [readLexeme, Cursor.isSpacing]

/-- What is no double-quoted string has no sections. -/
theorem readLexeme_kind_ne {c : Char} (hc : c ≠ '"') (rest : List Char) :
    Ensures (fun _ ↦ True) (readLexeme inner c rest) lx fun l _ ↦ l.kind ≠ .interpolated := by
  rw [readLexeme]
  refine .branch (fun _ ↦ show TokenKind.whitespace ≠ _ by decide) fun _ ↦
    .branch (fun _ ↦ show TokenKind.newLine ≠ _ by decide) fun _ ↦
    .branch (fun _ ↦ .branch (fun _ ↦ show TokenKind.newLine ≠ _ by decide) fun _ ↦
      show TokenKind.newLine ≠ _ by decide) fun _ ↦
    .branch (fun _ ↦ show TokenKind.comment ≠ _ by decide) fun _ ↦ .branch (fun _ ↦ ?_) fun _ ↦
    .branch (fun hquote ↦ absurd hquote hc) fun _ ↦ .branch (fun _ ↦ ?_) fun _ ↦
    .branch (fun _ ↦ show TokenKind.number ≠ _ by decide) fun _ ↦
    .branch (fun _ ↦ show (Lexeme.ofWord _).kind ≠ _ from (kind_ofWord_ne _).2) fun _ ↦ ?_
  · rw [readBlockComment]
    refine .get_bind (Ensures.bind (Q := fun _ _ ↦ True) trivial fun _ lx₁ _ ↦ ?_)
    refine Ensures.bind (Q := fun _ _ ↦ True) trivial fun run lx₂ _ ↦ ?_
    split
    · exact show TokenKind.comment ≠ _ by decide
    · exact .throw trivial
  · refine .intro (fun l lx' hread ↦ ?_) fun _ _ _ ↦ trivial
    rw [readPlainString, get_bind_run] at hread
    obtain ⟨run, lx₁, -, hread⟩ := bind_eq_ok_iff.mp hread
    cases hread
    simp [Lexeme.kind]
  · split
    · next lexeme hsymbol =>
      obtain ⟨s, -, rfl, -⟩ := longestSymbol?_eq_some hsymbol
      exact show TokenKind.symbol ≠ _ by decide
    · exact .get_bind (.throw trivial)

theorem readLexeme_eachString (hinner : CutsEachString p inner d)
    (htext : ∀ parts, Sectioned parts → p parts) (hd : lx.dialect = d) (c : Char)
    (rest : List Char) :
    Ensures (fun _ ↦ True) (readLexeme inner c rest) lx fun l _ ↦ l.EachString p := by
  by_cases hc : c = '"'
  · rw [hc, readLexeme_quote]
    exact readString_eachString hinner htext hd
  · exact (readLexeme_kind_ne hc rest).mono fun l _ hl ↦ Lexeme.eachString_of_kind hl

theorem readTokenWith_eachString (hinner : CutsEachString p inner lx.dialect)
    (htext : ∀ parts, Sectioned parts → p parts) (h : readTokenWith inner lx = .ok t lx') :
    t.lexeme.EachString p := by
  rw [readTokenWith, get_bind_run] at h
  cases hrest : lx.cursor.rest with
  | nil =>
    simp only [hrest] at h
    cases h
    exact trivial
  | cons c rest =>
    simp only [hrest] at h
    obtain ⟨l, lx₂, hl, h⟩ := bind_eq_ok_iff.mp h
    cases h
    exact (readLexeme_eachString hinner htext rfl c rest).of_ok hl

/-! ## Significant tokens -/

/-- The strings queued have parts that satisfy `p`, and so have all others in this dialect. -/
structure EachString (p : List Section → Prop) (lx : Lexer) : Prop where
  /-- The strings of the dialect. -/
  dialect : lx.dialect.EachString p
  /-- The strings queued. -/
  queued : ∀ t ∈ lx.queued, t.lexeme.EachString p

/-- All tokens queued are numbered upwards, from `least` on, and those after them will be. -/
structure Counts (least : Nat) (lx : Lexer) : Prop where
  /-- The numbers of those queued increase. -/
  inOrder : InOrder lx.queued
  /-- They are between the bound and the next number. -/
  between : ∀ t ∈ lx.queued, least ≤ t.index ∧ t.index < lx.index
  /-- The next number is not below the bound. -/
  next : least ≤ lx.index

theorem eachString_of_fresh (hqueued : lx.queued = []) (h : lx.dialect.EachString p) :
    lx.EachString p := ⟨h, by simp [hqueued]⟩

theorem counts_of_fresh (hqueued : lx.queued = []) : lx.Counts 0 :=
  ⟨by simp [hqueued, InOrder], by simp [hqueued], Nat.zero_le _⟩

theorem inOrder_numbered (index : Nat) (tokens : List Token) : InOrder (numbered index tokens) := by
  refine List.pairwise_iff_getElem.mpr fun i j hi hj hij ↦ ?_
  simp only [numbered, List.getElem_mapIdx]
  exact Nat.add_lt_add_left hij _

theorem index_of_mem_numbered {index : Nat} (ht : t ∈ numbered index tokens) :
    index ≤ t.index ∧ t.index < index + tokens.length := by
  obtain ⟨i, hi, rfl⟩ := List.mem_mapIdx.mp ht
  exact ⟨Nat.le_add_right _ _, Nat.add_lt_add_left hi _⟩

theorem Round.counts {least : Nat} (h : Round inner lx lx₂) (hcounts : lx.Counts least) :
    lx₂.Counts least := by
  have hnext := hcounts.next
  cases h with
  | atEnd =>
    refine ⟨List.pairwise_singleton .., fun t ht ↦ ?_, Nat.le_succ_of_le hnext⟩
    obtain rfl := List.mem_singleton.mp ht
    exact ⟨hnext, Nat.lt_succ_self _⟩
  | reading =>
    refine ⟨inOrder_numbered _ _, fun t ht ↦ ?_, Nat.le_add_right_of_le hnext⟩
    obtain ⟨hle, hlt⟩ := index_of_mem_numbered ht
    exact ⟨Nat.le_trans hnext hle, hlt⟩

theorem Round.eachString (h : Round inner lx lx₂) (hinner : CutsEachString p inner lx.dialect)
    (heach : lx.EachString p) : lx₂.EachString p := by
  have hdialect : lx₂.dialect.EachString p := h.dialect_eq ▸ heach.dialect
  cases h with
  | atEnd => exact ⟨hdialect, by simp [Token.lexeme, Lexeme.EachString]⟩
  | @reading t lx₁ tokens cursor hqueued hended hread hreads hproduced =>
    refine ⟨hdialect, fun u hu ↦ ?_⟩
    have ht := readTokenWith_eachString hinner heach.dialect.text hread
    have htokens : ∀ v ∈ tokens, v.lexeme.EachString p := by
      cases hproduced with
      | blank => simp
      | rules => exact fun v hv ↦ heach.dialect.rules.apply ht hv
      | extension he =>
        rw [heach.dialect.extensions] at he
        simp at he
    obtain ⟨i, hi, rfl⟩ := List.mem_mapIdx.mp hu
    exact htokens tokens[i] (List.getElem_mem hi)

theorem Takes.eachString (h : Takes inner lx t lx') (hinner : CutsEachString p inner lx.dialect)
    (heach : lx.EachString p) : t.lexeme.EachString p ∧ lx'.EachString p := by
  obtain ⟨lx₂, hrounds, hqueued, heq⟩ := h.rounds
  have heach₂ : lx₂.EachString p := by
    clear heq hqueued
    induction hrounds with
    | refl => exact heach
    | tail hrounds hround ih => exact hround.eachString (rounds_dialect_eq hrounds ▸ hinner) ih
  have hall := heach₂.queued
  rw [hqueued] at hall
  have hdialect : lx'.dialect = lx₂.dialect := by rw [heq]
  exact ⟨hall t (by simp), hdialect ▸ heach₂.dialect, fun u hu ↦ hall u (by simp [hu])⟩

/-- A token that is taken comes before all later ones. -/
theorem Takes.counts {least : Nat} (h : Takes inner lx t lx') (hcounts : lx.Counts least) :
    least ≤ t.index ∧ lx'.Counts (t.index + 1) := by
  obtain ⟨lx₂, hrounds, hqueued, heq⟩ := h.rounds
  have hcounts₂ : lx₂.Counts least := by
    clear heq hqueued
    induction hrounds with
    | refl => exact hcounts
    | tail _ hround ih => exact hround.counts ih
  have hindex : lx'.index = lx₂.index := by rw [heq]
  obtain ⟨horder, hbetween, hnext⟩ := hcounts₂
  rw [hqueued] at horder hbetween
  obtain ⟨hfirst, horder'⟩ := List.pairwise_cons.mp horder
  obtain ⟨hle, hlt⟩ := hbetween t (List.mem_cons_self ..)
  refine ⟨hle, horder', fun u hu ↦ ?_, hindex ▸ hlt⟩
  exact ⟨hfirst u hu, hindex ▸ (hbetween u (List.mem_cons_of_mem _ hu)).2⟩

theorem Yields.eachString (h : Yields inner lx tokens lx')
    (hinner : CutsEachString p inner lx.dialect)
    (heach : lx.EachString p) : (∀ t ∈ tokens, t.lexeme.EachString p) ∧ lx'.EachString p := by
  induction h with
  | nil => exact ⟨by simp, heach⟩
  | cons htakes _ ih =>
    obtain ⟨ht, hlater⟩ := htakes.eachString hinner heach
    obtain ⟨hall, hlast⟩ := ih (htakes.dialect_eq ▸ hinner) hlater
    exact ⟨List.forall_mem_cons.mpr ⟨ht, hall⟩, hlast⟩

/-- Tokens that are taken one after the other are in order, and before all later ones. -/
theorem Yields.counts {least : Nat} (h : Yields inner lx tokens lx') (hcounts : lx.Counts least) :
    InOrder tokens ∧ (∀ t ∈ tokens, least ≤ t.index) ∧
      ∃ later, least ≤ later ∧ (∀ t ∈ tokens, t.index < later) ∧ lx'.Counts later := by
  induction h generalizing least with
  | nil => exact ⟨.nil, by simp, least, Nat.le_refl _, by simp, hcounts⟩
  | cons htakes _ ih =>
    obtain ⟨hle, hlater⟩ := htakes.counts hcounts
    obtain ⟨horder, hfrom, later, hmore, hbefore, hlast⟩ := ih hlater
    refine ⟨List.pairwise_cons.mpr ⟨hfrom, horder⟩, ?_, later, ?_, ?_, hlast⟩
    · exact List.forall_mem_cons.mpr
        ⟨hle, fun u hu ↦ Nat.le_trans (Nat.le_succ_of_le hle) (hfrom u hu)⟩
    · exact Nat.le_trans (Nat.le_succ_of_le hle) hmore
    · exact List.forall_mem_cons.mpr ⟨hmore, hbefore⟩

/-- Sections are cut in order, however deep they are nested. -/
theorem sectionTokens_cutsEachString (hd : d.EachString p) (levels : Nat) :
    CutsEachString p (sectionTokens levels) d := by
  induction levels with
  | zero =>
    intro lx tokens _ _ _ h
    cases h
  | succ levels ih =>
    rintro lx tokens rfl hqueued hended h
    rw [sectionTokens_succ] at h
    cases hbatch : batchWith (sectionTokens levels) lx.tokensLeft [] lx with
    | error e lx' =>
      rw [hbatch] at h
      cases h
    | ok result lx' =>
      rw [hbatch] at h
      cases h
      have hopen : lx.IsOpen := fun hnot ↦ absurd (hended.symm.trans hnot) (by simp)
      obtain ⟨tokens, rfl, hyields, -⟩ := batchWith_yields hd.isTame hopen hbatch
      refine ⟨(hyields.counts (counts_of_fresh hqueued)).1, tokensEachString_iff.mpr ?_⟩
      exact (hyields.eachString ih (eachString_of_fresh hqueued hd)).1

/-- **Strings of a text.** The parts of all strings of a text satisfy what the strings of its rules
satisfy and all that are read. -/
theorem tokenize_eachString (hd : d.EachString p) {text : String}
    (h : (ofText d text).tokenize = .ok tokens) : ∀ t ∈ tokens, t.lexeme.EachString p := by
  obtain ⟨lx', hbatch⟩ := exists_batch_of_tokenize h
  obtain ⟨tokens, rfl, hyields, -⟩ := batchWith_yields hd.isTame (isOpen_ofText d text) hbatch
  exact (hyields.eachString (sectionTokens_cutsEachString hd _) (eachString_of_fresh rfl hd)).1

end Lexer

end ScriptFront
