import ScriptFront.Proofs.Lexer.Endings
import ScriptFront.Proofs.Tree.Leaves

/-!
# Tokens that a text can have

Rules and extensions may put any tokens into a stream. Those that are cut from a text have more
properties that a parser relies on without checking them: a symbol is one of the vocabulary, an
operand is not spelled like a reserved word or a symbol, a name has no dot in it, so a full name can
be cut apart again, and the tokens of an embedded section end in the end of its text.
-/

namespace ScriptFront

/-- The words and marks with a meaning of their own. -/
def Lexeme.reserved : List String := keywords ++ symbols

mutual

/-- What is read from a text: symbols are those of the vocabulary, operands are not spelled like
anything reserved, names have no dots, and the tokens of sections are closed. -/
def Lexeme.IsGenuine : Lexeme → Prop
  | .symbol text => text ∈ Lexeme.symbols
  | .ident text => '.' ∉ text.toList ∧ text ∉ Lexeme.reserved
  | .number text _ => text ∉ Lexeme.reserved
  | .str raw _ => raw ∉ Lexeme.reserved
  | .interpolated raw parts => raw ∉ Lexeme.reserved ∧ SectionsGenuine parts
  | _ => True

/-- The parts of a string literal that is read from a text. -/
def SectionsGenuine : List Section → Prop
  | [] => True
  | .text _ :: rest => SectionsGenuine rest
  | .tokens tokens :: rest => Closed tokens ∧ TokensGenuine tokens ∧ SectionsGenuine rest

/-- Tokens that are read from a text. -/
def TokensGenuine : List Token → Prop
  | [] => True
  | .mk lexeme _ _ _ :: rest => lexeme.IsGenuine ∧ TokensGenuine rest

end

/-- The token is read from a text. -/
def Token.IsGenuine (t : Token) : Prop := t.lexeme.IsGenuine

theorem tokensGenuine_iff {tokens : List Token} :
    TokensGenuine tokens ↔ ∀ t ∈ tokens, t.IsGenuine := by
  induction tokens with
  | nil => simp [TokensGenuine]
  | cons t rest ih =>
    obtain ⟨lexeme, position, offset, index⟩ := t
    simp [TokensGenuine, ih, Token.IsGenuine, Token.lexeme]

/-- What is spelled like something reserved is no operand. -/
theorem Token.IsGenuine.leaves_eq_nil {t : Token} {text : String} (h : t.IsGenuine)
    (his : t.is text = true) (hreserved : text ∈ Lexeme.reserved) : t.lexeme.leaves = [] := by
  obtain ⟨lexeme, position, offset, index⟩ := t
  have htext : lexeme.text = text := by simpa [Token.is, Lexeme.is, Token.lexeme] using his
  rw [← htext] at hreserved
  cases lexeme with
  | ident text => exact absurd hreserved h.2
  | number text value => exact absurd hreserved h
  | str raw value => exact absurd hreserved h
  | interpolated raw parts => exact absurd hreserved h.1
  | bool value => cases value <;> exact absurd hreserved (by decide)
  | _ => rfl

/-- The word of an alternative branch is no other lexeme that is spelled like it. -/
theorem Token.IsGenuine.lexeme_eq_else {t : Token} (h : t.IsGenuine) (his : t.is "else" = true)
    (hsignificant : Window.isSignificant t = true) (hbreak : Window.isNewLine t = false) :
    t.lexeme = .keyword "else" := by
  obtain ⟨lexeme, position, offset, index⟩ := t
  have htext : lexeme.text = "else" := by simpa [Token.is, Lexeme.is, Token.lexeme] using his
  have hreserved : lexeme.text ∈ Lexeme.reserved := by
    rw [htext]
    decide
  cases lexeme with
  | keyword text => exact congrArg Lexeme.keyword htext
  | symbol text =>
    obtain rfl : text = "else" := htext
    exact absurd (show "else" ∈ Lexeme.symbols from h) (by decide)
  | ident text => exact absurd hreserved h.2
  | number text value => exact absurd hreserved h
  | str raw value => exact absurd hreserved h
  | interpolated raw parts => exact absurd hreserved h.1
  | bool value => cases value <;> exact absurd htext (by decide)
  | null | endOfInput => exact absurd htext (by decide)
  | comment text | whitespace text =>
    simp [Window.isSignificant, Lexeme.isTrivia, Lexeme.kind, Token.lexeme] at hsignificant
  | newLine text => simp [Window.isNewLine, Token.kind, Lexeme.kind, Token.lexeme] at hbreak

theorem sectionsGenuine_append {parts more : List Section} :
    SectionsGenuine (parts ++ more) ↔ SectionsGenuine parts ∧ SectionsGenuine more := by
  induction parts with
  | nil => simp [SectionsGenuine]
  | cons part parts ih =>
    cases part with
    | text value => simp [SectionsGenuine, ih]
    | tokens tokens => simp [SectionsGenuine, ih, and_assoc]

theorem sectionsGenuine_reverse {parts : List Section} :
    SectionsGenuine parts.reverse ↔ SectionsGenuine parts := by
  induction parts with
  | nil => simp [SectionsGenuine]
  | cons part parts ih =>
    rw [List.reverse_cons, sectionsGenuine_append, ih]
    cases part with
    | text value => simp [SectionsGenuine]
    | tokens tokens => simp [SectionsGenuine, and_comm, and_left_comm]

/-- Neither rules nor extensions change the tokens of a text. -/
structure Dialect.IsBare (d : Dialect) : Prop where
  /-- There are no rules. -/
  rules : d.rules = .empty
  /-- There are no extensions. -/
  extensions : d.extensions = []

theorem Dialect.IsBare.isEndless {d : Dialect} (h : d.IsBare) : d.IsEndless :=
  d.isEndless_of_extensions (h.rules ▸ SpellingRules.isEndless_empty) h.extensions

namespace Lexer

open Relation (ReflTransGen)

/-! ## Raw tokens -/

section

variable {inner : Lexer → Except ScriptError (List Token)} {d : Dialect}

/-- Of a section of a text in this dialect, tokens are cut that a text can have. -/
def CutsGenuine (inner : Lexer → Except ScriptError (List Token)) (d : Dialect) : Prop :=
  ∀ lx tokens, lx.dialect = d → lx.queued = [] → lx.ended = false → inner lx = .ok tokens →
    Closed tokens ∧ TokensGenuine tokens

theorem sectionsGenuine_closeText {parts : List Section} (text : List Char)
    (h : SectionsGenuine parts) : SectionsGenuine (closeText text parts) := by
  rw [closeText]
  split
  · exact h
  · exact h

theorem Contents.genuine (hinner : CutsGenuine inner d) {text : List Char} {parts : List Section}
    {found : List Char × List Section} {lx lx₁ : Lexer}
    (h : Contents inner text parts lx found lx₁) (hd : lx.dialect = d)
    (hparts : SectionsGenuine parts) : SectionsGenuine found.2 := by
  induction h with
  | close => exact hparts
  | escape hp _ ih | char hp _ _ _ _ ih => exact ih (hp.dialect_eq.trans hd) hparts
  | @embedded _ _ lx _ _ _ body tokens hp _ _ _ _ hcut _ ih =>
    -- the section is cut on its own, in the same dialect
    obtain ⟨hclosed, hgenuine⟩ := hinner (lx.sectionAt 2 body) tokens hd rfl rfl hcut
    exact ih (hp.dialect_eq.trans hd) ⟨hclosed, hgenuine, sectionsGenuine_closeText _ hparts⟩

/-- A spelling is not reserved if nothing reserved begins like it. -/
theorem text_not_mem_reserved {lx lx' : Lexer} {l : Lexeme} {c : Char} {rest : List Char}
    (h : Reads lx l lx') (hrest : lx.cursor.rest = c :: rest)
    (hc : ∀ word ∈ Lexeme.reserved, word.toList.head? ≠ some c) : l.text ∉ Lexeme.reserved := by
  intro hmem
  obtain ⟨first, more, hcons⟩ := List.exists_cons_of_ne_nil h.nonempty
  have hahead := h.passed.ahead
  rw [hrest, hcons] at hahead
  obtain ⟨rfl, -⟩ := List.cons_prefix_cons.mp hahead
  exact hc _ hmem (by rw [hcons]; rfl)

theorem readString_genuine (hinner : CutsGenuine inner d) {lx : Lexer} (hd : lx.dialect = d)
    {rest : List Char} (hrest : lx.cursor.rest = '"' :: rest) :
    Ensures (fun _ ↦ True) (readString inner) lx fun l _ ↦ l.IsGenuine := by
  refine .intro (fun l lx' hread ↦ ?_) fun _ _ _ ↦ trivial
  have htext := text_not_mem_reserved (readString_reads (by simp [hrest]) hread) hrest (by decide)
  obtain ⟨found, hcontents, rfl⟩ := readString_eq_ok_iff.mp hread
  have hfound := hcontents.genuine hinner hd (show SectionsGenuine [] from trivial)
  rw [literalOf] at htext ⊢
  split_ifs at htext ⊢
  · exact htext
  · exact ⟨htext, sectionsGenuine_reverse.mpr (sectionsGenuine_closeText _ hfound)⟩

theorem readPlainString_genuine {lx : Lexer} {rest : List Char}
    (hrest : lx.cursor.rest = '\'' :: rest) :
    Ensures (fun _ ↦ True) readPlainString lx fun l _ ↦ l.IsGenuine := by
  refine .intro (fun l lx' hread ↦ ?_) fun _ _ _ ↦ trivial
  have htext := text_not_mem_reserved (readPlainString_reads (by simp [hrest]) hread) hrest
    (by decide)
  rw [readPlainString, get_bind_run] at hread
  obtain ⟨run, lx₁, -, hread⟩ := bind_eq_ok_iff.mp hread
  cases hread
  exact htext

theorem isGenuine_ofWord {word : String} (hdot : '.' ∉ word.toList)
    (hsymbols : word ∉ Lexeme.symbols) : (Lexeme.ofWord word).IsGenuine := by
  unfold Lexeme.ofWord
  split
  · exact trivial
  · exact trivial
  · exact trivial
  · rw [Lexeme.keyword?]
    split
    · exact trivial
    · next hkeyword =>
      refine ⟨hdot, fun hmem ↦ ?_⟩
      rcases List.mem_append.mp hmem with hmem | hmem
      · exact hkeyword (by simpa using hmem)
      · exact hsymbols hmem

/-- What can be checked of the first characters of some words. -/
theorem of_heads {words : List String} {p : Char → Bool}
    (h : words.all (fun word ↦ word.toList.head?.all p) = true) {word : String}
    (hword : word ∈ words)
    {c : Char} (hc : c ∈ word.toList.head?) : p c = true := by
  have hall := List.all_eq_true.mp h word hword
  rw [Option.mem_def.mp hc] at hall
  exact hall

/-- Nothing reserved begins with a digit. -/
theorem number_genuine {lx : Lexer} {c : Char} {rest : List Char}
    (hrest : lx.cursor.rest = c :: rest) (hdigit : c.isDigit = true) (value : Number) :
    (Lexeme.number (String.ofList (Cursor.numberRun lx.cursor.rest)) value).IsGenuine := by
  have hdigits :
      Lexeme.reserved.all (fun word ↦ word.toList.head?.all fun d ↦ !d.isDigit) = true := by
    decide
  obtain ⟨tail, htail⟩ := numberRun_append lx.cursor.rest
  have hrun : Cursor.numberRun lx.cursor.rest ≠ [] := hrest ▸ numberRun_ne_nil hdigit
  have hreads := reads_of_append (l := .number _ value) htail rfl hrun (by simp [Lexeme.kind])
  refine text_not_mem_reserved hreads hrest fun word hword hhead ↦ ?_
  have hother := of_heads hdigits hword hhead
  rw [hdigit] at hother
  exact absurd hother (by decide)

/-- A name has no dot in it, and no symbol begins like a name. -/
theorem name_genuine {lx : Lexer} {c : Char} {rest : List Char}
    (hrest : lx.cursor.rest = c :: rest) (hname : Text.isNameStart c = true) :
    (Lexeme.ofWord (String.ofList (lx.cursor.rest.takeWhile Text.isNameChar))).IsGenuine := by
  have hnames : Lexeme.symbols.all (fun word ↦ word.toList.head?.all fun d ↦ !Text.isNameStart d) =
      true := by decide
  refine isGenuine_ofWord (fun hdot ↦ ?_) fun hsymbol ↦ ?_
  · rw [String.toList_ofList] at hdot
    exact absurd (List.all_eq_true.mp List.all_takeWhile _ hdot) (by decide)
  · have hother := of_heads (c := c) hnames hsymbol (by
      rw [String.toList_ofList, hrest,
        List.takeWhile_cons_of_pos (Text.isNameChar_of_isNameStart hname)]
      exact rfl)
    rw [hname] at hother
    exact absurd hother (by decide)

theorem readLexeme_genuine (hinner : CutsGenuine inner d) {lx : Lexer} (hd : lx.dialect = d)
    {c : Char} {rest : List Char} (hrest : lx.cursor.rest = c :: rest) :
    Ensures (fun _ ↦ True) (readLexeme inner c rest) lx fun l _ ↦ l.IsGenuine := by
  rw [readLexeme]
  -- what is passed over is read as it stands
  refine .branch (fun _ ↦ trivial) fun _ ↦ .branch (fun _ ↦ trivial) fun _ ↦
    .branch (fun _ ↦ .branch (fun _ ↦ trivial) fun _ ↦ trivial) fun _ ↦
      .branch (fun _ ↦ trivial) fun _ ↦ .branch (fun _ ↦ ?_) fun _ ↦ ?_
  · rw [readBlockComment]
    refine .get_bind (Ensures.bind (Q := fun _ _ ↦ True) trivial fun _ lx₁ _ ↦ ?_)
    refine Ensures.bind (Q := fun _ _ ↦ True) trivial fun run lx₂ _ ↦ ?_
    split
    · exact trivial
    · exact .throw trivial
  refine .branch (fun hquote ↦ ?_) fun _ ↦ .branch (fun hplain ↦ ?_) fun _ ↦
    .branch (fun hdigit ↦ ?_) fun _ ↦ .branch (fun hname ↦ ?_) fun _ ↦ ?_
  · exact readString_genuine hinner hd (hquote ▸ hrest)
  · exact readPlainString_genuine (hplain ▸ hrest)
  · refine .intro (fun l lx' hread ↦ ?_) fun _ _ _ ↦ trivial
    cases hread
    exact number_genuine hrest hdigit _
  · refine .intro (fun l lx' hread ↦ ?_) fun _ _ _ ↦ trivial
    cases hread
    exact name_genuine hrest hname
  · split
    · next lexeme hsymbol =>
      obtain ⟨s, hs, rfl, -⟩ := longestSymbol?_eq_some hsymbol
      exact hs
    · exact .get_bind (.throw trivial)

end

/-! ## Significant tokens -/

/-- Whatever the lexer has queued is read from a text. -/
structure IsGenuine (lx : Lexer) : Prop where
  /-- The text is cut as it stands. -/
  bare : lx.dialect.IsBare
  /-- The tokens queued. -/
  queued : ∀ t ∈ lx.queued, t.IsGenuine

section

variable {inner : Lexer → Except ScriptError (List Token)} {lx lx' lx₂ : Lexer} {t : Token}
  {tokens : List Token}

theorem Round.isGenuine (h : Round inner lx lx₂) (hinner : CutsGenuine inner lx.dialect)
    (hgenuine : lx.IsGenuine) : lx₂.IsGenuine := by
  have hbare : lx₂.dialect.IsBare := h.dialect_eq ▸ hgenuine.bare
  cases h with
  | atEnd => exact ⟨hbare, by simp [Token.IsGenuine, Token.lexeme, Lexeme.IsGenuine]⟩
  | @reading t lx₁ tokens cursor hqueued hended hread hreads hproduced =>
    refine ⟨hbare, fun u hu ↦ ?_⟩
    have ht : t.IsGenuine := by
      rw [readTokenWith, get_bind_run] at hread
      cases hrest : lx.cursor.rest with
      | nil =>
        simp only [hrest] at hread
        cases hread
        exact trivial
      | cons c rest =>
        simp only [hrest] at hread
        obtain ⟨l, lx₂, hl, hread⟩ := bind_eq_ok_iff.mp hread
        cases hread
        exact (readLexeme_genuine hinner rfl hrest).of_ok hl
    have htokens : ∀ v ∈ tokens, v.IsGenuine := by
      cases hproduced with
      | blank => simp
      | rules =>
        rw [hgenuine.bare.rules]
        simpa [SpellingRules.apply, SpellingRules.empty, SpellingRules.replacement?,
          SpellingRules.insertionsAfter] using ht
      | extension he =>
        rw [hgenuine.bare.extensions] at he
        simp at he
    obtain ⟨i, hi, rfl⟩ := List.mem_mapIdx.mp hu
    exact htokens tokens[i] (List.getElem_mem hi)

theorem Takes.isGenuine (h : Takes inner lx t lx') (hinner : CutsGenuine inner lx.dialect)
    (hgenuine : lx.IsGenuine) : t.IsGenuine ∧ lx'.IsGenuine := by
  obtain ⟨lx₂, hrounds, hqueued, heq⟩ := h.rounds
  have hgenuine₂ : lx₂.IsGenuine := by
    clear heq hqueued
    induction hrounds with
    | refl => exact hgenuine
    | tail hrounds hround ih =>
      exact hround.isGenuine (rounds_dialect_eq hrounds ▸ hinner) ih
  have hall := hgenuine₂.queued
  rw [hqueued] at hall
  have hdialect : lx'.dialect = lx₂.dialect := by rw [heq]
  exact ⟨hall t (by simp), hdialect ▸ hgenuine₂.bare, fun u hu ↦ hall u (by simp [hu])⟩

theorem Yields.isGenuine (h : Yields inner lx tokens lx') (hinner : CutsGenuine inner lx.dialect)
    (hgenuine : lx.IsGenuine) : ∀ t ∈ tokens, t.IsGenuine := by
  induction h with
  | nil => simp
  | cons htakes _ ih =>
    obtain ⟨ht, hlater⟩ := htakes.isGenuine hinner hgenuine
    exact List.forall_mem_cons.mpr ⟨ht, ih (htakes.dialect_eq ▸ hinner) hlater⟩

/-- Sections are cut into tokens that a text can have, however deep they are nested. -/
theorem sectionTokens_cutsGenuine {d : Dialect} (hd : d.IsBare) (levels : Nat) :
    CutsGenuine (sectionTokens levels) d := by
  induction levels with
  | zero =>
    intro lx tokens _ _ _ h
    cases h
  | succ levels ih =>
    rintro lx tokens rfl hqueued hended h
    rw [sectionTokens_succ] at h
    cases hbatch : batchWith (sectionTokens levels) lx.tokensLeft [] lx with
    | error e lx' =>
      rw [hbatch] at h
      cases h
    | ok result lx' =>
      rw [hbatch] at h
      cases h
      have hopen : lx.IsOpen := fun hnot ↦ absurd (hended.symm.trans hnot) (by simp)
      obtain ⟨hyields, hclosed, -⟩ :=
        batchWith_all (isTidy_of_fresh hqueued hended hd.isEndless) hopen hbatch
      refine ⟨hclosed, tokensGenuine_iff.mpr (hyields.isGenuine ih ⟨hd, ?_⟩)⟩
      simp [hqueued]

/-- **Genuine tokens.** Without rules and extensions, a text has tokens that are cut from it. -/
theorem tokenize_genuine {dialect : Dialect} {text : String} (hbare : dialect.IsBare)
    (h : (ofText dialect text).tokenize = .ok tokens) :
    Closed tokens ∧ ∀ t ∈ tokens, t.IsGenuine := by
  obtain ⟨lx', hbatch⟩ := exists_batch_of_tokenize h
  obtain ⟨hyields, hclosed, -⟩ := batchWith_all
    (isTidy_of_fresh rfl rfl hbare.isEndless) (isOpen_ofText dialect text) hbatch
  exact ⟨hclosed, hyields.isGenuine (sectionTokens_cutsGenuine hbare _) ⟨hbare, by simp [ofText]⟩⟩

end

end Lexer

end ScriptFront
