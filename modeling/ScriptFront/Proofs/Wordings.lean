import ScriptFront.Proofs.Extension.Spellings
import ScriptFront.Proofs.Parse.Sentences
import ScriptFront.Proofs.RoundTrip
import ScriptFront.Proofs.Streaming

/-!
# Scripts in words and symbols

With the standard extensions an operator can be written in words, and what a script means does not
depend on the choice: an assignment of an expression is the same statement in all spellings of the
expression.
-/

namespace ScriptFront

open Standard (openers IsStandard)

/-- The assignment of a phrase to a name, as it is read with the names of a table, positions
aside. -/
def Phrase.assignedTo (phrase : Phrase) (name : String) (table : SymbolTable) : Expr :=
  .mk (.assign (.mk (.var name) .start table.current) .assign
    (some ((phrase.tree.expr table.current).calling table.isFunction)) false) .start table.current

namespace Parse

variable {ctx : ParseContext} {inner : (fuel : Nat) → List Token → Parse Expr}
    {base s : ParserState}
  {target mark last : Token} {tokens : List Token} {lexemes : List Lexeme} {phrase : Phrase}
  {name : String} {n : Nat}

/-- What the tokens of an assignment are: a name that stands for nothing else, the mark, an
expression in some spelling, and the end. -/
structure IsAssignment (ctx : ParseContext) (table : SymbolTable) (name : String) (phrase : Phrase)
    (target mark : Token) (tokens : List Token) (last : Token) : Prop where
  /-- The extensions are the standard ones. -/
  standard : IsStandard ctx.registry
  /-- The script does not define the words. -/
  undefined : ∀ word ∈ openers, table.contains word = false
  /-- The name. -/
  target_eq : target.lexeme = .ident name
  /-- The name begins no phrase. -/
  name_ne : name ∉ openers
  /-- The name begins no print statement. -/
  print_ne : name ≠ "print"
  /-- The name is the first of a statement. -/
  begins : BeginsOperand (.ident name)
  /-- The name stands for no function. -/
  no_function : table.isFunction name = false
  /-- The mark. -/
  mark_eq : mark.lexeme = .symbol "="
  /-- The expression is laid out. -/
  laidOut : phrase.LaidOut false
  /-- It is spelled in some way. -/
  spelled : SpellsPhrase false phrase (tokens.map Token.lexeme)
  /-- The names of functions in it stand before no words. -/
  calls : CallsEnd table (tokens ++ [last])
  /-- The end of the text. -/
  last_eq : last.kind = .endOfInput

namespace IsAssignment

variable {table : SymbolTable} (h : IsAssignment ctx table name phrase target mark tokens last)

include h

theorem followsFactor_last : FollowsFactor [last] :=
  ⟨last, [], rfl, lexeme_eq_endOfInput h.last_eq ▸ .endOfInput⟩

/-- The name is an expression up to the mark. -/
theorem isPhrase_target :
    IsPhrase ctx table id false (.single (.name name)) [target] (mark :: (tokens ++ [last])) := by
  have htext : target.text ∉ openers := by
    rw [Token.text, h.target_eq]
    exact h.name_ne
  have hmark : mark.kind ≠ .number := by simp [Token.kind, h.mark_eq, Lexeme.kind]
  have hlink : opensLink mark = false := by
    rw [opensLink_of_symbol h.mark_eq]
    decide
  refine .single (.operand ⟨target, [], rfl, ?_⟩ (h.standard.replaces_self htext) ?_
    (.name h.target_eq (h.standard.leaves_expression hmark)
      ⟨mark, _, rfl, hlink⟩ h.no_function rfl))
  · simp [Window.isNewLine, Token.kind, h.target_eq, Lexeme.kind]
  · simp [Token.isSymbol, Token.kind, h.target_eq, Lexeme.kind]

/-- The loop finds the expression behind the mark. -/
theorem isPhrase_value :
    IsPhrase ctx table (Expr.calling table.isFunction) false phrase tokens [last] :=
  isPhrase_of_spells h.standard h.undefined phrase h.spelled h.laidOut rfl h.calls
    h.followsFactor_last

theorem replaces_last : Replaces ctx table [last] [last] := by
  refine h.standard.replaces_self ?_
  rw [Token.text, lexeme_eq_endOfInput h.last_eq]
  decide +kernel

/-- The assignment is a statement. -/
theorem statement_yields_assignedTo (hat : base.At (target :: mark :: (tokens ++ [last])) s)
    (htable : base.symbols = table) (hroom : PhraseRoom ctx base phrase.parens phrase.depth)
    (hn : 2 * phrase.depth ≤ n + 1) :
    (statement ctx (runWith ctx inner (n + 1))).Yields s
      { base with symbols := (phrase.assignedTo name table).defines table } [last]
      fun found ↦ ∃ e, found = some e ∧ e.unplaced = phrase.assignedTo name table := by
  subst htable
  have hbegins : BeginsOperand target.lexeme := h.target_eq ▸ h.begins
  have htext : target.text = name := by rw [Token.text, h.target_eq, Lexeme.text]
  have hprint : target.is "print" = false := by
    rw [Token.is, Lexeme.is, beq_eq_false_iff_ne]
    exact fun heq ↦ h.print_ne (htext.symm.trans heq)
  refine statement_yields_replaced hat hbegins
    (h.standard.replaces_self (htext ▸ h.name_ne)) hbegins
    (h.standard.leaves_statement hprint) h.last_eq fun s' h' ↦ ?_
  exact simpleStatement_yields_assignment (Expr.isLeafwise_calling _) h.mark_eq h.isPhrase_target
    (h.standard.replaces_symbol h.mark_eq (by decide)) h.isPhrase_value h.last_eq
    h.replaces_last h' rfl
    hroom hn

/-- The assignment alone is a script. -/
theorem program_yields {w : Window Lexer} (hw : w.Shows (target :: mark :: (tokens ++ [last])))
    (hparens : phrase.parens ≤ ctx.limits.maxParenDepth)
    (hdepth : phrase.depth ≤ ctx.limits.maxExpressionDepth) :
    (program ctx).Yields (.initial w table)
      { ParserState.initial w table with symbols := (phrase.assignedTo name table).defines table }
      [last]
      fun statements ↦ ∃ e, statements = [e] ∧ e.unplaced = phrase.assignedTo name table := by
  have hroom : PhraseRoom ctx (.initial w table) phrase.parens phrase.depth :=
    ⟨by simpa [ParserState.initial] using hparens, by simpa [ParserState.initial] using hdepth⟩
  exact program_yields_single hw hdepth h.last_eq fun hn hat ↦
    h.statement_yields_assignedTo hat rfl hroom hn

end IsAssignment

end Parse

/-! ## Texts -/

theorem Lexeme.endsCall_endOfInput : EndsCall .endOfInput := ⟨rfl, rfl, nofun⟩

/-- At the end of the text every call ends. -/
theorem Parse.callsEnd_append {table : SymbolTable} {tokens : List Token} {last : Token}
    (h : (tokens.map Token.lexeme).IsChain (CallEnds table.isFunction))
    (hlast : last.kind = .endOfInput) :
    CallsEnd table (tokens ++ [last]) := by
  rw [List.isChain_map] at h
  refine List.isChain_append.mpr ⟨h, List.isChain_singleton _, fun t _ next hnext ↦ ?_⟩
  obtain rfl : last = next := by simpa using hnext
  intro name _ _
  rw [Parse.lexeme_eq_endOfInput hlast]
  exact Lexeme.endsCall_endOfInput

/-- With addresses as the only extension of the lexer, nothing makes up the end of a text. -/
theorem Standard.isEndless_dialect {f : Frontend} (hlexical : f.registry.lexical = [address])
    (hrules : f.rules.IsEndless) : f.dialect.IsEndless := by
  refine ⟨hrules, fun e he t c lexeme hlexeme ↦ ?_, isTame_address hlexical⟩
  obtain rfl : e = address := by simpa [Frontend.dialect, hlexical] using he
  cases hlexeme
  simp [Lexeme.kind]

namespace Frontend

variable {base f : Frontend} {phrase : Phrase} {lexemes : List Lexeme} {text : String}

/-- The text assigns the phrase to `x`, in the spelling that the lexemes are. -/
structure Assigns (f : Frontend) (free : Bool) (phrase : Phrase) (lexemes : List Lexeme)
    (text : String) :
    Prop where
  /-- The phrase may be written so. -/
  spells : SpellsPhrase free phrase lexemes
  /-- The names of functions stand before no words. -/
  calls : lexemes.IsChain (CallEnds f.host.isFunction)
  /-- The significant tokens of the text are the name, the mark of an assignment, and the
  lexemes. -/
  exists_tokens : ∃ tokens, f.tokenize text = .ok tokens ∧
    (tokens.filter Window.isSignificant).map Token.lexeme =
      .ident "x" :: .symbol "=" :: (lexemes ++ [.endOfInput])
  /-- The text is not too long. -/
  length_le : text.length ≤ f.settings.limits.maxScriptLength

/-- What a host sets up for scripts in words: the standard extensions and no others, no rules that
make up the end of a text, no meaning of its own for the words that phrases begin with, and no
function `x`. -/
structure TakesWords (f : Frontend) : Prop where
  /-- The standard extensions are registered. -/
  standard : ∃ base : Frontend, base.registry = .empty ∧ Standard.registerAll base = .ok f
  /-- No rule puts an end token into the stream. -/
  rules : f.rules.IsEndless
  /-- The words are not defined. -/
  undefined : ∀ word ∈ openers, f.host.contains word = false
  /-- A function of this name could not be assigned to. -/
  no_function : f.host.isFunction "x" = false

theorem TakesWords.isStandard (h : f.TakesWords) : IsStandard f.registry := by
  obtain ⟨base, hbase, hf⟩ := h.standard
  obtain ⟨r, hr, hregister⟩ := Standard.exists_registerAll hbase
  obtain rfl := Except.ok.inj (hregister.symm.trans hf)
  exact hr

/-- An assignment in any spelling is one statement. -/
theorem Assigns.exists_parse_eq (h : f.Assigns false phrase lexemes text) (hf : f.TakesWords)
    (hlayout : phrase.LaidOut false) (hparens : phrase.parens ≤ f.settings.limits.maxParenDepth)
    (hdepth : phrase.depth ≤ f.settings.limits.maxExpressionDepth) :
    ∃ p e, f.parse text = .ok p ∧ p.statements = [e] ∧
    e.unplaced = phrase.assignedTo "x" f.host := by
  have hstandard := hf.isStandard
  obtain ⟨hspells, hcalls, ⟨tokens, htokens, hlexemes⟩, hlength⟩ := h
  obtain ⟨hdelivers, hclosed⟩ := Lexer.delivers_of_tokenize
    (Lexer.isTidy_of_fresh rfl rfl (Standard.isEndless_dialect hstandard.lexical_eq hf.rules))
    (Lexer.isOpen_ofText f.dialect text) (named_eq_ok_iff.mp htokens)
  obtain ⟨w, hw, hshows, -⟩ :=
    Window.exists_ofSource_shows hdelivers.supplies hclosed f.settings.lookahead
  obtain ⟨target, rest, hsplit, htarget, hlexemes⟩ := List.map_eq_cons_iff.mp hlexemes
  obtain ⟨mark, rest, rfl, hmark, hlexemes⟩ := List.map_eq_cons_iff.mp hlexemes
  obtain ⟨value, rest, rfl, rfl, hend⟩ := List.map_eq_append_iff.mp hlexemes
  obtain ⟨last, none, rfl, hlast, hnone⟩ := List.map_eq_cons_iff.mp hend
  obtain rfl := List.map_eq_nil_iff.mp hnone
  have hlast : last.kind = .endOfInput := by rw [Token.kind, hlast, Lexeme.kind]
  have hname : Parse.BeginsOperand (.ident "x") := ⟨nofun, nofun, nofun, by decide⟩
  have hassignment : Parse.IsAssignment f.context f.host "x" phrase target mark value last :=
    ⟨hstandard, hf.undefined,
      htarget, by decide +kernel, by decide, hname, hf.no_function, hmark, hlayout,
      hspells, Parse.callsEnd_append hcalls hlast, hlast⟩
  rw [hsplit] at hshows
  obtain ⟨statements, s, hrun, -, e, rfl, he⟩ := hassignment.program_yields hshows hparens hdepth
  refine ⟨⟨[e], s.symbols⟩, e, ?_, rfl, he⟩
  have hwindow : f.window text = .ok w := hw
  simp only [parse, hwindow, if_neg (Nat.not_lt_of_le hlength), Parse.parseProgram, hrun]
  rfl

/-! ## Sample scripts -/

/-- The expression of the sample scripts. -/
def samplePhrase : Phrase :=
  .more (.more (.single (.name "a")) [] (.compare .notEq) [] (.name "b")) [] (.logical .and) []
    (.not (.group [] (.more (.single (.name "c")) [] (.compare .lessEq) [] (.name "a")) []))

/-- It in words. -/
def sampleWords : List Lexeme :=
  [.ident "a", .ident "is", .ident "not", .ident "b", .ident "and", .ident "not", .symbol "(",
    .ident "c", .ident "is", .ident "at", .ident "most", .ident "a", .symbol ")"]

/-- It in symbols. -/
def sampleSymbols : List Lexeme :=
  [.ident "a", .symbol "!=", .ident "b", .symbol "&&", .symbol "!", .symbol "(", .ident "c",
    .symbol "<=", .ident "a", .symbol ")"]

theorem not_mem_openers : ∀ text ∈ ["a", "b", "c"], text ∉ openers := by decide +kernel

theorem spellsPhrase_sampleWords : SpellsPhrase false samplePhrase sampleWords := by
  have ha : "a" ∉ openers := not_mem_openers "a" (by decide)
  have hb : "b" ∉ openers := not_mem_openers "b" (by decide)
  have hc : "c" ∉ openers := not_mem_openers "c" (by decide)
  have hnotEq : SpellsMark (Operator.compare .notEq).symbol [.ident "is", .ident "not"] :=
    .words (show ("is not", "!=") ∈ Standard.synonyms by decide)
  have hlessEq :
      SpellsMark (Operator.compare .lessEq).symbol [.ident "is", .ident "at", .ident "most"] :=
    .words (show ("is at most", "<=") ∈ Standard.synonyms by decide)
  have hand : SpellsMark (Operator.logical .and).symbol [.ident "and"] :=
    .words (show ("and", "&&") ∈ Standard.synonyms by decide)
  have hnot : SpellsMark "!" [.ident "not"] :=
    .words (show ("not", "!") ∈ Standard.synonyms by decide)
  exact .more (.more (.single (.name ha)) hnotEq (.name hb) (by simp)) hand
    (.not hnot (by simp) (.group (.more (.single (.name hc)) hlessEq (.name ha) (by simp))))
    (by simp)

theorem spellsPhrase_sampleSymbols : SpellsPhrase false samplePhrase sampleSymbols := by
  have ha : "a" ∉ openers := not_mem_openers "a" (by decide)
  have hb : "b" ∉ openers := not_mem_openers "b" (by decide)
  have hc : "c" ∉ openers := not_mem_openers "c" (by decide)
  exact .more (.more (.single (.name ha)) .symbol (.name hb) (by simp)) .symbol
    (.not .symbol (by simp) (.group (.more (.single (.name hc)) .symbol (.name ha) (by simp))))
    (by simp)

/-- The host has the standard extensions and nothing else. -/
structure IsWordy (f : Frontend) : Prop where
  /-- The standard extensions are registered. -/
  registerAll_eq : Standard.registerAll standard = .ok f
  /-- Scripts in words are understood. -/
  takesWords : f.TakesWords
  /-- The settings are the standard ones. -/
  settings_eq : f.settings = .standard
  /-- The host defines nothing. -/
  host_eq : f.host = .empty
  /-- Addresses are the only extension of the lexer. -/
  dialect_eq : f.dialect = { standard.dialect with extensions := [Standard.address] }

theorem exists_isWordy : ∃ f : Frontend, f.IsWordy := by
  have hempty : standard.registry = .empty := rfl
  obtain ⟨r, hr, hf⟩ := Standard.exists_registerAll hempty
  have hwords : ({ standard with registry := r } : Frontend).TakesWords :=
    ⟨⟨standard, hempty, hf⟩, SpellingRules.isEndless_empty, fun _ _ ↦ rfl, rfl⟩
  refine ⟨_, hf, hwords, rfl, rfl, ?_⟩
  rw [dialect, hr.lexical_eq]
  rfl

/-- The name, the symbol or the end with a spelling. -/
def lexemeOfSign : TokenKind × String → Lexeme
  | (.ident, text) => .ident text
  | (.symbol, text) => .symbol text
  | _ => .endOfInput

theorem lexemeOfSign_eq {l : Lexeme} (h : l.kind ∈ [.ident, .symbol, .endOfInput]) :
    lexemeOfSign (l.kind, l.text) = l := by
  cases l <;> simp [Lexeme.kind] at h <;> rfl

/-- Names, symbols and ends are known by their kinds and spellings. -/
theorem eq_of_signs {found lexemes : List Lexeme}
    (hsame : found.map (fun l ↦ (l.kind, l.text)) = lexemes.map fun l ↦ (l.kind, l.text))
    (hkinds : ∀ l ∈ lexemes, l.kind ∈ [.ident, .symbol, .endOfInput]) : found = lexemes := by
  have hfound : ∀ l ∈ found, l.kind ∈ [.ident, .symbol, .endOfInput] := by
    intro l hl
    obtain ⟨l', hl', heq⟩ := List.mem_map.mp (hsame ▸ List.mem_map_of_mem hl)
    exact (Prod.mk.inj heq).1 ▸ hkinds l' hl'
  have hread {list : List Lexeme} (h : ∀ l ∈ list, l.kind ∈ [.ident, .symbol, .endOfInput]) :
      (list.map fun l ↦ (l.kind, l.text)).map lexemeOfSign = list := by
    rw [List.map_map]
    exact (List.map_congr_left fun l hl ↦ lexemeOfSign_eq (h l hl)).trans (List.map_id list)
  rw [← hread hfound, hsame, hread hkinds]

/-- A text of names and symbols assigns what they spell. -/
theorem IsWordy.assigns {free : Bool} (hf : f.IsWordy) (hspells : SpellsPhrase free phrase lexemes)
    (hlength : text.length ≤ Limits.standard.maxScriptLength)
    (hkinds : ∀ l ∈ lexemes, l.kind ∈ [.ident, .symbol, .endOfInput])
    (hsame : (Lexer.ofText { standard.dialect with extensions := [Standard.address] }
      text).tokenize.toOption.map
      (fun tokens ↦ (tokens.filter Window.isSignificant).map fun t ↦ (t.kind, t.text)) =
        some ((Lexeme.ident "x" :: .symbol "=" :: (lexemes ++ [.endOfInput])).map fun l ↦
          (l.kind, l.text))) :
    f.Assigns free phrase lexemes text := by
  rw [← hf.dialect_eq] at hsame
  obtain ⟨tokens, htokens, hsame⟩ := exists_eq_ok_of_map_eq_some hsame
  refine ⟨hspells, ?_, ⟨tokens, named_eq_ok_iff.mpr htokens, eq_of_signs ?_ ?_⟩,
    hf.settings_eq ▸ hlength⟩
  · -- without functions every name may stand before every word
    refine List.Pairwise.isChain (List.pairwise_of_forall fun l next name _ hfunction ↦ ?_)
    rw [hf.host_eq] at hfunction
    cases hfunction
  · rw [← hsame, List.map_map]
    rfl
  · intro l hl
    simp only [List.mem_cons, List.mem_append, List.not_mem_nil, or_false] at hl
    rcases hl with rfl | rfl | hl | rfl
    · simp [Lexeme.kind]
    · simp [Lexeme.kind]
    · exact hkinds l hl
    · simp [Lexeme.kind]

/-! ## Words mean their operators -/

/-- **Words mean their operators.** With the standard extensions, and none of their words defined, a
script that assigns an expression to `x` is one statement, and the same one up to positions
whichever operators and negations of the expression are written in words. Its value is the tree of
the precedence grammar, in which names of functions are calls.

Two spellings are left out, since the parser does not read them so: a negation in words right behind
another negation, and words right behind the name of a function. -/
theorem exists_parse_alike (hf : f.TakesWords) (hlayout : phrase.LaidOut false)
    (hparens : phrase.parens ≤ f.settings.limits.maxParenDepth)
    (hdepth : phrase.depth ≤ f.settings.limits.maxExpressionDepth) {first second : List Lexeme}
    {text₁ text₂ : String} (h₁ : f.Assigns false phrase first text₁)
    (h₂ : f.Assigns false phrase second text₂) :
    ∃ p₁ p₂ e₁ e₂, f.parse text₁ = .ok p₁ ∧ f.parse text₂ = .ok p₂ ∧ p₁.statements = [e₁] ∧
      p₂.statements = [e₂] ∧ e₁.Alike e₂ ∧ e₁.unplaced = phrase.assignedTo "x" f.host := by
  obtain ⟨p₁, e₁, hparse₁, hstatements₁, he₁⟩ := h₁.exists_parse_eq hf hlayout hparens hdepth
  obtain ⟨p₂, e₂, hparse₂, hstatements₂, he₂⟩ := h₂.exists_parse_eq hf hlayout hparens hdepth
  exact ⟨p₁, p₂, e₁, e₂, hparse₁, hparse₂, hstatements₁, hstatements₂, he₂.trans he₁.symm, he₁⟩

/-- An expression in words, with a negation, a group and longer phrases, and the same one in
symbols. -/
theorem exists_parse_alike_samplePhrase :
    ∃ f : Frontend, f.TakesWords ∧ samplePhrase.LaidOut false ∧
      f.Assigns false samplePhrase sampleWords "x = a is not b and not (c is at most a)" ∧
      f.Assigns false samplePhrase sampleSymbols "x = a != b && !(c <= a)" ∧
      ∃ p₁ p₂ e₁ e₂, f.parse "x = a is not b and not (c is at most a)" = .ok p₁ ∧
        f.parse "x = a != b && !(c <= a)" = .ok p₂ ∧ p₁.statements = [e₁] ∧ p₂.statements = [e₂] ∧
        e₁.Alike e₂ ∧ e₁.unplaced = samplePhrase.assignedTo "x" f.host := by
  obtain ⟨f, hf⟩ := exists_isWordy
  have hlayout : samplePhrase.LaidOut false := by
    simp [samplePhrase, Phrase.LaidOut, Factor.LaidOut]
  have hwords :
      f.Assigns false samplePhrase sampleWords "x = a is not b and not (c is at most a)" :=
    hf.assigns spellsPhrase_sampleWords (by decide) (by decide) (by decide +kernel)
  have hsymbols : f.Assigns false samplePhrase sampleSymbols "x = a != b && !(c <= a)" :=
    hf.assigns spellsPhrase_sampleSymbols (by decide) (by decide) (by decide +kernel)
  have hparens : samplePhrase.parens ≤ f.settings.limits.maxParenDepth := by
    rw [hf.settings_eq]
    decide
  have hdepth : samplePhrase.depth ≤ f.settings.limits.maxExpressionDepth := by
    rw [hf.settings_eq]
    decide
  exact ⟨f, hf.takesWords, hlayout, hwords, hsymbols,
    exists_parse_alike hf.takesWords hlayout hparens hdepth hwords hsymbols⟩

/-- Behind another negation, a negation in words is not read: with it the words are not left to
choice. -/
theorem not_exists_parse_alike :
    ¬ ∀ {f : Frontend} {phrase : Phrase} {first second : List Lexeme} {text₁ text₂ : String},
    f.TakesWords →
      phrase.LaidOut false → phrase.parens ≤ f.settings.limits.maxParenDepth →
      phrase.depth ≤ f.settings.limits.maxExpressionDepth → f.Assigns true phrase first text₁ →
      f.Assigns true phrase second text₂ →
      ∃ p₁ p₂ e₁ e₂, f.parse text₁ = .ok p₁ ∧ f.parse text₂ = .ok p₂ ∧ p₁.statements = [e₁] ∧
        p₂.statements = [e₂] ∧ e₁.Alike e₂ := by
  intro hall
  obtain ⟨f, hf⟩ := exists_isWordy
  have ha : "a" ∉ openers := not_mem_openers "a" (by decide)
  have hnot : SpellsMark "!" [.ident "not"] :=
    .words (show ("not", "!") ∈ Standard.synonyms by decide)
  have hwords : SpellsPhrase true (.single (.not (.not (.name "a")))) [.ident "not", .ident "not",
    .ident "a"] :=
    .single (.not hnot (by simp) (.not hnot (by simp) (.name ha)))
  have hsymbols : SpellsPhrase true (.single (.not (.not (.name "a")))) [.symbol "!", .symbol "!",
    .ident "a"] :=
    .single (.not .symbol (by simp) (.not .symbol (by simp) (.name ha)))
  have hparens :
      (Phrase.single (.not (.not (.name "a")))).parens ≤ f.settings.limits.maxParenDepth :=
    Nat.zero_le _
  have hdepth :
      (Phrase.single (.not (.not (.name "a")))).depth ≤ f.settings.limits.maxExpressionDepth := by
    rw [hf.settings_eq]
    decide
  have hrefused :
      ((Standard.registerAll standard).bind fun f ↦ f.parse "x = not not a").toOption.isNone =
      true := by
    decide +kernel
  have hfirst :
      f.Assigns true (.single (.not (.not (.name "a")))) [.ident "not", .ident "not", .ident "a"]
      "x = not not a" := hf.assigns hwords (by decide) (by decide) (by decide +kernel)
  have hsecond :
      f.Assigns true (.single (.not (.not (.name "a")))) [.symbol "!", .symbol "!", .ident "a"]
      "x = !!a" := hf.assigns hsymbols (by decide) (by decide) (by decide +kernel)
  have hlayout : (Phrase.single (.not (.not (.name "a")))).LaidOut false := by
    simp [Phrase.LaidOut, Factor.LaidOut]
  obtain ⟨p₁, p₂, e₁, e₂, hparse, -⟩ := hall hf.takesWords hlayout hparens hdepth hfirst hsecond
  rw [hf.registerAll_eq, Except.bind, hparse] at hrefused
  cases hrefused

end Frontend

end ScriptFront
