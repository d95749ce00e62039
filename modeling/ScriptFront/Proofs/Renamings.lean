import ScriptFront.Proofs.Extension.Phrases
import ScriptFront.Proofs.Parse.Sentences
import ScriptFront.Proofs.RoundTrip

/-!
# Names that stand for other names

Synonyms that put a name in place of a phrase of names rename what a script says. Where a name
stands alone, only the phrase that is this very name can be spelled, so the first such phrase
decides what the name becomes.

How often that happens depends on the place. A statement begins with a look for synonyms, and so
does every operand of an expression; a name that begins a statement is in both places and is renamed
twice, while one behind the mark of an assignment is renamed once. Twice and once are the same
exactly if the name that the word becomes is not renamed itself.
-/

namespace ScriptFront

open Window (minLookahead)

namespace Standard

/-- A name stands for a phrase of names. -/
structure IsNaming (pair : String × String) : Prop where
  /-- There are words. -/
  ne_nil : phraseWords pair.1 ≠ []
  /-- The words are names. -/
  names : ∀ word ∈ phraseWords pair.1, IsName word
  /-- What stands for them is a name. -/
  replacement : IsName pair.2

/-- What becomes of a name that stands alone: the first phrase that is this name decides. -/
def renamed (pairs : List (String × String)) (name : String) : String :=
  ((pairs.find? fun pair ↦ phraseWords pair.1 == [name]).map Prod.snd).getD name

variable {pairs : List (String × String)} {pair : String × String} {name : String}

theorem IsNaming.isPlainPhrase (h : IsNaming pair) : IsPlainPhrase pair.1 := by
  refine ⟨h.ne_nil, fun word hword c hc ↦ ?_⟩
  obtain ⟨first, rest, hsplit, hfirst, hrest⟩ := (h.names word hword).isWord
  rw [hsplit] at hc
  rcases List.mem_cons.mp hc with rfl | hc
  · exact Pattern.isPlain_of_isNameChar (Text.isNameChar_of_isNameStart hfirst)
  · exact Pattern.isPlain_of_isNameChar (hrest c hc)

theorem lexemeOf_name (h : IsName name) : lexemeOf name = .ident name := by
  obtain ⟨c, rest, hsplit, hc, -⟩ := h.isWord
  have hsymbol : name ∉ Lexeme.symbols := by
    have hfirst : ∀ mark ∈ Lexeme.symbols, mark.toList.head?.all (!Text.isNameStart ·) = true := by
      decide
    intro hmem
    have := hfirst name hmem
    rw [hsplit] at this
    simp [hc] at this
  rw [lexemeOf, Lexeme.symbol?, if_neg (by simpa using hsymbol), Lexeme.keyword?,
    if_neg (by simpa using h.notKeyword)]
  rfl

theorem isName_renamed (hpairs : ∀ pair ∈ pairs, IsNaming pair) (h : IsName name) :
    IsName (renamed pairs name) := by
  rw [renamed]
  cases hfind : pairs.find? fun pair ↦ phraseWords pair.1 == [name] with
  | none => exact h
  | some pair => exact (hpairs pair (List.mem_of_find?_eq_some hfind)).replacement

end Standard

open Standard (IsNaming renamed phraseWords entry)

variable {pairs : List (String × String)} {pair : String × String} {name word : String}

/-! ## What becomes of the tokens -/

/-- In front of the end, a name spells a phrase only if the phrase is this name. -/
theorem spoken_name {words : List String} {t last : Token} (ht : t.lexeme = .ident name)
    (hlast : last.kind = .endOfInput) (hne : words ≠ []) :
    spoken words [t, last] = (words == [name]) := by
  have hspells (word : String) : last.spells word = false := by simp [Token.spells, hlast]
  rcases words with _ | ⟨word, _ | ⟨next, words⟩⟩
  · exact absurd rfl hne
  · rw [spoken, spoken, Token.spells_ident ht, Bool.and_true, Bool.eq_iff_iff, beq_iff_eq,
      beq_iff_eq, List.cons.injEq]
    exact ⟨fun h ↦ ⟨h.symm, rfl⟩, fun h ↦ h.1.symm⟩
  · simp [spoken, hspells]

namespace Parse

variable {ctx : ParseContext} {table : SymbolTable} {t last : Token} {tokens : List Token}

/-- Tokens that begin with no first word of a phrase stay as they are. -/
theorem replaces_self_of_head?_ne (hentries : ctx.registry.entries = pairs.map entry)
    (ht : ∀ pair ∈ pairs, (phraseWords pair.1).head? ≠ some t.text) :
    Replaces ctx table (t :: tokens) (t :: tokens) := by
  refine replaces_of_answers_none fun e he _ ↦ ?_
  rw [hentries] at he
  obtain ⟨pair, hpair, rfl⟩ := List.mem_map.mp he
  apply Registered.answers_none
  have hfirst : (phraseWords pair.1).head?.any (t.is ·) = false := by
    have hother := ht pair hpair
    cases hwords : (phraseWords pair.1).head? with
    | none => rfl
    | some first =>
      rw [hwords] at hother
      have hne : t.text ≠ first := fun heq ↦ hother (congrArg some heq.symm)
      simpa [Token.is, Lexeme.is, Token.text] using hne
  rw [Standard.mayStart_entry, hfirst, Bool.false_and]

/-- Before the end, a name that the script does not define is renamed. -/
theorem exists_replaces_renamed (table : SymbolTable)
    (hentries : ctx.registry.entries = pairs.map entry)
    (hpairs : ∀ pair ∈ pairs, IsNaming pair) (ht : t.lexeme = .ident name)
    (hlast : last.kind = .endOfInput)
    (hundefined : table.contains name = false) :
    ∃ t', t'.lexeme = .ident (renamed pairs name) ∧ Replaces ctx table [t, last] [t', last] := by
  have hsight (words : List String) : min words.length [t, last].length ≤ minLookahead + 1 :=
    Nat.le_trans (Nat.min_le_right _ _) (show 2 ≤ minLookahead + 1 by decide)
  have hother : ∀ pair ∈ pairs, (phraseWords pair.1 == [name]) = false →
      (entry pair).Answers table [t, last] none := by
    intro pair hpair hwords w hw
    have hne := (hpairs pair hpair).ne_nil
    exact Standard.answers_entry_none hne (hsight _) ((spoken_name ht hlast hne).trans hwords) hw
  rw [renamed]
  cases hfind : pairs.find? fun pair ↦ phraseWords pair.1 == [name] with
  | none =>
    refine ⟨t, ht, replaces_of_answers_none fun e he _ ↦ ?_⟩
    rw [hentries] at he
    obtain ⟨pair, hpair, rfl⟩ := List.mem_map.mp he
    exact hother pair hpair (by simpa using List.find?_eq_none.mp hfind pair hpair)
  | some pair =>
    obtain ⟨hwords, before, after, hsplit, hbefore⟩ := List.find?_eq_some_iff_append.mp hfind
    have hpair : pair ∈ pairs := hsplit ▸ List.mem_append_right _ List.mem_cons_self
    have hnaming := hpairs pair hpair
    refine ⟨t.withLexeme (.ident pair.2), rfl, ?_⟩
    have hentries' : ctx.registry.entries = before.map entry ++ entry pair :: after.map entry := by
      rw [hentries, hsplit, List.map_append, List.map_cons]
    have htext : t.text = name := by rw [Token.text, ht, Lexeme.text]
    change Replaces ctx table (t :: ([] ++ [last])) (t.withLexeme (.ident pair.2) :: [last])
    apply replaces_of_answers hentries'
    · intro e he _
      obtain ⟨other, hmem, rfl⟩ := List.mem_map.mp he
      exact hother other (hsplit ▸ List.mem_append_left _ hmem) (by simpa using hbefore other hmem)
    · rfl
    · have hstart : (entry pair).mayStart t table = true := by
        rw [Standard.mayStart_entry, beq_iff_eq.mp hwords, htext, hundefined]
        simp [Token.is, Lexeme.is, ht, Lexeme.text]
      intro w hw
      obtain ⟨w', hclaim, hw'⟩ := Standard.answers_entry hnaming.ne_nil (hsight _) hstart hw
      rw [spoken_name ht hlast hnaming.ne_nil, if_pos hwords, beq_iff_eq.mp hwords] at hclaim
      exact ⟨w', hclaim, hw'⟩
    · exact fun _ _ ↦ congrArg some (Standard.lexemeOf_name hnaming.replacement)
    · rfl
    · simp [Lexeme.kind]
    · exact Nat.zero_le _
    · exact List.cons_ne_nil _ _

/-- Synonyms build nothing. -/
theorem leaves_of_synonyms (hentries : ctx.registry.entries = pairs.map entry)
    {kind : ExtensionKind}
    (hkind : kind ≠ .replacement) : Leaves ctx kind table tokens := by
  refine leaves_of_answers fun e he hsame ↦ ?_
  rw [hentries] at he
  obtain ⟨pair, -, rfl⟩ := List.mem_map.mp he
  exact absurd hsame.symm hkind

/-- The loop finds in a token the name that the token becomes. -/
theorem isPhrase_name (hentries : ctx.registry.entries = pairs.map entry)
    {rest : List Token} {t' : Token}
    (hsolid : Window.isNewLine t = false) (ht' : t'.lexeme = .ident name)
    (hreplaces : Replaces ctx table (t :: rest) (t' :: rest)) (hrest : FollowsOperand rest)
    (hfunction : table.isFunction name = false) :
    IsPhrase ctx table id false (.single (.name name)) [t] rest := by
  have hseen : Replaces ctx table ([t] ++ rest) (t' :: ([] ++ rest)) := hreplaces
  have hoperator : t'.isSymbol "(" = false := by simp [Token.isSymbol, Token.kind, ht', Lexeme.kind]
  exact .single (.operand ⟨t, [], rfl, hsolid⟩ hseen hoperator
    (.name ht' (leaves_of_synonyms hentries (by decide)) hrest hfunction rfl))

/-- What is no name begins no phrase. -/
theorem head?_ne_of_not_isName (hpairs : ∀ pair ∈ pairs, IsNaming pair) {text : String}
    (h : ¬ IsName text) :
    ∀ pair ∈ pairs, (phraseWords pair.1).head? ≠ some text :=
  fun pair hpair hhead ↦ h ((hpairs pair hpair).names text (List.mem_of_head? hhead))

theorem replaces_last (hentries : ctx.registry.entries = pairs.map entry)
    (hpairs : ∀ pair ∈ pairs, IsNaming pair) (hlast : last.kind = .endOfInput) :
    Replaces ctx table [last] [last] := by
  have htext : last.text = "" := by rw [Token.text, lexeme_eq_endOfInput hlast, Lexeme.text]
  have hempty : ¬ IsName last.text := by
    rintro ⟨⟨c, rest, hsplit, -, -⟩, -, -⟩
    rw [htext] at hsplit
    cases hsplit
  apply replaces_self_of_head?_ne hentries
  exact head?_ne_of_not_isName hpairs hempty

/-! ## Programs -/

section Programs

variable {w : Window Lexer} {target mark : Token}

theorem followsOperand_last (hlast : last.kind = .endOfInput) : FollowsOperand [last] :=
  ⟨last, [], rfl, EndsPhrase.opensLink_eq (.inr (.inr hlast))⟩

theorem phraseRoom_name (hdepth : 1 ≤ ctx.limits.maxExpressionDepth) (name : String) :
    PhraseRoom ctx (.initial w table) (Phrase.single (.name name)).parens
      (Phrase.single (.name name)).depth :=
  ⟨Nat.zero_le _, by simpa [ParserState.initial, Phrase.depth, Factor.depth] using hdepth⟩

/-- A word alone is renamed as a statement and as an operand. -/
theorem program_yields_word (hentries : ctx.registry.entries = pairs.map entry)
    (hpairs : ∀ pair ∈ pairs, IsNaming pair) (hname : IsName name)
    (hdepth : 1 ≤ ctx.limits.maxExpressionDepth) (hw : w.Shows [t, last])
    (ht : t.lexeme = .ident name)
    (hlast : last.kind = .endOfInput) :
    (program ctx).Yields (.initial w .empty) (.initial w .empty) [last] fun statements ↦
      ∃ e, statements = [e] ∧ e.unplaced = .var (renamed pairs (renamed pairs name)) := by
  have hname₁ : IsName (renamed pairs name) := Standard.isName_renamed hpairs hname
  obtain ⟨t₁, ht₁, hreplaces₁⟩ := exists_replaces_renamed .empty hentries hpairs ht hlast rfl
  obtain ⟨t₂, ht₂, hreplaces₂⟩ := exists_replaces_renamed .empty hentries hpairs ht₁ hlast rfl
  have hbegins : BeginsOperand t.lexeme := ht ▸ beginsOperand_name hname
  have hbegins₁ : BeginsOperand t₁.lexeme := ht₁ ▸ beginsOperand_name hname₁
  have hphrase : IsPhrase ctx .empty id false (.single (.name (renamed pairs (renamed pairs name))))
    [t₁] [last] :=
    isPhrase_name hentries hbegins₁.isNewLine_eq ht₂ hreplaces₂ (followsOperand_last hlast) rfl
  refine program_yields_single hw hdepth hlast fun hn hat ↦ ?_
  refine statement_yields_replaced hat hbegins hreplaces₁ hbegins₁
    (leaves_of_synonyms hentries (by decide)) hlast
    fun s' h' ↦ ?_
  exact simpleStatement_yields_phrase isLeafwise_id hphrase hlast
    (replaces_last hentries hpairs hlast) h' rfl
    (phraseRoom_name hdepth _) hn

/-- Behind the mark of an assignment, a word is renamed as an operand only. -/
theorem program_yields_assigned {v : String} (hentries : ctx.registry.entries = pairs.map entry)
    (hpairs : ∀ pair ∈ pairs, IsNaming pair) (hv : IsName v)
    (hfirst : ∀ pair ∈ pairs, (phraseWords pair.1).head? ≠ some v)
    (hdepth : 1 ≤ ctx.limits.maxExpressionDepth) (hw : w.Shows [target, mark, t, last])
    (htarget : target.lexeme = .ident v) (hmark : mark.lexeme = .symbol "=")
    (ht : t.lexeme = .ident name)
    (hlast : last.kind = .endOfInput) :
    (program ctx).Yields (.initial w .empty)
      { ParserState.initial w .empty with
        symbols := (Expr.assigned v (.var (renamed pairs name)) globalScope).defines .empty } [last]
      fun statements ↦ ∃ e, statements = [e] ∧
        e.unplaced = .assigned v (.var (renamed pairs name)) globalScope := by
  obtain ⟨t₁, ht₁, hreplaces⟩ := exists_replaces_renamed .empty hentries hpairs ht hlast rfl
  have hbegins : BeginsOperand target.lexeme := htarget ▸ beginsOperand_name hv
  have htext : target.text = v := by rw [Token.text, htarget, Lexeme.text]
  have hself : Replaces ctx .empty [target, mark, t, last] [target, mark, t, last] :=
    replaces_self_of_head?_ne hentries (htext ▸ hfirst)
  have hmarkText : ¬ IsName mark.text := by
    rintro ⟨⟨c, rest, hsplit, hc, -⟩, -, -⟩
    rw [Token.text, hmark, Lexeme.text] at hsplit
    obtain ⟨rfl, -⟩ := List.cons.inj (show ['='] = c :: rest from hsplit)
    revert hc
    decide
  have hbehind : Replaces ctx .empty (mark :: ([t] ++ [last])) (mark :: ([t] ++ [last])) :=
    replaces_self_of_head?_ne hentries (head?_ne_of_not_isName hpairs hmarkText)
  have hlink : opensLink mark = false := by
    rw [opensLink_of_symbol hmark]
    decide
  have hvalue : IsPhrase ctx .empty id false (.single (.name (renamed pairs name))) [t] [last] :=
    isPhrase_name hentries (by simp [Window.isNewLine, Token.kind, ht, Lexeme.kind]) ht₁ hreplaces
      (followsOperand_last hlast) rfl
  refine program_yields_single hw hdepth hlast fun hn hat ↦ ?_
  refine statement_yields_replaced hat hbegins hself hbegins
    (leaves_of_synonyms hentries (by decide)) hlast
    fun s' h' ↦ ?_
  exact simpleStatement_yields_assignment isLeafwise_id hmark
    (isPhrase_name hentries hbegins.isNewLine_eq htarget hself ⟨mark, _, rfl, hlink⟩ rfl)
    hbehind hvalue hlast
    (replaces_last hentries hpairs hlast) h' rfl (phraseRoom_name hdepth _) hn

end Programs

end Parse

/-! ## Scripts -/

namespace Frontend

/-- Nothing but synonyms is set up. -/
structure SpeaksIn (f : Frontend) (settings : Settings) (pairs : List (String × String)) :
    Prop where
  /-- The settings. -/
  settings_eq : f.settings = settings
  /-- The synonyms. -/
  entries_eq : f.registry.entries = pairs.map entry
  /-- No extensions of the lexer. -/
  lexical_eq : f.registry.lexical = []
  /-- No rules. -/
  rules_eq : f.rules = .empty
  /-- No symbols of the host. -/
  host_eq : f.host = .empty

variable {f : Frontend} {settings : Settings} {v w : String}

/-- Synonyms for names can be registered. -/
theorem exists_speaksIn (settings : Settings) (hpairs : ∀ pair ∈ pairs, IsNaming pair) :
    ∃ f, pairs.foldlM (fun f (phrase, replacement) ↦
      f.register (Standard.synonym phrase replacement))
      (ofSettings settings) = .ok f ∧ f.SpeaksIn settings pairs :=
  ⟨_, Standard.foldlM_register fun pair hpair ↦ (hpairs pair hpair).isPlainPhrase,
    rfl, rfl, rfl, rfl, rfl⟩

theorem SpeaksIn.exists_parse_of_lexes (hf : f.SpeaksIn settings pairs) {e : Expr}
    (he : e.IsPlainStatement)
    (hquotes : ∀ l ∈ e.statementWords, l.text.toList.head? ≠ some '"')
    (hlength : e.text.length ≤ settings.limits.maxScriptLength) {P : List Expr → Prop}
    (hparse : ∀ (w : Window Lexer) (tokens : List Token) (last : Token),
      w.Shows (tokens ++ [last]) → tokens.map Token.lexeme = e.statementWords →
      last.kind = .endOfInput →
      ∃ base left, (Parse.program f.context).Yields (.initial w .empty) base left P) :
    ∃ p, f.parse e.text = .ok p ∧ P p.statements := by
  obtain ⟨hlexes, hstart⟩ := lexes_of_isPlainStatement he
  exact Frontend.exists_parse_of_lexes hf.rules_eq hf.lexical_eq
    (fun l hl ↦ .inr (hquotes l hl)) hstart hlexes
    (hf.settings_eq.symm ▸ hlength) fun w tokens last hshows htokens hlast _ ↦
      hf.host_eq.symm ▸ hparse w tokens last hshows htokens hlast

theorem SpeaksIn.depth_le (hf : f.SpeaksIn settings pairs)
    (hdepth : 1 ≤ settings.limits.maxExpressionDepth) :
    1 ≤ f.context.limits.maxExpressionDepth := by
  rw [context, hf.settings_eq]
  exact hdepth

theorem head?_ne_of_isName (h : IsName name) : name.toList.head? ≠ some '"' := by
  obtain ⟨c, rest, hsplit, hc, -⟩ := h.isWord
  rw [hsplit, List.head?_cons]
  rintro ⟨⟩
  revert hc
  decide

/-- What a word alone is parsed to. -/
theorem SpeaksIn.exists_parse_word (hf : f.SpeaksIn settings pairs)
    (hpairs : ∀ pair ∈ pairs, IsNaming pair)
    (hw : IsName w) (hlength : w.length ≤ settings.limits.maxScriptLength)
    (hdepth : 1 ≤ settings.limits.maxExpressionDepth) :
    ∃ p e, f.parse w = .ok p ∧ p.statements = [e] ∧
      e.unplaced = .var (renamed pairs (renamed pairs w)) := by
  have htext : (Expr.var w).text = w := rfl
  have hwords : (Expr.var w).statementWords = [.ident w] := rfl
  have hquotes : ∀ l ∈ (Expr.var w).statementWords, l.text.toList.head? ≠ some '"' := by
    rw [hwords]
    exact List.forall_mem_singleton.mpr (head?_ne_of_isName hw)
  obtain ⟨p, hparse, e, hstatements, he⟩ :=
    hf.exists_parse_of_lexes (.expression (.var hw)) hquotes hlength
    fun window tokens last hshows htokens hlast ↦ by
      obtain ⟨t, none, rfl, ht, hnone⟩ := List.map_eq_cons_iff.mp htokens
      obtain rfl := List.map_eq_nil_iff.mp hnone
      exact ⟨_, _, Parse.program_yields_word hf.entries_eq hpairs hw
        (hf.depth_le hdepth) hshows ht hlast⟩
  exact ⟨p, e, htext ▸ hparse, hstatements, he⟩

/-- What the assignment of a word is parsed to. -/
theorem SpeaksIn.exists_parse_assigned (hf : f.SpeaksIn settings pairs)
    (hpairs : ∀ pair ∈ pairs, IsNaming pair) (hv : IsName v) (hw : IsName w)
    (hfirst : ∀ pair ∈ pairs, (phraseWords pair.1).head? ≠ some v)
    (hlength : (v ++ " = " ++ w).length ≤ settings.limits.maxScriptLength)
    (hdepth : 1 ≤ settings.limits.maxExpressionDepth) :
    ∃ p target value place scope, f.parse (v ++ " = " ++ w) = .ok p ∧
      p.statements = [.mk (.assign target .assign (some value) false) place scope] ∧
      value.unplaced = .var (renamed pairs w) := by
  have htext : (Expr.assign (.var v) .assign (some (.var w)) false).text = v ++ " = " ++ w := by
    simp [Expr.text, Expr.assign, Expr.var, Expr.ofForm, Expr.textAt, Form.textAt, optionText,
      AssignOp.symbol, String.append_assoc]
  have hwords : (Expr.assign (.var v) .assign (some (.var w)) false).statementWords =
      [.ident v, .symbol "=", .ident w] := rfl
  have hquotes : ∀ l ∈ (Expr.assign (.var v) .assign (some (.var w)) false).statementWords,
      l.text.toList.head? ≠ some '"' := by
    rw [hwords]
    refine List.forall_mem_cons.mpr ⟨head?_ne_of_isName hv, List.forall_mem_cons.mpr ⟨?_, ?_⟩⟩
    · decide
    · exact List.forall_mem_singleton.mpr (head?_ne_of_isName hw)
  rw [← htext] at hlength ⊢
  obtain ⟨p, hparse, e, hstatements, he⟩ :=
    hf.exists_parse_of_lexes (.assign (.var hv) rfl (.var hw)) hquotes hlength
    fun window tokens last hshows htokens hlast ↦ by
      obtain ⟨target, rest, rfl, htarget, hrest⟩ := List.map_eq_cons_iff.mp htokens
      obtain ⟨mark, rest, rfl, hmark, hrest⟩ := List.map_eq_cons_iff.mp hrest
      obtain ⟨t, none, rfl, ht, hnone⟩ := List.map_eq_cons_iff.mp hrest
      obtain rfl := List.map_eq_nil_iff.mp hnone
      exact ⟨_, _, Parse.program_yields_assigned hf.entries_eq hpairs hv hfirst (hf.depth_le hdepth)
        hshows htarget hmark ht hlast⟩
  obtain ⟨target, value, place, rfl, hvalue⟩ := Expr.exists_assign_of_unplaced_eq he
  exact ⟨p, target, value, place, globalScope, hparse, hstatements, hvalue⟩

/-- **Renaming depends on the place, twice for once.** With synonyms that put names in place of
phrases of names, and no symbols of the host, a word that is a script by itself is renamed twice,
and a word that is assigned to a name, which no phrase begins with, is renamed once. So the
expression that is parsed is the same one up to positions exactly if renaming the word a second time
does not change it. -/
theorem exists_parse_alike_iff (hpairs : ∀ pair ∈ pairs, IsNaming pair) (hv : IsName v)
    (hw : IsName w)
    (hfirst : ∀ pair ∈ pairs, (phraseWords pair.1).head? ≠ some v)
    (hlength : (v ++ " = " ++ w).length ≤ settings.limits.maxScriptLength)
    (hdepth : 1 ≤ settings.limits.maxExpressionDepth) :
    ∃ f p q e target value place scope,
      pairs.foldlM (fun f (phrase, replacement) ↦ f.register (Standard.synonym phrase replacement))
        (ofSettings settings) = .ok f ∧
      f.parse w = .ok p ∧ p.statements = [e] ∧
      f.parse (v ++ " = " ++ w) = .ok q ∧
      q.statements = [.mk (.assign target .assign (some value) false) place scope] ∧
      e.Alike (.var (renamed pairs (renamed pairs w))) ∧ value.Alike (.var (renamed pairs w)) ∧
      (e.Alike value ↔ renamed pairs (renamed pairs w) = renamed pairs w) := by
  obtain ⟨f, hregister, hf⟩ := exists_speaksIn settings hpairs
  have hshorter : w.length ≤ settings.limits.maxScriptLength := by
    rw [String.length_append] at hlength
    omega
  obtain ⟨p, e, hparse, hstatements, he⟩ := hf.exists_parse_word hpairs hw hshorter hdepth
  obtain ⟨q, target, value, place, scope, hassigned, hassignment, hvalue⟩ :=
    hf.exists_parse_assigned hpairs hv hw hfirst hlength hdepth
  refine ⟨f, p, q, e, target, value, place, scope, hregister, hparse, hstatements, hassigned,
    hassignment, he.symm, hvalue.symm, ?_⟩
  rw [Expr.Alike, he, hvalue]
  constructor
  · intro hsame
    simpa [Expr.var, Expr.ofForm] using hsame.symm
  · intro hsame
    rw [hsame]

/-! ### A chain of names -/

/-- A name for which another one stands, for which a third one stands. -/
def sampleRenamings : List (String × String) :=
  [("a", "b"), ("b", "c")]

theorem isNaming_of_mem_sampleRenamings : ∀ pair ∈ sampleRenamings, IsNaming pair := by
  have hletter (c : Char) (hc : Text.isNameStart c = true)
      (hreserved : String.ofList [c] ∉ Lexeme.keywords ∧ String.ofList [c] ∉ literalWords) :
      IsName (String.ofList [c]) :=
    ⟨⟨c, [], String.toList_ofList, hc, by simp⟩, hreserved.1, hreserved.2⟩
  have ha : phraseWords "a" = ["a"] := by decide +kernel
  have hb : phraseWords "b" = ["b"] := by decide +kernel
  refine List.forall_mem_cons.mpr ⟨?_, List.forall_mem_singleton.mpr ?_⟩
  · refine ⟨ha ▸ List.cons_ne_nil _ _, ?_, hletter 'b' (by decide) (by decide)⟩
    rw [ha]
    exact List.forall_mem_singleton.mpr (hletter 'a' (by decide) (by decide))
  · refine ⟨hb ▸ List.cons_ne_nil _ _, ?_, hletter 'c' (by decide) (by decide)⟩
    rw [hb]
    exact List.forall_mem_singleton.mpr (hletter 'b' (by decide) (by decide))

theorem isName_a : IsName "a" := ⟨⟨'a', [], rfl, by decide, by simp⟩, by decide, by decide⟩

theorem isName_v : IsName "v" := ⟨⟨'v', [], rfl, by decide, by simp⟩, by decide, by decide⟩

theorem exists_parse_alike_iff_sampleRenamings :
    (∀ pair ∈ sampleRenamings, IsNaming pair) ∧ IsName "v" ∧ IsName "a" ∧
    (∀ pair ∈ sampleRenamings, (phraseWords pair.1).head? ≠ some "v") ∧
    ∃ f p q e target value place scope,
      sampleRenamings.foldlM (fun f (phrase, replacement) ↦
        f.register (Standard.synonym phrase replacement))
        (ofSettings .standard) = .ok f ∧
      f.parse "a" = .ok p ∧ p.statements = [e] ∧
      f.parse ("v" ++ " = " ++ "a") = .ok q ∧
      q.statements = [.mk (.assign target .assign (some value) false) place scope] ∧
      e.Alike (.var (renamed sampleRenamings (renamed sampleRenamings "a"))) ∧
      value.Alike (.var (renamed sampleRenamings "a")) ∧
      (e.Alike value ↔ renamed sampleRenamings (renamed sampleRenamings "a") = renamed
        sampleRenamings "a") := by
  have hfirst : ∀ pair ∈ sampleRenamings, (phraseWords pair.1).head? ≠ some "v" := by decide +kernel
  exact ⟨isNaming_of_mem_sampleRenamings, isName_v, isName_a, hfirst,
    exists_parse_alike_iff isNaming_of_mem_sampleRenamings isName_v isName_a hfirst
      (by decide) (by decide)⟩

/-- With the chain, the script of a word is not what is assigned if the word is assigned. -/
theorem not_parse_alike :
    ¬ ∀ {pairs : List (String × String)} {v w : String} {f : Frontend} {p q : Program} {e
      target value : Expr}
      {place : Position} {scope : Nat}, (∀ pair ∈ pairs, IsNaming pair) → IsName v → IsName w →
      (∀ pair ∈ pairs, (phraseWords pair.1).head? ≠ some v) →
      pairs.foldlM (fun f (phrase, replacement) ↦ f.register (Standard.synonym phrase replacement))
        (ofSettings .standard) = .ok f →
      f.parse w = .ok p → p.statements = [e] → f.parse (v ++ " = " ++ w) = .ok q →
      q.statements = [.mk (.assign target .assign (some value) false) place scope] →
      e.Alike value := by
  intro hall
  have hpairs := isNaming_of_mem_sampleRenamings
  have hfirst : ∀ pair ∈ sampleRenamings, (phraseWords pair.1).head? ≠ some "v" := by decide +kernel
  have honce : renamed sampleRenamings "a" = "b" := by decide +kernel
  have htwice : renamed sampleRenamings "b" = "c" := by decide +kernel
  obtain ⟨f, hregister, hf⟩ := exists_speaksIn .standard hpairs
  obtain ⟨p, e, hparse, hstatements, he⟩ :=
    hf.exists_parse_word hpairs isName_a (by decide) (by decide)
  obtain ⟨q, target, value, place, scope, hassigned, hassignment, hvalue⟩ :=
    hf.exists_parse_assigned hpairs isName_v isName_a hfirst (by decide) (by decide)
  have hsame : value.unplaced = e.unplaced :=
    hall hpairs isName_v isName_a hfirst hregister hparse hstatements hassigned hassignment
  rw [he, hvalue, honce, htwice] at hsame
  simp [Expr.var, Expr.ofForm] at hsame

end Frontend

end ScriptFront
