import ScriptFront.Frontend
import ScriptFront.Proofs.Lexer.PlainText
import ScriptFront.Proofs.Parse.Scripts
import ScriptFront.Proofs.Tree.Text

/-!
# Parsing undoes formatting

The canonical text of plain statements is cut into their words, and the words are parsed to the
statements again, up to places. The text does not show the places of nodes, so formatting what was
read back gives the same text once more: on plain scripts, formatting is a fixed point.

The bounds on nesting come in by one number. The text has more parentheses than a script needs, so a
script that is read within its bounds can have a canonical text that exceeds them.
-/

namespace ScriptFront

/-- All bounds on nesting admit `k`. -/
structure Limits.Admits (limits : Limits) (k : Nat) : Prop where
  /-- The bound on open argument lists. -/
  calls : k ≤ limits.maxCallDepth
  /-- The bound on links. -/
  members : k ≤ limits.maxMemberDepth
  /-- The bound on open parentheses. -/
  parens : k ≤ limits.maxParenDepth
  /-- The bound on open operands. -/
  depth : k ≤ limits.maxExpressionDepth

theorem Limits.Admits.mono {limits : Limits} {k k' : Nat} (h : limits.Admits k) (hk : k' ≤ k) :
    limits.Admits k' :=
  ⟨Nat.le_trans hk h.calls, Nat.le_trans hk h.members, Nat.le_trans hk h.parens,
    Nat.le_trans hk h.depth⟩

/-- A program is read by the loop over statements, with fuel for everything that the bounds
admit. -/
theorem Parse.program_yields {ctx : ParseContext} {w : Window Lexer} {tokens left : List Token}
    {base : ParserState} {P : List Expr → Prop} {k : Nat} (hlimits : ctx.limits.Admits k)
    (hshows : w.Shows tokens)
    (hwithin : ∀ {inner : (fuel : Nat) → List Token → Parse Expr} {n fuel : Nat},
      (ParserState.initial w .empty).At tokens (.initial w .empty) →
      Room ctx (.initial w .empty) n k → tokens.length < fuel →
      (programWithin (runWith ctx inner (n + 1)) fuel []).Yields (.initial w .empty) base left P) :
    (program ctx).Yields (.initial w .empty) base left P := by
  obtain ⟨inner, hrun⟩ := exists_run_eq ctx (sectionLevels ctx)
  have hdepth : k + 1 ≤ depth ctx w.tokensLeft := by
    have := hlimits.depth
    rw [depth]
    omega
  obtain ⟨n, hn⟩ := Nat.exists_eq_succ_of_ne_zero (Nat.ne_zero_of_lt hdepth)
  have hroom : Room ctx (.initial w .empty) n k := by
    refine ⟨fun _ ↦ rfl, fun _ ↦ rfl, ?_, ?_, ?_, hlimits.members, by omega⟩
    · exact (Nat.zero_add k).symm ▸ hlimits.parens
    · exact (Nat.zero_add k).symm ▸ hlimits.calls
    · exact (Nat.zero_add k).symm ▸ hlimits.depth
  have hat : (ParserState.initial w .empty).At tokens (.initial w .empty) := ⟨rfl, hshows⟩
  rw [program]
  refine yields_bind_of_ok tokens_run (yields_bind_of_ok rounds_run ?_)
  have hleft : (ParserState.initial w .empty).tokens.tokensLeft = w.tokensLeft := rfl
  rw [hrun, hleft, hn]
  exact hwithin hat hroom hat.length_lt_rounds

namespace Frontend

/-- Nothing is set up but settings, and the marker is the standard one. -/
structure IsPlain (f : Frontend) : Prop where
  /-- No extensions of the grammar. -/
  entries : f.registry.entries = []
  /-- No extensions of the lexer. -/
  lexical : f.registry.lexical = []
  /-- No changes to the token stream. -/
  rules : f.rules = .empty
  /-- No symbols of the host. -/
  host : f.host = .empty
  /-- The standard marker. -/
  marker : f.settings.marker = Dialect.defaultMarker

variable {f : Frontend}

/-- Without rules and extensions of the lexer, a text that consists of some lexemes is read as they
are. -/
theorem exists_window_of_lexes (hrules : f.rules = .empty) (hlexical : f.registry.lexical = [])
    {text : String} {ls : List Lexeme} (hsuits : ∀ l ∈ ls, (Lexer.ofText f.dialect text).Suits l)
    (hstart : text.toList.head? ≠ some '\uFEFF') (hlexes : Lexer.Lexes text.toList ls) :
    ∃ w tokens last, f.window text = .ok w ∧ w.Shows (tokens ++ [last]) ∧
    tokens.map Token.lexeme = ls ∧
      last.kind = .endOfInput ∧ ((tokens ++ [last]).map Token.index).Pairwise (· < ·) := by
  have hcontents : (Lexer.ofText f.dialect text).cursor.rest = text.toList :=
    Cursor.contents_eq_toList hstart
  have hfresh : (Lexer.ofText f.dialect text).IsFresh := ⟨hrules, hlexical, rfl, rfl⟩
  obtain ⟨w, tokens, hwindow, hshows, hlexemes, hindices⟩ :=
    hlexes.exists_ofSource hfresh hsuits hcontents f.settings.lookahead
  obtain ⟨body, final, rfl, hbody, hfinal⟩ := List.map_eq_append_iff.mp hlexemes
  obtain ⟨last, none, rfl, hlast, hnone⟩ := List.map_eq_cons_iff.mp hfinal
  obtain rfl := List.map_eq_nil_iff.mp hnone
  exact ⟨w, body, last, hwindow, hshows, hbody, by rw [Token.kind, hlast]; rfl, hindices⟩

/-- The same text is parsed as its lexemes are. -/
theorem exists_parse_of_lexes (hrules : f.rules = .empty) (hlexical : f.registry.lexical = [])
    {text : String} {ls : List Lexeme} (hsuits : ∀ l ∈ ls, (Lexer.ofText f.dialect text).Suits l)
    (hstart : text.toList.head? ≠ some '\uFEFF') (hlexes : Lexer.Lexes text.toList ls)
    (hlength : text.length ≤ f.settings.limits.maxScriptLength) {P : List Expr → Prop}
    (hparse : ∀ (w : Window Lexer) (tokens : List Token) (last : Token),
      w.Shows (tokens ++ [last]) → tokens.map Token.lexeme = ls → last.kind = .endOfInput →
      ((tokens ++ [last]).map Token.index).Pairwise (· < ·) →
      ∃ base left, (Parse.program f.context).Yields (.initial w f.host) base left P) :
    ∃ program, f.parse text = .ok program ∧ P program.statements := by
  obtain ⟨w, tokens, last, hwindow, hshows, hlexemes, hlast, hindices⟩ :=
    exists_window_of_lexes hrules hlexical hsuits hstart hlexes
  obtain ⟨base, left, statements, s, hrun, -, hP⟩ :=
    hparse w tokens last hshows hlexemes hlast hindices
  refine ⟨⟨statements, s.symbols⟩, ?_, hP⟩
  simp only [parse, hwindow, if_neg (Nat.not_lt_of_le hlength), Parse.parseProgram, hrun]
  rfl

/-- A text that consists of some lexemes is parsed as they are. -/
theorem parse_eq_of_lexes (hf : f.IsPlain) {text : String} {ls : List Lexeme}
    (hstart : text.toList.head? ≠ some '\uFEFF') (hlexes : Lexer.Lexes text.toList ls)
    (hlength : text.length ≤ f.settings.limits.maxScriptLength) {P : List Expr → Prop}
    (hparse : ∀ (w : Window Lexer) (tokens : List Token) (last : Token),
      w.Shows (tokens ++ [last]) → tokens.map Token.lexeme = ls → last.kind = .endOfInput →
      ((tokens ++ [last]).map Token.index).Pairwise (· < ·) →
      ∃ base left, (Parse.program f.context).Yields (.initial w .empty) base left P) :
    ∃ program, f.parse text = .ok program ∧ P program.statements :=
  exists_parse_of_lexes hf.rules hf.lexical (fun _ _ ↦ .inl hf.marker) hstart hlexes hlength
    (hf.host ▸ hparse)

/-- The text of a plain statement consists of its words, and does not begin with a byte order
mark. -/
theorem lexes_of_isPlainStatement {e : Expr} (he : e.IsPlainStatement) :
    Lexer.Lexes e.text.toList e.statementWords ∧ e.text.toList.head? ≠ some '\uFEFF' := by
  have hspells := Lexer.spells_of_isPlainStatement he 0
  have hlexes := hspells.lexes Lexer.endsWord_nil .nil
  rw [List.append_nil, List.append_nil] at hlexes
  obtain ⟨c, cs, hsplit, hstarts⟩ := hspells.starts
  have hfirst : e.text.toList = c :: cs := hsplit
  exact ⟨hlexes, by simpa [hfirst] using hstarts.notByteOrder⟩

/-- **A plain statement is read back from its text**, by itself and up to places. -/
theorem exists_parse_statement_eq (hf : f.IsPlain) {e : Expr} (he : e.IsPlainStatement)
    (hlimits : f.settings.limits.Admits (2 * e.statementHeight + 1))
    (hlength : e.text.length ≤ f.settings.limits.maxScriptLength) :
    ∃ program statement, f.parse e.text = .ok program ∧ program.statements = [statement] ∧
      statement.bare = e.bare := by
  obtain ⟨hlexes, hstart⟩ := lexes_of_isPlainStatement he
  obtain ⟨program, hparse, statement, hstatements, hbare⟩ := parse_eq_of_lexes hf hstart hlexes
    hlength fun w tokens last hshows htokens hlast hindices ↦
      ⟨_, _, Parse.program_yields hlimits hshows fun hat hroom hfuel ↦
        Parse.programWithin_single hf.entries he hroom hat htokens hlast hindices hfuel⟩
  exact ⟨program, statement, hparse, hstatements, hbare⟩

/-- **Parsing undoes formatting.** An assignment of a plain expression, as it is written, is parsed
to one statement, which assigns that expression, up to places. -/
theorem exists_parse_assignment_eq (hf : f.IsPlain) {e : Expr} (he : e.IsPlain)
    (hlimits : f.settings.limits.Admits (2 * e.size + 2))
    (hlength : ("x = " ++ e.text).length ≤ f.settings.limits.maxScriptLength) :
    ∃ program target value position scope, f.parse ("x = " ++ e.text) = .ok program ∧
      program.statements = [.mk (.assign target .assign (some value) false) position scope] ∧
      target.bare = .var "x" ∧ value.bare = e.bare := by
  have hname : IsName "x" := ⟨⟨'x', [], rfl, by decide, by simp⟩, by decide, by decide⟩
  have hstatement : (Expr.assign (.var "x") .assign (some e) false).IsPlainStatement :=
    .assign (.var hname) rfl he
  have htext : (Expr.assign (.var "x") .assign (some e) false).text = "x = " ++ e.text := by
    have hgroup : "x" ++ (" = " ++ Expr.textAt 0 e) = "x = " ++ Expr.textAt 0 e := by
      rw [← String.append_assoc]
      rfl
    simpa [Expr.text, Expr.assign, Expr.var, Expr.ofForm, Expr.textAt, Form.textAt, optionText,
      AssignOp.symbol, String.append_assoc] using hgroup
  rw [← htext] at hlength ⊢
  have hroom : f.settings.limits.Admits
      (2 * (Expr.assign (.var "x") .assign (some e) false).statementHeight + 1) := by
    have hheight := he.height_le_size
    have hpos := e.height_pos
    refine hlimits.mono ?_
    have hmax : (Expr.assign (.var "x") .assign (some e) false).statementHeight =
        max (Expr.var "x").height e.height := rfl
    have hvar : (Expr.var "x").height = 1 := rfl
    omega
  obtain ⟨program, statement, hparse, hstatements, hbare⟩ :=
    exists_parse_statement_eq hf hstatement hroom hlength
  obtain ⟨target, value, position, scope, rfl, htarget, hvalue⟩ :=
    Expr.exists_assign_of_bare_eq hbare
  exact ⟨program, target, value, position, scope, hparse, hstatements, htarget, hvalue⟩

theorem isPlain_standard : standard.IsPlain := ⟨rfl, rfl, rfl, rfl, rfl⟩

/-- `(!f.g("a\"b")[[null, true]] == y)`. -/
def sampleChain : Expr :=
  .ofForm (.compare .eq
    (.ofForm (.unary .not (.ofForm (.index
      (.callComputed (.ofForm (.member (.var "f") "g")) [.string "a\"b"])
      (.ofForm (.array [.null, .constant (.bool true)]))))))
    (.var "y"))

theorem sampleChain_isPlain : sampleChain.IsPlain := by
  have hletter {c : Char} (hstart : Text.isNameStart c = true)
      (hkeyword : String.ofList [c] ∉ Lexeme.keywords)
      (hliteral : String.ofList [c] ∉ literalWords) : IsName (String.ofList [c]) :=
    ⟨⟨c, [], by simp, hstart, by simp⟩, hkeyword, hliteral⟩
  have hf : IsName "f" := hletter (c := 'f') (by decide) (by decide) (by decide)
  have hg : IsName "g" := hletter (c := 'g') (by decide) (by decide) (by decide)
  have hy : IsName "y" := hletter (c := 'y') (by decide) (by decide) (by decide)
  have hargs : ∀ e ∈ [Expr.string "a\"b"], e.IsPlain := by
    simp only [List.mem_singleton, forall_eq]
    exact .constant (.str (by decide))
  have hkey : ∀ e ∈ [Expr.null, .constant (.bool true)], e.IsPlain := by
    simp only [List.mem_cons, List.not_mem_nil, or_false, forall_eq_or_imp, forall_eq]
    exact ⟨.constant .null, .constant (.bool true)⟩
  exact .compare (.not (.index (.call (.member (.var hf) hg) hargs) (.array hkey))) (.var hy)

theorem exists_parse_assignment_eq_sampleChain :
    sampleChain.IsPlain ∧ sampleChain.size = 11 ∧
    ∃ program target value position scope,
      standard.parse ("x = " ++ sampleChain.text) = .ok program ∧
      program.statements = [.mk (.assign target .assign (some value) false) position scope] ∧
      target.bare = .var "x" ∧ value.bare = sampleChain.bare :=
  ⟨sampleChain_isPlain, rfl, exists_parse_assignment_eq isPlain_standard sampleChain_isPlain
    ⟨by decide, by decide, by decide, by decide⟩ (by decide +kernel)⟩

/-- **Formatting is a fixed point on plain scripts.** The canonical text of plain statements is
parsed to the same statements, up to places, and so has the same canonical text again. -/
theorem exists_parse_scriptText_eq (hf : f.IsPlain) {statements : List Expr}
    (hstatements : ∀ e ∈ statements, e.IsPlainStatement) {k : Nat}
    (hsizes : ∀ e ∈ statements, 2 * e.statementHeight + 1 ≤ k)
    (hlimits : f.settings.limits.Admits k)
    (hlength : (scriptText statements).length ≤ f.settings.limits.maxScriptLength) :
    ∃ program, f.parse (scriptText statements) = .ok program ∧
      program.statements.map Expr.bare = statements.map Expr.bare ∧
      scriptText program.statements = scriptText statements := by
  have hlexes := Lexer.lexes_scriptText hstatements
  have hstart : (scriptText statements).toList.head? ≠ some '\uFEFF' := by
    cases statements with
    | nil => simp [scriptText, statementTexts]
    | cons e statements =>
      obtain ⟨c, cs, hsplit, hstarts⟩ :=
        (Lexer.spells_of_isPlainStatement (hstatements e List.mem_cons_self) 0).starts
      simpa [scriptText, statementTexts, Format.tabs, hsplit] using hstarts.notByteOrder
  obtain ⟨program, hparse, hbare⟩ := parse_eq_of_lexes hf hstart hlexes hlength
    fun w tokens last hshows htokens hlast hindices ↦
      ⟨_, _, Parse.program_yields hlimits hshows fun hat hroom hfuel ↦
        Parse.programWithin_lines hf.entries hstatements hsizes SymbolTable.onlyVars_empty hroom hat
          htokens hlast hindices hfuel⟩
  exact ⟨program, hparse, hbare, scriptText_eq_of_bare hbare⟩

end Frontend

/-- **Not every accepted script can be formatted.** A minus sign in front of a negative number is
written as one mark, which is then read as an operator that changes a variable. -/
theorem not_parse_scriptText_eq :
    ¬ ∀ (text : String) (program : Program), parse text = .ok program →
      ∃ program', parse (scriptText program.statements) = .ok program' ∧
        scriptText program'.statements = scriptText program.statements := by
  intro h
  obtain ⟨program, hparse, htext⟩ : ∃ program, parse "x = -(-5)" = .ok program ∧
      scriptText program.statements = "x = --5\n" := exists_eq_ok_of_map_eq_some (by decide +kernel)
  obtain ⟨e, hrefused⟩ : ∃ e, parse "x = --5\n" = .error e :=
    exists_eq_error_of_isNone (by decide +kernel)
  obtain ⟨program', hparse', -⟩ := h _ program hparse
  rw [htext, hrefused] at hparse'
  cases hparse'

end ScriptFront
