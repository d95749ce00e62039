import ScriptFront.Proofs.Bounds
import ScriptFront.Proofs.Breakdowns
import ScriptFront.Proofs.Lexer.Seam
import ScriptFront.Proofs.Operands
import ScriptFront.Proofs.Tandem.Programs

/-!
# Scripts compose

A script and another one behind it, with a line feed between them, are parsed as one after the
other: the second script finds the names that the first one has left, and nothing else of it. So the
table of symbols, with the numbers of its scopes, is all that a parser keeps between two statements.

## The seam

The tokens of the whole text are those of the first text, a line break, and those of the second
text. Where the first text ends in a carriage return, its last line break and the line feed become
one line break, and where it ends in a line comment, the line feed ends the comment. `Joins` covers
both.

The first word of the second text could belong to a conditional that ends the first one. But no
program begins with an alternative branch, so the second text would not have been parsed alone.
-/

namespace ScriptFront

open Window (isNewLine)

namespace Parse

variable {ctx : ParseContext} {table : SymbolTable} {p q : Program} {k : Nat}

/-- A program leaves as much open as before. -/
theorem depths_of_program (hctx : ctx.registry.entries = []) {tokens : List Token} {out : List Expr}
    {s' : ParserState} (h : program ctx (.initial (.ofTokens tokens k) table) = .ok out s') :
    s'.depths = (0, 0, 0, 0) :=
  ((program_ends (accounted_of_entries hctx) (Window.sound_ofTokens tokens k False.elim)).of_ok
    h).1.depths

/-- **Programs on joined tokens.** -/
theorem parseProgram_append (hctx : ctx.registry.entries = [])
    {tokens moreTokens joined rest : List Token}
    {m : Token} (hp : parseProgram ctx (.ofTokens tokens k) table = .ok p)
    (hq : parseProgram ctx (.ofTokens moreTokens k) p.symbols = .ok q) (hclosed : Closed tokens)
    (hmore : Closed moreTokens) (hgenuine : ∀ t ∈ moreTokens, t.IsGenuine)
    (hm : m.lexeme.IsLineBreak)
    (hjoins : Joins (m :: rest) tokens joined) (hrest : List.Forall₂ Token.Similar moreTokens rest)
    (hjoined : Closed joined) :
    (∃ r, parseProgram ctx (.ofTokens joined k) table = .ok r ∧
      Alikes (p.statements ++ q.statements) r.statements ∧
      r.symbols.unplaced = q.symbols.unplaced) ∨
    ∃ e, parseProgram ctx (.ofTokens joined k) table = .error e ∧ e.IsExcused := by
  obtain ⟨s₁, h₁, hsymbols₁⟩ := parseProgram_eq_ok_iff.mp hp
  obtain ⟨s₂, h₂, hsymbols₂⟩ := parseProgram_eq_ok_iff.mp hq
  obtain ⟨e, he, hsecond⟩ :=
    exists_joins_of_forall₂ (forall₂_filter hrest) (Window.closed_filter hmore)
  have hshows : (Window.ofTokens moreTokens k : Window Lexer).Shows
      (moreTokens.filter Window.isSignificant) := Window.ofTokens_shows hmore k
  have hbreak : isNewLine m = true := Token.isNewLine_of_isLineBreak hm
  have hsignificant : Window.isSignificant m = true := by
    simp [Window.isSignificant, Lexeme.isTrivia, hm.kind_eq]
  have hfirst := hjoins.filter
  rw [List.filter_cons_of_pos hsignificant] at hfirst
  have hcalm := leadsTo_else_of_programFueled hctx (program_run ctx _ ▸ h₂) hshows fun t ht ↦
    hgenuine t (List.mem_filter.mp ht).1
  have hst : (ParserState.initial (.ofTokens tokens k) table).Abreast
      (JoinsApart (m :: rest.filter Window.isSignificant)) (.initial (.ofTokens joined k) table) :=
    ⟨⟨_, _, Window.ofTokens_shows hclosed k, Window.ofTokens_shows hjoined k, hfirst.apart⟩, rfl,
      rfl⟩
  have hall : Ensures ScriptError.IsExcused (program ctx)
    (.initial (.ofTokens joined k) table) fun out t' ↦
      Alikes (p.statements ++ q.statements) out ∧ t'.symbols.unplaced = s₂.symbols.unplaced := by
    rw [Ensures, program_run]
    exact programFueled_append hctx (program_run ctx _ ▸ h₁) (program_run ctx _ ▸ h₂)
      (isTailOfTokens_cons hm he hsecond hcalm) hbreak he hst hshows hsecond
      (congrArg SymbolTable.unplaced hsymbols₁) (depths_of_program hctx h₁)
  cases hrun : program ctx (.initial (.ofTokens joined k) table) with
  | ok out t' =>
    obtain ⟨halike, hsymbols⟩ := hall.of_ok hrun
    exact .inl ⟨⟨out, t'.symbols⟩, parseProgram_eq_ok_iff.mpr ⟨t', hrun, rfl⟩, halike,
      hsymbols₂ ▸ hsymbols⟩
  | error e t' => exact .inr ⟨e, by rw [parseProgram, hrun], hall.of_error hrun⟩

end Parse

namespace Frontend

variable {f : Frontend} {text more : String}

/-- No failure of a front end without extensions and rules is excused. -/
theorem IsBare.not_isExcused (hf : f.IsBare) {e : ScriptError} (h : f.parse text = .error e) :
    ¬ e.IsExcused := by
  have hcustomary : f.IsCustomary := .inl (congrArg₂ Registry.mk hf.entries hf.lexical)
  rintro (hfuel | hinternal)
  · exact hfuel (parse_withinFuel hcustomary h)
  · exact (parse_admits hf.entries hf.lexical h hinternal).1
      (hf.rules ▸ SpellingRules.eachString_empty)

/-- **Scripts compose.** Without extensions and rules, let a text be parsed, and let the program of
another text be parsed with the names that the first one leaves. Then the first text, a line feed
and the second text are parsed together, if that is not too long. Up to positions, the statements
are those of the first text followed by those of the second one, and the names are those that the
second one leaves. The second text does not begin with a byte order mark, which is dropped at the
beginning of a text only. -/
theorem exists_parse_append (hf : f.IsBare) {p q : Program} {w : Window Lexer}
    (hlength : (text ++ "\n" ++ more).length ≤ f.settings.limits.maxScriptLength)
    (hmark : more.toList.head? ≠ some '\uFEFF') (hp : f.parse text = .ok p)
    (hw : f.window more = .ok w)
    (hq : Parse.parseProgram f.context w p.symbols = .ok q) :
    ∃ joined, f.parse (text ++ "\n" ++ more) = .ok joined ∧
      Alikes (p.statements ++ q.statements) joined.statements ∧
      joined.symbols.unplaced = q.symbols.unplaced := by
  have hmoreLength : more.length ≤ f.settings.limits.maxScriptLength := by
    rw [String.length_append] at hlength
    omega
  -- the second script is parsed by the set-up that has the names of the first one
  let later : Frontend := { f with host := p.symbols }
  have hlater : later.IsBare := ⟨hf.entries, hf.lexical, hf.rules⟩
  have hparsed : later.parse more = .ok q := by
    refine named_eq_ok_iff.mpr ?_
    rw [if_neg (Nat.not_lt.mpr hmoreLength), show later.window more = .ok w from hw]
    exact hq
  obtain ⟨tokens, -, htokens, hfirst⟩ := exists_parseProgram_eq hf.isUnextended hp
  obtain ⟨moreTokens, -, hmoreTokens, hsecond⟩ := exists_parseProgram_eq hlater.isUnextended hparsed
  have hbare := hf.isBare_dialect
  obtain ⟨all, m, rest, hall, -, hm, hjoins, hrest⟩ := Lexer.exists_tokenize_append hbare hmark
    (named_eq_ok_iff.mp htokens) (named_eq_ok_iff.mp hmoreTokens)
  obtain ⟨hclosed, -⟩ := Lexer.tokenize_genuine hbare (named_eq_ok_iff.mp htokens)
  obtain ⟨hmoreClosed, hgenuine⟩ := Lexer.tokenize_genuine hbare (named_eq_ok_iff.mp hmoreTokens)
  obtain ⟨hallClosed, -⟩ := Lexer.tokenize_genuine hbare hall
  have hparse := parse_eq_parseProgram hf.isUnextended hlength (named_eq_ok_iff.mpr hall) 0
  rcases Parse.parseProgram_append hf.entries (hfirst 0) (hsecond 0) hclosed hmoreClosed
    hgenuine hm hjoins
    hrest hallClosed with ⟨r, hr, hsame⟩ | ⟨e, he, hexcused⟩
  · rw [hr] at hparse
    exact ⟨r, hparse, hsame⟩
  · rw [he] at hparse
    exact absurd (show (e.inFile f.settings.file).IsExcused from hexcused) (hf.not_isExcused hparse)

/-- A function, and a conditional without an alternative branch. -/
def sampleFirst : String :=
  "function twice(a) \x7breturn a + a\x7d\nif ready then total = twice 2 // 4"

/-- A loop and a call, with names of the first script. -/
def sampleSecond : String := "while total \x7btotal = twice total\x7d\ntotal = twice 3, 5"

theorem exists_parse_append_sampleScripts :
    ∃ p w q joined, standard.parse sampleFirst = .ok p ∧ standard.window sampleSecond = .ok w ∧
      Parse.parseProgram standard.context w p.symbols = .ok q ∧
      standard.parse (sampleFirst ++ "\n" ++ sampleSecond) = .ok joined ∧
      Alikes (p.statements ++ q.statements) joined.statements ∧
      joined.symbols.unplaced = q.symbols.unplaced := by
  have hboth : (standard.parse sampleFirst).toOption.map (fun p ↦
      (standard.window sampleSecond).toOption.map fun w ↦
        (Parse.parseProgram standard.context w p.symbols).toOption.isSome) = some (some true) := by
    decide +kernel
  obtain ⟨p, hp, hsecond⟩ := exists_eq_ok_of_map_eq_some hboth
  obtain ⟨w, hw, hparsed⟩ := exists_eq_ok_of_map_eq_some hsecond
  obtain ⟨q, hq⟩ := exists_eq_ok_of_isSome hparsed
  obtain ⟨joined, hjoined, hsame⟩ := exists_parse_append isBare_standard (by decide +kernel)
    (by decide) hp hw hq
  exact ⟨p, w, q, joined, hp, hw, hq, hjoined, hsame⟩

end Frontend

end ScriptFront
