import ScriptFront.Proofs.Nesting.Statements
import ScriptFront.Proofs.Operands
import ScriptFront.Proofs.RoundTrip

/-!
# Limits on nesting are exact

A text with so many levels of nesting is parsed if and only if the levels are within their limit,
and otherwise the failure names that limit.

The texts nest parts of a script in all the ways that are counted. On each of them several counters
run at once; which of them decides, and how many levels it counts, is what `Deepening.what` and
`Deepening.levels` say. The other limits only have to admit as many levels as the text repeats a
piece.
-/

namespace ScriptFront

namespace Parse

variable {ctx : ParseContext} {inner : (fuel : Nat) → List Token → Parse Expr} {s : ParserState}
  {base : ParserState} {tokens : List Token} {last : Token} {d : Deepening} {name : String}
  {n need fuel : Nat}

theorem isName_x : IsName "x" := isName_letter (c := 'x') (by decide)

theorem isName_a : IsName "a" := isName_letter (c := 'a') (by decide)

theorem isName_f : IsName "f" := isName_letter (c := 'f') (by decide)

/-- The tokens of an assignment. -/
theorem exists_assigned {words : List Lexeme}
    (h : tokens.map Token.lexeme = Deepening.assignWords ++ words) :
    ∃ word mark value, tokens = word :: mark :: value ∧ word.lexeme = .ident "x" ∧
    mark.lexeme = .symbol "=" ∧
      value.map Token.lexeme = words := by
  obtain ⟨word, others, rfl, hword, hothers⟩ := List.map_eq_cons_iff.mp h
  obtain ⟨mark, value, rfl, hmark, hwords⟩ := List.map_eq_cons_iff.mp hothers
  exact ⟨word, mark, value, rfl, hword, hmark, hwords⟩

/-- A call of calls as a statement. -/
theorem statement_calls_meet (hctx : ctx.registry.entries = []) (hname : IsName name)
    (hcovers : Covers ctx base 1 fuel) (hvars : base.symbols.OnlyVars)
    (h : base.At (tokens ++ [last]) s)
    (htokens : tokens.map Token.lexeme =
      wrapped [.ident name, .symbol "("] [] [.symbol ")"] (n + 1))
    (hlast : last.kind = .endOfInput) (hneed : need = base.callDepth + (n + 1))
    (hoperands : base.expressionDepth + (n + 1) ≤ ctx.limits.maxExpressionDepth)
    (hlinks : 1 ≤ ctx.limits.maxMemberDepth) :
    Meets ctx ⟨.call, need⟩ (statement ctx (runWith ctx inner (fuel + 1))) s fun found s' ↦
      (∃ e, found = some e) ∧ need ≤ ctx.limits.maxCallDepth ∧ ∃ base',
      ParserState.At base' [last] s' := by
  have hends : EndsPhrase last := .inr (.inr hlast)
  have hrest : FollowsOperand [last] := ⟨last, [], rfl, hends.opensLink_eq⟩
  obtain ⟨first, others, rfl, hfirst, -⟩ := List.map_eq_cons_iff.mp htokens
  have hbegins : BeginsOperand first.lexeme := hfirst ▸ beginsOperand_name hname
  refine statement_value_meets hctx h hbegins hlast fun s₁ h₁ ↦ ?_
  refine expression_meets hctx h₁ hbegins (isSymbol_of_name hfirst) hends.endsExpression
    fun s₂ h₂ ↦ ?_
  exact calls_meet hctx hname hcovers hvars h₂ htokens hrest hneed hoperands hlinks

/-- A choice among so many alternatives as a statement. -/
theorem statement_branches_meet (hctx : ctx.registry.entries = []) (hname : IsName name)
    (hcovers : Covers ctx base 2 fuel) (hvars : base.symbols.OnlyVars)
    (h : base.At (tokens ++ [last]) s)
    (htokens : tokens.map Token.lexeme =
      [.keyword "if", .ident name, .symbol "\x7b", .symbol "\x7d"] ++
        wrapped (Deepening.alternativeWords name) [] [] n)
    (hlast : last.kind = .endOfInput)
    (hoperand : base.expressionDepth + 1 ≤ ctx.limits.maxExpressionDepth)
    (hneed : need = base.statementDepth + (n + 1)) :
    Meets ctx ⟨.statement, need⟩ (statement ctx (runWith ctx inner fuel)) s fun found s' ↦
      (∃ e, found = some e) ∧ need ≤ ctx.limits.maxStatementDepth ∧ ∃ base',
      ParserState.At base' [last] s' := by
  obtain ⟨word, others, rfl, hword, hothers₁⟩ := List.map_eq_cons_iff.mp htokens
  obtain ⟨condition, others, rfl, hcondition, hothers₂⟩ := List.map_eq_cons_iff.mp hothers₁
  obtain ⟨opening, others, rfl, hopening, hothers₃⟩ := List.map_eq_cons_iff.mp hothers₂
  obtain ⟨closing, others, rfl, hclosing, hothers₄⟩ := List.map_eq_cons_iff.mp hothers₃
  refine (statement_conditional_meets hctx h hword fun s₁ h₁ ↦ ?_).mono
    fun _ _ h₂ ↦ ⟨h₂.1, h₂.2.1, h₂.2.2.exists_at⟩
  exact branches_meet hctx hname hcovers hvars h₁ hword hcondition hopening hclosing hothers₄ hlast
    hoperand hneed

/-- One statement of the script, when all other limits admit so many levels. -/
theorem statement_deepened_meets {w : Window Lexer} (hctx : ctx.registry.entries = []) (hn : 1 ≤ n)
    (hothers : ∀ what, what ≠ d.what → n ≤ ctx.limits.bound what)
    (hcovers : Covers ctx (.initial w .empty) 2 fuel)
    (h : (ParserState.initial w .empty).At (tokens ++ [last]) s)
    (htokens : tokens.map Token.lexeme = d.words n)
    (hlast : last.kind = .endOfInput) (hindices : (tokens.map Token.index).Pairwise (· < ·)) :
    Meets ctx ⟨d.what, d.levels n⟩ (statement ctx (runWith ctx inner fuel)) s fun found s' ↦
      (∃ e, found = some e) ∧ d.levels n ≤ ctx.limits.bound d.what ∧ ∃ base,
      ParserState.At base [last] s' := by
  have hvars : (ParserState.initial w .empty).symbols.OnlyVars := SymbolTable.onlyVars_empty
  have hends : EndsPhrase last := .inr (.inr hlast)
  have hrest : FollowsOperand [last] := ⟨last, [], rfl, hends.opensLink_eq⟩
  have hother (what : Nesting) (hne : what ≠ d.what) : 1 ≤ ctx.limits.bound what :=
    Nat.le_trans hn (hothers what hne)
  obtain ⟨fuel, rfl, hoperands⟩ := hcovers.exists_succ
  cases d with
  | group =>
    have hoperand : 1 ≤ ctx.limits.maxExpressionDepth := hother .expression (by decide)
    obtain ⟨rest, rfl, -⟩ := hoperands.exists_succ
    obtain ⟨word, mark, value, rfl, hword, hmark, hvalue⟩ := exists_assigned htokens
    obtain ⟨first, others, rfl, hbegins, -⟩ := exists_first isName_a (by decide) hvalue
    refine statement_assign_meets hctx isName_x hcovers hvars h hword hmark
      (startsSolid_cons hbegins.isNewLine_eq) hlast (.inl hoperand) fun s₁ h₁ ↦ ?_
    exact expression_groups_meet hctx isName_a hvars h₁ hvalue hends.opensLink_eq
      hends.endsExpression
      (Nat.zero_add n).symm (Nat.zero_le _) hoperand
  | negation =>
    obtain ⟨word, mark, value, rfl, hword, hmark, hvalue⟩ := exists_assigned htokens
    obtain ⟨first, others, rfl, hbegins, hparen⟩ := exists_first isName_a (by decide) hvalue
    exact statement_assign_operand_meets hctx isName_x hcovers hvars h hword hmark hbegins
      (hparen (by decide))
      hlast (Hurdle.allows_of_le (Nat.le_add_left 1 n)) fun s₁ h₁ ↦
        negations_meet hctx hoperands hvars h₁ hvalue hrest (Nat.zero_add _).symm
  | list =>
    obtain ⟨word, mark, value, rfl, hword, hmark, hvalue⟩ := exists_assigned htokens
    obtain ⟨first, others, rfl, hbegins, hparen⟩ := exists_first isName_a (by decide) hvalue
    exact statement_assign_operand_meets hctx isName_x hcovers hvars h hword hmark hbegins
      (hparen (by decide))
      hlast (Hurdle.allows_of_le (Nat.le_add_left 1 n)) fun s₁ h₁ ↦
        lists_meet hctx isName_a hoperands hvars h₁ hvalue hrest (Nat.zero_add _).symm
  | block =>
    obtain ⟨n, rfl⟩ := Nat.exists_eq_add_of_le' hn
    exact (blocks_meet hctx hcovers hvars h htokens hindices (Nat.zero_add _).symm).mono
      fun _ _ h₁ ↦ ⟨h₁.1, h₁.2.1, h₁.2.2.exists_at⟩
  | call =>
    obtain ⟨n, rfl⟩ := Nat.exists_eq_add_of_le' hn
    exact statement_calls_meet hctx isName_f hoperands hvars h htokens hlast (Nat.zero_add _).symm
      ((Nat.zero_add _).symm ▸ hothers .expression (by decide)) (hother .memberAccess (by decide))
  | branch =>
    exact statement_branches_meet hctx isName_a hcovers hvars h htokens hlast
      (hother .expression (by decide)) (Nat.zero_add _).symm
  | member =>
    have hoperand : 1 ≤ ctx.limits.maxExpressionDepth := hother .expression (by decide)
    obtain ⟨word, mark, value, rfl, hword, hmark, hvalue⟩ := exists_assigned htokens
    obtain ⟨first, members, rfl, hfirst, hmembers⟩ := List.map_eq_cons_iff.mp hvalue
    have hbegins : BeginsOperand first.lexeme := hfirst ▸ beginsOperand_name isName_a
    exact statement_assign_operand_meets hctx isName_x hcovers hvars h hword hmark hbegins
      (isSymbol_of_name hfirst) hlast (.inl hoperand) fun s₁ h₁ ↦
        members_meet hctx hoperands hvars h₁ hfirst hmembers hrest rfl hoperand

/-- The tokens of such a text are parsed, or the limit is exceeded. -/
theorem program_deepened_meets {w : Window Lexer} (hctx : ctx.registry.entries = []) (hn : 1 ≤ n)
    (hothers : ∀ what, what ≠ d.what → n ≤ ctx.limits.bound what) (hw : w.Shows (tokens ++ [last]))
    (htokens : tokens.map Token.lexeme = d.words n) (hlast : last.kind = .endOfInput)
    (hindices : ((tokens ++ [last]).map Token.index).Pairwise (· < ·)) :
    Meets ctx ⟨d.what, d.levels n⟩ (program ctx) (.initial w .empty) fun _ _ ↦
      d.levels n ≤ ctx.limits.bound d.what := by
  obtain ⟨first, others, htokens₁⟩ := List.exists_cons_of_ne_nil
    (List.append_ne_nil_of_right_ne_nil tokens (List.cons_ne_nil last []))
  rw [List.map_append, List.pairwise_append] at hindices
  refine program_meets (htokens₁ ▸ hw) hlast fun hcovers h ↦ ?_
  exact statement_deepened_meets hctx hn hothers hcovers (htokens₁ ▸ h) htokens hlast hindices.1

end Parse

namespace Frontend

variable {f : Frontend} {d : Deepening} {n : Nat}

/-- **Limits on nesting are exact.** With nothing set up but settings, a text that is nested at
least once, and within all other limits, is parsed if and only if its levels are within the limit on
their kind; every failure is that this limit is exceeded. -/
theorem parse_deepened (hf : f.IsBare) (hhost : f.host = .empty) (hn : 1 ≤ n)
    (hlength : (d.text n).length ≤ f.settings.limits.maxScriptLength)
    (hothers : ∀ what, what ≠ d.what → n ≤ f.settings.limits.bound what) :
    ((∃ p, f.parse (d.text n) = .ok p) ↔ d.levels n ≤ f.settings.limits.bound d.what) ∧
    ∀ e, f.parse (d.text n) = .error e →
      e.cause = .nestingTooDeep d.what (f.settings.limits.bound d.what) := by
  obtain ⟨w, tokens, last, hwindow, hshows, htokens, hlast, hindices⟩ :=
    exists_window_of_lexes hf.rules hf.lexical (fun l hl ↦ .inr (Deepening.head?_ne_quote hl))
      (d.head?_ne_byteOrderMark n) (d.lexes_text n)
  have hprogram :
      Parse.Meets f.context ⟨d.what, d.levels n⟩ (Parse.program f.context) (.initial w .empty)
      fun _ _ ↦ d.levels n ≤ f.settings.limits.bound d.what :=
    Parse.program_deepened_meets hf.entries hn hothers hshows htokens hlast hindices
  have hparse : f.parse (d.text n) = f.named (Parse.parseProgram f.context w .empty) := by
    simp only [parse, hwindow, if_neg (Nat.not_lt_of_le hlength), hhost]
  cases hrun : Parse.program f.context (.initial w .empty) with
  | ok statements s =>
    have hok : f.parse (d.text n) = .ok ⟨statements, s.symbols⟩ := by
      rw [hparse, Parse.parseProgram, hrun]
      rfl
    refine ⟨iff_of_true ⟨_, hok⟩ (hprogram.of_ok hrun), fun e he ↦ ?_⟩
    cases hok.symm.trans he
  | error e s =>
    have herror : f.parse (d.text n) = .error (e.inFile f.settings.file) := by
      rw [hparse, Parse.parseProgram, hrun]
      rfl
    obtain ⟨hnot, hcause⟩ := hprogram.of_error hrun
    refine ⟨iff_of_false ?_ hnot, fun e' he' ↦ ?_⟩
    · rintro ⟨p, hp⟩
      cases herror.symm.trans hp
    · obtain rfl := Except.error.inj (herror.symm.trans he')
      exact hcause

/-- Calls may not be nested in calls. -/
def sampleTight : Frontend :=
  ofSettings { Settings.standard with limits := { Limits.standard with maxCallDepth := 1 } }

/-- One call is parsed, and a call with a call as its argument is not. -/
theorem parse_deepened_sampleTight :
    sampleTight.IsBare ∧ sampleTight.host = .empty ∧ 1 ≤ 2 ∧
    (Deepening.call.text 2).length ≤ sampleTight.settings.limits.maxScriptLength ∧
    (∀ what, what ≠ Deepening.call.what → 2 ≤ sampleTight.settings.limits.bound what) ∧
    (∃ p, sampleTight.parse "f()" = .ok p) ∧ ¬ ∃ p, sampleTight.parse "f(f())" = .ok p := by
  have hbare : sampleTight.IsBare := ⟨rfl, rfl, rfl⟩
  have hothers (what : Nesting) (hne : what ≠ .call) :
      2 ≤ sampleTight.settings.limits.bound what := by
    cases what <;> first | exact absurd rfl hne | decide
  have hlength : (Deepening.call.text 2).length ≤ sampleTight.settings.limits.maxScriptLength := by
    decide
  have hone :=
    (parse_deepened (d := .call) (n := 1) hbare rfl (by decide) (by decide) fun what hne ↦
    Nat.le_of_succ_le (hothers what hne)).1
  have htwo := (parse_deepened (d := .call) (n := 2) hbare rfl (by decide) hlength hothers).1
  exact ⟨hbare,
    rfl, by decide, hlength, hothers, hone.mpr (by decide), fun h ↦ absurd (htwo.mp h) (by decide)⟩

end Frontend

end ScriptFront
