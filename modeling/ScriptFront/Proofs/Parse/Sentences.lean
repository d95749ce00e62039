import ScriptFront.Proofs.Parse.Precedence
import ScriptFront.Proofs.Parse.Scripts
import ScriptFront.Proofs.Tree.Alike

/-!
# Scripts of one statement

A phrase by itself, up to the end of the text, is a statement, and so is the assignment of a phrase
to a name. What the extensions make of the tokens is left open as in `IsPhrase`: where a statement
begins they may replace its first tokens, and the loop over operands asks them again.
-/

namespace ScriptFront

/-- The assignment of a value to a name, as it is read in a scope, positions aside. -/
def Expr.assigned (name : String) (value : Expr) (scope : ScopeId) : Expr :=
  .mk (.assign (.mk (.var name) .start scope) .assign (some value) false) .start scope

theorem Expr.current_defines_assigned (name : String) (value : Expr) (table : SymbolTable) :
    ((assigned name value table.current).defines table).current = table.current := by
  have hname : (Expr.mk (.var name) .start table.current).varName? = some name := rfl
  simp only [assigned, Expr.defines, hname]
  split <;> rfl

/-- Only an assignment is read as one. -/
theorem Expr.exists_assign_of_unplaced_eq {e value : Expr} {name : String} {scope : ScopeId}
    (h : e.unplaced = assigned name value scope) :
    ∃ target value' place, e = .mk (.assign target .assign (some value') false) place scope ∧
      value'.unplaced = value := by
  obtain ⟨form, place, scope'⟩ := e
  cases form with
  | assign target op found declares =>
    cases found with
    | none => simp [unplaced, relocate, Form.relocate, relocateOption, assigned] at h
    | some value' =>
      simp only [unplaced, relocate, Form.relocate, relocateOption, assigned, mk.injEq,
        Form.assign.injEq, Option.some.injEq, id] at h
      obtain ⟨⟨-, rfl, hvalue, rfl⟩, -, rfl⟩ := h
      exact ⟨target, value', place, rfl, hvalue⟩
  | _ => simp [unplaced, relocate, Form.relocate, assigned] at h

namespace Parse

variable {ctx : ParseContext} {inner : (fuel : Nat) → List Token → Parse Expr} {table : SymbolTable}
  {h : Expr → Expr} {phrase : Phrase} {base base' s : ParserState} {t t' target mark last : Token}
  {tokens tokens' left : List Token} {name : String} {n : Nat}

theorem assignOp?_of_end {s : ParserState} (hs : base.At (last :: tokens) s)
    (hlast : last.kind = .endOfInput) :
    assignOp? s = .ok none s := by
  rw [assignOp?, bind_eq_of_ok current_run, hs.current_eq, hlast]
  rfl

/-- A phrase that nothing is assigned to. -/
theorem simpleStatement_yields_phrase (hh : IsLeafwise h)
    (hphrase : IsPhrase ctx table h false phrase tokens [last]) (hlast : last.kind = .endOfInput)
    (hleft : Replaces ctx table [last] [last]) (hat : base.At (tokens ++ [last]) s)
    (htable : base.symbols = table) (hroom : PhraseRoom ctx base phrase.parens phrase.depth)
    (hn : 2 * phrase.depth ≤ n + 1) :
    (simpleStatement (runWith ctx inner (n + 1))).Yields s base [last]
      fun e ↦ e.unplaced = h (phrase.tree.expr table.current) := by
  refine yields_bind_of_ok position_run ?_
  refine (expression_yields_phrase hh (IsPhrase.loopPasses hh phrase hphrase) hat htable
    hroom hn hleft
    (EndsPhrase.endsExpression (.inr (.inr hlast)))).bind fun e s₁ h₁ he ↦ ?_
  exact yields_bind_of_ok (assignOp?_of_end h₁ hlast) (yields_pure h₁ he)

/-- A name, the mark of an assignment, and a phrase. -/
theorem simpleStatement_yields_assignment (hh : IsLeafwise h) (hmark : mark.lexeme = .symbol "=")
    (htarget : IsPhrase ctx table id false (.single (.name name)) [target]
      (mark :: (tokens ++ [last])))
    (hbehind : Replaces ctx table (mark :: (tokens ++ [last])) (mark :: (tokens ++ [last])))
    (hphrase : IsPhrase ctx table h false phrase tokens [last]) (hlast : last.kind = .endOfInput)
    (hleft : Replaces ctx table [last] [last])
    (hat : base.At (target :: mark :: (tokens ++ [last])) s)
    (htable : base.symbols = table) (hroom : PhraseRoom ctx base phrase.parens phrase.depth)
    (hn : 2 * phrase.depth ≤ n + 1) :
    (simpleStatement (runWith ctx inner (n + 1))).Yields s
      { base with symbols :=
          (Expr.assigned name (h (phrase.tree.expr table.current)) table.current).defines table }
          [last]
      fun e ↦ e.unplaced = .assigned name (h (phrase.tree.expr table.current)) table.current := by
  subst htable
  have hpos := phrase.depth_pos
  have hmarkEnds : EndsExpression mark :=
    endsExpression_of_symbol hmark (by decide) (by decide) (by decide)
  have htargetRoom : PhraseRoom ctx base (Phrase.single (.name name)).parens
      (Phrase.single (.name name)).depth := hroom.mono (Nat.zero_le _) hpos
  have htargetDepth : 2 * (Phrase.single (.name name)).depth ≤ n + 1 := by
    rw [Phrase.depth, Factor.depth]
    omega
  refine yields_bind_of_ok position_run ?_
  refine (expression_yields_phrase isLeafwise_id
    (IsPhrase.loopPasses isLeafwise_id _ htarget) hat rfl
    htargetRoom htargetDepth hbehind hmarkEnds).bind fun target' s₁ h₁ htarget ↦ ?_
  have hop : assignOp? s₁ = .ok (some .assign) s₁ := by
    rw [assignOp?, bind_eq_of_ok current_run, h₁.current_eq, Token.kind, Token.text, hmark]
    rfl
  have halike : Expr.Alike (.mk (.var name) .start base.symbols.current) target' := htarget
  refine yields_bind_of_ok hop ?_
  have hassignable : target'.isAssignable = true := halike.isAssignable_eq
  simp only [hassignable, Bool.not_true, Bool.false_eq_true, if_false]
  refine (advance_pass_yields h₁ (isEnd_of_symbol hmark)).bind fun _ s₂ h₂ _ ↦ ?_
  rw [(hphrase.beginsSolid.startsSolid [last]).dropWhile_eq] at h₂
  refine (expression_yields_phrase hh (IsPhrase.loopPasses hh phrase hphrase) h₂ rfl hroom hn hleft
    (EndsPhrase.endsExpression (.inr (.inr hlast)))).bind fun value' s₃ h₃ hvalue ↦ ?_
  refine (defineTarget_yields h₃ halike.varName?_eq _ .start base.symbols.current).bind
    fun _ s₄ h₄ _ ↦ yields_bind_of_ok scope_run (yields_pure h₄ ?_)
  have hscope : s₄.symbols.current = base.symbols.current := by
    rw [h₄.symbols_eq]
    exact Expr.current_defines_assigned name
      (h (phrase.tree.expr base.symbols.current)) base.symbols
  rw [hscope, Expr.assigned, ← hvalue]
  exact congrArg (fun target ↦ Expr.mk (.assign target .assign (some value'.unplaced) false) .start
    base.symbols.current) htarget

/-- A statement that the extensions leave to the parser, once they have replaced its first
tokens. -/
theorem statement_yields_replaced {sub : Subparser} {Q : Expr → Prop}
    (hat : base.At (t :: tokens) s)
    (hbegins : BeginsOperand t.lexeme) (hreplaces : Replaces ctx base.symbols (t :: tokens)
      (t' :: tokens'))
    (hbegins' : BeginsOperand t'.lexeme)
    (hleaves : Leaves ctx .statement base.symbols (t' :: tokens'))
    (hlast : last.kind = .endOfInput)
    (hsimple : ∀ s', base.At (t' :: tokens') s' → (simpleStatement sub).Yields s' base' [last] Q) :
    (statement ctx sub).Yields s base' [last] fun found ↦ ∃ e, found = some e ∧ Q e := by
  rw [statement]
  refine (passSeparators_yields hat hbegins.isNewLine_eq
    (hbegins.own _ (by simp [foreignMarks]))).bind fun _ s₁ h₁ _ ↦ ?_
  refine yields_bind_of_ok isEnded_run ?_
  rw [h₁.isEnded_eq, hbegins.isEnd_eq, if_neg Bool.false_ne_true]
  refine (hreplaces rfl h₁).bind fun _ s₂ h₂ _ ↦ ?_
  refine (hleaves _ rfl h₂).bind fun found s₃ h₃ hfound ↦ ?_
  subst hfound
  exact plainStatement_yields h₃ hbegins' (ended_yields (hsimple s₃ h₃) (.endOfInput hlast))

/-- A statement up to the end of the text is a script. `words` bounds how deep its operands are
nested. -/
theorem program_yields_single {w : Window Lexer} {words : Nat} {Q : Expr → Prop}
    (hw : w.Shows tokens)
    (hwords : words ≤ ctx.limits.maxExpressionDepth) (hlast : last.kind = .endOfInput)
    (hstatement : ∀ {inner : (fuel : Nat) → List Token → Parse Expr} {n : Nat}, 2 * words ≤ n + 1 →
      (ParserState.initial w table).At tokens (.initial w table) →
      (statement ctx (runWith ctx inner (n + 1))).Yields (.initial w table) base' [last]
        fun found ↦ ∃ e, found = some e ∧ Q e) :
    (program ctx).Yields (.initial w table) base' [last] fun statements ↦ ∃ e,
    statements = [e] ∧ Q e := by
  obtain ⟨inner, hrun⟩ := exists_run_eq ctx (sectionLevels ctx)
  obtain ⟨n, hdepth, hn⟩ : ∃ n, depth ctx w.tokensLeft = n + 2 ∧ 2 * words ≤ n + 1 := by
    refine ⟨depth ctx w.tokensLeft - 2, ?_, ?_⟩ <;> rw [depth] <;> omega
  rw [program]
  refine yields_bind_of_ok tokens_run (yields_bind_of_ok rounds_run ?_)
  have hleft : (ParserState.initial w table).tokens.tokensLeft = w.tokensLeft := rfl
  rw [hrun, hleft, hdepth, programWithin]
  refine yields_bind_of_ok place_run ?_
  refine (hstatement hn ⟨rfl, hw⟩).bind fun found s₁ h₁ hfound ↦ ?_
  obtain ⟨e, rfl, he⟩ := hfound
  have hend : last.isEnd = true := by simp [Token.isEnd, hlast]
  have hprogress (place : Nat × Nat) : requireProgress place s₁ = .ok () s₁ := by
    rw [requireProgress_run, h₁.isEnded_eq, hend]
    simp
  refine yields_bind_of_ok (hprogress _) ?_
  refine (programWithin_end h₁ hlast).mono fun found hfound ↦ ?_
  exact ⟨e, hfound, he⟩

end Parse

end ScriptFront
