import ScriptFront.Proofs.Tandem.Steps

/-!
# Parsers in tandem, and blocks

`Parse.Tandem` says of two parsers for the parts what every goal does on two lists of tokens, the
second of which goes on where the first one ends. At the end no goal succeeds, so the second parser
has to be followed only as long as the lists go together.

How a goal leaves the two lists depends on how it ends. An expression ends in front of a token,
which is the end in the first list and the tail in the second. A statement passes the separator that
ends it, which may be the line break that begins the tail. Blocks end in a brace, so they do not
come near the tail.
-/

namespace ScriptFront.Parse

variable {α β : Type} {tail : List Token} {ctx : ParseContext} {sub₁ sub₂ : Subparser}

/-! ## Parsers in tandem -/

/-- The expression of a group, and the mark that closes it. -/
def insideGroup (sub : Subparser) : Parse Expr := do
  let e ← sub (.expression true)
  expect ")" false
  return e

/-- What every goal does on two lists of tokens. -/
structure Tandem (sub₁ sub₂ : Subparser) : Prop where
  /-- At the end no operand is found. -/
  operand_dies : Dies (sub₁ .operand)
  /-- Nor is an expression. -/
  expression_dies : ∀ grouped, Dies (sub₁ (.expression grouped))
  /-- Nor is a statement. -/
  statement_dies : Dies (demanded (sub₁ .statement))
  /-- An operand is the same in both lists. -/
  operand : ∀ {tail}, IsTailOfTokens tail →
    Follows (Joins tail) (sub₁ .operand) (sub₂ .operand) Expr.Alike fun _ ↦ Joins tail
  /-- So is an expression. -/
  expression : ∀ {tail}, IsTailOfTokens tail →
    Follows (Joins tail) (sub₁ (.expression false)) (sub₂ (.expression false)) Expr.Alike fun _ ↦
      Joins tail
  /-- A group is too, up to the mark that closes it. -/
  group : ∀ {tail}, IsTailOfTokens tail →
    Follows (Joins tail) (insideGroup sub₁) (insideGroup sub₂) Expr.Alike fun _ ↦ Joins tail
  /-- A statement may be the last of the first list. -/
  statement : ∀ {tail}, IsTailOfTokens tail →
    Follows (JoinsApart tail) (demanded (sub₁ .statement)) (demanded (sub₂ .statement)) Expr.Alike
      fun _ ↦ JoinsBehind tail
  /-- So may a conditional. -/
  conditional : ∀ {tail}, IsTailOfTokens tail →
    Follows (Joins tail) (sub₁ .conditional) (sub₂ .conditional) Expr.Alike fun _ ↦ JoinsBehind tail
  /-- Embedded sections have tokens of their own. -/
  embedded : ∀ {list list' : List Token}, Closed list → List.Forall₂ Token.Similar list list' →
    ∀ R : Pairing, Follows R (sub₁ (.embedded list)) (sub₂ (.embedded list')) Expr.Alike fun _ ↦ R

/-- Behind line breaks an expression may begin. -/
theorem Tandem.argument (h : Tandem sub₁ sub₂) (htail : IsTailOfTokens tail) :
    Follows (JoinsLax tail) (sub₁ (.expression false)) (sub₂ (.expression false)) Expr.Alike
      fun _ ↦ Joins tail := .of_lax (h.expression htail) (h.expression_dies false)

section

variable (htail : IsTailOfTokens tail)

include htail

/-! ## Parameters -/

/-- A parameter, or the end of the parameters. -/
theorem paramsRound_follows (names : List String) :
    Follows (JoinsLax tail) (paramsRound ctx names) (paramsRound ctx names) (Round.Matches Eq Eq)
      (Round.pairing (fun _ ↦ JoinsLax tail) (Joins tail)) := by
  rw [paramsRound]
  refine .of_lax ?_ (.is_branch (by decide) (Dies.expectName true).bind)
  refine .is_branch htail (by decide) ?_ ?_
  · refine .of_implies (R := Joins tail) ?_ fun _ _ ↦ JoinsSolid.joins
    exact (Follows.expect htail (by decide) false).bind fun _ _ _ ↦ .pure (.done rfl) fun _ _ ↦ id
  · refine (Follows.expectName htail true).bind fun name name' hname ↦ ?_
    subst hname
    refine .require (Orderly.fails_fail id) id fun _ ↦ .listSeparator htail (by decide) ?_
    exact .pure (.again rfl) fun _ _ ↦ id

theorem params_follows : Follows (Joins tail) (params ctx) (params ctx) Eq fun _ ↦ Joins tail := by
  refine (Follows.expect htail (by decide) true).bind fun _ _ _ ↦ Follows.rounds.bind fun m n _ ↦ ?_
  rw [paramsWithin_eq_rounded, paramsWithin_eq_rounded]
  refine Follows.rounded (V := Eq) (P := fun _ ↦ JoinsLax tail) (fun names _ h ↦ ?_) m n rfl
  subst h
  exact paramsRound_follows htail names

theorem aliasesRound_follows (done : List String) :
    Follows (Joins tail) (aliasesRound ctx done) (aliasesRound ctx done) (Round.Matches Eq Eq)
      (Round.pairing (fun _ ↦ Joins tail) (Joins tail)) := by
  rw [aliasesRound]
  refine .is_branch htail (by decide) ((Follows.advance false).bind fun _ _ _ ↦ ?_)
    (.pure (.done rfl) fun _ _ ↦ id)
  refine (Follows.expectName htail false).bind fun name name' hname ↦ ?_
  subst hname
  exact .require (Orderly.fails_fail id) id fun _ ↦ .pure (.again rfl) fun _ _ ↦ id

end

/-! ## Blocks -/

section

variable (htail : IsTailOfTokens tail) (hsub : Tandem sub₁ sub₂)

include htail

theorem openBrace_follows :
    Follows (Joins tail) (openBrace ctx) (openBrace ctx) (fun _ _ ↦ True) fun _ ↦
      JoinsLax tail := by
  refine (Follows.continuesWith htail (by decide)).bind fun a b hab ↦ ?_
  refine .require Orderly.fails_failExpected (fun hb ↦ ?_) fun ha ↦ ?_
  · cases a with
    | true => simp [hab rfl] at hb
    | false => rfl
  · refine Follows.enterBlock.bind fun _ _ _ ↦ ?_
    exact (Follows.advance true).of_implies fun _ _ h ↦ h (by simpa using ha)

include hsub

theorem statementRound_follows {ended ended' : Parse (Round (List Expr) (List Expr))}
    (hended : Orderly.Fails ended) {done done' : List Expr} (hdone : Alikes done done') :
    Follows (JoinsApart tail) (statementRound sub₁ ended done) (statementRound sub₂ ended' done')
      (Round.Matches Alikes Alikes)
      (Round.pairing (fun _ ↦ JoinsApart tail) (JoinsSolid tail)) := by
  refine Follows.place.bind fun before before' _ ↦
    .demanded_bind (hsub.statement htail) hended fun e e' he ↦ ?_
  refine (Follows.requireProgress before before').bind fun _ _ _ ↦ ?_
  exact .pure (.again (.cons he hdone)) fun _ _ ↦ JoinsBehind.apart

theorem statementsRound_follows {done done' : List Expr} (hdone : Alikes done done') :
    Follows (JoinsApart tail) (statementsRound sub₁ done) (statementsRound sub₂ done')
      (Round.Matches Alikes Alikes)
      (Round.pairing (fun _ ↦ JoinsApart tail) (JoinsSolid tail)) := by
  rw [statementsRound, statementsRound]
  refine Follows.passSeparators.bind fun _ _ _ ↦
    .of_fresh ?_ (.is_branch (by decide) .isEnded_require)
  refine Follows.of_implies (R := Joins tail) ?_ fun _ _ ↦ JoinsSolid.joins
  refine .is_branch htail (by decide) (.pure (.done hdone.reverse) fun _ _ ↦ id) ?_
  refine .isEnded_require htail Orderly.fails_failExpected ?_
  exact (statementRound_follows htail hsub Orderly.fails_failExpected hdone).of_implies fun _ _ ↦
    Joins.apart

theorem statementsInside_follows (names : List String) :
    Follows (JoinsLax tail) (statementsInside sub₁ names) (statementsInside sub₂ names) Alikes
      fun _ ↦ JoinsSolid tail := by
  refine Follows.of_implies (R := JoinsApart tail) ?_ fun _ _ ↦ JoinsLax.apart
  refine (Follows.modifySymbols fun a b h ↦ ?_).bind fun _ _ _ ↦ Follows.rounds.bind fun m n _ ↦ ?_
  · rw [SymbolTable.unplaced_defineVars, SymbolTable.unplaced_defineVars, h]
  · rw [statementsWithin_eq_rounded, statementsWithin_eq_rounded]
    exact Follows.rounded (P := fun _ ↦ JoinsApart tail)
      (fun done done' hdone ↦ statementsRound_follows htail hsub hdone) m n .nil

theorem statementsInScope_follows (kind : ScopeKind) (names : List String) :
    Follows (Joins tail) (statementsInScope ctx sub₁ kind names)
      (statementsInScope ctx sub₂ kind names)
      (fun found found' ↦ Alikes found.1 found'.1 ∧ found'.2 = found.2) fun _ ↦ Joins tail := by
  rw [statementsInScope_eq, statementsInScope_eq]
  refine Follows.bind ((openBrace_follows htail).bind fun _ _ _ ↦
    .inScope (statementsInside_follows htail hsub names)) fun found found' hfound ↦ ?_
  exact Follows.leaveBlock.bind fun _ _ _ ↦ (Follows.advance false).bind fun _ _ _ ↦
    .pure hfound fun _ _ ↦ id

theorem blockWith_follows (names : List String) :
    Follows (Joins tail) (blockWith ctx sub₁ names) (blockWith ctx sub₂ names) Expr.Alike
      fun _ ↦ Joins tail := by
  refine Follows.position.bind fun start start' _ ↦
    (statementsInScope_follows htail hsub .block names).bind fun found found' hfound ↦ ?_
  obtain ⟨statements, scope⟩ := found
  obtain ⟨statements', scope'⟩ := found'
  obtain ⟨hstatements, rfl⟩ := hfound
  exact .pure (Form.Alike.block hstatements).node fun _ _ ↦ id

end

end ScriptFront.Parse
