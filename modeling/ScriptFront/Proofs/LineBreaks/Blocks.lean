import ScriptFront.Proofs.LineBreaks.Steps

/-!
# Parsers for the parts, and blocks

`Parse.Spaced` says of two parsers for the parts what every goal does on two lists of tokens, the
second of which has more line breaks. An operand is read from where one may begin to behind it,
whatever brackets it is in. An expression that no group holds ends at a line break, so it must not
be read right inside a group; the expression of a group is read together with the mark that closes
it.

In a block nothing is free, and a block ends with the brace that closes it. So it leads from behind
an operand to behind an operand, as brackets do.
-/

namespace ScriptFront.Parse

variable {p : Place} {ctx : ParseContext}
  {sub₁ sub₂ : Subparser} {depth : Nat} {outer : List Level}

/-- In a block, both computations lead from similar tokens to similar tokens. -/
abbrev AlongBlock {α β : Type} (depth : Nat) (outer : List Level) (x : Parse α)
    (y : Parse β) (V : α → β → Prop) : Prop :=
  Follows (Begun (.block depth outer)) x y V fun _ ↦ Begun (.block depth outer)

/-! ## Parsers for the parts -/

/-- What every goal does where the second list has more line breaks. -/
structure Spaced (sub₁ sub₂ : Subparser) : Prop where
  /-- On lists that go together, the goals do the same. -/
  tandem : Tandem sub₁ sub₂
  /-- An operand, at the beginning or behind a prefix operator. -/
  operand : ∀ {p : Place} {lately : Lately}, lately = .fresh ∨ lately = .sign →
    Follows (Begun (p.now lately)) (sub₁ .operand) (sub₂ .operand) Expr.Alike
      fun _ ↦ Spread (p.now .operand)
  /-- An expression. -/
  expression : ∀ {p : Place}, p.IsUngrouped →
    Follows (Begun (p.now .fresh)) (sub₁ (.expression false)) (sub₂ (.expression false))
      Expr.Alike fun _ ↦ Spread (p.now .operand)
  /-- The expression of a group, up to the mark that closes it. -/
  group : ∀ {p : Place}, Follows (Begun (p.within .group)) (insideGroup sub₁)
    (insideGroup sub₂) Expr.Alike fun _ ↦ Spread (p.now .operand)
  /-- A statement of a block. -/
  statement : ∀ {depth : Nat} {outer : List Level},
    AlongBlock depth outer (demanded (sub₁ .statement)) (demanded (sub₂ .statement)) Expr.Alike
  /-- A conditional in a block. -/
  conditional : ∀ {depth : Nat} {outer : List Level},
    AlongBlock depth outer (sub₁ .conditional) (sub₂ .conditional) Expr.Alike

/-- An expression in a block. -/
theorem Spaced.inBlock (hsub : Spaced sub₁ sub₂) :
    AlongBlock depth outer (sub₁ (.expression false)) (sub₂ (.expression false)) Expr.Alike :=
  (hsub.expression (Place.isUngrouped_block depth outer)).mono fun _ _ _ hspread ↦
    Spread.begun hspread (Place.isTight_block depth outer)

/-! ## Parameters -/

/-- A parameter, or the end of the parameters. -/
theorem paramsRound_spaced (names : List String) :
    Follows (Begun (p.within .list)) (paramsRound ctx names) (paramsRound ctx names)
      (Round.Matches Eq Eq) (Round.pairing (fun _ ↦ Begun (p.within .list))
        (Spread (p.now .operand))) := by
  rw [paramsRound, ← Place.now_fresh_within]
  refine .is_begun_branch (by decide) (Place.leads_close (by decide) .fresh) ?_ ?_
  · rw [Place.closed_within]
    exact (Follows.expect_ahead (by decide) false).bind fun _ _ _ ↦ .pure (.done rfl) fun _ _ ↦ id
  · refine (Follows.expectName_begun (fun _ ↦ Place.inFront_now (by simp)) true).bind
      fun name name' hname ↦ ?_
    subst hname
    rw [Place.afterName_fresh]
    refine .require (Orderly.fails_fail id) id fun _ ↦ .listSeparator_begun (by decide) ?_
    exact .pure (.again rfl) fun _ _ ↦ id

theorem params_spaced : Follows (Ahead (p.within .list) 1) (params ctx) (params ctx) Eq
    fun _ ↦ Spread (p.now .operand) := by
  refine (Follows.expect_ahead (by decide) true).bind fun _ _ _ ↦ Follows.rounds.bind fun m n _ ↦ ?_
  rw [paramsWithin_eq_rounded, paramsWithin_eq_rounded]
  refine Follows.rounded (V := Eq) (P := fun _ ↦ Begun (p.within .list))
    (fun names _ h ↦ ?_) m n rfl
  subst h
  exact paramsRound_spaced names

theorem aliasesRound_spaced (done : List String) :
    Follows (Begun (.block depth outer)) (aliasesRound ctx done) (aliasesRound ctx done)
      (Round.Matches Eq Eq)
      (Round.pairing (fun _ ↦ Begun (.block depth outer)) (Begun (.block depth outer))) := by
  rw [aliasesRound]
  refine .is_block_branch (by decide) (by decide)
    ((Follows.advance_block false).bind fun _ _ _ ↦ ?_)
    (.pure (.done rfl) fun _ _ ↦ id)
  refine (Follows.expectName_block false).bind fun name name' hname ↦ ?_
  subst hname
  exact .require (Orderly.fails_fail id) id fun _ ↦ .pure (.again rfl) fun _ _ ↦ id

/-! ## Blocks -/

/-- The brace that begins a body may stand in the next line. -/
theorem openBrace_spaced : Follows (Spread (p.now .operand)) (openBrace ctx) (openBrace ctx)
    (fun _ _ ↦ True) fun _ ↦ Begun p.inBody := by
  have hleads : (p.now .operand).Leads "\x7b" p.inBody := by
    have h : (p.now .operand).Leads "\x7b" ((p.now .operand).afterSymbol "\x7b") :=
      Place.leads_symbol (by decide) (by decide)
    rwa [p.afterSymbol_operand.2.2.1] at h
  refine (Follows.continuesWith_spread (by decide)).bind fun found _ hfound ↦ ?_
  subst hfound
  refine .require Orderly.fails_failExpected id fun hnot ↦ Follows.enterBlock.bind fun _ _ _ ↦ ?_
  exact (Follows.advance_ahead true).of_implies fun _ _ h ↦ (h.1 (by simpa using hnot)).leads
    (by decide) hleads

section

variable (hsub : Spaced sub₁ sub₂)

include hsub

theorem statementRound_spaced {ended ended' : Parse (Round (List Expr) (List Expr))}
    (hended : Orderly.Fails ended) {done done' : List Expr} (hdone : Alikes done done')
    {R : Pairing} :
    Follows (Begun (.block depth outer)) (statementRound sub₁ ended done)
      (statementRound sub₂ ended' done') (Round.Matches Alikes Alikes)
      (Round.pairing (fun _ ↦ Begun (.block depth outer)) R) := by
  refine Follows.place.bind fun before before' _ ↦
    .demanded_bind hsub.statement hended fun e e' he ↦ ?_
  refine (Follows.requireProgress before before').bind fun _ _ _ ↦ ?_
  exact .pure (.again (.cons he hdone)) fun _ _ ↦ id

theorem statementsRound_spaced {done done' : List Expr} (hdone : Alikes done done') :
    Follows (Begun (.block depth outer)) (statementsRound sub₁ done)
      (statementsRound sub₂ done') (Round.Matches Alikes Alikes)
      (Round.pairing (fun _ ↦ Begun (.block depth outer))
        (Ahead (Place.block depth outer).closed 1)) := by
  have hclose : (Place.block depth outer).Leads "\x7d" (Place.block depth outer).closed :=
    Place.leads_close (p := .block depth outer) (by decide) .fresh
  rw [statementsRound, statementsRound]
  refine Follows.passSeparators_block.bind fun _ _ _ ↦ .is_begun_branch (by decide) hclose
    (.pure (.done hdone.reverse) fun _ _ ↦ id) (Follows.isEnded_begun.bind fun ended _ hended ↦ ?_)
  subst hended
  refine .require Orderly.fails_failExpected id fun _ ↦ ?_
  exact statementRound_spaced hsub Orderly.fails_failExpected hdone

theorem statementsInside_spaced (names : List String) :
    Follows (Begun (.block depth outer)) (statementsInside sub₁ names)
      (statementsInside sub₂ names) Alikes fun _ ↦ Ahead (Place.block depth outer).closed 1 := by
  refine (Follows.modifySymbols fun a b h ↦ ?_).bind fun _ _ _ ↦ Follows.rounds.bind fun m n _ ↦ ?_
  · rw [SymbolTable.unplaced_defineVars, SymbolTable.unplaced_defineVars, h]
  · rw [statementsWithin_eq_rounded, statementsWithin_eq_rounded]
    exact Follows.rounded (P := fun _ ↦ Begun (.block depth outer))
      (fun done done' hdone ↦ statementsRound_spaced hsub hdone) m n .nil

theorem statementsInScope_spaced (kind : ScopeKind) (names : List String) :
    Follows (Spread (p.now .operand)) (statementsInScope ctx sub₁ kind names)
      (statementsInScope ctx sub₂ kind names)
      (fun found found' ↦ Alikes found.1 found'.1 ∧ found'.2 = found.2) fun _ ↦
      Spread (p.now .operand) := by
  obtain ⟨depth, outer, hbody⟩ : ∃ depth outer, p.inBody = .block depth outer := by
    cases p with
    | inside levels _ => exact ⟨0, levels, rfl⟩
    | block depth outer => exact ⟨depth + 1, outer, rfl⟩
  rw [statementsInScope_eq, statementsInScope_eq]
  refine Follows.bind (openBrace_spaced.bind fun _ _ _ ↦
    .inScope (hbody ▸ statementsInside_spaced hsub names)) fun found found' hfound ↦ ?_
  rw [Place.closed_inBody]
  exact Follows.leaveBlock.bind fun _ _ _ ↦ (Follows.advance_ahead false).bind fun _ _ _ ↦
    .pure hfound fun _ _ ↦ id

theorem blockWith_spaced (names : List String) :
    AlongBlock depth outer (blockWith ctx sub₁ names) (blockWith ctx sub₂ names) Expr.Alike := by
  refine Follows.position.bind fun start start' _ ↦ ?_
  have hstatements := @statementsInScope_spaced (.block depth outer) ctx _ _ hsub .block names
  refine ((hstatements.of_implies fun _ _ ↦ Begun.spread).mono fun _ _ _ hspread ↦
    Spread.begun hspread (Place.isTight_block depth outer)).bind fun found found' hfound ↦ ?_
  obtain ⟨statements, scope⟩ := found
  obtain ⟨statements', scope'⟩ := found'
  obtain ⟨hstatements, rfl⟩ := hfound
  exact .pure (Form.Alike.block hstatements).node fun _ _ ↦ id

end

end ScriptFront.Parse
