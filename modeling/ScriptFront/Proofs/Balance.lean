import ScriptFront.Frontend
import ScriptFront.Proofs.Parse.Order

/-!
# What is opened is closed

A parser counts the blocks, argument lists, parentheses and operands that are open, and knows the
current scope. Whatever it succeeds in parsing, all of this is afterwards as it was before; and the
operands are counted right even after a failure, since extensions may try something else then.

No counter is ever lowered below zero. For every production that lowers one, `Parse.CountsDown` says
that what it parses before leaves something counted.

Nothing is asked of the window or of the table of symbols: the statements hold in every state.
-/

namespace ScriptFront

namespace ParserState

variable {s s' : ParserState}

/-- As much is open in both states, and the same scope is current. -/
structure Balanced (s s' : ParserState) : Prop where
  /-- The blocks. -/
  blocks : s'.statementDepth = s.statementDepth
  /-- The argument lists. -/
  calls : s'.callDepth = s.callDepth
  /-- The parentheses. -/
  parens : s'.parenDepth = s.parenDepth
  /-- The operands. -/
  operands : s'.expressionDepth = s.expressionDepth
  /-- The current scope. -/
  scope : s'.symbols.current = s.symbols.current

/-- The stage of a state of which nothing else is known. -/
def stage (s : ParserState) : Parse.Stage := ⟨s.opened, False, fun _ ↦ True⟩

theorem balanced_of_opened (hopened : s'.opened = s.opened)
    (hoperands : s'.expressionDepth = s.expressionDepth)
    (hscope : s'.symbols.current = s.symbols.current) : s.Balanced s' where
  blocks := congrArg Counters.blocks hopened
  calls := congrArg Counters.calls hopened
  parens := congrArg Counters.parens hopened
  operands := hoperands
  scope := hscope

end ParserState

namespace Parse

open ParseContext (leaveParen leaveCall leaveBlock)

variable {α β : Type} {ctx : ParseContext} {sub : Subparser} {s s' : ParserState}

/-- What a computation does to what is open, run in the state `s`. -/
structure Balances (x : Parse α) (s : ParserState) : Prop where
  /-- A success leaves everything balanced. -/
  ok : ∀ a s', x s = .ok a s' → s.Balanced s'
  /-- A failure leaves as many operands open. -/
  error : ∀ e s', x s = .error e s' → s'.expressionDepth = s.expressionDepth

/-- Whether a computation has succeeded. -/
def succeeds : EStateM.Result ScriptError ParserState α → Bool
  | .ok _ _ => true
  | .error _ _ => false

theorem exists_ok_of_succeeds {r : EStateM.Result ScriptError ParserState α}
    (h : succeeds r = true) :
    ∃ a s', r = .ok a s' := by
  cases r with
  | error e s' => cases h
  | ok a s' => exact ⟨a, s', rfl⟩

/-- The window may be any. -/
def Trust.none : Trust := ⟨False, False⟩

theorem fits_stage (s : ParserState) : s.stage.Fits .none s := ⟨rfl, False.elim, False.elim⟩

namespace Orderly

variable {x : Parse α} {q : α → Stage}

theorem balances (h : Orderly .none s.stage x q) (hq : ∀ a, (q a).opened = s.opened) :
    Balances x s := by
  have hruns := h s (fits_stage s)
  refine ⟨fun a s' hrun ↦ ?_, fun e s' hrun ↦ (hruns.of_error hrun).1⟩
  have hreached := hruns.of_ok hrun
  exact ParserState.balanced_of_opened (hreached.fits.opened.trans (hq _)) hreached.operands
    hreached.symbols.current

/-- What is open at the end. -/
theorem opened_eq {q : Stage → Stage} (h : ∀ st, Orderly .none st x fun _ ↦ q st) {a : α}
    (hrun : x s = .ok a s') : s'.opened = (q s.stage).opened :=
  ((h s.stage s (fits_stage s)).of_ok hrun).fits.opened

end Orderly

/-! ## Lowering a counter -/

/-- An operand and what it consists of, up to where it is no longer counted. -/
def insideOperand (ctx : ParseContext) (x : Parse α) : Parse α := do
  modify fun s ↦ { s with expressionDepth := s.expressionDepth + 1 }
  ParseContext.limit (← get).expressionDepth ctx.limits.maxExpressionDepth .expression
  x

/-- The operands are lowered after a success or failure of what is inside, and one more of them is
counted then than at the beginning. -/
structure LowersOperands (ctx : ParseContext) (x : Parse α) : Prop where
  /-- The counter is lowered behind what is inside. -/
  split : ∀ s, ctx.deeper x s =
    mapState (fun s' ↦ { s' with expressionDepth := s'.expressionDepth - 1 })
      (insideOperand ctx x s)
  /-- There, an operand is counted. -/
  counted : ∀ s, match insideOperand ctx x s with
    | .ok _ s' | .error _ s' => s'.expressionDepth = s.expressionDepth + 1

theorem Orderly.lowersOperands {x : Parse α} {q : Stage → Stage}
    (h : ∀ st, Orderly .none st x fun _ ↦ q st) : LowersOperands ctx x := by
  refine ⟨fun _ ↦ deeper_run ctx x, fun s ↦ ?_⟩
  have hinside : Orderly .none s.stage (do
      ParseContext.limit (← get).expressionDepth ctx.limits.maxExpressionDepth .expression
      x) fun _ ↦ q s.stage :=
    .bind (.ask fun _ ↦ rfl) fun _ ↦ (Orderly.limit _ _ _).bind fun _ ↦ h _
  have hruns := hinside { s with expressionDepth := s.expressionDepth + 1 }
    ⟨rfl, False.elim, False.elim⟩
  rw [insideOperand, modify_bind_run]
  split
  · next hrun => exact (hruns.of_ok hrun).operands
  · next hrun => exact (hruns.of_error hrun).1

/-- Everywhere a counter is lowered, something is counted. -/
structure CountsDown (ctx : ParseContext) (sub : Subparser) : Prop where
  /-- A block. -/
  blocks : ∀ kind names, Lowers (·.statementDepth) leaveBlock (statementsInScope ctx sub kind names)
    (insideBlock ctx sub kind names)
  /-- A statement that stands for a block. -/
  singles : ∀ start, Lowers (·.statementDepth) leaveBlock (singleStatement ctx sub start)
      (insideSingle ctx sub)
  /-- A conditional behind an `else`. -/
  chains : Lowers (·.statementDepth) leaveBlock (chained ctx sub) (insideChain ctx sub)
  /-- Arguments in parentheses. -/
  calls : Lowers (·.callDepth) leaveCall (callArgs ctx sub) (insideCall ctx sub)
  /-- Arguments without parentheses. -/
  looseCalls : Lowers (·.callDepth) leaveCall (looseArgs ctx sub) (insideLooseCall ctx sub)
  /-- A parenthesized operand. -/
  parens : Lowers (·.parenDepth) leaveParen (parenthesized ctx sub) (insideParens ctx sub)
  /-- The groups of an expression. One is closed in a round of the expression only if some are open,
  and as many parentheses are counted then. -/
  groups : ∀ grouped groups wanting yard t s s₁ s₂,
    Comes (expressionRound ctx sub grouped) (0, true, .empty) s (groups, wanting, yard) s₁ →
    nextOfExpression ctx grouped groups s₁ = .ok t s₂ → s₂.parenDepth = s.parenDepth + groups
  /-- An operand. -/
  operands : LowersOperands ctx (innerOperand ctx sub)
  /-- The links behind a group. -/
  links : ∀ group, LowersOperands ctx (links ctx sub group [])

theorem Lowers.of_opened {counter : ParserState → Nat} (read : Counters → Nat) {leave : Parse Unit}
    {x : Parse β} {before : Parse α} {after : α → Parse β} {q : Stage → Stage}
    (hsplit : x = before >>= fun a ↦ leave >>= fun _ ↦ after a)
    (hread : ∀ s, counter s = read s.opened)
    (h : ∀ st, Orderly .none st before fun _ ↦ q st) (hq : ∀ st, 0 < read (q st).opened) :
    Lowers counter leave x before :=
  ⟨⟨after, hsplit⟩, fun s _ s' hrun ↦ by rw [hread, Orderly.opened_eq h hrun]; exact hq s.stage⟩

theorem countsDown (hctx : ctx.registry.entries = []) (hsub : Keeps .none sub) :
    CountsDown ctx sub where
  blocks kind names := .of_opened Counters.blocks statementsInScope_eq (fun _ ↦ rfl)
    (fun _ ↦ insideBlock_orderly hsub openBrace_orderly kind names) fun _ ↦ Nat.succ_pos _
  singles _ := .of_opened Counters.blocks rfl (fun _ ↦ rfl) (fun _ ↦ insideSingle_orderly hsub)
    fun _ ↦ Nat.succ_pos _
  chains := .of_opened Counters.blocks rfl (fun _ ↦ rfl) (fun _ ↦ insideChain_orderly hsub)
    fun _ ↦ Nat.succ_pos _
  calls := .of_opened Counters.calls callArgs_eq (fun _ ↦ rfl) (fun _ ↦ insideCall_orderly hsub)
    fun _ ↦ Nat.succ_pos _
  looseCalls :=
    .of_opened Counters.calls looseArgs_eq (fun _ ↦ rfl) (fun _ ↦ insideLooseCall_orderly hsub)
    fun _ ↦ Nat.succ_pos _
  parens := .of_opened Counters.parens parenthesized_eq (fun _ ↦ rfl)
    (fun _ ↦ insideParens_orderly hsub)
    fun _ ↦ Nat.succ_pos _
  groups grouped groups wanting yard t s s₁ s₂ hcomes hnext := by
    have hreached := Orderly.comes s.stage.between (expressionRound_between hsub hctx grouped)
      ⟨rfl, False.elim, False.elim⟩ hcomes
    have hmoved := (nextOfExpression_orderly hctx s₁ hreached.fits).of_ok hnext
    exact congrArg Counters.parens hmoved.fits.opened
  operands := Orderly.lowersOperands fun _ ↦ innerOperand_orderly hsub hctx
  links group := Orderly.lowersOperands fun _ ↦ links_orderly hsub group []

/-! ## Balance -/

theorem Keeps.balances (hsub : Keeps .none sub) (goal : Goal) : Balances (sub goal) s := by
  cases goal with
  | statement => exact (hsub.statement s.stage).balances fun
    | none => rfl
    | some _ => rfl
  | conditional => exact (hsub.conditional s.stage).balances fun _ ↦ rfl
  | expression grouped => exact (hsub.expression grouped s.stage).balances fun _ ↦ rfl
  | operand => exact (hsub.operand s.stage).balances fun _ ↦ rfl
  | embedded list => exact (hsub.embedded list False.elim s.stage).balances fun _ ↦ rfl

/-- **Balance.** Without extensions of the grammar, in every state and for all bounds: what the
parser succeeds in parsing leaves as many blocks, argument lists, parentheses and operands open as
before, and the scope that was current; as many operands are open even after a failure; and wherever
a counter is lowered, something is counted. -/
theorem run_balances (hctx : ctx.registry.entries = []) (levels fuel : Nat) :
    (∀ goal s, Balances (run ctx levels fuel goal) s) ∧ CountsDown ctx (run ctx levels fuel) :=
  ⟨fun goal _ ↦ (keeps_run hctx levels fuel).balances goal,
    countsDown hctx (keeps_run hctx levels fuel)⟩

/-- A definition in a block, and a conditional with a group and both kinds of argument lists. -/
def sampleBrackets : ParserState :=
  .initial (.ofTokens ((tokenize
    "\x7bfunction g(a, b) \x7b\x7d\nif a \x7bf(1, (2 + 3) * 4)\x7d else g 6, 7\x7d").toOption.getD
      []) 2) .empty

theorem run_balances_sampleBrackets :
    ∃ found s', run Frontend.standard.context 0 20 .statement sampleBrackets = .ok found s' ∧
      sampleBrackets.Balanced s' ∧ CountsDown Frontend.standard.context
        (run Frontend.standard.context 0 20) := by
  obtain ⟨hall, hcounts⟩ := @run_balances Frontend.standard.context rfl 0 20
  have hsucceeds :
      succeeds (run Frontend.standard.context 0 20 .statement sampleBrackets) = true := by
    decide +kernel
  obtain ⟨found, s', hrun⟩ := exists_ok_of_succeeds hsucceeds
  exact ⟨found, s', hrun, (hall .statement sampleBrackets).ok found s' hrun, hcounts⟩

end Parse

end ScriptFront
