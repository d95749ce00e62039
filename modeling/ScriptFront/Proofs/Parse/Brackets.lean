import ScriptFront.Proofs.Parse.Rounds

/-!
# What is counted while it is open

Blocks, argument lists and parentheses are counted while they are open. A production that counts one
adds one to a counter, parses what is inside, and takes one off again. Here these productions are
cut right before the counter is lowered, so that a statement can say that something was counted
there.

The parentheses that group operators are counted across the rounds of an expression, where
`Parse.closeGroup` lowers the counter first of all.
-/

namespace ScriptFront.Parse

open ParseContext (leaveParen leaveCall leaveBlock)

variable {α β γ : Type} {ctx : ParseContext} {sub : Subparser} {start : Position} {kind : ScopeKind}
  {names : List String}

/-- The production `x` begins with `before`, which leaves the counter positive, and lowers it
next. -/
structure Lowers (counter : ParserState → Nat) (leave : Parse Unit) (x : Parse β)
    (before : Parse α) :
    Prop where
  /-- The production goes on after its first part by lowering the counter. -/
  split : ∃ after : α → Parse β, x = before >>= fun a ↦ leave >>= fun _ ↦ after a
  /-- There, something is counted. -/
  positive : ∀ s a s', before s = .ok a s' → 0 < counter s'

/-! ## Parentheses and argument lists -/

/-- An expression in parentheses, up to the closing one. -/
def insideParens (ctx : ParseContext) (sub : Subparser) : Parse Expr := do
  ctx.enterParen
  advance 1 true
  let inner ← sub (.expression true)
  expect ")" false
  return inner

theorem parenthesized_eq : parenthesized ctx sub = (do
    let inner ← insideParens ctx sub
    leaveParen
    links ctx sub inner []) := by
  simp only [parenthesized, insideParens, bind_assoc, pure_bind]

/-- Arguments in parentheses, up to the closing one. -/
def insideCall (ctx : ParseContext) (sub : Subparser) : Parse (List Expr) := do
  expect "(" true
  ctx.enterCall
  let args ← callArgsWithin sub (← rounds) []
  advance 1 false
  return args

theorem callArgs_eq : callArgs ctx sub = (do
    let args ← insideCall ctx sub
    leaveCall
    return args) := by
  simp only [callArgs, insideCall, bind_assoc, pure_bind]

/-- Arguments without parentheses, all of them. -/
def insideLooseCall (ctx : ParseContext) (sub : Subparser) : Parse (List Expr) := do
  ctx.enterCall
  let first ← sub (.expression false)
  looseArgsWithin sub (← rounds) [first]

theorem looseArgs_eq : looseArgs ctx sub = (do
    let args ← insideLooseCall ctx sub
    leaveCall
    return args) := by
  simp only [looseArgs, insideLooseCall, bind_assoc]

/-! ## Operands -/

/-- An operand, up to where it is no longer counted. -/
def innerOperand (ctx : ParseContext) (sub : Subparser) : Parse Expr := do
  match ← ctx.build? sub .expression with
  | some e => return e
  | none => plainOperand ctx sub

theorem operand_eq : operand ctx sub = ctx.deeper (innerOperand ctx sub) := rfl

/-! ## Blocks -/

/-- A computation in a new scope. -/
def inScope (kind : ScopeKind) (p : Parse α) : Parse (α × ScopeId) := do
  let scope ← pushScope kind
  let a ← p
  popScope
  return (a, scope)

/-- The opening brace of a block. -/
def openBrace (ctx : ParseContext) : Parse Unit := do
  if !(← continuesWith "\x7b") then failExpected "\x7b"
  ctx.enterBlock
  advance 1 true

/-- The statements of a block, in a scope that has `names` defined. -/
def statementsInside (sub : Subparser) (names : List String) : Parse (List Expr) := do
  defineVars names
  statementsWithin sub (← rounds) []

/-- Statements in braces, up to the closing one. -/
def insideBlock (ctx : ParseContext) (sub : Subparser) (kind : ScopeKind) (names : List String) :
    Parse (List Expr × ScopeId) := do
  openBrace ctx
  inScope kind (statementsInside sub names)

theorem statementsInScope_eq : statementsInScope ctx sub kind names = (do
    let found ← insideBlock ctx sub kind names
    leaveBlock
    advance 1 false
    return found) := by
  simp only [statementsInScope, insideBlock, openBrace, inScope, statementsInside,
    bind_assoc, ite_bind, pure_bind]

/-- The statement that stands for a block. -/
def insideSingle (ctx : ParseContext) (sub : Subparser) : Parse (Expr × ScopeId) := do
  ctx.enterBlock
  inScope .block do
    match ← sub .statement with
    | none => failExpected "statement"
    | some statement => return statement

/-- A single statement in a scope of its own. -/
def singleStatement (ctx : ParseContext) (sub : Subparser) (start : Position) : Parse Expr := do
  let (statement, scope) ← insideSingle ctx sub
  leaveBlock
  return .mk (.block [statement]) start scope

theorem blockOrStatement_eq : blockOrStatement ctx sub = (do
    skipNewLines
    if ← is "\x7b" then block ctx sub else singleStatement ctx sub (← position)) := by
  have hsingle (start : Position) : (do
      ctx.enterBlock
      let scope ← pushScope .block
      match ← sub .statement with
      | none => failExpected "statement"
      | some statement =>
        popScope
        leaveBlock
        return .mk (.block [statement]) start scope :
          Parse Expr) = singleStatement ctx sub start := by
    simp only [singleStatement, insideSingle, inScope, bind_assoc, pure_bind]
    refine bind_congr fun _ ↦ bind_congr fun _ ↦ bind_congr fun found ↦ ?_
    cases found <;> rfl
  simp only [← hsingle]
  rfl

/-- The conditional behind an `else`. -/
def insideChain (ctx : ParseContext) (sub : Subparser) : Parse Expr := do
  ctx.enterBlock
  sub .conditional

/-- A conditional that is the alternative of another one. -/
def chained (ctx : ParseContext) (sub : Subparser) : Parse Expr := do
  let e ← insideChain ctx sub
  leaveBlock
  return e

theorem alternative_eq : alternative ctx sub = (do
    if ← is "if" then chained ctx sub else blockOrStatement ctx sub) := by
  simp only [alternative, chained, insideChain, bind_assoc]

/-! ## Counting loops -/

/-- What stands in the scope of a counting loop. -/
def insideLoop (ctx : ParseContext) (sub : Subparser) : Parse Form := do
  let initial ← if ← is "var" then varStatement sub else simpleStatement sub
  expect ";" true
  let condition ← sub (.expression false)
  expect ";" true
  let increment ← simpleStatement sub
  expect ")" false
  let body ← block ctx sub
  return .forLoop initial condition increment body

theorem countingLoop_eq : countingLoop ctx sub start = (do
    expect "(" false
    let (form, scope) ← inScope .block (insideLoop ctx sub)
    return .mk form start scope) := by
  simp only [countingLoop, inScope, insideLoop, bind_assoc, ite_bind, pure_bind]

end ScriptFront.Parse
