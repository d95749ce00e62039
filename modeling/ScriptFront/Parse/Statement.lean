import ScriptFront.Parse.Block
import ScriptFront.Parse.Operand

/-!
# Statements

A statement begins with a reserved word that says what it is, or it is a block, an expression, or
an assignment. Extensions for statements are asked before all of these.

Names are defined as the statements are read: declarations define theirs before the initial value,
an assignment to an unknown name defines it after the value, and a function is known inside its own
body.

## Ends of statements

Statements that end in a block need nothing behind them. All others are closed by a line break, a
semicolon, a closing brace, an alternative branch or the end of the script, which
`Parse.endStatement` requires. An alternative belongs to the nearest conditional, since of two
conditionals the inner one looks for it first.
-/

namespace ScriptFront.Parse

/-! ## Expressions and assignments as statements -/

/-- The assignment operator at the current token. -/
def assignOp? : Parse (Option AssignOp) := do
  let t ← current
  return if t.kind = .symbol then AssignOp.ofSymbol? t.text else none

/-- Define the target of a plain assignment, if it is a name that is not known. -/
def defineTarget (target : Expr) (op : AssignOp) : Parse Unit := do
  if op = .assign then
    match target.varName? with
    | none => pure ()
    | some name => modifySymbols fun t ↦ if t.contains name then t else t.defineVar name

/-- An expression or an assignment. -/
def simpleStatement (sub : Subparser) : Parse Expr := do
  let start ← position
  let target ← sub (.expression false)
  match ← assignOp? with
  | none => return target
  | some op =>
    if !target.isAssignable then throw (.ofCause target.position .invalidAssignmentTarget)
    advance 1 true
    let value ← sub (.expression false)
    defineTarget target op
    return ((Expr.assign target op (some value) false).moveTo start).inScope (← scope)

/-- One name of a declaration, with or without an initial value. -/
def declaration (sub : Subparser) : Parse Expr := do
  let start ← position
  let name ← expectName false
  modifySymbols fun t ↦ t.defineVar name
  let value ← if ← is "=" then do
      advance 1 true
      let e ← sub (.expression false)
      pure (some e)
    else pure none
  let scope ← scope
  let target := ((Expr.var name).moveTo start).inScope scope
  return ((Expr.assign target .assign value true).moveTo start).inScope scope

/-- Declarations with commas between them, after those in `done`, which come last one first; `fuel`
bounds their number. -/
def declarationsWithin (sub : Subparser) : (fuel : Nat) → List Expr → Parse (List Expr)
  | 0, _ => failFuel
  | fuel + 1, done => do
    let entry ← declaration sub
    if ← is "," then
      advance 1 true
      declarationsWithin sub fuel (entry :: done)
    else return (entry :: done).reverse

/-- A declaration statement. A single declaration stands for itself, at the word that opens it. -/
def varStatement (sub : Subparser) : Parse Expr := do
  let start ← position
  expect "var" false
  match ← declarationsWithin sub (← rounds) [] with
  | [single] => return single.moveTo start
  | entries => node (.multiAssign entries) start

/-- A return statement, with or without a result. -/
def returnStatement (sub : Subparser) : Parse Expr := do
  let start ← position
  expect "return" false
  let w ← tokens
  if w.isEndOfStatementOrBlock || w.is "else" then node (.returning none) start
  else
    let value ← sub (.expression false)
    node (.returning (some value)) start

def throwStatement (sub : Subparser) : Parse Expr := do
  let start ← position
  advance 1 false
  let value ← sub (.expression false)
  node (.throwing value) start

def wordStatement (form : Form) : Parse Expr := do
  let start ← position
  advance 1 false
  node form start

/-! ## Branches and loops -/

/-- A block, or a single statement in a scope of its own. -/
def blockOrStatement (ctx : ParseContext) (sub : Subparser) : Parse Expr := do
  skipNewLines
  if ← is "\x7b" then block ctx sub
  else
    let start ← position
    ctx.enterBlock
    let scope ← pushScope .block
    match ← sub .statement with
    | none => failExpected "statement"
    | some statement =>
      popScope
      ParseContext.leaveBlock
      return .mk (.block [statement]) start scope

/-- What a condition guards: a block, or a word and one statement. -/
def guarded (ctx : ParseContext) (sub : Subparser) : Parse Expr := do
  if ← is "then" then
    advance 1 true
    blockOrStatement ctx sub
  else if ← continuesWith "\x7b" then block ctx sub
  else failExpected "\x7b"

/-- The alternative of a conditional, whose word was passed: another conditional, which counts as
nested, or a body. -/
def alternative (ctx : ParseContext) (sub : Subparser) : Parse Expr := do
  if ← is "if" then
    ctx.enterBlock
    let chained ← sub .conditional
    ParseContext.leaveBlock
    return chained
  else blockOrStatement ctx sub

/-- A conditional. -/
def conditional (ctx : ParseContext) (sub : Subparser) : Parse Expr := do
  let start ← position
  expect "if" false
  let condition ← sub (.expression false)
  let thenBranch ← guarded ctx sub
  if ← continuesWith "else" then
    advance 1 false
    let elseBranch ← alternative ctx sub
    node (.conditional condition thenBranch (some elseBranch)) start
  else node (.conditional condition thenBranch none) start

def whileStatement (ctx : ParseContext) (sub : Subparser) : Parse Expr := do
  let start ← position
  expect "while" false
  let condition ← sub (.expression false)
  let body ← guarded ctx sub
  node (.whileLoop condition body) start

/-- Whether a loop over items follows: a name and the word between it and its source, behind a
parenthesis if `parens` holds. -/
def isForEach (parens : Bool) : Parse Bool := do
  let first := if parens then 1 else 0
  if (← peek first false).kind = .ident then
    return (← peek (first + 1) false).is "in"
  else return false

/-- A loop over the items of a source. -/
def forEachStatement (ctx : ParseContext) (sub : Subparser) (start : Position) (parens : Bool) :
    Parse Expr := do
  if parens then advance 1 false
  let name ← expectName false
  expect "in" false
  let source ← sub (.expression false)
  if parens then expect ")" false
  let body ← blockWith ctx sub [name]
  node (.forEach name source body) start

/-- A loop with an initial statement, a condition and a step. The scope of the loop holds what the
initial statement defines. -/
def countingLoop (ctx : ParseContext) (sub : Subparser) (start : Position) : Parse Expr := do
  expect "(" false
  let scope ← pushScope .block
  let initial ← if ← is "var" then varStatement sub else simpleStatement sub
  expect ";" true
  let condition ← sub (.expression false)
  expect ";" true
  let increment ← simpleStatement sub
  expect ")" false
  let body ← block ctx sub
  popScope
  return .mk (.forLoop initial condition increment body) start scope

/-- A loop of either kind. -/
def forStatement (ctx : ParseContext) (sub : Subparser) : Parse Expr := do
  let start ← position
  expect "for" false
  let parens ← is "("
  if ← isForEach parens then forEachStatement ctx sub start parens
  else countingLoop ctx sub start

/-- A block and the handler of what it throws. -/
def tryStatement (ctx : ParseContext) (sub : Subparser) : Parse Expr := do
  let start ← position
  expect "try" false
  let body ← block ctx sub
  if !(← continuesWith "catch") then failExpected "catch"
  advance 1 false
  let parens ← is "("
  if parens then advance 1 false
  let name ← expectName false
  if parens then expect ")" false
  let handler ← blockWith ctx sub [name]
  node (.tryCatch body name handler) start

/-! ## Functions -/

/-- The aliases of a function, each after a comma, after those in `done`, which come last one first;
`fuel` bounds their number. -/
def aliasesWithin (ctx : ParseContext) : (fuel : Nat) → List String → Parse (List String)
  | 0, _ => failFuel
  | fuel + 1, done => do
    if ← is "," then
      advance 1 false
      let name ← expectName false
      let done := name :: done
      if ctx.limits.maxAliases < done.length then fail (.tooMany .aliases ctx.limits.maxAliases)
      aliasesWithin ctx fuel done
    else return done.reverse

/-- The declaration of a function. Its names are defined before the body, and the declaration is
attached to them afterwards. -/
def functionStatement (ctx : ParseContext) (sub : Subparser) : Parse Expr := do
  let start ← position
  expect "function" false
  let name ← expectName false
  let hasWildcard ← is "*"
  if hasWildcard then advance 1 false
  let aliases ← aliasesWithin ctx (← rounds) []
  let names ← if ← is "(" then params ctx else pure []
  let signature : Signature := ⟨name, names, aliases, hasWildcard⟩
  modifySymbols fun t ↦ t.defineFunction signature
  let (body, bodyScope) ← statementsInScope ctx sub .function names
  let decl : FunctionDecl := .mk signature body bodyScope start
  modifySymbols fun t ↦ t.attachDecl name decl
  return (Expr.function decl).inScope (← scope)

/-! ## All statements -/

/-- A statement and its end. -/
def ended (p : Parse Expr) : Parse (Option Expr) := do
  let statement ← p
  endStatement
  return some statement

/-- A statement that no extension claims. Those that end in a block need no further end. -/
def plainStatement (ctx : ParseContext) (sub : Subparser) : Parse (Option Expr) := do
  let t ← current
  match t.lexeme with
  | .keyword "if" => return some (← conditional ctx sub)
  | .keyword "while" => return some (← whileStatement ctx sub)
  | .keyword "for" => return some (← forStatement ctx sub)
  | .keyword "try" => return some (← tryStatement ctx sub)
  | .keyword "function" =>
    if (← peek 1 false).kind = .ident then return some (← functionStatement ctx sub)
    else ended (simpleStatement sub)
  | .symbol "\x7b" => return some (← block ctx sub)
  | .keyword "var" => ended (varStatement sub)
  | .keyword "return" => ended (returnStatement sub)
  | .keyword "throw" => ended (throwStatement sub)
  | .keyword "break" => ended (wordStatement .breakLoop)
  | .keyword "continue" => ended (wordStatement .continueLoop)
  | .keyword _ => fail (.unexpectedToken t.text)
  | _ => ended (simpleStatement sub)

/-- The next statement, or none at the end of the tokens. Extensions are asked first. -/
def statement (ctx : ParseContext) (sub : Subparser) : Parse (Option Expr) := do
  passSeparators
  if ← isEnded then return none
  ctx.replaceTokens
  match ← ctx.build? sub .statement with
  | some e => ended (pure e)
  | none => plainStatement ctx sub

end ScriptFront.Parse
