import ScriptFront.Parse.Context

/-!
# Blocks

Statements between braces in a scope of their own, and the parameter lists that may stand before
them. Functions, loops, conditionals and lambdas are all made of these.

Line breaks and semicolons between statements are passed by `Parse.passSeparators` only. A statement
itself ends by `Parse.endStatement`, which leaves a closing brace, an alternative branch and the
end of the script to those who wait for them.
-/

namespace ScriptFront.Parse

/-- Move over semicolons and line breaks; `fuel` bounds the number of semicolons. -/
def passSeparatorsWithin : (fuel : Nat) → Parse Unit
  | 0 => failFuel
  | fuel + 1 => do
    skipNewLines
    if ← is ";" then
      advance 1 true
      passSeparatorsWithin fuel

/-- Move over semicolons and line breaks. -/
def passSeparators : Parse Unit := do passSeparatorsWithin (← rounds)

/-- Move over line breaks if `text` follows them, and say whether it is current then. -/
def continuesWith (text : String) : Parse Bool := do
  if (← kind) = .newLine then
    if (← peek 1 true).is text then skipNewLines
  is text

/-- Move over the end of a statement. A closing brace, an alternative branch and the end of the
tokens end a statement too, and are left. -/
def endStatement : Parse Unit := do
  let w ← tokens
  if w.isExplicitEnd then advance 1 false
  else if !(w.isEndOfStatementOrBlock || w.is "else") then failExpected "end of statement"

/-- Parameters up to the closing parenthesis, after those in `params`, which come last one first;
`fuel` bounds their number. -/
def paramsWithin (ctx : ParseContext) : (fuel : Nat) → List String → Parse (List String)
  | 0, _ => failFuel
  | fuel + 1, params => do
    if ← is ")" then
      expect ")" false
      return params.reverse
    let name ← expectName true
    let params := name :: params
    if ctx.limits.maxParams < params.length then
      fail (.tooMany .parameters ctx.limits.maxParams)
    if ← is "," then advance 1 true
    else if !(← is ")") then failExpected ")"
    paramsWithin ctx fuel params

def params (ctx : ParseContext) : Parse (List String) := do
  expect "(" true
  paramsWithin ctx (← rounds) []

/-- Statements up to a closing brace, which is left, after those in `done`, which come last one
first; `fuel` bounds their number. -/
def statementsWithin (sub : Subparser) : (fuel : Nat) → List Expr → Parse (List Expr)
  | 0, _ => failFuel
  | fuel + 1, done => do
    passSeparators
    if ← is "\x7d" then return done.reverse
    if ← isEnded then failExpected "\x7d"
    let before ← place
    match ← sub .statement with
    | none => failExpected "\x7d"
    | some statement =>
      requireProgress before
      statementsWithin sub fuel (statement :: done)

def defineVars (names : List String) : Parse Unit :=
  modifySymbols fun t ↦ names.foldl SymbolTable.defineVar t

/-- Statements in braces, in a new scope of a kind that has `names` defined; line breaks may stand
before the opening brace. -/
def statementsInScope (ctx : ParseContext) (sub : Subparser) (kind : ScopeKind)
    (names : List String) : Parse (List Expr × ScopeId) := do
  if !(← continuesWith "\x7b") then failExpected "\x7b"
  ctx.enterBlock
  advance 1 true
  let scope ← pushScope kind
  defineVars names
  let statements ← statementsWithin sub (← rounds) []
  popScope
  ParseContext.leaveBlock
  advance 1 false
  return (statements, scope)

/-- A block with `names` defined in its scope. -/
def blockWith (ctx : ParseContext) (sub : Subparser) (names : List String) : Parse Expr := do
  let start ← position
  let (statements, scope) ← statementsInScope ctx sub .block names
  return .mk (.block statements) start scope

def block (ctx : ParseContext) (sub : Subparser) : Parse Expr := blockWith ctx sub []

end ScriptFront.Parse
