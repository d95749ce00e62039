import ScriptFront.Parse.Block

/-!
# Operands

An operand is a literal, a name, a call, a list, a map, a lambda, a string with embedded
expressions, a prefix operator with its operand, or an expression in parentheses; most of them may
be followed by links: member accesses, indices, argument lists, and the operators that change a
variable after reading it.

How a name parses depends on what it stands for. A function may be called without parentheses, and
a call on a chain of members that starts at a module or a function is a call by its full name.

## Names with dots

A chain of members such as `a.b.c` is read link by link. If its first name stands for a module or a
function, the full name is collected beside the node, and an argument list behind it makes a call
by that name. Any other link, an index for instance, ends the collecting, and a later argument list
calls what the expression denotes.
-/

namespace ScriptFront.Parse

/-- Whether an operand begins at a token. Right behind an operand, such a token means that an
operator is missing. -/
def opensOperand (t : Token) : Bool :=
  t.lexeme.isLiteral || t.kind == .ident || t.kind == .interpolated || t.isSymbol "!" ||
    t.isSymbol "["

/-- The value of a literal. -/
def constantOf : Lexeme → Value
  | .number _ value => .number value
  | .str _ value => .str value
  | .bool value => .bool value
  | _ => .null

/-! ## Arguments -/

/-- Arguments up to the closing parenthesis, which is left, after those in `args`, which come last
one first; `fuel` bounds their number. -/
def callArgsWithin (sub : Subparser) : (fuel : Nat) → List Expr → Parse (List Expr)
  | 0, _ => failFuel
  | fuel + 1, args => do
    skipNewLines
    if ← is ")" then return args.reverse
    let arg ← sub (.expression false)
    skipNewLines
    if ← is "," then advance 1 true
    else if !(← is ")") then failExpected ")"
    callArgsWithin sub fuel (arg :: args)

/-- Arguments in parentheses. -/
def callArgs (ctx : ParseContext) (sub : Subparser) : Parse (List Expr) := do
  expect "(" true
  ctx.enterCall
  let args ← callArgsWithin sub (← rounds) []
  advance 1 false
  ParseContext.leaveCall
  return args

/-- Further arguments, each after a comma; `fuel` bounds their number. -/
def looseArgsWithin (sub : Subparser) : (fuel : Nat) → List Expr → Parse (List Expr)
  | 0, _ => failFuel
  | fuel + 1, args => do
    if ← is "," then
      advance 1 true
      let arg ← sub (.expression false)
      looseArgsWithin sub fuel (arg :: args)
    else return args.reverse

/-- Arguments without parentheses, up to the end of the expression. -/
def looseArgs (ctx : ParseContext) (sub : Subparser) : Parse (List Expr) := do
  ctx.enterCall
  let first ← sub (.expression false)
  let args ← looseArgsWithin sub (← rounds) [first]
  ParseContext.leaveCall
  return args

/-! ## Links -/

/-- A call on an expression, or by the full name that was collected for it. -/
def callOn (target : Expr) (qualified : List String) (args : List Expr) : Expr :=
  if qualified.isEmpty then .callComputed target args
  else .call (".".intercalate qualified) args

/-- The links behind an operand, `links` of which were read. `qualified` is the chain of names from
a module or a function on, as long as nothing but members follow it. `fuel` bounds the number of
links. -/
def linksWithin (ctx : ParseContext) (sub : Subparser) (start : Position) :
    (fuel links : Nat) → Expr → (qualified : List String) → Parse Expr
  | 0, _, _, _ => failFuel
  | fuel + 1, links, e, qualified => do
    let t ← current
    if t.isSymbol "." then
      ParseContext.limit (links + 1) ctx.limits.maxMemberDepth .memberAccess
      advance 1 true
      let name ← expectName false
      let qualified := if qualified.isEmpty then [] else qualified ++ [name]
      linksWithin ctx sub start fuel (links + 1) (← node (.member e name) start) qualified
    else if t.isSymbol "[" then
      ParseContext.limit (links + 1) ctx.limits.maxMemberDepth .memberAccess
      advance 1 true
      let key ← sub (.expression false)
      skipNewLines
      expect "]" false
      linksWithin ctx sub start fuel (links + 1) (← node (.index e key) start) []
    else if t.isSymbol "(" then
      ParseContext.limit (links + 1) ctx.limits.maxMemberDepth .memberAccess
      let args ← callArgs ctx sub
      let call := ((callOn e qualified args).moveTo start).inScope (← scope)
      linksWithin ctx sub start fuel (links + 1) call []
    else if t.isSymbol "++" && e.isAssignable then
      advance 1 false
      node (.unary .postIncrement e) start
    else if t.isSymbol "--" && e.isAssignable then
      advance 1 false
      node (.unary .postDecrement e) start
    else return e

/-- The links behind an operand. -/
def links (ctx : ParseContext) (sub : Subparser) (e : Expr) (qualified : List String) :
    Parse Expr := do
  linksWithin ctx sub e.position (← rounds) 0 e qualified

/-! ## Forms of operands -/

/-- What a name begins that was passed just now. -/
def named (ctx : ParseContext) (sub : Subparser) (name : String) (start : Position) :
    Parse Expr := do
  let isFunction ← symbols (·.isFunction name)
  if isFunction && !(← is "(") && !(← is ".") then
    let args ← if opensOperand (← current) then looseArgs ctx sub else pure []
    return ((Expr.call name args).moveTo start).inScope (← scope)
  let isModule ← symbols (·.isModule name)
  links ctx sub (← node (.var name) start) (if isModule || isFunction then [name] else [])

/-- The items of a list up to the closing bracket, which is left, after those in `items`, which
come last one first. `wanting` says that no item stands before the next comma; `fuel` bounds the
number of items and commas. -/
def itemsWithin (sub : Subparser) :
    (fuel : Nat) → List Expr → (wanting : Bool) → Parse (List Expr)
  | 0, _, _ => failFuel
  | fuel + 1, items, wanting => do
    skipNewLines
    if ← is "]" then return items.reverse
    if ← isEnded then failExpected "]"
    if ← is "," then
      let items ← if wanting then pure ((← node (.constant .null) (← position)) :: items)
        else pure items
      advance 1 true
      itemsWithin sub fuel items true
    else
      if !wanting then failExpected "]"
      let item ← sub (.expression false)
      itemsWithin sub fuel (item :: items) false

/-- A list of items in brackets; a place left empty holds the absent value. -/
def array (sub : Subparser) : Parse Expr := do
  let start ← position
  expect "[" true
  let items ← itemsWithin sub (← rounds) [] true
  advance 1 false
  node (.array items) start

/-- The key of a map entry: a string, a name or a number. -/
def mapKey : Parse String := do
  match (← current).lexeme with
  | .str _ value => return value
  | .ident text | .number text _ => return text
  | _ => failExpected "map key"

/-- The entries of a map up to the closing brace, which is left, after those in `entries`, which
come last one first; `fuel` bounds their number. -/
def entriesWithin (sub : Subparser) : (fuel : Nat) → List MapEntry → Parse (List MapEntry)
  | 0, _ => failFuel
  | fuel + 1, entries => do
    skipNewLines
    if ← is "\x7d" then return entries.reverse
    let key ← mapKey
    advance 1 false
    expect ":" true
    let value ← sub (.expression false)
    skipNewLines
    if ← is "," then advance 1 true
    else if !(← is "\x7d") then failExpected "\x7d"
    entriesWithin sub fuel (.mk key value :: entries)

/-- Items under keys in braces. -/
def map (sub : Subparser) : Parse Expr := do
  let start ← position
  expect "\x7b" true
  let entries ← entriesWithin sub (← rounds) []
  advance 1 false
  node (.map entries) start

def lambda (ctx : ParseContext) (sub : Subparser) : Parse Expr := do
  let start ← position
  expect "function" false
  let names ← if ← is "(" then params ctx else pure []
  let (body, bodyScope) ← statementsInScope ctx sub .function names
  let decl : FunctionDecl := .mk { Signature.named "" with params := names } body bodyScope start
  return (Expr.lambda decl).inScope (← scope)

/-- The pieces of a string with embedded expressions, each section parsed on its own. -/
def pieces (sub : Subparser) (start : Position) : List Section → Parse (List Expr)
  | [] => return []
  | .text value :: rest => do
    let piece ← node (.constant (.str value)) start
    return piece :: (← pieces sub start rest)
  | .tokens list :: rest => do
    let piece ← sub (.embedded list)
    return piece :: (← pieces sub start rest)

/-- A prefix operator and its operand. -/
def prefixed (sub : Subparser) (op : UnaryOp) (start : Position) : Parse Expr := do
  advance 1 false
  let operand ← sub .operand
  node (.unary op operand) start

/-- An operator that changes a variable before reading it. -/
def prefixedChange (sub : Subparser) (op : UnaryOp) (start : Position) : Parse Expr := do
  advance 1 false
  let operand ← sub .operand
  if !operand.isAssignable then throw (.ofCause operand.position .invalidAssignmentTarget)
  node (.unary op operand) start

/-- A minus sign: directly before a number it makes the constant negative. -/
def minus (sub : Subparser) (start : Position) : Parse Expr := do
  match (← peek 1 false).lexeme.number? with
  | some n =>
    advance 2 false
    node (.constant (.number n.negate)) start
  | none => prefixed sub .negate start

/-- An expression in parentheses, with its links. -/
def parenthesized (ctx : ParseContext) (sub : Subparser) : Parse Expr := do
  ctx.enterParen
  advance 1 true
  let inner ← sub (.expression true)
  expect ")" false
  ParseContext.leaveParen
  links ctx sub inner []

/-- An operand that no extension claims. -/
def plainOperand (ctx : ParseContext) (sub : Subparser) : Parse Expr := do
  let t ← current
  let start := t.position
  match t.lexeme with
  | .interpolated _ parts =>
    advance 1 false
    let list ← pieces sub start parts
    node (.interpolated list) start
  | .ident name =>
    advance 1 false
    named ctx sub name start
  | .keyword "function" => lambda ctx sub
  | .symbol "-" => minus sub start
  | .symbol "!" => prefixed sub .not start
  | .symbol "++" => prefixedChange sub .preIncrement start
  | .symbol "--" => prefixedChange sub .preDecrement start
  | .symbol "(" => parenthesized ctx sub
  | .symbol "[" => links ctx sub (← array sub) []
  | .symbol "\x7b" => map sub
  | .endOfInput => failExpected "expression"
  | lexeme =>
    if lexeme.isLiteral then
      advance 1 false
      links ctx sub (← node (.constant (constantOf lexeme)) start) []
    else fail (.unexpectedToken lexeme.text)

/-- An operand; extensions are asked first. -/
def operand (ctx : ParseContext) (sub : Subparser) : Parse Expr :=
  ctx.deeper do
    match ← ctx.build? sub .expression with
    | some e => return e
    | none => plainOperand ctx sub

end ScriptFront.Parse
