import ScriptFront.Parse.Expression
import ScriptFront.Parse.Statement

/-!
# The parser

The productions tied together. `Parse.run` answers every goal by recursion over two naturals. A
production asks for its parts with one less of the second, the `fuel`. Every way from a goal back to
itself opens a block, an operand or an extension, so a natural that exceeds the bounds on those is
never used up; `depth` is such a natural for the tokens of a script. A section embedded in a string
has tokens of its own, and is parsed with one less of the first natural, the `levels`, and with fuel
for those tokens. It is part of an operand, so the bound on operands bounds the levels too.
-/

namespace ScriptFront.Parse

/-- What extensions add to the depth of goals. They may parse further statements without opening a
block, but only so many tokens are left to move over, and at each of them only so many extensions
can have their turn. -/
def allowance (ctx : ParseContext) (tokensLeft : Nat) : Nat :=
  4 * ctx.registry.entries.length * tokensLeft

/-- How deep goals can be nested: a constant times the bounds on operands and blocks, and what
extensions add. -/
def depth (ctx : ParseContext) (tokensLeft : Nat) : Nat :=
  4 * (ctx.limits.maxExpressionDepth + ctx.limits.maxStatementDepth + 2) +
    allowance ctx tokensLeft

/-- How deep embedded sections can be nested. -/
def sectionLevels (ctx : ParseContext) : Nat := ctx.limits.maxExpressionDepth + 1

/-- Parse the tokens of an embedded section as one expression, with `sub` chosen for their
number. -/
def embeddedWith (sub : (tokensLeft : Nat) → Subparser) (list : List Token) : Parse Expr :=
  aside list do
    let e ← sub (← tokens).tokensLeft (.expression false)
    if !(← isEnded) then failExpected "\x7d"
    return e

/-- The parser for goals nested at most `fuel` deep. Embedded sections are left to `inner`, which is
told the fuel that remains. -/
def runWith (ctx : ParseContext) (inner : (fuel : Nat) → List Token → Parse Expr) :
    (fuel : Nat) → Subparser
  | 0, _ => failFuel
  | fuel + 1, .embedded list => inner fuel list
  | fuel + 1, .statement => statement ctx (runWith ctx inner fuel)
  | fuel + 1, .conditional => conditional ctx (runWith ctx inner fuel)
  | fuel + 1, .expression grouped => expression ctx (runWith ctx inner fuel) grouped
  | fuel + 1, .operand => operand ctx (runWith ctx inner fuel)

/-- The parser, for embedded sections nested at most `levels` deep and goals nested at most `fuel`
deep. -/
def run (ctx : ParseContext) : (levels fuel : Nat) → Subparser
  | 0 => runWith ctx fun _ _ ↦ failFuel
  | levels + 1 => runWith ctx fun fuel ↦
      embeddedWith fun tokensLeft ↦ run ctx levels (fuel + allowance ctx tokensLeft)

/-- Statements up to the end of the tokens, after those in `done`, which come last one first; `fuel`
bounds their number. -/
def programWithin (sub : Subparser) : (fuel : Nat) → List Expr → Parse (List Expr)
  | 0, _ => failFuel
  | fuel + 1, done => do
    let before ← place
    match ← sub .statement with
    | none => return done.reverse
    | some statement =>
      requireProgress before
      programWithin sub fuel (statement :: done)

/-- All statements up to the end of the tokens. -/
def program (ctx : ParseContext) : Parse (List Expr) := do
  let left := (← tokens).tokensLeft
  programWithin (run ctx (sectionLevels ctx) (depth ctx left)) (← rounds) []

/-- Parse the tokens of a window, starting with names that are defined already. -/
def parseProgram (ctx : ParseContext) (tokens : Window Lexer) (symbols : SymbolTable) :
    Except ScriptError Program :=
  match program ctx (.initial tokens symbols) with
  | .ok statements s => .ok ⟨statements, s.symbols⟩
  | .error e _ => .error e

end ScriptFront.Parse
