import ScriptFront.Parse.Operand
import ScriptFront.Parse.Yard

/-!
# Expressions

Operands and infix operators in turn, with parentheses that group. Grouping is done on the stacks
of `Yard`; operands are asked of the subparser. The expression ends at the first token that cannot
go on with it, and a closing parenthesis that was not opened in it is left to whoever opened it.

Line breaks end an expression, except inside a group and after an operator.

The loop alternates between two states, wanting an operand and having one. In the first state the
current token is an open parenthesis, which opens a group on the stacks, or the operand is asked
for. In the second it closes a group, is an infix operator, or ends the expression. Groups are not
parsed by recursion, so parentheses around an expression cost no depth, although they are counted.
-/

namespace ScriptFront.Parse

/-- The result of an operation on the stacks, which cannot fail on stacks built by this module. -/
def settled {α : Type} : Option α → Parse α
  | some a => return a
  | none => failExpected "expression"

/-- Close the innermost group: its parenthesis is passed, and the group with its links is an
operand of what is around it. -/
def closeGroup (ctx : ParseContext) (sub : Subparser) (yard : Yard) : Parse Yard := do
  ParseContext.leaveParen
  advance 1 false
  let (group, yard) ← settled yard.closeParen
  let e ← ctx.deeper (links ctx sub group [])
  return yard.pushOperand e

/-- The rest of an expression, with `groups` groups open; `wanting` says that an operand must come
next. `fuel` bounds the number of operands, operators and parentheses. -/
def expressionWithin (ctx : ParseContext) (sub : Subparser) (grouped : Bool) :
    (fuel groups : Nat) → (wanting : Bool) → Yard → Parse Expr
  | 0, _, _, _ => failFuel
  | fuel + 1, groups, wanting, yard => do
    if grouped || 0 < groups then skipNewLines
    ctx.replaceTokens
    let t ← current
    if wanting then
      if t.isSymbol "(" then
        ctx.enterParen
        advance 1 true
        expressionWithin ctx sub grouped fuel (groups + 1) true yard.openParen
      else
        let e ← sub .operand
        expressionWithin ctx sub grouped fuel groups false (yard.pushOperand e)
    else if t.isSymbol ")" && 0 < groups then
      let yard ← closeGroup ctx sub yard
      expressionWithin ctx sub grouped fuel (groups - 1) false yard
    else
      match if t.kind = .symbol then Operator.ofSymbol? t.text else none with
      | some op =>
        let yard ← settled (yard.pushOperator op)
        advance 1 true
        expressionWithin ctx sub grouped fuel groups true yard
      | none =>
        if opensOperand t then fail (.missingOperator t.text)
        if 0 < groups then failExpected ")"
        settled yard.finish

/-- An expression. -/
def expression (ctx : ParseContext) (sub : Subparser) (grouped : Bool) : Parse Expr := do
  expressionWithin ctx sub grouped (← rounds) 0 true .empty

end ScriptFront.Parse
