import ScriptFront.Tree.Basic

/-!
# Ordering operators

An expression is read from left to right onto two stacks, one of operands and one of operators and
open parentheses. An operator waits until the one after it is known: as long as the waiting one
binds at least as tight, it takes the two uppermost operands and puts their combination back. This
makes tighter operators group first and equal ones to the left.

A closing parenthesis combines everything down to its opening one. The opening one remembers how
many operands lay below it, so that the group is known to have left exactly one.

All operations are partial, because stacks in general need not hold the operands that an operator
takes. On stacks made from the empty ones by an expression that alternates between operands and
operators they never fail.
-/

namespace ScriptFront

/-- An entry of the operator stack. -/
inductive Waiting where
  /-- An operator whose right operand is not complete. -/
  | operator (op : Operator)
  /-- An open parenthesis, and the number of operands below it. -/
  | paren (below : Nat)
deriving DecidableEq, Repr

/-- The two stacks, top first. -/
structure Yard where
  operands : List Expr
  waiting : List Waiting

namespace Yard

def empty : Yard := ⟨[], []⟩

def pushOperand (y : Yard) (e : Expr) : Yard := { y with operands := e :: y.operands }

def openParen (y : Yard) : Yard := { y with waiting := .paren y.operands.length :: y.waiting }

/-- Combine the two uppermost operands. -/
def combine (op : Operator) : List Expr → Option (List Expr)
  | right :: left :: rest => some (.operation op left right :: rest)
  | _ => none

/-- Apply the waiting operators from the top, down to the first that `waits` or to an open
parenthesis. -/
def settle (waits : Operator → Bool) : List Waiting → List Expr → Option Yard
  | .operator top :: waiting, operands =>
    if waits top then some ⟨operands, .operator top :: waiting⟩
    else match combine top operands with
      | none => none
      | some operands => settle waits waiting operands
  | waiting, operands => some ⟨operands, waiting⟩

/-- Put an operator on its stack, after all waiting ones that bind at least as tight. -/
def pushOperator (y : Yard) (op : Operator) : Option Yard :=
  (settle (fun top ↦ top.precedence < op.precedence) y.waiting y.operands).map fun y ↦
    { y with waiting := .operator op :: y.waiting }

/-- Close the innermost open parenthesis: its group, and the stacks without it. -/
def closeParen (y : Yard) : Option (Expr × Yard) :=
  match settle (fun _ ↦ false) y.waiting y.operands with
  | some ⟨group :: operands, .paren below :: waiting⟩ =>
    if operands.length = below then some (group, ⟨operands, waiting⟩) else none
  | _ => none

/-- Apply all waiting operators; exactly one operand must be left. -/
def finish (y : Yard) : Option Expr :=
  match settle (fun _ ↦ false) y.waiting y.operands with
  | some ⟨[e], []⟩ => some e
  | _ => none

end Yard

end ScriptFront
