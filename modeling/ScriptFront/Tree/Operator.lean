/-!
# Operators

The infix operators fall into three families, of arithmetic, of comparison and of logic, because
each family has a node of its own in a syntax tree. Their spellings and binding strengths are the
whole of the precedence grammar: a higher strength binds tighter, and equal strengths group to the
left.
-/

namespace ScriptFront

/-- Arithmetic operators. -/
inductive MathOp where
  | add
  | sub
  | mul
  | div
  | mod
deriving DecidableEq, Repr

/-- Comparisons. -/
inductive CompareOp where
  | eq
  | notEq
  | less
  | lessEq
  | greater
  | greaterEq
deriving DecidableEq, Repr

/-- Logical connectives. -/
inductive LogicalOp where
  | and
  | or
deriving DecidableEq, Repr

/-- Infix operators. -/
inductive Operator where
  | math (op : MathOp)
  | compare (op : CompareOp)
  | logical (op : LogicalOp)
deriving DecidableEq, Repr

namespace Operator

def all : List Operator :=
  [.math .add, .math .sub, .math .mul, .math .div, .math .mod, .compare .eq, .compare .notEq,
    .compare .less, .compare .lessEq, .compare .greater, .compare .greaterEq, .logical .and,
    .logical .or]

/-- The spelling of an operator. -/
def symbol : Operator → String
  | .math .add => "+"
  | .math .sub => "-"
  | .math .mul => "*"
  | .math .div => "/"
  | .math .mod => "%"
  | .compare .eq => "=="
  | .compare .notEq => "!="
  | .compare .less => "<"
  | .compare .lessEq => "<="
  | .compare .greater => ">"
  | .compare .greaterEq => ">="
  | .logical .and => "&&"
  | .logical .or => "||"

def ofSymbol? (text : String) : Option Operator := all.find? fun op ↦ op.symbol == text

/-- The binding strength of an operator. -/
def precedence : Operator → Nat
  | .math .mul | .math .div | .math .mod => 5
  | .math .add | .math .sub => 4
  | .compare .less | .compare .lessEq | .compare .greater | .compare .greaterEq => 3
  | .compare .eq | .compare .notEq => 2
  | .logical .and => 1
  | .logical .or => 0

theorem mem_all (op : Operator) : op ∈ all := by
  rcases op with op | op | op <;> cases op <;> simp [all]

@[simp] theorem ofSymbol?_symbol (op : Operator) : ofSymbol? op.symbol = some op := by
  rcases op with op | op | op <;> cases op <;> decide

end Operator

/-- Operators with one operand. -/
inductive UnaryOp where
  /-- Arithmetic negation. -/
  | negate
  /-- Logical negation. -/
  | not
  /-- Add one, then read. -/
  | preIncrement
  /-- Subtract one, then read. -/
  | preDecrement
  /-- Read, then add one. -/
  | postIncrement
  /-- Read, then subtract one. -/
  | postDecrement
deriving DecidableEq, Repr

namespace UnaryOp

/-- What is written before and behind the operand. -/
def marks : UnaryOp → String × String
  | .negate => ("-", "")
  | .not => ("!", "")
  | .preIncrement => ("++", "")
  | .preDecrement => ("--", "")
  | .postIncrement => ("", "++")
  | .postDecrement => ("", "--")

end UnaryOp

/-- Assignment operators. -/
inductive AssignOp where
  | assign
  | add
  | sub
  | mul
  | div
  | mod
deriving DecidableEq, Repr

namespace AssignOp

def all : List AssignOp := [.assign, .add, .sub, .mul, .div, .mod]

/-- The spelling of an assignment operator. -/
def symbol : AssignOp → String
  | .assign => "="
  | .add => "+="
  | .sub => "-="
  | .mul => "*="
  | .div => "/="
  | .mod => "%="

def ofSymbol? (text : String) : Option AssignOp := all.find? fun op ↦ op.symbol == text

@[simp] theorem ofSymbol?_symbol (op : AssignOp) : ofSymbol? op.symbol = some op := by
  cases op <;> decide

end AssignOp

end ScriptFront
