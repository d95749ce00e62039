import ScriptFront.Position
import ScriptFront.Tree.Operator
import ScriptFront.Value

/-!
# Syntax trees

A script is a list of nodes. A node has a *form*, which says what it is and holds the nodes below
it, and a place: a position in the text and the number of the scope it belongs to. Statements are
nodes like expressions; which forms may stand where is a matter of the parser.

The constructors for single nodes place them at the start of the text in the global scope.
`Expr.moveTo` and `Expr.inScope` move them.

## Places

Form and place are separate because most statements about trees are about one of them. Two trees
that differ in places only mean the same, and the parser gives a node its place in one function,
whatever its form. A function declaration has a place besides: its position is that of its first
word, and its scope is the one that holds its parameters.
-/

namespace ScriptFront

/-- The number of a scope in its table. -/
abbrev ScopeId := Nat

/-- The scope that encloses all others. -/
def globalScope : ScopeId := 0

/-- The declared shape of a function. -/
structure Signature where
  /-- The name it is declared under; a lambda has none. -/
  name : String
  params : List String
  /-- Other names it can be called by. -/
  aliases : List String
  /-- Whether longer names that start with its name reach it too. -/
  hasWildcard : Bool
deriving DecidableEq, Repr, Inhabited

namespace Signature

/-- A function with nothing but a name. -/
def named (name : String) : Signature := ⟨name, [], [], false⟩

/-- Whether a call spelled `name` reaches this function. -/
def covers (m : Signature) (name : String) : Bool :=
  m.name == name || m.aliases.contains name ||
    (m.hasWildcard && m.name.toList.isPrefixOf name.toList)

end Signature

mutual

/-- A node of a syntax tree. -/
inductive Expr where
  /-- A form, the position of the node, and the scope it belongs to. -/
  | mk (form : Form) (position : Position) (scope : ScopeId)

/-- What a node is. -/
inductive Form where
  | constant (value : Value)
  | var (name : String)
  /-- An operator before or behind its operand. -/
  | unary (op : UnaryOp) (operand : Expr)
  /-- An arithmetic operation. -/
  | binary (op : MathOp) (left right : Expr)
  | compare (op : CompareOp) (left right : Expr)
  /-- A connective of conditions. -/
  | condition (op : LogicalOp) (left right : Expr)
  /-- An assignment; a declaration may leave out the value. -/
  | assign (target : Expr) (op : AssignOp) (value : Option Expr) (declares : Bool)
  | multiAssign (entries : List Expr)
  /-- An element of a collection. -/
  | index (target key : Expr)
  /-- A member of an object. -/
  | member (target : Expr) (name : String)
  | call (callee : Callee) (args : List Expr)
  | array (items : List Expr)
  /-- A list of items under keys. -/
  | map (entries : List MapEntry)
  /-- Statements in a scope of their own. -/
  | block (statements : List Expr)
  | conditional (condition thenBranch : Expr) (elseBranch : Option Expr)
  | whileLoop (condition body : Expr)
  /-- A loop with an initial statement, a condition and a step. -/
  | forLoop (initial condition increment body : Expr)
  /-- A loop over the items of a source. -/
  | forEach (name : String) (source body : Expr)
  /-- A block and the handler of what it throws. -/
  | tryCatch (body : Expr) (errorName : String) (handler : Expr)
  | functionDecl (decl : FunctionDecl)
  | lambda (decl : FunctionDecl)
  /-- The end of a call, with or without a result. -/
  | returning (value : Option Expr)
  /-- The end of a loop. -/
  | breakLoop
  /-- The next round of a loop. -/
  | continueLoop
  /-- The raising of a failure. -/
  | throwing (value : Expr)
  /-- A string with embedded expressions; literal text is a constant. -/
  | interpolated (pieces : List Expr)
  /-- A call into the host, made by an extension. -/
  | bindingCall (binding : String) (args : List Expr)

/-- What a call invokes. -/
inductive Callee where
  /-- A function or a member of a module, by its full name. -/
  | named (name : String)
  /-- What an expression denotes. -/
  | computed (target : Expr)

/-- An entry of a map. -/
inductive MapEntry where
  /-- A key and the node under it. -/
  | mk (key : String) (value : Expr)

/-- A function with its body. -/
inductive FunctionDecl where
  /-- The declared shape, the statements of the body, the scope of the parameters, and the
  position of the declaration. -/
  | mk (signature : Signature) (body : List Expr) (scope : ScopeId) (position : Position)

end

namespace FunctionDecl

def signature : FunctionDecl → Signature
  | .mk signature _ _ _ => signature

def body : FunctionDecl → List Expr
  | .mk _ body _ _ => body

def scope : FunctionDecl → ScopeId
  | .mk _ _ scope _ => scope

def position : FunctionDecl → Position
  | .mk _ _ _ position => position

end FunctionDecl

namespace MapEntry

def key : MapEntry → String
  | .mk key _ => key

def value : MapEntry → Expr
  | .mk _ value => value

end MapEntry

namespace Expr

def form : Expr → Form
  | .mk form _ _ => form

def position : Expr → Position
  | .mk _ position _ => position

def scope : Expr → ScopeId
  | .mk _ _ scope => scope

/-- A node at the start of the text in the global scope. -/
def ofForm (form : Form) : Expr := .mk form .start globalScope

instance : Inhabited Expr := ⟨.ofForm (.constant .null)⟩

def moveTo (e : Expr) (position : Position) : Expr := .mk e.form position e.scope

def inScope (e : Expr) (scope : ScopeId) : Expr := .mk e.form e.position scope

def constant (value : Value) : Expr := .ofForm (.constant value)

def string (s : String) : Expr := constant (.str s)

/-- The absent value. -/
def null : Expr := constant .null

/-- A reference by name. -/
def var (name : String) : Expr := .ofForm (.var name)

/-- An infix operation, at the place of its left operand. -/
def operation (op : Operator) (left right : Expr) : Expr :=
  let form := match op with
    | .math op => .binary op left right
    | .compare op => .compare op left right
    | .logical op => .condition op left right
  .mk form left.position left.scope

/-- A call by name. -/
def call (name : String) (args : List Expr) : Expr := .ofForm (.call (.named name) args)

/-- A call of what an expression denotes. -/
def callComputed (target : Expr) (args : List Expr) : Expr :=
  .ofForm (.call (.computed target) args)

/-- A call into the host. -/
def bindingCall (binding : String) (args : List Expr) : Expr := .ofForm (.bindingCall binding args)

def assign (target : Expr) (op : AssignOp) (value : Option Expr) (declares : Bool) : Expr :=
  .ofForm (.assign target op value declares)

/-- A function declaration, at its own position. -/
def function (decl : FunctionDecl) : Expr := (ofForm (.functionDecl decl)).moveTo decl.position

def lambda (decl : FunctionDecl) : Expr := (ofForm (.lambda decl)).moveTo decl.position

/-- Whether the node may stand left of an assignment. -/
def isAssignable (e : Expr) : Bool :=
  match e.form with
  | .var _ | .index _ _ | .member _ _ => true
  | _ => false

/-- The value, of a constant. -/
def constant? (e : Expr) : Option Value :=
  match e.form with
  | .constant value => some value
  | _ => none

/-- The name, of a reference by name. -/
def varName? (e : Expr) : Option String :=
  match e.form with
  | .var name => some name
  | _ => none

end Expr

end ScriptFront
