import ScriptFront.Document.Basic
import ScriptFront.Program
import ScriptFront.Token.Basic

/-!
# Descriptions of scripts

The documents of values, tokens, syntax trees and symbol tables. The names of types, constructors
and fields given here are part of what users see.

Each type has its own function, and those for syntax trees follow the recursion of the trees. A
field that only the outline shows is marked as such here, so that the two renderings need not know
any type of a script.
-/

namespace ScriptFront

open Document

def Position.describe (p : Position) : Document :=
  .record "Span" [.shown "line" (.natural p.line), .shown "column" (.natural p.column)]

mutual

def Value.describe : Value → Document
  | .null => .unit "Null"
  | .bool b => .wrap "Bool" (.bool b)
  | .number n => .wrap "Number" (.number n)
  | .str s => .wrap "Str" (.text s)
  | .time seconds => .wrap "Time" (.natural seconds)
  | .date year month day =>
    .variant "Date"
      [.shown "year" (ofOption .integer year), .shown "month" (.natural month),
        .shown "day" (.natural day)]
  | .list items => .wrap "List" (.list (Value.describeAll items))

def Value.describeAll : List Value → List Document
  | [] => []
  | v :: rest => v.describe :: Value.describeAll rest

end

/-! ## Tokens -/

mutual

/-- The description of what a lexeme means beyond its spelling. -/
def Lexeme.describeValue : Lexeme → Document
  | .number _ value => .wrap "Number" (.number value)
  | .str _ value => .wrap "Str" (.text value)
  | .bool value => .wrap "Bool" (.bool value)
  | .interpolated _ parts => .wrap "Parts" (.list (Section.describeAll parts))
  | _ => .unit "None"

def Section.describeAll : List Section → List Document
  | [] => []
  | .text value :: rest => .wrap "Text" (.text value) :: Section.describeAll rest
  | .tokens tokens :: rest =>
    .wrap "Tokens" (.list (Token.describeAll tokens)) :: Section.describeAll rest

def Token.describeAll : List Token → List Document
  | [] => []
  | .mk lexeme position offset index :: rest =>
    .record "TokenData"
      [.shown "token"
          (.record "Token"
            [.shown "kind" (.unit lexeme.kind.name), .shown "text" (.text lexeme.text),
              .shown "value" lexeme.describeValue]),
        .shown "span" position.describe, .shown "offset" (.natural offset),
        .shown "index" (.natural index)] :: Token.describeAll rest

end

def Lexeme.describe (l : Lexeme) : Document :=
  .record "Token"
    [.shown "kind" (.unit l.kind.name), .shown "text" (.text l.text),
      .shown "value" l.describeValue]

def Token.describe (t : Token) : Document :=
  .record "TokenData"
    [.shown "token" t.lexeme.describe, .shown "span" t.position.describe,
      .shown "offset" (.natural t.offset), .shown "index" (.natural t.index)]

/-! ## Operators -/

def MathOp.name : MathOp → String
  | .add => "Add"
  | .sub => "Sub"
  | .mul => "Mul"
  | .div => "Div"
  | .mod => "Mod"

def CompareOp.name : CompareOp → String
  | .eq => "Eq"
  | .notEq => "NotEq"
  | .less => "Less"
  | .lessEq => "LessEq"
  | .greater => "Greater"
  | .greaterEq => "GreaterEq"

def LogicalOp.name : LogicalOp → String
  | .and => "And"
  | .or => "Or"

/-- The name of an operator with one operand. -/
def UnaryOp.name : UnaryOp → String
  | .negate => "Negate"
  | .not => "Not"
  | .preIncrement => "PreIncrement"
  | .preDecrement => "PreDecrement"
  | .postIncrement => "PostIncrement"
  | .postDecrement => "PostDecrement"

/-- The operator with one operand of a given name. -/
def UnaryOp.ofName? (name : String) : Option UnaryOp :=
  [.negate, .not, .preIncrement, .preDecrement, .postIncrement, .postDecrement].find?
    fun op ↦ op.name == name

def AssignOp.name : AssignOp → String
  | .assign => "Assign"
  | .add => "Add"
  | .sub => "Sub"
  | .mul => "Mul"
  | .div => "Div"
  | .mod => "Mod"

def Operator.describe : Operator → Document
  | .math op => .wrap "Math" (.unit op.name)
  | .compare op => .wrap "Compare" (.unit op.name)
  | .logical op => .wrap "Logical" (.unit op.name)

/-! ## Syntax trees -/

def Signature.describe (m : Signature) : Document :=
  .record "FunctionMeta"
    [.shown "name" (.text m.name), .shown "params" (ofList .text m.params),
      .shown "aliases" (ofList .text m.aliases), .shown "has_wildcard" (.bool m.hasWildcard)]

mutual

def Expr.describe : Expr → Document
  | .mk form position scope =>
    .record "Expr"
      [.shown "kind" form.describe, .shown "span" position.describe,
        .shown "scope" (.natural scope)]

def Form.describe : Form → Document
  | .constant value => .wrap "Constant" value.describe
  | .var name => .wrap "Variable" (.text name)
  | .unary op operand =>
    .variant "Unary" [.shown "op" (.unit op.name), .shown "operand" operand.describe]
  | .binary op left right =>
    .variant "Binary"
      [.shown "op" (.unit op.name), .shown "left" left.describe, .shown "right" right.describe]
  | .compare op left right =>
    .variant "Compare"
      [.shown "op" (.unit op.name), .shown "left" left.describe, .shown "right" right.describe]
  | .condition op left right =>
    .variant "Condition"
      [.shown "op" (.unit op.name), .shown "left" left.describe, .shown "right" right.describe]
  | .assign target op value declares =>
    .variant "Assign"
      [.shown "target" target.describe, .shown "op" (.unit op.name),
        .shown "value" (Expr.describeOption value), .shown "declare" (.bool declares)]
  | .multiAssign entries => .wrap "MultiAssign" (.list (Expr.describeAll entries))
  | .index target key =>
    .variant "Index" [.shown "target" target.describe, .shown "index" key.describe]
  | .member target name =>
    .variant "Member" [.shown "target" target.describe, .shown "name" (.text name)]
  | .call callee args =>
    .variant "Call"
      [.shown "callee" callee.describe, .shown "args" (.list (Expr.describeAll args))]
  | .array items => .wrap "Array" (.list (Expr.describeAll items))
  | .map entries => .wrap "Map" (.list (MapEntry.describeAll entries))
  | .block statements => .wrap "Block" (.list (Expr.describeAll statements))
  | .conditional condition thenBranch elseBranch =>
    .variant "If"
      [.shown "condition" condition.describe, .shown "then" thenBranch.describe,
        .shown "otherwise" (Expr.describeOption elseBranch)]
  | .whileLoop condition body =>
    .variant "While" [.shown "condition" condition.describe, .shown "body" body.describe]
  | .forLoop initial condition increment body =>
    .variant "For"
      [.shown "init" initial.describe, .shown "condition" condition.describe,
        .shown "step" increment.describe, .shown "body" body.describe]
  | .forEach name source body =>
    .variant "ForEach"
      [.shown "variable" (.text name), .shown "source" source.describe,
        .shown "body" body.describe]
  | .tryCatch body errorName handler =>
    .variant "TryCatch"
      [.shown "body" body.describe, .shown "error_name" (.text errorName),
        .shown "handler" handler.describe]
  | .functionDecl decl => .wrap "FunctionDeclare" decl.describe
  | .lambda decl => .wrap "Lambda" decl.describe
  | .returning value => .wrap "Return" (Expr.describeOption value)
  | .breakLoop => .unit "Break"
  | .continueLoop => .unit "Continue"
  | .throwing value => .wrap "Throw" value.describe
  | .interpolated pieces => .wrap "Interpolated" (.list (Expr.describeAll pieces))
  | .bindingCall binding args =>
    .variant "BindingCall"
      [.shown "binding" (.text binding), .shown "args" (.list (Expr.describeAll args))]

/-- The description of what a call invokes. -/
def Callee.describe : Callee → Document
  | .named name => .wrap "Named" (.text name)
  | .computed target => .wrap "Expr" target.describe

def FunctionDecl.describe : FunctionDecl → Document
  | .mk signature body scope position =>
    .record "FunctionDecl"
      [.shown "meta" signature.describe, .shown "body" (.list (Expr.describeAll body)),
        .shown "scope" (.natural scope), .shown "span" position.describe]

def Expr.describeOption : Option Expr → Document
  | none => .absent
  | some e => .present e.describe

def Expr.describeAll : List Expr → List Document
  | [] => []
  | e :: rest => e.describe :: Expr.describeAll rest

def MapEntry.describeAll : List MapEntry → List Document
  | [] => []
  | .mk key value :: rest => .tuple [.text key, value.describe] :: MapEntry.describeAll rest

end

/-! ## Symbol tables -/

/-- The name of what a scope belongs to. -/
def ScopeKind.name : ScopeKind → String
  | .global => "Global"
  | .function => "Function"
  | .block => "Block"

/-- The kind of scope of a given name. -/
def ScopeKind.ofName? (name : String) : Option ScopeKind :=
  [.global, .function, .block].find? fun kind ↦ kind.name == name

def SymbolKind.describe : SymbolKind → Document
  | .var => .unit "Variable"
  | .function signature decl =>
    .variant "Function"
      [.shown "meta" signature.describe, .outlined "decl" (ofOption FunctionDecl.describe decl)]
  | .hostModule => .unit "Module"
  | .alias target => .variant "Alias" [.shown "target" (.text target)]

def Symbol.describe (s : Symbol) : Document :=
  .record "Symbol"
    [.shown "name" (.text s.name), .shown "kind" s.kind.describe, .shown "scope" (.natural s.scope)]

def Scope.describe (s : Scope) : Document :=
  .record "Scope"
    [.shown "kind" (.unit s.kind.name), .shown "parent" (ofOption .natural s.parent),
      .shown "symbols" (.table (s.symbols.map fun (name, symbol) ↦ .shown name symbol.describe))]

def SymbolTable.describe (t : SymbolTable) : Document :=
  .record "SymbolTable"
    [.shown "scopes" (ofList Scope.describe t.scopes.toList), .shown "current" (.natural t.current)]

def Program.describe (p : Program) : Document :=
  .record "Program"
    [.shown "statements" (.list (Expr.describeAll p.statements)),
      .shown "symbols" p.symbols.describe]

end ScriptFront
