import ScriptFront.Text.Letter
import ScriptFront.Tree.Basic

/-!
# Syntax trees as script text

The canonical text of a tree. Every infix operation stands in parentheses, so the text shows how
the operands are grouped; blocks are indented by tabs, one statement a line.

A link such as a member access binds its target tighter than a prefix operator does. A target that
could not take the link when read back is therefore put in parentheses.

## Reading back

Most texts are read back to the tree they were made from, up to positions and to the parentheses
that group an operation. The writer looks at one node at a time, and where the text of a node runs
into the next one, it can be read differently: a minus sign writes itself in front of an operand
that begins with a minus sign, and a map that is a statement begins like a block.
-/

namespace ScriptFront

namespace Format

/-- The indentation at a depth. -/
def tabs (depth : Nat) : String := String.ofList (List.replicate depth '\t')

def commaSeparated (texts : List String) : String := ", ".intercalate texts

/-- A key of a map: bare if it consists of word characters, else a string literal. -/
def key (k : String) : String :=
  if !k.isEmpty && k.toList.all Text.isNameChar then k else Text.quote k

/-- Whether a target needs parentheses before a link: its own text would bind weaker than the link,
or could not be followed by one. -/
def needsParens (form : Form) : Bool :=
  match form with
  | .unary _ _ | .lambda _ | .map _ | .interpolated _ => true
  | .constant (.number n) => n.isNegative
  | _ => false

/-- The head of a function, with its name and aliases if it has them. -/
def functionHead (signature : Signature) (named : Bool) : String :=
  let names :=
    if named then
      " " ++ signature.name ++ (if signature.hasWildcard then "*" else "") ++
        String.join (signature.aliases.map (", " ++ ·))
    else ""
  let params :=
    if !named || !signature.params.isEmpty then "(" ++ commaSeparated signature.params ++ ")"
    else ""
  "function" ++ names ++ params ++ " "

/-- An infix operation in parentheses. -/
def operation (left : String) (op : Operator) (right : String) : String :=
  "(" ++ left ++ " " ++ op.symbol ++ " " ++ right ++ ")"

/-- Statement lines between braces, or an empty pair. -/
def braces (depth : Nat) (lines : String) : String :=
  if lines.isEmpty then "\x7b\x7d" else "\x7b\n" ++ lines ++ tabs depth ++ "\x7d"

end Format

open Format

mutual

/-- The text of a node whose first line is indented already. -/
def Expr.textAt (depth : Nat) : Expr → String
  | .mk form _ _ => form.textAt depth

/-- The text of a form. -/
def Form.textAt (depth : Nat) : Form → String
  | .constant value => value.text
  | .var name => name
  | .unary op operand => op.marks.1 ++ operand.textAt depth ++ op.marks.2
  | .binary op left right => operation (left.textAt depth) (.math op) (right.textAt depth)
  | .compare op left right => operation (left.textAt depth) (.compare op) (right.textAt depth)
  | .condition op left right => operation (left.textAt depth) (.logical op) (right.textAt depth)
  | .assign target op value declares =>
    (if declares then "var " else "") ++ target.textAt depth ++
      optionText depth (" " ++ op.symbol ++ " ") value
  | .multiAssign entries => "var " ++ commaSeparated (entryTexts depth entries)
  | .index target key => targetText depth target ++ "[" ++ key.textAt depth ++ "]"
  | .member target name => targetText depth target ++ "." ++ name
  | .call callee args => callee.textAt depth ++ "(" ++ commaSeparated (exprTexts depth args) ++ ")"
  | .bindingCall binding args => binding ++ "(" ++ commaSeparated (exprTexts depth args) ++ ")"
  | .array items => "[" ++ commaSeparated (exprTexts depth items) ++ "]"
  | .map entries => "\x7b" ++ commaSeparated (mapEntryTexts depth entries) ++ "\x7d"
  | .block statements => braces depth (statementTexts (depth + 1) statements)
  | .conditional condition thenBranch elseBranch =>
    "if " ++ condition.textAt depth ++ " " ++ thenBranch.textAt depth ++
      optionText depth " else " elseBranch
  | .whileLoop condition body => "while " ++ condition.textAt depth ++ " " ++ body.textAt depth
  | .forLoop initial condition increment body =>
    "for (" ++ initial.textAt depth ++ "; " ++ condition.textAt depth ++ "; " ++
      increment.textAt depth ++ ") " ++ body.textAt depth
  | .forEach name source body =>
    "for (" ++ name ++ " in " ++ source.textAt depth ++ ") " ++ body.textAt depth
  | .tryCatch body errorName handler =>
    "try " ++ body.textAt depth ++ " catch (" ++ errorName ++ ") " ++ handler.textAt depth
  | .functionDecl decl => decl.textAt depth true
  | .lambda decl => decl.textAt depth false
  | .returning value => "return" ++ optionText depth " " value
  | .breakLoop => "break"
  | .continueLoop => "continue"
  | .throwing value => "throw " ++ value.textAt depth
  | .interpolated pieces => "\"" ++ pieceTexts depth pieces ++ "\""

/-- The text of what a call invokes. -/
def Callee.textAt (depth : Nat) : Callee → String
  | .named name => name
  | .computed target => targetText depth target

def FunctionDecl.textAt (depth : Nat) (named : Bool) : FunctionDecl → String
  | .mk signature body _ _ =>
    functionHead signature named ++ braces depth (statementTexts (depth + 1) body)

/-- The target of a link, in parentheses if it needs them. -/
def targetText (depth : Nat) : Expr → String
  | .mk form _ _ =>
    if needsParens form then "(" ++ form.textAt depth ++ ")" else form.textAt depth

/-- A node that may be missing, with a lead-in. -/
def optionText (depth : Nat) (leadIn : String) : Option Expr → String
  | none => ""
  | some e => leadIn ++ e.textAt depth

def exprTexts (depth : Nat) : List Expr → List String
  | [] => []
  | e :: rest => e.textAt depth :: exprTexts depth rest

/-- The texts of several declarations without their lead-in. -/
def entryTexts (depth : Nat) : List Expr → List String
  | [] => []
  | .mk (.assign target op value _) _ _ :: rest =>
    (target.textAt depth ++ optionText depth (" " ++ op.symbol ++ " ") value) ::
      entryTexts depth rest
  | e :: rest => e.textAt depth :: entryTexts depth rest

/-- The texts of the entries of a map. -/
def mapEntryTexts (depth : Nat) : List MapEntry → List String
  | [] => []
  | .mk k value :: rest => (key k ++ ": " ++ value.textAt depth) :: mapEntryTexts depth rest

/-- The content of a string with embedded expressions. -/
def pieceTexts (depth : Nat) : List Expr → String
  | [] => ""
  | .mk (.constant (.str s)) _ _ :: rest => Text.escape s ++ pieceTexts depth rest
  | e :: rest => "#\x7b" ++ e.textAt depth ++ "\x7d" ++ pieceTexts depth rest

/-- Statements, each on an indented line. -/
def statementTexts (depth : Nat) : List Expr → String
  | [] => ""
  | e :: rest => tabs depth ++ e.textAt depth ++ "\n" ++ statementTexts depth rest

end

/-- The text of a node. -/
def Expr.text (e : Expr) : String := e.textAt 0

/-- The text of a script: one statement a line. -/
def scriptText (statements : List Expr) : String := statementTexts 0 statements

end ScriptFront
