import ScriptFront.Parse.Basic
import ScriptFront.Pattern.Basic

/-!
# Extensions of the grammar

A host may teach the parser new forms. An extension names the tokens it may start at and either a
pattern of tokens or nothing more than those; the parser asks extensions before its own forms. An
extension for expressions or statements then builds the node, with the live parser at its disposal;
an extension for replacements gives a lexeme that takes the place of the tokens it matched.

## What an extension may do

The two halves of an extension have different powers. Whether it claims the tokens ahead is decided
from values: the token in front, the table of names and the pattern. Nothing that is decided there
moves the parser or defines a name. Its builder, on the other hand, is a computation of the parser
like any production, and may move, define names, open scopes and ask for expressions and
statements. What a match has recorded is handed to it as `Captures`.
-/

namespace ScriptFront

/-- Where an extension takes part. -/
inductive ExtensionKind where
  /-- It builds operands. -/
  | expression
  /-- It builds statements. -/
  | statement
  /-- It puts other tokens in place before the parser looks at them. -/
  | replacement
deriving DecidableEq, Repr

/-- A token that an extension may start at. -/
inductive Trigger where
  /-- The token with this spelling. -/
  | text (spelling : String)
  | ident
  | number
  | str
  /-- Any token but line breaks and the end. -/
  | any
deriving DecidableEq, Repr

/-- Whether an extension may start at a token. -/
def Trigger.accepts (s : Trigger) (t : Token) : Bool :=
  match s with
  | .text spelling => t.is spelling
  | .ident => t.kind == .ident
  | .number => t.kind == .number
  | .str => t.kind == .str
  | .any => t.kind != .newLine && t.kind != .endOfInput

/-- What a match has recorded, by name. -/
structure Captures where
  /-- The names with their values, in the order in which they were first recorded. -/
  entries : List (String × Value)

namespace Captures

def empty : Captures := ⟨[]⟩

instance : Inhabited Captures := ⟨empty⟩

def get? (c : Captures) (name : String) : Option Value := c.entries.lookup name

/-- Put a value under a name in a list of entries; an entry of that name gets the new value. -/
def insertEntry (name : String) (value : Value) : List (String × Value) → List (String × Value)
  | [] => [(name, value)]
  | (other, v) :: rest =>
    if other = name then (name, value) :: rest else (other, v) :: insertEntry name value rest

/-- Record a value; a later one under the same name wins. -/
def insert (c : Captures) (name : String) (value : Value) : Captures :=
  ⟨insertEntry name value c.entries⟩

/-- The name under which the value of a capture is recorded, beside its text. -/
def valueName (name : String) : String := name ++ "Value"

def text? (c : Captures) (name : String) : Option String := (c.get? name).bind Value.string?

def value? (c : Captures) (name : String) : Option Value := c.get? (valueName name)

/-- The entries in order of their names. -/
def sorted (c : Captures) : List (String × Value) :=
  c.entries.mergeSort fun a b ↦ !(b.1 < a.1)

end Captures

/-- Tokens that an extension has claimed. -/
structure Match where
  /-- How many significant tokens the match covers. -/
  count : Nat
  captures : Captures
  /-- The number of the extension in its registry. -/
  extension : Nat

/-- An extension of the grammar. -/
structure Extension where
  /-- The name it is listed under. -/
  name : String
  /-- Where it takes part. -/
  kind : ExtensionKind
  /-- The tokens it may start at. -/
  starts : List Trigger
  /-- The pattern of tokens it claims; without one it claims every start token, and its builder
  moves over the tokens itself. -/
  pattern : Option String
  /-- After how many required elements a token that closes an expression may end the pattern. If
  not given, after all of them. -/
  minRequired : Option Nat
  /-- A last say over a start token. -/
  canStart : Token → SymbolTable → Bool
  firstMap : String → Option Value
  secondMap : String → Option Value
  /-- The node for a match, whose tokens were passed already. -/
  build : Subparser → Match → Parse Expr
  /-- The lexeme that takes the place of the matched tokens, the first of which is given. -/
  replace : Match → Token → Option Lexeme

namespace Extension

/-- The builder of an extension that builds nothing. -/
def buildsNothing (name : String) : Subparser → Match → Parse Expr := fun _ _ ↦
  Parse.fail (.invalidStatement s!"plugin '{name}' does not build expressions")

/-- Whether a token names nothing that is defined. -/
def undefinedName (t : Token) (symbols : SymbolTable) : Bool := !symbols.contains t.text

/-- An extension that may start anywhere its start tokens allow, has no maps, and neither builds
nor replaces. -/
def inert (name : String) (kind : ExtensionKind) (starts : List Trigger)
    (pattern : Option String) : Extension :=
  { name, kind, starts, pattern
    minRequired := none
    canStart := fun _ _ ↦ true
    firstMap := fun _ ↦ none
    secondMap := fun _ ↦ none
    build := buildsNothing name
    replace := fun _ _ ↦ none }

end Extension

end ScriptFront
