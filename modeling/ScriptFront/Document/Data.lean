import ScriptFront.Document.Basic
import ScriptFront.Number.Style

/-!
# Documents as structured data

The interchange form of a document: records and tables are objects, constructors with arguments are
objects with the constructor as their only key, and optional values are the value or null. Infinite
and undefined numbers have no form there and are null. The layout indents by two blanks and puts
every element on a line of its own.
-/

namespace ScriptFront

/-- Structured data: what an interchange text can say. -/
inductive Data where
  | null
  | bool (b : Bool)
  | integer (i : Int)
  /-- A finite number of a script. -/
  | number (n : Number)
  | text (s : String)
  | list (items : List Data)
  | object (entries : List (String × Data))

mutual

/-- The structured form of a document. -/
def Document.data : Document → Data
  | .natural n => .integer n
  | .integer i => .integer i
  | .number n =>
    match n with
    | .finite _ _ _ => .number n
    | _ => .null
  | .text s => .text s
  | .bool b => .bool b
  | .absent => .null
  | .present value => value.data
  | .list items => .list (dataList items)
  | .tuple items => .list (dataList items)
  | .table entries => .object (dataFields entries)
  | .record _ fields => .object (dataFields fields)
  | .unit constructor => .text constructor
  | .wrap constructor value => .object [(constructor, value.data)]
  | .variant constructor fields => .object [(constructor, .object (dataFields fields))]

def Document.dataList : List Document → List Data
  | [] => []
  | d :: rest => d.data :: dataList rest

/-- The structured forms of the fields that are shown in every rendering. -/
def Document.dataFields : List DocumentField → List (String × Data)
  | [] => []
  | .shown name value :: rest => (name, value.data) :: dataFields rest
  | .outlined _ _ :: rest => dataFields rest

end

namespace Data

def hexDigit (n : Nat) : Char := "0123456789abcdef".toList.getD n '0'

/-- How a character is written in a text of an interchange form. -/
def escapeChar (c : Char) : List Char :=
  match c with
  | '"' => ['\\', '"']
  | '\\' => ['\\', '\\']
  | '\x08' => ['\\', 'b']
  | '\x0c' => ['\\', 'f']
  | '\n' => ['\\', 'n']
  | '\r' => ['\\', 'r']
  | '\t' => ['\\', 't']
  | c =>
    if c.toNat < 0x20 then
      ['\\', 'u', '0', '0', hexDigit (c.toNat / 16), hexDigit (c.toNat % 16)]
    else [c]

def quote (s : String) : String := "\"" ++ String.ofList (s.toList.flatMap escapeChar) ++ "\""

def lineStart (depth : Nat) : String := "\n" ++ String.ofList (List.replicate (2 * depth) ' ')

mutual

/-- The layout of structured data whose first line is indented already. -/
def layout (depth : Nat) : Data → String
  | .null => "null"
  | .bool b => if b then "true" else "false"
  | .integer i => toString i
  | .number n => n.render .data
  | .text s => quote s
  | .list [] => "[]"
  | .list (d :: rest) =>
    "[" ++ lineStart (depth + 1) ++ layout (depth + 1) d ++ layoutItems (depth + 1) rest ++
      lineStart depth ++ "]"
  | .object [] => "\x7b\x7d"
  | .object ((name, value) :: rest) =>
    "\x7b" ++ lineStart (depth + 1) ++ quote name ++ ": " ++ layout (depth + 1) value ++
      layoutEntries (depth + 1) rest ++ lineStart depth ++ "\x7d"

def layoutItems (depth : Nat) : List Data → String
  | [] => ""
  | d :: rest => "," ++ lineStart depth ++ layout depth d ++ layoutItems depth rest

def layoutEntries (depth : Nat) : List (String × Data) → String
  | [] => ""
  | (name, value) :: rest =>
    "," ++ lineStart depth ++ quote name ++ ": " ++ layout depth value ++ layoutEntries depth rest

end

/-- The interchange text. -/
def render (d : Data) : String := d.layout 0

end Data

end ScriptFront
