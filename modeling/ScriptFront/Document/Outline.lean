import ScriptFront.Document.Basic
import ScriptFront.Number.Style
import ScriptFront.Text.Visible

/-!
# Documents as outlines

The outline of a document spells out types, constructors and optional values, so that a reader sees
the value as it is built. The layout indents by four blanks, puts every element on a line of its
own, and ends each with a comma.
-/

namespace ScriptFront.Document

def hexDigits (n : Nat) : List Char := Nat.toDigits 16 n

/-- How a character is written: by a short mark, by its number if it `hides`, or as it is. -/
def writtenChar (hides : Char → Bool) (c : Char) : List Char :=
  match c with
  | '"' => ['\\', '"']
  | '\\' => ['\\', '\\']
  | '\n' => ['\\', 'n']
  | '\r' => ['\\', 'r']
  | '\t' => ['\\', 't']
  | '\x00' => ['\\', '0']
  | c => if hides c then ['\\', 'u', '\x7b'] ++ hexDigits c.toNat ++ ['\x7d'] else [c]

/-- Whether a character is not seen on its own. -/
def isHidden (c : Char) : Bool := Text.isInvisible c || Text.isAttached c

/-- A text between its quotes, character by character. -/
def outlineText (s : String) : String :=
  "\"" ++ String.ofList (s.toList.flatMap (writtenChar isHidden)) ++ "\""

/-- How a character is written in a text without quotes around it: both kinds of quotes are
marked. -/
def plainChar (hides : Char → Bool) (c : Char) : List Char :=
  if c = '\'' then ['\\', '\''] else writtenChar hides c

/-- A text on a line of its own, without quotes around it. A character that attaches to the one
before it is left as it is unless it comes first. -/
def plainText (s : String) : String :=
  match s.toList with
  | [] => ""
  | first :: rest =>
    String.ofList (plainChar isHidden first ++ rest.flatMap (plainChar Text.isInvisible))

/-- The start of a line at a depth. -/
def outlineStart (depth : Nat) : String := "\n" ++ String.ofList (List.replicate (4 * depth) ' ')

mutual

/-- The layout of a document whose first line is indented already. -/
def outlineAt (depth : Nat) : Document → String
  | .natural n => toString n
  | .integer i => toString i
  | .number n => n.render .outline
  | .text s => outlineText s
  | .bool b => if b then "true" else "false"
  | .absent => "None"
  | .present value =>
    "Some(" ++ outlineStart (depth + 1) ++ outlineAt (depth + 1) value ++ "," ++
      outlineStart depth ++ ")"
  | .list [] => "[]"
  | .list items => "[" ++ outlineItems (depth + 1) items ++ outlineStart depth ++ "]"
  | .tuple items => "(" ++ outlineItems (depth + 1) items ++ outlineStart depth ++ ")"
  | .table [] => "\x7b\x7d"
  | .table entries =>
    "\x7b" ++ outlineEntries (depth + 1) entries ++ outlineStart depth ++ "\x7d"
  | .record type fields =>
    type ++ " \x7b" ++ outlineFields (depth + 1) fields ++ outlineStart depth ++ "\x7d"
  | .unit constructor => constructor
  | .wrap constructor value =>
    constructor ++ "(" ++ outlineStart (depth + 1) ++ outlineAt (depth + 1) value ++ "," ++
      outlineStart depth ++ ")"
  | .variant constructor fields =>
    constructor ++ " \x7b" ++ outlineFields (depth + 1) fields ++ outlineStart depth ++ "\x7d"

def outlineItems (depth : Nat) : List Document → String
  | [] => ""
  | d :: rest => outlineStart depth ++ outlineAt depth d ++ "," ++ outlineItems depth rest

def outlineFields (depth : Nat) : List DocumentField → String
  | [] => ""
  | .shown name value :: rest | .outlined name value :: rest =>
    outlineStart depth ++ name ++ ": " ++ outlineAt depth value ++ "," ++ outlineFields depth rest

/-- The entries, each on its line, with their keys as texts. -/
def outlineEntries (depth : Nat) : List DocumentField → String
  | [] => ""
  | .shown name value :: rest | .outlined name value :: rest =>
    outlineStart depth ++ outlineText name ++ ": " ++ outlineAt depth value ++ "," ++
      outlineEntries depth rest

end

/-- The outline of a document. -/
def outline (d : Document) : String := d.outlineAt 0

end ScriptFront.Document
