import ScriptFront.Number.Style
import ScriptFront.Text.Escape

/-!
# Literal values

What a constant of a script stands for, and what an extension captures from it. Dates and times of
day have no literal of their own in the core language; extensions produce them.

Values are written as script text, but the writing is not always a literal: a date and a time of day
are written as a reader expects them.
-/

namespace ScriptFront

/-- A literal value. -/
inductive Value where
  | null
  | bool (b : Bool)
  | number (n : Number)
  | str (s : String)
  /-- A time of day, in seconds since midnight. -/
  | time (seconds : Nat)
  /-- A day of the calendar; the year may be left open. -/
  | date (year : Option Int) (month day : Nat)
  | list (items : List Value)
deriving Repr, Inhabited

namespace Value

/-- The text, of a text. -/
def string? : Value → Option String
  | .str s => some s
  | _ => none

/-- The number, of a number. -/
def number? : Value → Option Number
  | .number n => some n
  | _ => none

/-- A natural with zeros in front up to `width`. -/
def padded (width n : Nat) : String :=
  let digits := Nat.toDigits 10 n
  String.ofList (List.replicate (width - digits.length) '0' ++ digits)

/-- A year in four places, of which a minus sign takes one. -/
def yearText (year : Int) : String :=
  match year with
  | .ofNat n => padded 4 n
  | .negSucc n => "-" ++ padded 3 (n + 1)

mutual

/-- The value as script text. -/
def text : Value → String
  | .null => "null"
  | .bool b => if b then "true" else "false"
  | .number n => n.text
  | .str s => Text.quote s
  | .time seconds => padded 2 (seconds / 3600) ++ ":" ++ padded 2 (seconds % 3600 / 60)
  | .date (some year) month day => yearText year ++ "-" ++ padded 2 month ++ "-" ++ padded 2 day
  | .date none month day => "--" ++ padded 2 month ++ "-" ++ padded 2 day
  | .list items => "[" ++ listText items ++ "]"

def listText : List Value → String
  | [] => ""
  | [v] => v.text
  | v :: rest => v.text ++ ", " ++ listText rest

end

end Value

end ScriptFront
