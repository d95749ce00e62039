/-!
# Blank characters

The characters with the white-space property. A pattern separates its elements by them, and an
address that stands bare in a script ends at the first of them; between the tokens of a script only
spaces and tabs count as blank, which is decided where tokens are read.
-/

namespace ScriptFront.Text

/-- A character with the white-space property. -/
def isBlank (c : Char) : Bool :=
  let n := c.toNat
  (9 ≤ n && n ≤ 13) || n == 0x20 || n == 0x85 || n == 0xA0 || n == 0x1680 ||
    (0x2000 ≤ n && n ≤ 0x200A) || n == 0x2028 || n == 0x2029 || n == 0x202F || n == 0x205F ||
    n == 0x3000

/-- The text without the blanks at its two ends. -/
def trim (cs : List Char) : List Char :=
  ((cs.dropWhile isBlank).reverse.dropWhile isBlank).reverse

/-- The first run of characters that are not blank. -/
def firstWord? (cs : List Char) : Option (List Char) :=
  match (cs.dropWhile isBlank).takeWhile (!isBlank ·) with
  | [] => none
  | word => some word

end ScriptFront.Text
