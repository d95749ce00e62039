import ScriptFront.Text.Ranges

/-!
# Letters, digits and names

Names of a script are words in any alphabet: they start with an alphabetic character or an
underscore and go on with alphabetic and numeric characters and underscores. Characters of the
basic Latin block are decided by comparison, all others by the tables of `ScriptFront.Text.Ranges`.
-/

namespace ScriptFront.Text

/-- An alphabetic character of any script. -/
def isLetter (c : Char) : Bool :=
  if c.val < 128 then c.isAlpha else inRanges c.toNat alphabeticRanges

/-- A character that writes a number or a part of one in any script. -/
def isNumeral (c : Char) : Bool :=
  if c.val < 128 then c.isDigit else inRanges c.toNat numericRanges

/-- A letter or a numeral. -/
def isWordChar (c : Char) : Bool := isLetter c || isNumeral c

/-- What a name may start with. -/
def isNameStart (c : Char) : Bool := isLetter c || c == '_'

/-- What a name may go on with. -/
def isNameChar (c : Char) : Bool := isWordChar c || c == '_'

theorem isNameChar_of_isNameStart {c : Char} (h : isNameStart c = true) : isNameChar c = true := by
  simp only [isNameStart, isNameChar, isWordChar, Bool.or_eq_true] at *
  rcases h with h | h <;> simp [h]

end ScriptFront.Text
