/-!
# Places in a script

A position is what a reader of the script counts: lines from one, and characters of the line from
one. Where a program needs the distance from the start of the text it keeps an offset beside the
position, because the two answer different questions.
-/

namespace ScriptFront

/-- A line and a column, both counted from one. -/
structure Position where
  /-- The line, the first being line one. -/
  line : Nat
  /-- The character within the line, the first being column one. -/
  column : Nat
deriving DecidableEq, Repr, Inhabited

/-- Where a text begins. -/
def Position.start : Position := ⟨1, 1⟩

end ScriptFront
