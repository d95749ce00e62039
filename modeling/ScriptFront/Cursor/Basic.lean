import ScriptFront.Position

/-!
# A cursor in a text

A cursor splits a text into the characters it has passed, last one first, and the characters still
to come, and keeps the position of the split. It moves by single characters: `Cursor.step` forward
and `Cursor.back` onto the character just passed. Everything else that moves a cursor is made of
these two, so the counts it carries are facts of the type.

A line ends after a line feed, and after a carriage return that no line feed follows; the pair of
both is one line end.

## Representation

Both sides of the split are lists, so a step only moves one character from the head of one list to
the head of the other, and a proof about a scan is an induction on the characters to come. The two
counts are kept because a scan asks for them at every token. That they are right is a field of the
structure: a cursor whose counts have drifted from its text cannot be built.
-/

namespace ScriptFront

/-- Whether `c`, followed by `rest`, completes a line. -/
def endsLine (c : Char) (rest : List Char) : Bool :=
  c == '\n' || (c == '\r' && rest.head? != some '\n')

/-- A place in a text, with the text on both sides. -/
structure Cursor where
  /-- The characters passed, the last one first. -/
  before : List Char
  /-- The characters to come. -/
  rest : List Char
  /-- How many characters were passed. -/
  pos : Nat
  /-- How many characters are to come. -/
  left : Nat
  /-- The line of the next character. -/
  line : Nat
  /-- The column of the next character. -/
  column : Nat
  length_before : before.length = pos
  length_rest : rest.length = left

namespace Cursor

/-- The characters of a text without the byte order mark that may stand first. -/
def contents (text : String) : List Char :=
  match text.toList with
  | '\uFEFF' :: rest => rest
  | cs => cs

/-- A cursor in front of a text whose first character stands at `start`. -/
def startingAt (start : Position) (text : String) : Cursor :=
  { before := []
    rest := contents text
    pos := 0
    left := (contents text).length
    line := start.line
    column := start.column
    length_before := rfl
    length_rest := rfl }

/-- A cursor in front of a text. -/
def ofText (text : String) : Cursor := startingAt .start text

/-- Where the next character stands. -/
def position (c : Cursor) : Position := ⟨c.line, c.column⟩

def atEnd (c : Cursor) : Bool := c.rest.isEmpty

def current? (c : Cursor) : Option Char := c.rest.head?

/-- The character `n` places after the next one. -/
def peek? (c : Cursor) (n : Nat) : Option Char := c.rest[n]?

/-- The whole text. -/
def whole (c : Cursor) : List Char := c.before.reverse ++ c.rest

/-- The characters from place `start` up to place `stop`, as far as the text has them. -/
def between (c : Cursor) (start stop : Nat) : String :=
  String.ofList ((c.whole.take stop).drop start)

/-- The characters passed since place `start`. -/
def since (c : Cursor) (start : Nat) : String :=
  String.ofList (c.before.take (c.pos - start)).reverse

/-- Whether passing the next character completes a line. -/
def completesLine (c : Cursor) : Bool :=
  match c.rest with
  | [] => false
  | ch :: rest => endsLine ch rest

/-- Pass the next character. -/
def step (c : Cursor) : Cursor :=
  match c with
  | ⟨before, ch :: rest, pos, left, line, column, hb, hr⟩ =>
    let (line, column) := if endsLine ch rest then (line + 1, 1) else (line, column + 1)
    ⟨ch :: before, rest, pos + 1, left - 1, line, column, by simp [hb], by simp [← hr]⟩
  | c => c

/-- Return onto the character passed last. The column is right if that character did not complete
a line. -/
def back (c : Cursor) : Cursor :=
  match c with
  | ⟨ch :: before, rest, pos, left, line, column, hb, hr⟩ =>
    ⟨before, ch :: rest, pos - 1, left + 1, line, max (column - 1) 1, by simp [← hb], by simp [hr]⟩
  | c => c

/-- Pass `n` characters, or all that are left. -/
def advance : Nat → Cursor → Cursor
  | 0, c => c
  | n + 1, c => if c.atEnd then c else advance n c.step

/-- Pass a line end: a line feed, a carriage return, or the pair. The flag says whether one was
there. -/
def passLineEnd (c : Cursor) : Bool × Cursor :=
  match c.rest with
  | '\r' :: '\n' :: _ => (true, c.advance 2)
  | '\r' :: _ | '\n' :: _ => (true, c.step)
  | _ => (false, c)

end Cursor

end ScriptFront
