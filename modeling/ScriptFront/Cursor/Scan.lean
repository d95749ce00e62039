import ScriptFront.Cursor.Basic
import ScriptFront.Error
import ScriptFront.Text.Escape
import ScriptFront.Text.Letter

/-!
# Runs of characters

The shapes that tokens are made of, each read from a cursor: blanks, words, numbers, the rest of a
line, text up to a closing pair, and quoted text. What is read depends on the characters to come
only, so every shape is first a function on lists; the cursor then passes as many characters as the
list function has taken.

A reader says by a `Placing` whether its first character was already inspected and is to be passed
unread, and whether the cursor shall stop on the last character of the run and not behind it.
-/

namespace ScriptFront

/-- Where a scan begins and ends. -/
structure Placing where
  /-- Pass one character before the run. -/
  skipFirst : Bool
  /-- Stop on the last character of the run. -/
  stayOnLast : Bool
deriving DecidableEq, Repr

/-- From the next character to just behind the run. -/
def Placing.plain : Placing := ⟨false, false⟩

/-- What a scan has read. -/
structure Run where
  /-- The characters of the run, decoded if the shape has escapes. -/
  text : String
  /-- Whether the shape was complete. -/
  success : Bool
  lines : Nat
deriving DecidableEq, Repr

namespace Cursor

/-- The cursor at the first character of the run. -/
def opened (p : Placing) (c : Cursor) : Cursor := if p.skipFirst then c.step else c

/-- The cursor at the end that the placing asks for, if the run was not empty. -/
def closed (p : Placing) (nonempty : Bool) (c : Cursor) : Cursor :=
  if p.stayOnLast && nonempty then c.back else c

/-- Read the longest run of characters with the property `p`. -/
def takeWhile (p : Char → Bool) (c : Cursor) : List Char × Cursor :=
  let run := c.rest.takeWhile p
  (run, c.advance run.length)

/-- Read a run of characters with the property `p`; `emptyFails` says that an empty run is a
failure. -/
def scanWhile (p : Char → Bool) (emptyFails : Bool) (placing : Placing) (c : Cursor) :
    Run × Cursor :=
  let (run, c) := (c.opened placing).takeWhile p
  (⟨String.ofList run, !(emptyFails && run.isEmpty), 0⟩, c.closed placing !run.isEmpty)

/-- Whether a character is a blank between tokens. -/
def isSpacing (c : Char) : Bool := c == ' ' || c == '\t'

def scanBlanks : Placing → Cursor → Run × Cursor := scanWhile isSpacing false

def scanName : Placing → Cursor → Run × Cursor := scanWhile Text.isNameChar true

/-- Read up to the next line end. -/
def scanLine : Placing → Cursor → Run × Cursor := scanWhile (fun c ↦ c != '\n' && c != '\r') false

/-- The digits of a number with at most one point, which digits must follow. -/
def numberRun (cs : List Char) : List Char :=
  let whole := cs.takeWhile Char.isDigit
  match cs.dropWhile Char.isDigit with
  | '.' :: rest =>
    let fraction := rest.takeWhile Char.isDigit
    if fraction.isEmpty then whole else whole ++ '.' :: fraction
  | _ => whole

def scanNumber (placing : Placing) (c : Cursor) : Run × Cursor :=
  let c := c.opened placing
  let run := numberRun c.rest
  (⟨String.ofList run, !run.isEmpty, 0⟩, (c.advance run.length).closed placing !run.isEmpty)

/-! ## Shapes that may span lines -/

/-- What a list function has read: the characters of the run, last one first, the number of
characters taken, the lines completed among them, and whether the run was complete. -/
structure Extent where
  /-- The characters read, the last one first. -/
  text : List Char
  taken : Nat
  lines : Nat
  /-- Whether the end mark was found. -/
  complete : Bool

namespace Extent

def empty : Extent := ⟨[], 0, 0, false⟩

/-- One more character, written in `width` places of which `c` is the last and `rest` follows;
`meaning` is what it stands for. -/
def push (e : Extent) (meaning c : Char) (rest : List Char) (width : Nat) : Extent :=
  ⟨meaning :: e.text, e.taken + width, e.lines + (if endsLine c rest then 1 else 0), false⟩

/-- The end mark of `width` characters was found. -/
def finish (e : Extent) (width : Nat) : Extent := ⟨e.text, e.taken + width, e.lines, true⟩

/-- `width` characters were taken that are neither part of the run nor its end mark. -/
def skip (e : Extent) (width : Nat) : Extent := { e with taken := e.taken + width }

def run (e : Extent) : Run := ⟨String.ofList e.text.reverse, e.complete, e.lines⟩

end Extent

/-- Read up to the first `quote` that no `mark` stands before; `mark` makes the next character
stand for what `Text.unescape` says. -/
def quotedExtent (quote mark : Char) : List Char → Extent → Extent
  | [], e => e
  | c :: rest, e =>
    if c = mark then
      match rest with
      | [] => e.skip 1
      | d :: rest => quotedExtent quote mark rest (e.push (Text.unescape d) d rest 2)
    else if c = quote then e.finish 1
    else quotedExtent quote mark rest (e.push c c rest 1)

/-- Read up to the first place where `first` is followed by `second`. -/
def upToExtent (first second : Char) : List Char → Extent → Extent
  | [], e => e
  | c :: rest, e =>
    if c = first ∧ rest.head? = some second then e.finish 2
    else upToExtent first second rest (e.push c c rest 1)

/-- Read quoted text and its closing quote. The opening quote is the first character if the
placing skips it. Without a closing quote all characters are taken, and the failure is placed where
the scan began. -/
def scanQuoted (quote mark : Char) (placing : Placing) (c : Cursor) :
    Except ScriptError Run × Cursor :=
  let start := c.position
  let c := c.opened placing
  let extent := quotedExtent quote mark c.rest .empty
  let c := c.advance extent.taken
  if extent.complete then (.ok extent.run, c.closed placing true)
  else (.error (.ofCause start .unterminatedString), c)

/-- Read up to and over the pair of `first` and `second`. Without the pair all characters are taken
and the run is incomplete. -/
def scanUpTo (first second : Char) (placing : Placing) (c : Cursor) : Run × Cursor :=
  let c := c.opened placing
  let extent := upToExtent first second c.rest .empty
  (extent.run, (c.advance extent.taken).closed placing extent.complete)

end Cursor

end ScriptFront
