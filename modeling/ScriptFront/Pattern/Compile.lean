import ScriptFront.Error
import ScriptFront.Pattern.Basic
import ScriptFront.Text.Blank
import ScriptFront.Text.Letter

/-!
# Reading patterns

A pattern is written on one line:

* a bare word matches its own spelling, and a backslash takes the next character as it is;
* `$name:type` captures a token of a type, `$name:(a|b)` one of several spellings;
* `#name` captures any token, and a second `#name` must repeat it;
* `?` makes the element before it optional;
* `( … )` is a group, and `|` joins its two neighbours into a choice.

A group of one element is that element. A choice takes the one element on each side, so a longer
chain of choices leans to the left.
-/

namespace ScriptFront.Pattern

/-- The text of a pattern being read. -/
structure Reader where
  /-- The characters to come. -/
  rest : List Char
  /-- How many characters were read. -/
  pos : Nat

/-- A computation that reads a pattern and may fail with a message. -/
abbrev ReadM := EStateM String Reader

def pass (n : Nat) : ReadM Unit := modify fun r ↦ ⟨r.rest.drop n, r.pos + n⟩

/-- Read the longest run of characters with a property. -/
def takeWhile (p : Char → Bool) : ReadM (List Char) := do
  let run := (← get).rest.takeWhile p
  pass run.length
  return run

/-- Pass a character if it comes next. -/
def passIf (c : Char) : ReadM Bool := do
  if (← get).rest.head? = some c then
    pass 1
    return true
  else return false

/-- The texts between the bars, without blanks at their ends; empty ones are left out. -/
def alternatives (body : List Char) : List String :=
  ((body.splitOn '|').map Text.trim).filterMap fun v ↦
    if v.isEmpty then none else some (String.ofList v)

/-- Read what follows the sign of a capture. -/
def readCapture : ReadM Leaf := do
  let name := String.ofList (← takeWhile Text.isNameChar)
  if name.isEmpty then throw "capture name expected after '$'"
  if !(← passIf ':') then throw "':' expected after capture name"
  if ← passIf '(' then
    let body ← takeWhile (· != ')')
    if !(← passIf ')') then throw "unclosed value set, expected ')'"
    let values := alternatives body
    if values.isEmpty then throw "empty value set"
    return .oneOf name values
  else
    discard (passIf '@')
    let typeName := String.ofList (← takeWhile fun c ↦ Text.isNameChar c || c == '-')
    match LeafType.ofName? typeName with
    | some type => return .typed name type
    | none => throw s!"unknown type '{typeName}'"

/-- A bare word: the characters up to a blank or a mark of the pattern language, the number of
characters it was written with, and whether a backslash stood at the end of the text. -/
def wordExtent : List Char → List Char → Nat → List Char × Nat × Bool
  | [], word, taken => (word.reverse, taken, false)
  | c :: rest, word, taken =>
    if c = '\\' then
      match rest with
      | [] => (word.reverse, taken + 1, true)
      | d :: rest => wordExtent rest (d :: word) (taken + 2)
    else if c = '(' ∨ c = ')' ∨ c = '|' ∨ c = '?' ∨ Text.isBlank c then
      (word.reverse, taken, false)
    else wordExtent rest (c :: word) (taken + 1)

def readWord : ReadM Leaf := do
  let (word, taken, dangling) := wordExtent (← get).rest [] 0
  pass taken
  if dangling then throw "dangling '\\'"
  if word.isEmpty then throw "match expected"
  return .literal (String.ofList word)

def readLeaf : ReadM Leaf := do
  match (← get).rest with
  | '$' :: _ =>
    pass 1
    readCapture
  | '#' :: c :: _ =>
    if Text.isNameChar c then
      pass 1
      return .sameAs (String.ofList (← takeWhile Text.isNameChar))
    else readWord
  | _ => readWord

/-- Make an element optional if a question mark follows it directly. -/
def withMark (element : Element) : ReadM Element := do
  return if ← passIf '?' then element.asOptional else element

/-- A group of the elements read inside parentheses. -/
def groupOf : List Element → ReadM Element
  | [] => throw "empty group"
  | [element] => return element
  | elements => return .group elements true

/-- Put an element behind those read, which are last one first; `choosing` says that a bar stands
between it and the last one. -/
def append (elements : List Element) (choosing : Bool) (element : Element) :
    ReadM (List Element) := do
  if choosing then
    match elements with
    | left :: elements => return .either left element true :: elements
    | [] => throw "'|' needs a match on its left"
  else return element :: elements

/-- The end of a sequence. -/
def finish (elements : List Element) (choosing : Bool) : ReadM (List Element) := do
  if choosing then throw "'|' needs a match on its right"
  return elements.reverse

/-- Read the elements up to the end of the text, or up to the parenthesis that closes the current
group if `depth` groups are open. The elements read so far come last one first, and `choosing` says
that a bar was read after them. `fuel` bounds the number of characters. -/
def readSequence :
    (fuel depth : Nat) → List Element → (choosing : Bool) → ReadM (List Element)
  | 0, _, _, _ => throw "pattern is too long"
  | fuel + 1, depth, elements, choosing => do
    discard (takeWhile Text.isBlank)
    match (← get).rest with
    | [] =>
      if 0 < depth then throw "unclosed group, expected ')'"
      finish elements choosing
    | ')' :: _ =>
      if depth = 0 then throw "unmatched ')'"
      pass 1
      finish elements choosing
    | '|' :: _ =>
      if elements.isEmpty || choosing then throw "'|' needs a match on its left"
      pass 1
      readSequence fuel depth elements true
    | '?' :: _ =>
      match elements, choosing with
      | last :: elements, false =>
        pass 1
        readSequence fuel depth (last.asOptional :: elements) false
      | _, _ => throw "'?' must follow a match"
    | '(' :: _ =>
      pass 1
      let inner ← readSequence fuel (depth + 1) [] false
      let element ← withMark (← groupOf inner)
      readSequence fuel depth (← append elements choosing element) false
    | _ =>
      let element ← withMark (.leaf (← readLeaf) true)
      readSequence fuel depth (← append elements choosing element) false

/-- The elements of a pattern. A failure names the pattern and stands at the column reached. -/
def compile (pattern : String) : Except ScriptError (List Element) :=
  let cs := pattern.toList
  let read : ReadM (List Element) := do
    let elements ← readSequence (cs.length + 1) 0 [] false
    if elements.isEmpty then throw "pattern is empty"
    return elements
  match read ⟨cs, 0⟩ with
  | .ok elements _ => .ok elements
  | .error message r => .error (.ofCause ⟨1, r.pos + 1⟩ (.invalidPattern pattern message))

end ScriptFront.Pattern
