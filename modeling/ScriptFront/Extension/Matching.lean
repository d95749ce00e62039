import ScriptFront.Extension.Basic
import ScriptFront.Number.Reading
import ScriptFront.Text.Address

/-!
# Matching patterns

A pattern is matched against the tokens ahead without moving the cursor. The walk keeps how many
tokens it has matched and what it has recorded, and takes both back whenever an element fails. If
it would have to look further than the window reaches, the pattern does not match at all.

An optional element that fails is passed over. A required one that fails ends the match, unless
enough required elements came before it and the next token closes an expression.

## Failures

That an element does not match is a result of the walk and not a failure of it. The only failures
are those of the lexer behind the window, which the walk meets when it needs a token that is not
held yet; they end the search for an extension. Taking back is therefore done by hand, and in one
place, `Matching.restore`. It does not take back the tokens that were pulled, since these stay
what they are, nor the mark that the window was too narrow.
-/

namespace ScriptFront

namespace Matching

/-- The state of a walk. -/
structure State where
  window : Window Lexer
  /-- How many tokens were matched. -/
  offset : Nat
  captures : Captures
  /-- Whether the walk came to the end of the window's reach. -/
  overflowed : Bool

/-- A computation of a walk. -/
abbrev MatchM := EStateM ScriptError State

/-- What a walk may consult. -/
structure Consult where
  extension : Extension
  symbols : SymbolTable

/-- The token `n` places ahead, or none beyond the reach of the window. -/
def peek (n : Nat) : MatchM (Option Token) := fun s ↦
  match Window.peek n false s.window with
  | .ok t window => .ok (some t) { s with window }
  | .error e window =>
    match e.cause with
    | .lookaheadExceeded _ _ => .ok none { s with window, overflowed := true }
    | _ => .error e { s with window }

/-- The token `n` places after the matched ones. -/
def peekAfter (n : Nat) : MatchM (Option Token) := do peek ((← get).offset + n)

/-- Whether the next token closes an expression. -/
def expressionEnds : MatchM Bool := do
  return (← peekAfter 0).any fun t ↦ t.lexeme.closesExpression

/-- The tokens matched by one leaf. -/
structure Stretch where
  count : Nat
  /-- The text recorded for them. -/
  text : String
  /-- The value recorded for them. -/
  value : Option Value

/-- A match of one token. -/
def Stretch.one (t : Token) (value : Option Value) : Stretch := ⟨1, t.text, value⟩

/-! ## Times of day -/

/-- The greatest 32-bit natural. -/
def maxWord : Nat := 4294967295

/-- The natural that a text of digits denotes, if it is at most `max`; a plus sign may stand
first. -/
def natural? (max : Nat) (cs : List Char) : Option Nat :=
  let digits := match cs with
    | '+' :: rest => rest
    | cs => cs
  if digits.isEmpty || !digits.all Char.isDigit then none
  else
    let n := Number.ofDigits digits
    if n ≤ max then some n else none

/-- The small form of a text in the basic Latin block. -/
def lowerText (s : String) : String := String.ofList (s.toList.map Char.toLower)

/-- The hours and minutes of a number literal: a whole number, or one with two places, which are
the minutes. The flag says that minutes were written. -/
def clockOf? (text : String) : Option (Nat × Nat × Bool) :=
  let cs := text.toList
  match cs.dropWhile (· != '.') with
  | '.' :: minutes =>
    if (String.ofList minutes).utf8ByteSize = 2 then do
      let hours ← natural? maxWord (cs.takeWhile (· != '.'))
      let minutes ← natural? maxWord minutes
      return (hours, minutes, true)
    else none
  | _ => (natural? maxWord cs).map fun hours ↦ (hours, 0, false)

/-- The hour of the day for an hour of a half of it: noon and midnight are the twelfth hours. -/
def hourOf? (half : String) (hours : Nat) : Option Nat :=
  if hours = 0 ∨ 12 < hours then none
  else if half = "pm" then some (if hours < 12 then hours + 12 else hours)
  else some (if hours = 12 then 0 else hours)

/-- Match a time of day: an hour with or without minutes, and possibly a half of the day. -/
def time (first : Token) : MatchM (Option Stretch) := do
  if first.kind != .number then return none
  let some (hours, minutes, pointed) := clockOf? first.text | return none
  let mut minutes := minutes
  let mut text := first.text
  let mut count := 1
  if !pointed then
    if (← peekAfter 1).any (·.is ":") then
      let some t ← peekAfter 2 | return none
      if t.kind != .number || t.text.utf8ByteSize != 2 then return none
      let some m := natural? maxWord t.text.toList | return none
      minutes := m
      text := text ++ ":" ++ t.text
      count := 3
  let mut hours := hours
  if let some t ← peekAfter count then
    let half := lowerText t.text
    if t.kind == .ident && (half == "am" || half == "pm") then
      let some h := hourOf? half hours | return none
      hours := h
      text := text ++ half
      count := count + 1
  if 23 < hours || 59 < minutes then return none
  return some ⟨count, text, some (.time (hours * 3600 + minutes * 60))⟩

/-! ## Other runs -/

/-- Names with commas between them, `names` being those matched so far, last one first. `fuel`
bounds their number. -/
def moreNames : (fuel : Nat) → List String → MatchM (List String)
  | 0, names => return names
  | fuel + 1, names => do
    let count := 2 * names.length - 1
    if !(← peekAfter count).any (·.is ",") then return names
    let some next ← peekAfter (count + 1) | return names
    if next.kind != .ident then return names
    moreNames fuel (next.text :: names)

def paramNames (first : Token) : MatchM Stretch := do
  let names := (← moreNames ((← get).window.lookahead + 1) [first.text]).reverse
  return ⟨2 * names.length - 1, ", ".intercalate names, some (.list (names.map .str))⟩

/-- The truth value that a token stands for. -/
def truth? (t : Token) : Option Bool :=
  match t.lexeme with
  | .bool b => some b
  | .ident text =>
    match lowerText text with
    | "yes" | "on" => some true
    | "no" | "off" => some false
    | _ => none
  | _ => none

/-- Match a typed leaf, whose first token is given. -/
def typed (c : Consult) (type : LeafType) (first : Token) : MatchM (Option Stretch) := do
  let isName := first.kind == .ident
  match type with
  | .number => return first.lexeme.number?.map fun n ↦ .one first (some (.number n))
  | .word => return if isName then some (.one first (some (.str first.text))) else none
  | .bool => return (truth? first).map fun b ↦ .one first (some (.bool b))
  | .uri =>
    return (first.lexeme.string?.filter Text.looksLikeAddress).map fun s ↦
      .one first (some (.str s))
  | .startToken =>
    return if c.extension.starts.any (·.accepts first) then
      some (.one first (some (.str first.text))) else none
  | .identSymbol =>
    return if isName && c.symbols.contains first.text then some (.one first none) else none
  | .singularSymbol =>
    return if isName && c.symbols.contains (first.text ++ "s") then some (.one first none)
      else none
  | .tokenMap1 => return (c.extension.firstMap first.text).map fun v ↦ .one first (some v)
  | .tokenMap2 => return (c.extension.secondMap first.text).map fun v ↦ .one first (some v)
  | .paramNames => if isName then return some (← paramNames first) else return none
  | .time => time first
  | .exprTerminators => return none

/-! ## Walking a pattern -/

def record (name : String) (value : Value) : MatchM Unit :=
  modify fun s ↦ { s with captures := s.captures.insert name value }

def passStretch (stretch : Stretch) : MatchM Unit :=
  modify fun s ↦ { s with offset := s.offset + stretch.count }

/-- Match a leaf against the next token. Line breaks and the end match nothing but a test for what
closes an expression. -/
def leaf (c : Consult) (l : Leaf) : MatchM Bool := do
  let some first ← peekAfter 0 | return false
  match l with
  | .typed name .exprTerminators =>
    let ends := first.lexeme.closesExpression
    if ends then record name (.str first.text)
    return ends
  | l =>
    if first.kind == .endOfInput || first.kind == .newLine then return false
    match l with
    | .literal text =>
      if first.is text then
        passStretch (.one first none)
        return true
      else return false
    | .oneOf name values =>
      if values.any fun v ↦ lowerText v == lowerText first.text then
        passStretch (.one first none)
        record name (.str first.text)
        return true
      else return false
    | .sameAs name =>
      match (← get).captures.text? name with
      | some text => if !first.is text then return false
      | none => pure ()
      passStretch (.one first none)
      record name (.str first.text)
      return true
    | .typed name type =>
      let some stretch ← typed c type first | return false
      passStretch stretch
      if let some value := stretch.value then
        if type.hasValue then record (Captures.valueName name) value
      record name (.str stretch.text)
      return true

/-- Take back what was matched and recorded since `before`. -/
def restore (before : State) : MatchM Unit :=
  modify fun s ↦ { s with offset := before.offset, captures := before.captures }

mutual

/-- Match an element. -/
def element (c : Consult) : Element → MatchM Bool
  | .leaf l _ => leaf c l
  | .group elements _ => sequence c (Element.requiredCount elements) 0 elements
  | .either left right _ => do
    let before ← get
    if ← element c left then return true
    restore before
    if (← get).overflowed then return false
    element c right

/-- Match elements one after the other, `matched` required ones having matched before. -/
def sequence (c : Consult) (minRequired matched : Nat) : List Element → MatchM Bool
  | [] => return true
  | e :: rest => do
    let before ← get
    if ← element c e then
      sequence c minRequired (if e.required then matched + 1 else matched) rest
    else
      restore before
      if (← get).overflowed then return false
      if !e.required then sequence c minRequired matched rest
      else if minRequired ≤ matched then expressionEnds
      else return false

end

end Matching

end ScriptFront
