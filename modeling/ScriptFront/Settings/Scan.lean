import ScriptFront.Number.Reading

/-!
# Scanning structured text

Settings are read from structured text in one pass, guided by what is expected at each place, and
values that nobody expects are passed over. This module holds what both need: blanks, literal
words, numbers, texts, and whole values to be passed over.

A failure is of one of three classes. The text is *malformed* if it is no structured text, also
where a number is beyond all finite ones; it is *truncated* if it ends too early; and it is a
*mismatch* if a value is well-formed and not of the expected kind. The first failure met from left
to right counts.
-/

namespace ScriptFront.Settings

/-- Why a text was not accepted. -/
inductive ReadError where
  /-- It is not well-formed. -/
  | malformed
  /-- It ends too early. -/
  | truncated
  /-- A value is not of the expected kind. -/
  | mismatch
deriving DecidableEq, Repr

def ReadError.name : ReadError → String
  | .malformed => "Syntax"
  | .truncated => "Eof"
  | .mismatch => "Data"

def isSpace (c : Char) : Bool := c == ' ' || c == '\n' || c == '\t' || c == '\r'

/-- The text behind its blanks. -/
def dropSpace (cs : List Char) : List Char := cs.dropWhile isSpace

/-- The rest of a word that must come. -/
def scanWord : (word : List Char) → List Char → Except ReadError (List Char)
  | [], cs => .ok cs
  | _ :: _, [] => .error .truncated
  | w :: word, c :: cs => if w = c then scanWord word cs else .error .malformed

/-! ## Numbers -/

/-- A number as written: its digits, how many of them follow the point, and its power of ten;
`isWhole` says that neither point nor power was written. -/
structure Numeral where
  digits : List Char
  /-- How many digits follow the point. -/
  places : Nat
  power : Int
  /-- Whether only digits were written. -/
  isWhole : Bool

/-- The power of ten behind the letter that announces it. -/
def scanPower (cs : List Char) : Except ReadError (Int × List Char) :=
  let (negative, cs) := Number.takeSign cs
  let digits := cs.takeWhile Char.isDigit
  if digits.isEmpty then .error (if cs.isEmpty then .truncated else .malformed)
  else
    let n : Int := Number.ofDigits digits
    .ok (if negative then -n else n, cs.dropWhile Char.isDigit)

/-- The power of ten at the end of a number, if one is written. -/
def scanPower? (cs : List Char) : Except ReadError (Option Int × List Char) :=
  match cs with
  | [] => .ok (none, [])
  | c :: rest =>
    if c = 'e' ∨ c = 'E' then (scanPower rest).map fun (n, cs) ↦ (some n, cs)
    else .ok (none, cs)

/-- The digits behind the point of a number, at least one if there is a point. -/
def scanPlaces? (cs : List Char) : Except ReadError (Option (List Char) × List Char) :=
  match cs with
  | '.' :: rest =>
    let digits := rest.takeWhile Char.isDigit
    if digits.isEmpty then .error (if rest.isEmpty then .truncated else .malformed)
    else .ok (some digits, rest.dropWhile Char.isDigit)
  | cs => .ok (none, cs)

/-- A number without its sign. No digit may follow a zero in front. -/
def scanNumeral (cs : List Char) : Except ReadError (Numeral × List Char) := do
  let whole := cs.takeWhile Char.isDigit
  let rest := cs.dropWhile Char.isDigit
  match whole with
  | [] => .error (if cs.isEmpty then .truncated else .malformed)
  | '0' :: _ :: _ => .error .malformed
  | whole =>
    let (places, rest) ← scanPlaces? rest
    let (power, rest) ← scanPower? rest
    let fraction := places.getD []
    .ok (⟨whole ++ fraction, fraction.length, power.getD 0, places.isNone && power.isNone⟩, rest)

/-- The value of a number without its sign. -/
def Numeral.number (n : Numeral) : Number :=
  Number.ofDecimal false n.digits (n.power - n.places)

/-- The greatest natural that settings can hold. -/
def maxNatural : Nat := 18446744073709551615

/-- The natural that a number denotes, if it is written as one and not too great. A number beyond
all finite ones is malformed. -/
def Numeral.natural? (n : Numeral) : Except ReadError (Option Nat) :=
  let value := Number.ofDigits n.digits
  if n.isWhole && value ≤ maxNatural then .ok (some value)
  else match n.number with
    | .infinite _ => .error .malformed
    | _ => .ok none

/-! ## Texts -/

def hexValue? (c : Char) : Option Nat :=
  if c.isDigit then some (c.toNat - '0'.toNat)
  else if 'a' ≤ c ∧ c ≤ 'f' then some (c.toNat - 'a'.toNat + 10)
  else if 'A' ≤ c ∧ c ≤ 'F' then some (c.toNat - 'A'.toNat + 10)
  else none

/-- Four hexadecimal digits. With fewer than four bytes left the text is truncated. -/
def scanHex (cs : List Char) : Except ReadError (Nat × List Char) :=
  if (String.ofList (cs.take 4)).utf8ByteSize < 4 then .error .truncated
  else match cs with
    | a :: b :: c :: d :: rest =>
      match hexValue? a, hexValue? b, hexValue? c, hexValue? d with
      | some a, some b, some c, some d => .ok (((a * 16 + b) * 16 + c) * 16 + d, rest)
      | _, _, _, _ => .error .malformed
    | _ => .error .malformed

/-- Whether a code unit is the first of a pair. -/
def isLeading (n : Nat) : Bool := 0xD800 ≤ n && n ≤ 0xDBFF

/-- Whether a code unit is the second of a pair. -/
def isTrailing (n : Nat) : Bool := 0xDC00 ≤ n && n ≤ 0xDFFF

/-- The second unit of a pair, behind the first. -/
def scanTrailing (cs : List Char) : Except ReadError (Nat × List Char) := do
  let cs ← scanWord ['\\', 'u'] cs
  let (n, rest) ← scanHex cs
  if isTrailing n then .ok (n, rest) else .error .malformed

/-- The character of an escape by number, behind its letter. Units of a pair must come in order. -/
def scanUnit (cs : List Char) : Except ReadError (Char × List Char) := do
  let (n, rest) ← scanHex cs
  if isTrailing n then .error .malformed
  else if isLeading n then
    let (m, rest) ← scanTrailing rest
    .ok (.ofNat (0x10000 + (n - 0xD800) * 0x400 + (m - 0xDC00)), rest)
  else .ok (.ofNat n, rest)

/-- The character of an escape of one letter. -/
def letterEscape? (c : Char) : Option Char :=
  match c with
  | '"' => some '"'
  | '\\' => some '\\'
  | '/' => some '/'
  | 'b' => some '\x08'
  | 'f' => some '\x0c'
  | 'n' => some '\n'
  | 'r' => some '\r'
  | 't' => some '\t'
  | _ => none

/-- A text behind its opening quote, up to and over the closing one, after the characters in
`done`, which come last one first. If the text is not `wanted`, escapes by number may be units of
incomplete pairs. `fuel` bounds the number of characters. -/
def scanText (wanted : Bool) :
    (fuel : Nat) → List Char → List Char → Except ReadError (String × List Char)
  | 0, _, _ => .error .truncated
  | _, _, [] => .error .truncated
  | fuel + 1, done, c :: rest =>
    if c = '"' then .ok (String.ofList done.reverse, rest)
    else if c = '\\' then
      match rest with
      | [] => .error .truncated
      | 'u' :: rest =>
        if wanted then
          match scanUnit rest with
          | .error e => .error e
          | .ok (d, rest) => scanText wanted fuel (d :: done) rest
        else
          match scanHex rest with
          | .error e => .error e
          | .ok (_, rest) => scanText wanted fuel done rest
      | d :: rest =>
        match letterEscape? d with
        | none => .error .malformed
        | some d => scanText wanted fuel (d :: done) rest
    else if c.toNat < 0x20 then .error .malformed
    else scanText wanted fuel (c :: done) rest

/-- A text that is wanted, behind its opening quote. -/
def scanWanted (cs : List Char) : Except ReadError (String × List Char) :=
  scanText true (cs.length + 1) [] cs

/-- A text that is passed over, behind its opening quote. -/
def skipText (cs : List Char) : Except ReadError (List Char) :=
  (scanText false (cs.length + 1) [] cs).map (·.2)

/-! ## Values to be passed over -/

/-- What encloses a value. -/
inductive Frame where
  | list
  | object
deriving DecidableEq, Repr

/-- The mark that closes a frame. -/
def Frame.close : Frame → Char
  | .list => ']'
  | .object => '\x7d'

/-- A number that is passed over, without its sign. One that breaks off is malformed. -/
def skipNumeral (cs : List Char) : Except ReadError (List Char) :=
  match scanNumeral cs with
  | .ok (_, rest) => .ok rest
  | .error _ => .error .malformed

/-- A value that encloses none, from its first character on. -/
def skipScalar (c : Char) (rest : List Char) : Except ReadError (List Char) :=
  if c = 'n' then scanWord "ull".toList rest
  else if c = 't' then scanWord "rue".toList rest
  else if c = 'f' then scanWord "alse".toList rest
  else if c = '"' then skipText rest
  else if c = '-' then skipNumeral rest
  else if c.isDigit then skipNumeral (c :: rest)
  else .error .malformed

/-- The name of a value and the colon behind it, up to the value. -/
def skipName (cs : List Char) : Except ReadError (List Char) := do
  match dropSpace cs with
  | [] => .error .truncated
  | '"' :: rest =>
    match dropSpace (← skipText rest) with
    | [] => .error .truncated
    | ':' :: rest => .ok rest
    | _ => .error .malformed
  | _ => .error .malformed

mutual

/-- Pass over a value and close the frames around it; `fuel` bounds the number of steps. -/
def skipNested : (fuel : Nat) → List Frame → List Char → Except ReadError (List Char)
  | 0, _, _ => .error .truncated
  | fuel + 1, frames, cs =>
    match dropSpace cs with
    | [] => .error .truncated
    | '[' :: rest => skipFirst fuel .list frames rest
    | '\x7b' :: rest => skipFirst fuel .object frames rest
    | c :: rest =>
      match skipScalar c rest with
      | .error e => .error e
      | .ok rest => skipMore fuel frames rest

/-- Pass over what follows the opening mark of a frame. -/
def skipFirst : (fuel : Nat) → Frame → List Frame → List Char → Except ReadError (List Char)
  | 0, _, _, _ => .error .truncated
  | fuel + 1, frame, frames, cs =>
    match dropSpace cs with
    | [] => .error .truncated
    | c :: rest =>
      if c = frame.close then skipMore fuel frames rest
      else skipElement fuel frame frames (c :: rest)

/-- Pass over what follows a complete value. -/
def skipMore : (fuel : Nat) → List Frame → List Char → Except ReadError (List Char)
  | 0, _, _ => .error .truncated
  | _, [], cs => .ok cs
  | fuel + 1, frame :: frames, cs =>
    match dropSpace cs with
    | [] => .error .truncated
    | c :: rest =>
      if c = ',' then skipElement fuel frame frames rest
      else if c = frame.close then skipMore fuel frames rest
      else .error .malformed

def skipElement : (fuel : Nat) → Frame → List Frame → List Char → Except ReadError (List Char)
  | 0, _, _, _ => .error .truncated
  | fuel + 1, frame, frames, cs =>
    match frame with
    | .list => skipNested fuel (.list :: frames) cs
    | .object =>
      match skipName cs with
      | .error e => .error e
      | .ok rest => skipNested fuel (.object :: frames) rest

end

def skipValue (cs : List Char) : Except ReadError (List Char) :=
  skipNested (4 * cs.length + 4) [] cs

/-- The failure of a value that is not of the expected kind. The value itself may be malformed or
truncated, which is then what counts; of a sequence or of named values only the opening is seen. -/
def mismatchAt {α : Type} (cs : List Char) : Except ReadError (α × List Char) :=
  match dropSpace cs with
  | [] => .error .truncated
  | c :: rest =>
    let scanned : Except ReadError Unit :=
      if c = '[' ∨ c = '\x7b' then .ok ()
      else if c = '"' then (scanWanted rest).map fun _ ↦ ()
      else if c = '-' then (scanNumeral rest).bind fun (n, _) ↦ n.natural?.map fun _ ↦ ()
      else if c.isDigit then
        (scanNumeral (c :: rest)).bind fun (n, _) ↦ n.natural?.map fun _ ↦ ()
      else (skipScalar c rest).map fun _ ↦ ()
    match scanned with
    | .error e => .error e
    | .ok _ => .error .mismatch

end ScriptFront.Settings
