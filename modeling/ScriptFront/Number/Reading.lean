import ScriptFront.Number.Basic

/-!
# Reading decimal numbers

A decimal is an optional sign, digits with at most one point among, before or after them, and an
optional power of ten. It is read as the nearest number, exactly: the digits are one natural, the
power of ten is moved to the numerator or the denominator, and `Number.ofRatio` rounds once.

The words for the infinite and the undefined value are read in any case.
-/

namespace ScriptFront.Number

/-- The value of a run of decimal digits. -/
def ofDigits (ds : List Char) : Nat := ds.foldl (fun n d ↦ 10 * n + (d.toNat - '0'.toNat)) 0

/-- The number nearest to `digits * 10 ^ power`. A decimal whose leading digit stands far outside
the range of finite numbers is settled without computing the power. -/
def ofDecimal (negative : Bool) (digits : List Char) (power : Int) : Number :=
  let digits := digits.dropWhile (· == '0')
  let top : Int := digits.length + power
  if digits.isEmpty || top < -400 then zero negative
  else if 400 < top then .infinite negative
  else if power < 0 then ofRatio negative (ofDigits digits) (Nat.pow 10 (-power).toNat)
  else ofRatio negative (ofDigits digits * Nat.pow 10 power.toNat) 1

/-- A sign in front of a text, and the rest. -/
def takeSign : List Char → Bool × List Char
  | '-' :: rest => (true, rest)
  | '+' :: rest => (false, rest)
  | cs => (false, cs)

/-- The power of ten at the end of a decimal; nothing stands for the power zero. -/
def readPower? : List Char → Option Int
  | [] => some 0
  | c :: rest =>
    if c = 'e' ∨ c = 'E' then
      let (negative, digits) := takeSign rest
      if digits.isEmpty || !digits.all Char.isDigit then none
      else some (if negative then -(ofDigits digits : Int) else ofDigits digits)
    else none

/-- A decimal without its sign. -/
def readUnsigned? (negative : Bool) (cs : List Char) : Option Number :=
  let whole := cs.takeWhile Char.isDigit
  let rest := cs.dropWhile Char.isDigit
  let (fraction, rest) := match rest with
    | '.' :: rest => (rest.takeWhile Char.isDigit, rest.dropWhile Char.isDigit)
    | rest => ([], rest)
  let digits := whole ++ fraction
  if digits.isEmpty then none
  else (readPower? rest).map fun power ↦ ofDecimal negative digits (power - fraction.length)

/-- The number that a text denotes. -/
def ofText? (text : String) : Option Number :=
  let (negative, cs) := takeSign text.toList
  match String.ofList (cs.map Char.toLower) with
  | "inf" | "infinity" => some (.infinite negative)
  | "nan" => some (.nan negative)
  | _ => readUnsigned? negative cs

end ScriptFront.Number
