import ScriptFront.Number.Shortest

/-!
# Writing numbers

All written forms of a number have as many digits as `Number.shortest` finds; they differ in where
positional writing ends, in whether a whole number keeps a point and a power of ten its plus sign,
and in which of two equally near decimals they take. Those decisions are one record, `NumberStyle`,
and the three records below are the forms this library writes: in script text, in an outline of a
syntax tree, and in structured output.
-/

namespace ScriptFront

/-- How a number is laid out. -/
structure NumberStyle where
  /-- The least power of ten of a leading digit written positionally, if there is a least. -/
  least : Option Int
  /-- The greatest such power, if there is a greatest. -/
  greatest : Option Int
  /-- Whether a whole number ends in a point and a zero. -/
  pointed : Bool
  /-- Whether a positive power of ten is written with its sign. -/
  signed : Bool
  /-- Which of two equally near decimals is taken. -/
  tie : Number.Tie

namespace NumberStyle

/-- Script text: always positional, whole numbers without a point. -/
def script : NumberStyle := ⟨none, none, false, false, .up⟩

/-- Outlines: positional from one ten-thousandth to below ten to the sixteenth. -/
def outline : NumberStyle := ⟨some (-4), some 15, true, false, .up⟩

/-- Structured output: positional one place further down than outlines, with the signs of powers of
ten, and even decimals where two are equally near. -/
def data : NumberStyle := ⟨some (-5), some 15, true, true, .toEven⟩

/-- Whether a leading digit of this power is written positionally. -/
def isPositional (style : NumberStyle) (leading : Int) : Bool :=
  style.least.all (· ≤ leading) && style.greatest.all (leading ≤ ·)

end NumberStyle

namespace Number

/-- Digits with the point in its place: `power` is the power of ten of the last digit. -/
def positional (style : NumberStyle) (digits : List Char) (power : Int) : List Char :=
  let whole : Int := digits.length + power
  if 0 ≤ power then
    digits ++ List.replicate power.toNat '0' ++ (if style.pointed then ['.', '0'] else [])
  else if whole ≤ 0 then '0' :: '.' :: List.replicate (-whole).toNat '0' ++ digits
  else digits.take whole.toNat ++ '.' :: digits.drop whole.toNat

/-- Digits with the point after the first, and the power of ten of that digit. -/
def scientific (style : NumberStyle) (digits : List Char) (leading : Int) : List Char :=
  let body := match digits with
    | first :: second :: rest => first :: '.' :: second :: rest
    | digits => digits
  let plus := if style.signed && 0 < leading then ['+'] else []
  body ++ 'e' :: plus ++ (toString leading).toList

/-- The written form of a number. -/
def render (style : NumberStyle) : Number → String
  | .nan _ => "NaN"
  | .infinite negative => if negative then "-inf" else "inf"
  | .finite negative mantissa exponent =>
    let body :=
      if mantissa = 0 then positional style ['0'] 0
      else
        let decimal := shortest style.tie mantissa exponent
        let digits := Nat.toDigits 10 decimal.digits
        let leading := digits.length + decimal.power - 1
        if style.isPositional leading then positional style digits decimal.power
        else scientific style digits leading
    String.ofList (if negative then '-' :: body else body)

/-- The number as a script writes it. -/
def text (n : Number) : String := n.render .script

end Number

end ScriptFront
