/-!
# Numbers

The numbers of a script are those of the 64-bit binary format: a sign, and a magnitude that is
either a whole multiple of a power of two, or infinite, or not a number. The type below is that
description itself, so that reading and writing decimals are exact arithmetic on naturals and
nothing hangs on machine floating point.

A finite number is kept in canonical form: the mantissa is below `2 ^ 53`, the exponent is at least
`-1074`, and a mantissa below `2 ^ 52` occurs with the exponent `-1074` only. Zero has both signs.
-/

namespace ScriptFront

/-- A number of the 64-bit binary format. -/
inductive Number where
  /-- The number `± mantissa * 2 ^ exponent`. -/
  | finite (negative : Bool) (mantissa : Nat) (exponent : Int)
  /-- The value beyond all finite numbers of its sign. -/
  | infinite (negative : Bool)
  /-- The result of an undefined operation. -/
  | nan (negative : Bool)
deriving DecidableEq, Repr, Inhabited

namespace Number

/-- Mantissas are below this. -/
def mantissaBound : Nat := Nat.pow 2 53

/-- The exponent of the smallest numbers. -/
def leastExponent : Int := -1074

/-- The exponent of the largest numbers. -/
def greatestExponent : Int := 971

/-- Zero with a sign. -/
def zero (negative : Bool) : Number := .finite negative 0 leastExponent

/-- Whether the sign is minus; zero and the undefined number have signs too. -/
def isNegative : Number → Bool
  | .finite negative _ _ | .infinite negative | .nan negative => negative

/-- The number with the other sign. -/
def negate : Number → Number
  | .finite negative mantissa exponent => .finite (!negative) mantissa exponent
  | .infinite negative => .infinite (!negative)
  | .nan negative => .nan (!negative)

@[simp] theorem negate_negate (n : Number) : n.negate.negate = n := by
  cases n <;> simp [negate]

@[simp] theorem isNegative_negate (n : Number) : n.negate.isNegative = !n.isNegative := by
  cases n <;> rfl

/-! ## Rounding a quotient -/

/-- The whole number nearest to `num / den`; a half goes to the even neighbour. -/
def roundHalfEven (num den : Nat) : Nat :=
  let below := num / den
  let doubled := 2 * (num % den)
  if doubled < den then below
  else if den < doubled then below + 1
  else if below % 2 = 0 then below else below + 1

/-- The numerator and denominator of `num / den / 2 ^ scale`. -/
def scaled (num den : Nat) (scale : Int) : Nat × Nat :=
  if scale < 0 then (num * Nat.pow 2 (-scale).toNat, den) else (num, den * Nat.pow 2 scale.toNat)

/-- The exponent at which the mantissa of `num / den` has its full width, or the least exponent
if the quotient is too small for that. The logarithms leave two candidates. -/
def scaleOf (num den : Nat) : Int :=
  let guess := max ((num.log2 : Int) - den.log2 - 53) leastExponent
  let (n, d) := scaled num den guess
  if n / d < mantissaBound then guess else guess + 1

/-- The number nearest to `num / den`; a half goes to the even mantissa, and what rounds beyond the
largest number is infinite. -/
def ofRatio (negative : Bool) (num den : Nat) : Number :=
  if num = 0 then zero negative
  else
    let scale := scaleOf num den
    let (n, d) := scaled num den scale
    let mantissa := roundHalfEven n d
    let (mantissa, scale) :=
      if mantissa = mantissaBound then (mantissaBound / 2, scale + 1) else (mantissa, scale)
    if greatestExponent < scale then .infinite negative else .finite negative mantissa scale

/-! ## Whole numbers -/

/-- The whole number meant by a number that is not negative, at most `max`, and whose fraction is
smaller than the gap between one and the next number. -/
def whole? (max : Nat) : Number → Option Nat
  | .finite negative mantissa exponent =>
    -- `scaled` divides by a power of two, so the exponent changes sign
    let (n, d) := scaled mantissa 1 (-exponent)
    if negative && mantissa != 0 then none
    else if n % d * Nat.pow 2 52 < d && (n ≤ max * d) then some (n / d)
    else none
  | .infinite _ | .nan _ => none

end Number

end ScriptFront
