import ScriptFront.Number.Basic

/-!
# The shortest decimal

Every finite number is the nearest one for a whole interval of reals. Written with the fewest
digits, it is a decimal inside that interval. On each decimal grid only the two neighbours of the
number can be the answer: if any point of the grid lies in the interval, so does one of them. The
grids are tried from one significant digit on, the first with a hit wins, and of two hits the nearer
is taken. Which of two equally near ones is taken is left to the written form, as a `Tie`. Seventeen
digits always suffice.

The ends of the interval round to the number exactly if its mantissa is even.
-/

namespace ScriptFront.Number

/-- How many decimal digits `n` has; zero has one. -/
def digitCount (n : Nat) : Nat := (Nat.toDigits 10 n).length

/-- A positive decimal: `digits * 10 ^ power`. -/
structure Decimal where
  /-- The significant digits, as one natural. -/
  digits : Nat
  /-- The power of ten of the last digit. -/
  power : Int
deriving DecidableEq, Repr, Inhabited

/-- Which of two equally near neighbours is taken. -/
inductive Tie where
  /-- The greater one. -/
  | up
  /-- The even one. -/
  | toEven
deriving DecidableEq, Repr

/-- The neighbour that is nearer to a point `gap` above `below`, the neighbours being `step`
apart. -/
def Tie.nearer (tie : Tie) (below gap step : Nat) : Nat :=
  if 2 * gap < step then below
  else if step < 2 * gap then below + 1
  else match tie with
    | .up => below + 1
    | .toEven => if below % 2 = 0 then below else below + 1

/-- The reals that round to a positive number, in units of `unit / den`: the number is `mid`, its
interval reaches from `low` to `high`. -/
structure Cell where
  low : Nat
  mid : Nat
  high : Nat
  den : Nat
  /-- Whether the ends belong to the interval. -/
  closed : Bool

/-- The cell of `mantissa * 2 ^ exponent`. Below a power of two the numbers are twice as dense,
so the lower end is nearer there. -/
def Cell.of (mantissa : Nat) (exponent : Int) : Cell :=
  let narrow := mantissa = mantissaBound / 2 ∧ leastExponent < exponent
  let scale := if exponent < 2 then 1 else Nat.pow 2 (exponent - 2).toNat
  { low := (4 * mantissa - if narrow then 1 else 2) * scale
    mid := 4 * mantissa * scale
    high := (4 * mantissa + 2) * scale
    den := if exponent < 2 then Nat.pow 2 (2 - exponent).toNat else 1
    closed := mantissa % 2 = 0 }

/-- The power of ten of the leading digit of `num / den`. -/
def leadingPower (num den : Nat) : Int :=
  if den ≤ num then digitCount (num / den) - 1 else -(digitCount ((den - 1) / num) : Int)

/-- The point of the grid `10 ^ power` that stands for the cell, if one lies in it. -/
def Cell.onGrid? (tie : Tie) (c : Cell) (power : Int) : Option Nat :=
  -- in these units the grid points are the multiples of `step`
  let unit := Nat.pow 10 (-power).toNat
  let step := c.den * Nat.pow 10 power.toNat
  let below := c.mid * unit / step
  let gap := c.mid * unit % step
  let inside (k : Nat) : Bool :=
    let x := k * step
    if c.closed then c.low * unit ≤ x && x ≤ c.high * unit
    else c.low * unit < x && x < c.high * unit
  if gap = 0 then some below
  else match inside below, inside (below + 1) with
    | true, true => some (tie.nearer below gap step)
    | true, false => some below
    | false, true => some (below + 1)
    | false, false => none

/-- Try the grids for `places`, `places + 1`, … significant digits, `fuel` of them. -/
def Cell.search (tie : Tie) (c : Cell) (top : Int) : (fuel places : Nat) → Decimal
  | 0, places => ⟨c.mid * Nat.pow 10 (places - 1 - top).toNat / c.den, top - places + 1⟩
  | fuel + 1, places =>
    let power := top - places + 1
    match c.onGrid? tie power with
    | some k => ⟨k, power⟩
    | none => c.search tie top fuel (places + 1)

/-- The number without the zeros at its end, and how many there were; `fuel` bounds the count. -/
def dropZeros : (fuel n count : Nat) → Nat × Nat
  | 0, n, count => (n, count)
  | fuel + 1, n, count => if n % 10 = 0 then dropZeros fuel (n / 10) (count + 1) else (n, count)

/-- The decimal with the fewest digits that reads back as `mantissa * 2 ^ exponent`, for a positive
mantissa. -/
def shortest (tie : Tie) (mantissa : Nat) (exponent : Int) : Decimal :=
  let c := Cell.of mantissa exponent
  let found := c.search tie (leadingPower c.mid c.den) 17 1
  let (digits, zeros) := dropZeros 20 found.digits 0
  ⟨digits, found.power + zeros⟩

end ScriptFront.Number
