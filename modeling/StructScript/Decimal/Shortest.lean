/-!
# Shortest decimals

The decimal with the fewest digits that is read back as a given binary floating-point value, and of
several such decimals the nearest to the value. All comparisons are made on naturals, so they are
exact.

A positive value stands for every real that is rounded to it: its *interval* reaches half-way to
each neighbour, and holds its ends when the mantissa is even. Below a power of two the neighbour is
half as far away as above. Decimals of `n` digits form a grid; if a point of the grid lies in the
interval, so does one of the two grid points around the value, so only these two are tried, for one
digit, two digits, and so on.

Main definitions:

* `Magnitude`, a positive binary value with its interval;
* `Magnitude.shortest`, the digits and the exponent of ten.
-/

namespace StructScript.Decimal

/-- The number `digits · 10 ^ exponent`. -/
structure Scientific where
  digits : Nat
  exponent : Int
  deriving DecidableEq, Repr

/-- The finite value `mantissa · 2 ^ exponent`. The flag says that the next value below is half as
far away as the next one above. -/
structure Magnitude where
  mantissa : Nat
  exponent : Int
  narrowBelow : Bool
  deriving DecidableEq, Repr

namespace Magnitude

/-- The value without its sign that the bits of a finite double stand for. -/
def ofBits (bits : UInt64) : Magnitude :=
  let biased := ((bits >>> 52) &&& 0x7FF).toNat
  let fraction := (bits &&& 0xFFFFFFFFFFFFF).toNat
  if biased = 0 then ⟨fraction, -1074, false⟩
  else ⟨0x10000000000000 + fraction, (biased : Int) - 1075, fraction = 0 && 1 < biased⟩

/-- The numerator of the number with `quarters` quarters of a unit in the last place. -/
def numerator (x : Magnitude) (quarters : Nat) : Nat := quarters * Nat.pow 2 (x.exponent - 2).toNat

/-- The denominator that goes with `numerator`. -/
def denominator (x : Magnitude) : Nat := Nat.pow 2 (2 - x.exponent).toNat

/-- Quarters of a unit in the last place at the lower end of the interval. -/
def lowerQuarters (x : Magnitude) : Nat :=
  if x.narrowBelow then 4 * x.mantissa - 1 else 4 * x.mantissa - 2

/-- Quarters of a unit in the last place at the upper end of the interval. -/
def upperQuarters (x : Magnitude) : Nat := 4 * x.mantissa + 2

/-- Whether the decimal lies in the interval, and so is read back as `x`. -/
def readsBack (x : Magnitude) (d : Scientific) : Bool :=
  let point := d.digits * Nat.pow 10 d.exponent.toNat * x.denominator
  let scale := Nat.pow 10 (-d.exponent).toNat
  let lower := x.numerator x.lowerQuarters * scale
  let upper := x.numerator x.upperQuarters * scale
  if x.mantissa % 2 = 0 then lower ≤ point && point ≤ upper
  else lower < point && point < upper

/-- The number of decimal digits of a natural, none for zero. -/
def digitCount (n : Nat) : Nat := if n = 0 then 0 else (Nat.toDigits 10 n).length

/-- The least `k` such that the value `num / den` is below `10 ^ k`, for a positive value. -/
def scale (num den : Nat) : Int :=
  if den ≤ num then (digitCount (num / den) : Int) else 1 - (digitCount ((den - 1) / num) : Int)

/-- The two points around the value on the grid of multiples of `10 ^ k`, and whether the lower one
is strictly nearer. -/
def neighbours (x : Magnitude) (k : Int) : Scientific × Scientific × Bool :=
  let num := x.numerator (4 * x.mantissa) * Nat.pow 10 (-k).toNat
  let den := x.denominator * Nat.pow 10 k.toNat
  let below := num / den
  (⟨below, k⟩, ⟨below + 1, k⟩, 2 * (num % den) < den)

/-- The point of the grid that is read back as `x`: the nearer of two, and the upper one if both are
equally near. -/
def onGrid? (x : Magnitude) (k : Int) : Option Scientific :=
  let (below, above, lowerNearer) := x.neighbours k
  match x.readsBack below, x.readsBack above with
  | true, true => some (if lowerNearer then below else above)
  | true, false => some below
  | false, true => some above
  | false, false => none

/-- Search the grids of `n`, `n + 1`, … digits. Should none of the next `tries` grids have a point
in the interval, the value itself is given with all its digits. -/
def search (x : Magnitude) (top : Int) (n : Nat) : Nat → Scientific
  | 0 =>
    ⟨x.mantissa * Nat.pow 2 x.exponent.toNat * Nat.pow 5 (-x.exponent).toNat, min x.exponent 0⟩
  | tries + 1 =>
    match x.onGrid? (top - n) with
    | some d => d
    | none => x.search top (n + 1) tries

/-- The fewest digits that are read back as `x`, and of those the nearest. Seventeen digits are
enough for every double. -/
def shortest (x : Magnitude) : Scientific :=
  if x.mantissa = 0 then ⟨0, 0⟩
  else x.search (scale (x.numerator (4 * x.mantissa)) x.denominator) 1 17

end Magnitude

end StructScript.Decimal
