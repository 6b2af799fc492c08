import StructScript.Decimal.Shortest

/-!
# Decimal text

How numbers are written and read. A floating-point value is written in positional notation, with the
fewest digits that are read back as it, every zero written out, and without a point if it is whole.
The exact value of a decimal text is rounded to the nearest floating-point value.

Main definitions:

* `Decimal.floatText`;
* `Decimal.readNat?`, `Decimal.readFloat?`.
-/

namespace StructScript.Decimal

/-- The digits of a number, the last one first dropped while it is a zero behind the point. -/
def dropTrailingZeros (d : Scientific) : Nat → Scientific
  | 0 => d
  | n + 1 =>
    if d.exponent < 0 ∧ d.digits % 10 = 0 then
      dropTrailingZeros ⟨d.digits / 10, d.exponent + 1⟩ n
    else d

/-- A number in positional notation, without an exponent. -/
def positional (d : Scientific) : String :=
  let d := dropTrailingZeros d 20
  let digits := Nat.toDigits 10 d.digits
  if 0 ≤ d.exponent then
    String.ofList (if d.digits = 0 then ['0']
      else digits ++ List.replicate d.exponent.toNat '0')
  else
    let places := (-d.exponent).toNat
    let padded := List.replicate (places + 1 - digits.length) '0' ++ digits
    let whole := padded.length - places
    String.ofList (padded.take whole ++ '.' :: padded.drop whole)

/-- A floating-point value as text. -/
def floatText (x : Float) : String :=
  if x.isNaN then "NaN"
  else
    let size := if x.isInf then "inf" else positional (Magnitude.ofBits x.toBits).shortest
    if x.toBits >>> 63 = 1 then "-" ++ size else size

/-- The number a list of digits writes, if it is not empty and holds digits only. -/
def readNat? (cs : List Char) : Option Nat :=
  if cs.isEmpty || !cs.all Char.isDigit then none
  else some (cs.foldl (fun n c => 10 * n + (c.toNat - '0'.toNat)) 0)

/-- The floating-point value nearest to `digits . digits`, with an optional minus sign. -/
def readFloat? (text : String) : Option Float :=
  let (negative, cs) := match text.toList with
    | '-' :: rest => (true, rest)
    | cs => (false, cs)
  let whole := cs.takeWhile (· ≠ '.')
  match cs.dropWhile (· ≠ '.') with
  | '.' :: fraction => do
    let _ ← readNat? whole
    let _ ← readNat? fraction
    let digits ← readNat? (whole ++ fraction)
    let x := Float.ofScientific digits true fraction.length
    some (if negative then -x else x)
  | _ => none

end StructScript.Decimal
