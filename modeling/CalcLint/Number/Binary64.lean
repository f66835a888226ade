/-!
# Binary floating-point numbers from decimal numerals

A decimal numeral stands for the nearest number of the 64-bit binary format; of two equally near
ones it is the one with the even significand. All arithmetic is exact, on natural numbers.
-/
namespace CalcLint

/-- A number of the 64-bit binary format: `significand * 2 ^ exponent` with a sign. -/
inductive Binary64 where
  | finite (negative : Bool) (significand : Nat) (exponent : Int)
  | infinite (negative : Bool)
  | notANumber
  deriving DecidableEq, Repr

/-- The natural number nearest to `num / den`; a half goes to the even neighbour. -/
def roundDiv (num den : Nat) : Nat :=
  let q := num / den
  let twice := 2 * (num % den)
  if twice < den then q else if den < twice then q + 1 else q + q % 2

/-- `num / den` times `base ^ power`, again as a fraction. -/
def scaleFraction (base : Nat) (power : Int) (num den : Nat) : Nat × Nat :=
  if 0 ≤ power then (num * base.pow power.toNat, den) else (num, den * base.pow (-power).toNat)

/-- The greatest power `k` with `base ^ k ≤ num / den`, if it is within `steps` of `guess`: the
candidates are tried from the greatest down. -/
def floorLog (base num den : Nat) (guess : Int) (steps : Nat) : Int :=
  let reaches (k : Int) : Bool :=
    let f := scaleFraction base k 1 1
    decide (f.1 * den ≤ num * f.2)
  let candidates := (List.range (2 * steps + 1)).map fun (i : Nat) => guess + steps - (i : Int)
  (candidates.find? reaches).getD (guess - (steps : Int))

namespace Binary64

/-- Exponent of the smallest positive number. -/
def minExponent : Int := -1074

/-- Exponent of the greatest finite numbers. -/
def maxExponent : Int := 971

/-- Significands have 53 binary digits. -/
def precision : Nat := 53

/-- Round the positive fraction `num / den`. -/
def roundFraction (negative : Bool) (num den : Nat) : Binary64 :=
  let top := floorLog 2 num den ((num.log2 : Int) - (den.log2 : Int)) 1
  let exponent := max (top - (precision - 1 : Nat)) minExponent
  let scaled := scaleFraction 2 (-exponent) num den
  let significand := roundDiv scaled.1 scaled.2
  let carried := significand == Nat.pow 2 precision
  let exponent := if carried then exponent + 1 else exponent
  let significand := if carried then Nat.pow 2 (precision - 1) else significand
  if maxExponent < exponent then .infinite negative else .finite negative significand exponent

/-- The number nearest to `coefficient * 10 ^ power`. Numerals far outside the range are decided
by their number of digits. -/
def ofDecimal (negative : Bool) (coefficient : Nat) (power : Int) : Binary64 :=
  let digits : Int := (Nat.toDigits 10 coefficient).length
  if coefficient = 0 ∨ digits + power < -330 then .finite negative 0 minExponent
  else if 330 < digits + power then .infinite negative
  else
    let fraction := scaleFraction 10 power coefficient 1
    roundFraction negative fraction.1 fraction.2

end Binary64

end CalcLint
