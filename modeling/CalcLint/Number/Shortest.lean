import CalcLint.Number.Binary64

/-!
# Shortest decimal numerals

A binary number is written with the fewest digits that read back as the same number, and among
those with the digits nearest to it.
-/
namespace CalcLint

/-- A decimal numeral: `coefficient * 10 ^ power`. -/
structure DecimalNumeral where
  coefficient : Nat
  power : Int
  deriving DecidableEq, Repr

/-- Drop the zeros at the end of a coefficient, of which there are at most `fuel`. -/
def DecimalNumeral.trim (n : DecimalNumeral) : Nat → DecimalNumeral
  | 0 => n
  | fuel + 1 =>
    if n.coefficient ≠ 0 ∧ n.coefficient % 10 = 0 then
      DecimalNumeral.trim ⟨n.coefficient / 10, n.power + 1⟩ fuel
    else n

/-- The numeral of `digits` digits nearest to `num / den`, which lies below `10 ^ top`, among its
two neighbours that read back as `target`. -/
def nearestNumeral? (target : Binary64) (num den : Nat) (top : Int) (digits : Nat) :
    Option DecimalNumeral :=
  let power := top - digits
  let scaled := scaleFraction 10 (-power) num den
  let below := scaled.1 / scaled.2
  let readsBack (c : Nat) : Bool := decide (Binary64.ofDecimal false c power = target)
  let nearest := roundDiv scaled.1 scaled.2
  let other := if nearest = below then below + 1 else below
  if readsBack nearest then some ⟨nearest, power⟩
  else if readsBack other then some ⟨other, power⟩
  else none

/-- The shortest numeral of the positive number `significand * 2 ^ exponent`. -/
def shortestNumeral (significand : Nat) (exponent : Int) : DecimalNumeral :=
  let value := scaleFraction 2 exponent significand 1
  let guess := ((value.1.log2 : Int) - (value.2.log2 : Int)) * 30103 / 100000
  let top := floorLog 10 value.1 value.2 guess 3 + 1
  let target := Binary64.finite false significand exponent
  let found := (List.range 17).findSome? fun i =>
    nearestNumeral? target value.1 value.2 top (i + 1)
  (found.getD ⟨significand, exponent⟩).trim 20

/-- How binary numbers are written. -/
structure NumberFormat where
  /-- Decimal exponents from here on are written positionally, -/
  positionalFrom : Int
  /-- and those from here on no more. -/
  positionalBelow : Int
  /-- Least number of digits of a written exponent. -/
  exponentDigits : Nat
  deriving Repr

/-- Write the digits of a numeral that is not zero. -/
def NumberFormat.writeDigits (format : NumberFormat) (n : DecimalNumeral) : String :=
  let digits := Nat.toDigits 10 n.coefficient
  let exponent : Int := n.power + digits.length - 1
  if format.positionalFrom ≤ exponent ∧ exponent < format.positionalBelow then
    if exponent < 0 then
      String.ofList ("0.".toList ++ List.replicate (-exponent - 1).toNat '0' ++ digits)
    else
      let whole := exponent.toNat + 1
      let padded := digits ++ List.replicate (whole - digits.length) '0'
      let places := padded.drop whole
      String.ofList (padded.take whole ++ ['.'] ++ if places.isEmpty then ['0'] else places)
  else
    let places := digits.drop 1
    let sign := if exponent < 0 then '-' else '+'
    let power := Nat.toDigits 10 exponent.natAbs
    String.ofList (digits.take 1 ++ (if places.isEmpty then [] else '.' :: places) ++ ['e', sign] ++
      List.replicate (format.exponentDigits - power.length) '0' ++ power)

/-- Write a number. -/
def NumberFormat.write (format : NumberFormat) : Binary64 → String
  | .finite negative significand exponent =>
    let sign := if negative then "-" else ""
    if significand = 0 then sign ++ "0.0"
    else sign ++ format.writeDigits (shortestNumeral significand exponent)
  | .infinite negative => if negative then "-inf" else "inf"
  | .notANumber => "nan"

end CalcLint
