/-!
# Shortest decimals of binary numbers

A number of a binary format stands for every real that rounds to it. `shortest` picks, among the
decimals of that interval, one with the fewest digits, and of those the one nearest to the number;
an exact tie goes to the even digit. All arithmetic is exact, on natural numbers.
-/

set_option autoImplicit false

namespace BraceDoc

/-- The positive number `significand * 2 ^ exponent` of a binary format. -/
structure Binary where
  significand : Nat
  exponent : Int
  /-- The gap to the next smaller number of the format is half the gap to the next larger one. -/
  narrowBelow : Bool

/-- The number `coefficient * 10 ^ exponent`. -/
structure Decimal where
  coefficient : Nat
  exponent : Int
  deriving DecidableEq

namespace Binary

/-- The number with its fraction `mantissa` and biased exponent taken out of a format with
`fractionBits` bits of fraction, whose least exponent is `leastExponent`. -/
def ofFields (fractionBits : Nat) (leastExponent : Int) (biased fraction : Nat) : Binary :=
  if biased = 0 then
    ⟨fraction, leastExponent, false⟩
  else
    ⟨Nat.pow 2 fractionBits + fraction, leastExponent + biased - 1, fraction = 0 && biased > 1⟩

def ofFloat (x : Float) : Binary :=
  let bits := x.toBits.toNat
  ofFields 52 (-1074) (bits / Nat.pow 2 52 % Nat.pow 2 11) (bits % Nat.pow 2 52)

def ofFloat32 (x : Float32) : Binary :=
  let bits := x.toBits.toNat
  ofFields 23 (-149) (bits / Nat.pow 2 23 % Nat.pow 2 8) (bits % Nat.pow 2 23)

/-- `quarters * 2 ^ (exponent - 2)` as a fraction: numerator and denominator. -/
def quarterFraction (b : Binary) (quarters : Nat) : Nat × Nat :=
  if b.exponent ≥ 2 then
    (quarters * Nat.pow 2 (b.exponent - 2).toNat, 1)
  else
    (quarters, Nat.pow 2 (2 - b.exponent).toNat)

def inUnits (numerator denominator : Nat) (unit : Int) : Nat × Nat :=
  if unit ≥ 0 then
    (numerator, denominator * Nat.pow 10 unit.toNat)
  else
    (numerator * Nat.pow 10 (-unit).toNat, denominator)

/-- The number of decimal digits of a natural number; zero has none. -/
def digitCount (n : Nat) : Nat :=
  if n = 0 then 0 else (Nat.toDigits 10 n).length

def leadingExponent (numerator denominator : Nat) : Int :=
  if numerator ≥ denominator then
    (digitCount (numerator / denominator) : Int) - 1
  else
    -- The quotient `denominator / numerator` bounds the number of zeros behind the point.
    let places := digitCount (denominator / numerator)
    if numerator * Nat.pow 10 (places - 1) ≥ denominator then
      -((places : Int) - 1)
    else
      -(places : Int)

/-- The decimal with `digits` digits that stands for the number, if there is one. -/
def decimalOfLength? (b : Binary) (digits : Nat) : Option Decimal :=
  let (value, denominator) := b.quarterFraction (4 * b.significand)
  let unit := leadingExponent value denominator + 1 - digits
  let scaled := fun quarters =>
    let (numerator, denominator) := b.quarterFraction quarters
    inUnits numerator denominator unit
  let (value, denominator) := scaled (4 * b.significand)
  let (low, _) := scaled (4 * b.significand - if b.narrowBelow then 1 else 2)
  let (high, _) := scaled (4 * b.significand + 2)
  let closed := b.significand % 2 = 0
  let reads := fun candidate =>
    let point := candidate * denominator
    if closed then low ≤ point && point ≤ high else low < point && point < high
  let below := value / denominator
  let above := below + 1
  let picked :=
    match decide (reads below), decide (reads above) with
    | true, true =>
      let lower := value - below * denominator
      let upper := above * denominator - value
      if lower < upper then some below
      else if upper < lower then some above
      else if below % 2 = 0 then some below else some above
    | true, false => some below
    | false, true => some above
    | false, false => none
  picked.map fun coefficient => ⟨coefficient, unit⟩

/-- The shortest decimal; seventeen digits always suffice in double precision. -/
def shortest (b : Binary) : Decimal :=
  ((List.range 17).findSome? fun n => b.decimalOfLength? (n + 1)).getD ⟨b.significand, 0⟩

/-- The number in units of `10 ^ (-places)`, rounded to the nearest integer, ties to even. -/
def roundedUnits (b : Binary) (places : Nat) : Nat :=
  let (value, denominator) := b.quarterFraction (4 * b.significand)
  let (value, denominator) := inUnits value denominator (-places)
  let below := value / denominator
  let rest := 2 * (value % denominator)
  if rest > denominator || (rest = denominator && below % 2 = 1) then below + 1 else below

end Binary

end BraceDoc
