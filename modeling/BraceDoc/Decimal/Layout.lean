import BraceDoc.Decimal.Shortest

/-!
# The written form of numbers

Digits are ASCII digits here. A decimal is read as the double precision number nearest to it.

A number whose leading digit stands for `10 ^ e` with `-5 ≤ e ≤ 15` is written in positional
notation, with a point and at least one digit on either side of it. Other numbers are written with
an exponent, which always has a sign; the point is left out behind a single digit.
-/

set_option autoImplicit false

namespace BraceDoc

/-! ## Reading -/

namespace Decimal

def isDigit (c : Char) : Bool :=
  '0' ≤ c && c ≤ '9'

def natOfDigits (digits : List Char) : Nat :=
  digits.foldl (fun n c => 10 * n + (c.toNat - '0'.toNat)) 0

/-- The decimal `whole.fraction * 10 ^ exponent`. -/
def ofDigits (whole fraction : List Char) (exponent : Int) : Decimal :=
  ⟨natOfDigits (whole ++ fraction), exponent - fraction.length⟩

/-- The nearest double precision number, infinite where the range is exceeded. -/
def toFloat (d : Decimal) : Float :=
  Float.ofScientific d.coefficient (decide (d.exponent < 0)) d.exponent.natAbs

end Decimal

/-! ## Writing -/

def leastPositional : Int := -5

def mostPositional : Int := 15

namespace Decimal

/-- The digits without trailing zeros, and the exponent of the leading digit. -/
def digits (d : Decimal) : List Char × Int :=
  let all := Nat.toDigits 10 d.coefficient
  let significant := (all.reverse.dropWhile (· = '0')).reverse
  (significant, d.exponent + all.length - 1)

def zeros (count : Nat) : List Char :=
  List.replicate count '0'

def text (d : Decimal) : List Char :=
  let (digits, exponent) := d.digits
  if leastPositional ≤ exponent && exponent ≤ mostPositional then
    if exponent < 0 then
      '0' :: '.' :: zeros (-exponent - 1).toNat ++ digits
    else
      let whole := exponent.toNat + 1
      if digits.length ≤ whole then
        digits ++ zeros (whole - digits.length) ++ ['.', '0']
      else
        digits.take whole ++ '.' :: digits.drop whole
  else
    let fraction := digits.drop 1
    let point := if fraction.isEmpty then [] else ['.']
    let sign := if exponent < 0 then '-' else '+'
    digits.take 1 ++ point ++ fraction ++ 'e' :: sign :: Nat.toDigits 10 exponent.natAbs

end Decimal

/-- The shortest text that reads back as the same double precision number. -/
def floatText (x : Float) : List Char :=
  let sign := if x.toBits.toNat ≥ Nat.pow 2 63 then ['-'] else []
  if x == 0 then sign ++ ['0', '.', '0'] else sign ++ (Binary.ofFloat x).shortest.text

def float32Text (x : Float32) : List Char :=
  let sign := if x.toBits.toNat ≥ Nat.pow 2 31 then ['-'] else []
  if x == 0 then sign ++ ['0', '.', '0'] else sign ++ (Binary.ofFloat32 x).shortest.text

/-- A non-negative single precision number with a fixed number of digits behind the point. -/
def fixedText (places : Nat) (x : Float32) : List Char :=
  let units := Nat.toDigits 10 ((Binary.ofFloat32 x).roundedUnits places)
  let padded := Decimal.zeros (places + 1 - units.length) ++ units
  padded.take (padded.length - places) ++ '.' :: padded.drop (padded.length - places)

end BraceDoc
