import BraceDoc.Json.Basic
import BraceDoc.Decimal.Layout

/-!
# Reading JSON text

A number without fraction and exponent is an integer where it fits into 64 bits, signed or unsigned;
every other number, and the negative zero, is a real. Objects are read with their members in the
order of keys. The recursion is bounded by the length of the text, since every value takes at
least one character.
-/

set_option autoImplicit false

namespace BraceDoc.Json

def skipSpace (cs : List Char) : List Char :=
  cs.dropWhile fun c => c = ' ' || c = '\n' || c = '\r' || c = '\t'

def hexValue? (c : Char) : Option Nat :=
  if '0' ≤ c && c ≤ '9' then some (c.toNat - '0'.toNat)
  else if 'a' ≤ c && c ≤ 'f' then some (c.toNat - 'a'.toNat + 10)
  else if 'A' ≤ c && c ≤ 'F' then some (c.toNat - 'A'.toNat + 10)
  else none

def unit? (a b c d : Char) : Option Nat := do
  return (((← hexValue? a) * 16 + (← hexValue? b)) * 16 + (← hexValue? c)) * 16 + (← hexValue? d)

def simpleEscape? (c : Char) : Option Char :=
  match c with
  | '"' => some '"'
  | '\\' => some '\\'
  | '/' => some '/'
  | 'b' => some (Char.ofNat 0x08)
  | 'f' => some (Char.ofNat 0x0C)
  | 'n' => some '\n'
  | 'r' => some '\r'
  | 't' => some '\t'
  | _ => none

/-- The characters of a string behind its opening quote, and the text behind the closing one. -/
def stringBody? : List Char → Option (List Char × List Char)
  | [] => none
  | '"' :: rest => some ([], rest)
  | '\\' :: 'u' :: a :: b :: c :: d :: '\\' :: 'u' :: e :: f :: g :: h :: rest => do
    let high ← unit? a b c d
    if 0xD800 ≤ high && high < 0xDC00 then
      let low ← unit? e f g h
      guard (0xDC00 ≤ low && low < 0xE000)
      let (body, after) ← stringBody? rest
      return (Char.ofNat (0x10000 + (high - 0xD800) * 0x400 + (low - 0xDC00)) :: body, after)
    else
      guard (high < 0xD800 || 0xE000 ≤ high)
      let (body, after) ← stringBody? ('\\' :: 'u' :: e :: f :: g :: h :: rest)
      return (Char.ofNat high :: body, after)
  | '\\' :: 'u' :: a :: b :: c :: d :: rest => do
    let code ← unit? a b c d
    guard (code < 0xD800 || 0xE000 ≤ code)
    let (body, after) ← stringBody? rest
    return (Char.ofNat code :: body, after)
  | '\\' :: c :: rest => do
    let c ← simpleEscape? c
    let (body, after) ← stringBody? rest
    return (c :: body, after)
  | c :: rest => do
    guard (0x20 ≤ c.toNat)
    let (body, after) ← stringBody? rest
    return (c :: body, after)

def spanDigits (cs : List Char) : List Char × List Char :=
  (cs.takeWhile Decimal.isDigit, cs.dropWhile Decimal.isDigit)

def fraction? (cs : List Char) : Option (Option (List Char) × List Char) :=
  match cs with
  | '.' :: rest =>
    let (digits, after) := spanDigits rest
    if digits.isEmpty then none else some (some digits, after)
  | _ => some (none, cs)

def exponent? (cs : List Char) : Option (Option Int × List Char) :=
  match cs with
  | c :: rest =>
    if c = 'e' || c = 'E' then
      let (negative, rest) :=
        match rest with
        | '-' :: rest => (true, rest)
        | '+' :: rest => (false, rest)
        | rest => (false, rest)
      let (digits, after) := spanDigits rest
      if digits.isEmpty then none
      else
        let size : Int := Decimal.natOfDigits digits
        some (some (if negative then -size else size), after)
    else
      some (none, cs)
  | [] => some (none, [])

def fitsWord (n : Int) : Bool :=
  -(Nat.pow 2 63 : Nat) ≤ n && n < (Nat.pow 2 64 : Nat)

def number? (cs : List Char) : Option (Json × List Char) := do
  let (negative, rest) :=
    match cs with
    | '-' :: rest => (true, rest)
    | rest => (false, rest)
  let (whole, rest) := spanDigits rest
  guard (!whole.isEmpty)
  let (fraction, rest) ← fraction? rest
  let (exponent, rest) ← exponent? rest
  let size : Int := Decimal.natOfDigits whole
  let value := if negative then -size else size
  if fraction.isNone && exponent.isNone && fitsWord value && !(negative && size = 0) then
    return (.int value, rest)
  else
    let x := (Decimal.ofDigits whole (fraction.getD []) (exponent.getD 0)).toFloat
    guard x.isFinite
    return (.real (if negative then -x else x), rest)

mutual

/-- A value at the start of the text, and what follows it. -/
def value? : Nat → List Char → Option (Json × List Char)
  | 0, _ => none
  | fuel + 1, cs =>
    match skipSpace cs with
    | 'n' :: 'u' :: 'l' :: 'l' :: rest => some (.null, rest)
    | 't' :: 'r' :: 'u' :: 'e' :: rest => some (.bool true, rest)
    | 'f' :: 'a' :: 'l' :: 's' :: 'e' :: rest => some (.bool false, rest)
    | '"' :: rest => do
      let (body, rest) ← stringBody? rest
      return (.str (String.ofList body), rest)
    | '[' :: rest =>
      match skipSpace rest with
      | ']' :: rest => some (.arr [], rest)
      | rest => do
        let (items, rest) ← items? fuel rest
        return (.arr items, rest)
    | '\x7b' :: rest =>
      match skipSpace rest with
      | '\x7d' :: rest => some (.obj [], rest)
      | rest => do
        let (members, rest) ← members? fuel rest
        return (.obj (Members.ofList members), rest)
    | rest => number? rest

def items? : Nat → List Char → Option (List Json × List Char)
  | 0, _ => none
  | fuel + 1, cs => do
    let (item, rest) ← value? fuel cs
    match skipSpace rest with
    | ']' :: rest => return ([item], rest)
    | ',' :: rest =>
      let (items, rest) ← items? fuel rest
      return (item :: items, rest)
    | _ => none

def members? : Nat → List Char → Option (List (String × Json) × List Char)
  | 0, _ => none
  | fuel + 1, cs =>
    match skipSpace cs with
    | '"' :: rest => do
      let (key, rest) ← stringBody? rest
      match skipSpace rest with
      | ':' :: rest =>
        let (value, rest) ← value? fuel rest
        let member := (String.ofList key, value)
        match skipSpace rest with
        | '\x7d' :: rest => return ([member], rest)
        | ',' :: rest =>
          let (members, rest) ← members? fuel rest
          return (member :: members, rest)
        | _ => none
      | _ => none
    | _ => none

end

def ofText (text : String) : Option Json := do
  let (value, rest) ← value? (text.length + 1) text.toList
  guard (skipSpace rest).isEmpty
  return value

end BraceDoc.Json
