/-!
# UTF-8

Texts as bytes, and bytes as texts. Bytes that are no UTF-8 are read piece by piece: each longest
beginning of a character that goes wrong counts as one replacement character.
-/

set_option autoImplicit false

namespace BraceDoc.Text

abbrev Bytes : Type :=
  List UInt8

def encode (s : String) : Bytes :=
  s.toUTF8.toList

def replacement : Char :=
  Char.ofNat 0xFFFD

/-- The least and greatest second byte of a character that begins with `first`, and the number of
bytes behind the first one. -/
def leadRange? (first : Nat) : Option (Nat × Nat × Nat) :=
  if 0xC2 ≤ first && first ≤ 0xDF then some (0x80, 0xBF, 1)
  else if first = 0xE0 then some (0xA0, 0xBF, 2)
  else if first = 0xED then some (0x80, 0x9F, 2)
  else if 0xE1 ≤ first && first ≤ 0xEF then some (0x80, 0xBF, 2)
  else if first = 0xF0 then some (0x90, 0xBF, 3)
  else if 0xF1 ≤ first && first ≤ 0xF3 then some (0x80, 0xBF, 3)
  else if first = 0xF4 then some (0x80, 0x8F, 3)
  else none

def leadBits (first count : Nat) : Nat :=
  first % Nat.pow 2 (6 - count)

/-- Reads `count` more bytes of a character whose bits so far are `bits`; the next byte lies between
`low` and `high`. -/
def tail? (low high bits : Nat) : Nat → Bytes → Option Nat × Bytes
  | 0, rest => (some bits, rest)
  | _ + 1, [] => (none, [])
  | count + 1, b :: rest =>
    if low ≤ b.toNat && b.toNat ≤ high then
      tail? 0x80 0xBF (bits * 64 + b.toNat % 64) count rest
    else
      (none, b :: rest)

/-- The first character, or none where it goes wrong, and the bytes behind it. -/
def nextChar? (first : UInt8) (rest : Bytes) : Option Char × Bytes :=
  let n := first.toNat
  if n < 0x80 then
    (some (Char.ofNat n), rest)
  else
    match leadRange? n with
    | none => (none, rest)
    | some (low, high, count) =>
      let (code, rest) := tail? low high (leadBits n count) count rest
      (code.map Char.ofNat, rest)

theorem length_tail?_snd (low high bits count : Nat) (rest : Bytes) :
    (tail? low high bits count rest).2.length ≤ rest.length := by
  induction rest generalizing low high bits count with
  | nil => cases count <;> exact Nat.le_refl _
  | cons b rest ih =>
    cases count with
    | zero => exact Nat.le_refl _
    | succ count =>
      rw [tail?]
      split
      · exact Nat.le_succ_of_le (ih _ _ _ _)
      · exact Nat.le_refl _

theorem length_nextChar?_snd (first : UInt8) (rest : Bytes) :
    (nextChar? first rest).2.length ≤ rest.length := by
  simp only [nextChar?]
  split
  · exact Nat.le_refl _
  · split
    · exact Nat.le_refl _
    · exact length_tail?_snd _ _ _ _ _

/-- The characters of a byte sequence, with none for each place where it goes wrong. -/
def decodeChars : Bytes → List (Option Char)
  | [] => []
  | first :: rest =>
    (nextChar? first rest).1 :: decodeChars (nextChar? first rest).2
termination_by bytes => bytes.length
decreasing_by
  have hNext := length_nextChar?_snd first rest
  simp only [List.length_cons]
  omega

def decode? (bytes : Bytes) : Option String :=
  ((decodeChars bytes).mapM id).map String.ofList

def decodeLossy (bytes : Bytes) : String :=
  String.ofList ((decodeChars bytes).map fun c => c.getD replacement)

end BraceDoc.Text
