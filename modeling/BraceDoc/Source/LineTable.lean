import BraceDoc.Source.Position

/-!
# Line tables

A line table holds the offsets at which the lines of a text begin, and finds the position of an
offset by bisection. An offset behind the end counts as the end, one inside a character as the start
of that character. Every index, difference and cut on the way is checked: `position?` is none where
one of them is out of range, which never happens in the table of a text.
-/

set_option autoImplicit false

namespace BraceDoc

structure LineTable where
  text : List Char
  /-- The offsets of the first characters of the lines, in increasing order. -/
  starts : Array Nat

namespace LineTable

/-- The offsets behind the line feeds among bytes that begin at `offset`. -/
def startsFrom (offset : Nat) : List UInt8 → List Nat
  | [] => []
  | b :: bytes =>
    if b = 10 then (offset + 1) :: startsFrom (offset + 1) bytes else startsFrom (offset + 1) bytes

def ofText (cs : List Char) : LineTable :=
  ⟨cs, (0 :: startsFrom 0 (cs.flatMap String.utf8EncodeChar)).toArray⟩

def lineCount (t : LineTable) : Nat :=
  t.starts.size

/-! ## Bisection -/

/-- Where a number stands among increasing entries: at an index, or in the gap before an index. -/
inductive Rank where
  | hit (index : Nat)
  | gap (index : Nat)

def bisect (entries : Array Nat) (target low high : Nat) (hHigh : high ≤ entries.size) : Rank :=
  if hLow : low < high then
    have hMiddle : (low + high) / 2 < entries.size := by omega
    if entries[(low + high) / 2] = target then
      .hit ((low + high) / 2)
    else if entries[(low + high) / 2] < target then
      bisect entries target ((low + high) / 2 + 1) high hHigh
    else
      bisect entries target low ((low + high) / 2) (Nat.le_of_lt hMiddle)
  else
    .gap low
termination_by high - low

/-- The index of the last entry that is not above the target. -/
def Rank.last? : Rank → Option Nat
  | .hit index => some index
  | .gap 0 => none
  | .gap (index + 1) => some index

/-! ## Cutting a text at offsets -/

/-- The longest beginning of a text that takes at most `size` bytes. -/
def within (size : Nat) : List Char → List Char
  | [] => []
  | c :: cs => if c.utf8Size ≤ size then c :: within (size - c.utf8Size) cs else []

def beyond (size : Nat) (cs : List Char) : List Char :=
  cs.drop (within size cs).length

/-- Whether an offset lies between two characters of a text or at one of its ends. -/
def isBoundary (offset : Nat) : List Char → Bool
  | [] => offset == 0
  | c :: cs => offset == 0 || c.utf8Size ≤ offset && isBoundary (offset - c.utf8Size) cs

/-- The last boundary up to an offset, found by stepping back. -/
def boundary? (cs : List Char) : Nat → Option Nat
  | 0 => if isBoundary 0 cs then some 0 else none
  | offset + 1 => if isBoundary (offset + 1) cs then some (offset + 1) else boundary? cs offset

def slice? (start stop : Nat) (cs : List Char) : Option (List Char) :=
  if start ≤ stop && isBoundary start cs && isBoundary stop cs then
    some (within (stop - start) (beyond start cs))
  else
    none

/-! ## Positions -/

def position? (t : LineTable) (offset : Nat) : Option Position := do
  let place ← boundary? t.text (min offset (Text.byteLength t.text))
  let line ← (bisect t.starts place 0 t.starts.size (Nat.le_refl _)).last?
  let start ← t.starts[line]?
  let stretch ← slice? start place t.text
  return ⟨UInt32.ofNat line + 1, UInt32.ofNat (stretch.length + 1), place⟩

def position (t : LineTable) (offset : Nat) : Position :=
  (t.position? offset).getD Position.first

def span (t : LineTable) (start stop : Nat) : Span :=
  ⟨t.position start, t.position stop⟩

end LineTable

end BraceDoc
