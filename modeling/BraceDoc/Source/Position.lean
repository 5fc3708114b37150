import BraceDoc.Text.Cut

/-!
# Positions in a source text

Lines and columns count from one, columns in characters; offsets count bytes of the UTF-8 form from
zero. Lines and columns are kept in 32 bits and go on from zero when these are used up. A span is
half open: its last position is the first one behind it.
-/

set_option autoImplicit false

namespace BraceDoc

structure Position where
  line : UInt32
  column : UInt32
  offset : Nat
  deriving DecidableEq, Inhabited

structure Span where
  start : Position
  stop : Position
  deriving DecidableEq, Inhabited

namespace Position

def first : Position :=
  ⟨1, 1, 0⟩

def step (p : Position) (c : Char) : Position :=
  if c = '\n' then
    ⟨p.line + 1, 1, p.offset + c.utf8Size⟩
  else
    ⟨p.line, p.column + 1, p.offset + c.utf8Size⟩

def advance (p : Position) (cs : List Char) : Position :=
  cs.foldl step p

def text (p : Position) : String :=
  toString p.line.toNat ++ ":" ++ toString p.column.toNat

@[simp]
theorem advance_nil (p : Position) : p.advance [] = p := rfl

@[simp]
theorem advance_cons (p : Position) (c : Char) (cs : List Char) :
    p.advance (c :: cs) = (p.step c).advance cs := rfl

theorem advance_append (p : Position) (cs ds : List Char) :
    p.advance (cs ++ ds) = (p.advance cs).advance ds :=
  List.foldl_append

end Position

namespace Span

def byteLength (s : Span) : Nat :=
  s.stop.offset - s.start.offset

def isEmpty (s : Span) : Bool :=
  s.byteLength == 0

def containsOffset (s : Span) (offset : Nat) : Bool :=
  s.start.offset ≤ offset && offset < s.stop.offset

end Span

end BraceDoc
