import Mathlib.Data.List.Induction
import BraceDoc.Source.LineTable

/-!
# Byte offsets

The byte length of a text is additive, it is the size of the text in UTF-8, and advancing over a
text moves the offset by it. Lines and columns are those of the text in 32 bits, and so the true
numbers as long as the text is short enough.
-/

set_option autoImplicit false

namespace BraceDoc

namespace Text

@[simp]
theorem byteLength_append (cs ds : List Char) :
    byteLength (cs ++ ds) = byteLength cs + byteLength ds := by
  induction cs with
  | nil => rw [List.nil_append, byteLength, Nat.zero_add]
  | cons c cs ih => rw [List.cons_append, byteLength, byteLength, ih, Nat.add_assoc]

theorem byteLength_ofList (cs : List Char) : (String.ofList cs).utf8ByteSize = byteLength cs := by
  induction cs with
  | nil => rfl
  | cons c cs ih =>
    have hSplit : String.ofList (c :: cs) = String.singleton c ++ String.ofList cs := by
      rw [← String.toList_inj]
      simp
    rw [hSplit, String.utf8ByteSize_append, String.utf8ByteSize_singleton, ih, byteLength]

theorem byteLength_toList (s : String) : byteLength s.toList = s.utf8ByteSize := by
  rw [← byteLength_ofList, String.ofList_toList]

/-- A character of ASCII takes one byte, so a repeated one takes as many bytes as it stands
there. -/
theorem byteLength_replicate {c : Char} (hSize : c.utf8Size = 1) (n : Nat) :
    byteLength (List.replicate n c) = n := by
  induction n with
  | zero => rfl
  | succ n ih => rw [List.replicate_succ, byteLength, ih, hSize, Nat.add_comm]

theorem length_le_byteLength (cs : List Char) : cs.length ≤ byteLength cs := by
  induction cs with
  | nil => exact Nat.le_refl _
  | cons c cs ih =>
    have hPos := c.utf8Size_pos
    rw [List.length_cons, byteLength]
    omega

end Text

namespace Position

@[simp]
theorem offset_step (p : Position) (c : Char) : (p.step c).offset = p.offset + c.utf8Size := by
  unfold step
  split
  · rfl
  · rfl

@[simp]
theorem offset_advance (p : Position) (cs : List Char) :
    (p.advance cs).offset = p.offset + Text.byteLength cs := by
  induction cs generalizing p with
  | nil => rfl
  | cons c cs ih => rw [advance_cons, ih, offset_step, Text.byteLength, Nat.add_assoc]

theorem offset_advance_first (cs : List Char) :
    (first.advance cs).offset = Text.byteLength cs := by
  rw [offset_advance]
  exact Nat.zero_add _

def lastLine (cs : List Char) : List Char :=
  (cs.reverse.takeWhile (· ≠ '\n')).reverse

theorem lastLine_concat_lineFeed (cs : List Char) : lastLine (cs ++ ['\n']) = [] := by
  simp [lastLine]

theorem lastLine_concat {c : Char} (hOther : c ≠ '\n') (cs : List Char) :
    lastLine (cs ++ [c]) = lastLine cs ++ [c] := by
  simp [lastLine, hOther]

theorem length_lastLine_le (cs : List Char) : (lastLine cs).length ≤ cs.length := by
  have hTaken := (List.takeWhile_sublist (l := cs.reverse) (· ≠ '\n')).length_le
  rwa [List.length_reverse, ← List.length_reverse] at hTaken

theorem advance_first (cs : List Char) :
    first.advance cs =
      ⟨UInt32.ofNat (cs.count '\n' + 1), UInt32.ofNat ((lastLine cs).length + 1),
        Text.byteLength cs⟩ := by
  induction cs using List.reverseRecOn with
  | nil => rfl
  | append_singleton cs c ih =>
    rw [advance_append, ih, advance_cons, advance_nil, step, Text.byteLength_append,
      List.count_append]
    split
    · rename_i hLine
      subst hLine
      rw [lastLine_concat_lineFeed, List.count_singleton_self,
        UInt32.ofNat_add (cs.count '\n' + 1) 1]
      rfl
    · rename_i hOther
      rw [lastLine_concat hOther, List.count_singleton, if_neg (by simpa using hOther),
        List.length_append, List.length_singleton, UInt32.ofNat_add ((lastLine cs).length + 1) 1]
      rfl

/-- Lines and columns are the numbers of what was passed, and have not gone on from zero. -/
structure Counts (p : Position) (cs : List Char) : Prop where
  line : p.line.toNat = cs.count '\n' + 1
  column : p.column.toNat = (lastLine cs).length + 1

theorem counts_advance {cs : List Char} (hSize : Text.byteLength cs + 1 < UInt32.size) :
    (first.advance cs).Counts cs := by
  have hLength := Text.length_le_byteLength cs
  have hLines : cs.count '\n' ≤ cs.length := List.count_le_length
  have hColumns := length_lastLine_le cs
  rw [advance_first]
  exact ⟨UInt32.toNat_ofNat_of_lt' (by omega), UInt32.toNat_ofNat_of_lt' (by omega)⟩

end Position

theorem LineTable.within_append (before after : List Char) :
    within (Text.byteLength before) (before ++ after) = before := by
  induction before with
  | nil =>
    cases after with
    | nil => rfl
    | cons c cs =>
      rw [List.nil_append, Text.byteLength, within, if_neg]
      exact Nat.not_le.mpr c.utf8Size_pos
  | cons c before ih =>
    rw [List.cons_append, Text.byteLength, within, if_pos (Nat.le_add_right _ _),
      Nat.add_sub_cancel_left, ih]

/-- The bytes of the span are those of `text`. -/
def Span.Covers (span : Span) (source text : List Char) : Prop :=
  ∃ before after, source = before ++ text ++ after ∧
    span.start.offset = Text.byteLength before ∧ span.stop.offset = Text.byteLength (before ++ text)

end BraceDoc
