import Mathlib.Data.List.Induction
import Mathlib.Order.Bounds.Defs
import BraceDoc.Proofs.Source.Offset

/-!
# Positions by table and by replay

The position that a line table finds for an offset is the one reached by advancing over the text up
to the last character boundary that is not behind the offset, and no step of the search can fail.
-/

set_option autoImplicit false

namespace BraceDoc

namespace LineTable

/-! ## Line starts -/

theorem length_flatMap_utf8EncodeChar (cs : List Char) :
    (cs.flatMap String.utf8EncodeChar).length = Text.byteLength cs := by
  induction cs with
  | nil => rfl
  | cons c cs ih =>
    rw [List.flatMap_cons, List.length_append, String.length_utf8EncodeChar, ih, Text.byteLength]

/-- The only byte of a character of one byte is its number; the bytes of the others are high. -/
theorem toNat_of_mem_utf8EncodeChar {c : Char} {b : UInt8} (hMem : b ∈ String.utf8EncodeChar c) :
    b.toNat = c.toNat ∨ 128 ≤ b.toNat := by
  simp only [String.utf8EncodeChar] at hMem
  split at hMem
  · rename_i hSmall
    refine Or.inl ?_
    rw [List.mem_singleton.mp hMem, UInt8.toNat_ofNat']
    exact Nat.mod_eq_of_lt (by omega)
  · refine Or.inr ?_
    split at hMem
    · simp only [List.mem_cons, List.not_mem_nil, or_false] at hMem
      rcases hMem with rfl | rfl <;> (rw [UInt8.toNat_ofNat']; omega)
    · split at hMem
      · simp only [List.mem_cons, List.not_mem_nil, or_false] at hMem
        rcases hMem with rfl | rfl | rfl <;> (rw [UInt8.toNat_ofNat']; omega)
      · simp only [List.mem_cons, List.not_mem_nil, or_false] at hMem
        rcases hMem with rfl | rfl | rfl | rfl <;> (rw [UInt8.toNat_ofNat']; omega)

theorem eq_lineFeed_of_mem {c : Char} (hMem : 10 ∈ String.utf8EncodeChar c) : c = '\n' := by
  rcases toNat_of_mem_utf8EncodeChar hMem with hSame | hHigh
  · exact Char.toNat_inj.mp hSame.symm
  · exact absurd hHigh (by decide)

theorem startsFrom_append (offset : Nat) (bytes more : List UInt8) :
    startsFrom offset (bytes ++ more) =
      startsFrom offset bytes ++ startsFrom (offset + bytes.length) more := by
  induction bytes generalizing offset with
  | nil => rfl
  | cons b bytes ih =>
    have hLength : offset + (b :: bytes).length = offset + 1 + bytes.length := by
      rw [List.length_cons]
      omega
    rw [List.cons_append, startsFrom, startsFrom, ih, hLength]
    split
    · rfl
    · rfl

theorem startsFrom_eq_nil {bytes : List UInt8} (hBytes : 10 ∉ bytes) (offset : Nat) :
    startsFrom offset bytes = [] := by
  induction bytes generalizing offset with
  | nil => rfl
  | cons b bytes ih =>
    obtain ⟨hFirst, hRest⟩ := not_or.mp (mt List.mem_cons.mpr hBytes)
    rw [startsFrom, if_neg (Ne.symm hFirst), ih hRest]

theorem startsFrom_char (offset : Nat) (c : Char) :
    startsFrom offset (String.utf8EncodeChar c) = if c = '\n' then [offset + 1] else [] := by
  split
  · rename_i hLine
    rw [hLine]
    rfl
  · rename_i hOther
    exact startsFrom_eq_nil (mt eq_lineFeed_of_mem hOther) offset

theorem mem_startsFrom {offset start : Nat} {bytes : List UInt8}
    (hMem : start ∈ startsFrom offset bytes) : offset < start ∧ start ≤ offset + bytes.length := by
  induction bytes generalizing offset with
  | nil => cases hMem
  | cons b bytes ih =>
    rw [startsFrom] at hMem
    rw [List.length_cons]
    split at hMem
    · rcases List.mem_cons.mp hMem with rfl | hRest
      · omega
      · have := ih hRest
        omega
    · have := ih hMem
      omega

theorem pairwise_startsFrom (offset : Nat) (bytes : List UInt8) :
    (startsFrom offset bytes).Pairwise (· < ·) := by
  induction bytes generalizing offset with
  | nil => exact .nil
  | cons b bytes ih =>
    rw [startsFrom]
    split
    · exact .cons (fun start hStart => (mem_startsFrom hStart).1) (ih _)
    · exact ih _

theorem pairwise_starts (cs : List Char) : (ofText cs).starts.toList.Pairwise (· < ·) :=
  .cons (fun _ hStart => (mem_startsFrom hStart).1) (pairwise_startsFrom _ _)

theorem starts_append (before after : List Char) :
    (ofText (before ++ after)).starts.toList = (ofText before).starts.toList ++
      startsFrom (Text.byteLength before) (after.flatMap String.utf8EncodeChar) := by
  simp only [ofText, List.flatMap_append, startsFrom_append, length_flatMap_utf8EncodeChar,
    Nat.zero_add, List.cons_append]

theorem starts_snoc (cs : List Char) (c : Char) :
    (ofText (cs ++ [c])).starts.toList = (ofText cs).starts.toList ++
      if c = '\n' then [Text.byteLength cs + 1] else [] := by
  rw [starts_append, List.flatMap_singleton, startsFrom_char]

/-- Where the last line of a text begins, and how many lines there are before it. -/
theorem exists_last_line (cs : List Char) :
    ∃ (earlier : List Nat) (front line : List Char), cs = front ++ line ∧
      (ofText cs).starts.toList = earlier ++ [Text.byteLength front] ∧
      earlier.length = cs.count '\n' ∧ line = Position.lastLine cs := by
  induction cs using List.reverseRecOn with
  | nil => exact ⟨[], [], [], rfl, rfl, rfl, rfl⟩
  | append_singleton cs c ih =>
    obtain ⟨earlier, front, line, hText, hStarts, hEarlier, hLine⟩ := ih
    rw [starts_snoc, hStarts, List.count_append, ← hEarlier]
    split
    · rename_i hFeed
      subst hFeed
      refine ⟨earlier ++ [Text.byteLength front], cs ++ ['\n'], [], by simp, ?_, by simp, ?_⟩
      · rw [Text.byteLength_append]
        rfl
      · rw [Position.lastLine_concat_lineFeed]
    · rename_i hOther
      refine ⟨earlier, front, line ++ [c], by rw [hText, List.append_assoc], by simp, ?_, ?_⟩
      · rw [List.count_singleton, if_neg (by simpa using hOther), Nat.add_zero]
      · rw [Position.lastLine_concat hOther, hLine]

/-! ## Bisection -/

def Rank.count : Rank → Nat
  | .hit index => index + 1
  | .gap index => index

theorem Rank.last?_of_count {r : Rank} {n : Nat} (hCount : r.count = n + 1) : r.last? = some n := by
  cases r with
  | hit index => exact congrArg some (Nat.succ.inj hCount)
  | gap index =>
    cases hCount
    rfl

theorem getElem_lt_of_sorted {entries : Array Nat} (hSorted : entries.toList.Pairwise (· < ·))
    {i j : Nat} (hi : i < entries.size) (hj : j < entries.size) (hLess : i < j) :
    entries[i] < entries[j] :=
  List.pairwise_iff_getElem.mp hSorted i j hi hj hLess

/-- The entries before `low` are known to be smaller, those from `high` on to be greater. -/
theorem count_bisect {entries : Array Nat} (hSorted : entries.toList.Pairwise (· < ·))
    (target low high : Nat) (hHigh : high ≤ entries.size) (hLow : low ≤ high)
    (hBelow : ∀ i (_ : i < entries.size), i < low → entries[i] < target)
    (hAbove : ∀ i (_ : i < entries.size), high ≤ i → target < entries[i]) :
    (bisect entries target low high hHigh).count ≤ entries.size ∧
      ∀ i (_ : i < entries.size),
        entries[i] ≤ target ↔ i < (bisect entries target low high hHigh).count := by
  fun_induction bisect entries target low high hHigh with
  | case1 low high hHigh hWindow hMiddle hSame =>
    refine ⟨hMiddle, fun i hi => ?_⟩
    rw [Rank.count]
    rcases Nat.lt_trichotomy i ((low + high) / 2) with hLess | hEq | hLess
    · have := getElem_lt_of_sorted hSorted hi hMiddle hLess
      omega
    · subst hEq
      omega
    · have := getElem_lt_of_sorted hSorted hMiddle hi hLess
      omega
  | case2 low high hHigh hWindow hMiddle hOther hSmall ih =>
    refine ih (by omega) (fun i hi hBefore => ?_) hAbove
    rcases Nat.lt_or_eq_of_le (Nat.le_of_lt_succ hBefore) with hLess | rfl
    · exact Nat.lt_trans (getElem_lt_of_sorted hSorted hi hMiddle hLess) hSmall
    · exact hSmall
  | case3 low high hHigh hWindow hMiddle hOther hLarge ih =>
    have hMore : target < entries[(low + high) / 2] := by omega
    refine ih (by omega) hBelow (fun i hi hFrom => ?_)
    rcases Nat.lt_or_eq_of_le hFrom with hLess | rfl
    · exact Nat.lt_trans hMore (getElem_lt_of_sorted hSorted hMiddle hi hLess)
    · exact hMore
  | case4 low high hHigh hDone =>
    refine ⟨by rw [Rank.count]; omega, fun i hi => ?_⟩
    rw [Rank.count]
    constructor
    · intro hLe
      by_contra hFrom
      have := hAbove i hi (by omega)
      omega
    · intro hBefore
      exact Nat.le_of_lt (hBelow i hi hBefore)

/-- The search finds the last of the entries that are not above the target. -/
theorem last?_bisect {entries : Array Nat} {target last : Nat} {earlier later : List Nat}
    (hSorted : entries.toList.Pairwise (· < ·))
    (hEntries : entries.toList = earlier ++ last :: later) (hLast : last ≤ target)
    (hLater : ∀ e ∈ later, target < e) :
    (bisect entries target 0 entries.size (Nat.le_refl _)).last? = some earlier.length := by
  obtain ⟨hSize, hCount⟩ :=
    count_bisect hSorted target 0 entries.size (Nat.le_refl _) (Nat.zero_le _)
    (fun i _ hBefore => absurd hBefore (Nat.not_lt_zero i)) (fun i hi hFrom => absurd hi (by omega))
  apply Rank.last?_of_count
  have hLength : entries.size = earlier.length + (later.length + 1) := by
    rw [← Array.length_toList, hEntries, List.length_append, List.length_cons]
  have hAt : ∀ i (hi : i < entries.size), entries[i] = (earlier ++ last :: later)[i]?.getD 0 := by
    intro i hi
    rw [← hEntries, Array.getElem?_toList, Array.getElem?_eq_getElem hi, Option.getD_some]
  apply Nat.le_antisymm
  · by_contra hMore
    have hi : earlier.length + 1 < entries.size := by omega
    have hLe := (hCount _ hi).mpr (by omega)
    cases later with
    | nil =>
      rw [List.length_nil] at hLength
      omega
    | cons e later =>
      have hMore := hLater e List.mem_cons_self
      have hEntry : entries[earlier.length + 1] = e := by
        rw [hAt _ hi]
        simp
      omega
  · have hi : earlier.length < entries.size := by omega
    have hLe : entries[earlier.length] ≤ target := by
      rw [hAt _ hi]
      simpa using hLast
    exact (hCount _ hi).mp hLe

/-! ## Boundaries -/

theorem isBoundary_iff (offset : Nat) (cs : List Char) :
    isBoundary offset cs = true ↔
      ∃ before after, cs = before ++ after ∧ Text.byteLength before = offset := by
  induction cs generalizing offset with
  | nil =>
    rw [isBoundary, beq_iff_eq]
    constructor
    · rintro rfl
      exact ⟨[], [], rfl, rfl⟩
    · rintro ⟨before, after, hText, rfl⟩
      rw [(List.append_eq_nil_iff.mp hText.symm).1]
      rfl
  | cons c cs ih =>
    rw [isBoundary, Bool.or_eq_true, beq_iff_eq, Bool.and_eq_true, decide_eq_true_eq, ih]
    constructor
    · rintro (rfl | ⟨hFits, before, after, hText, hBytes⟩)
      · exact ⟨[], c :: cs, rfl, rfl⟩
      · refine ⟨c :: before, after, by rw [hText, List.cons_append], ?_⟩
        rw [Text.byteLength]
        omega
    · rintro ⟨before, after, hText, rfl⟩
      cases before with
      | nil => exact Or.inl rfl
      | cons d before =>
        obtain ⟨rfl, hRest⟩ := List.cons.inj hText
        refine Or.inr ⟨Nat.le_add_right _ _, before, after, hRest, ?_⟩
        rw [Text.byteLength, Nat.add_sub_cancel_left]

theorem isBoundary_append (before after : List Char) :
    isBoundary (Text.byteLength before) (before ++ after) = true :=
  (isBoundary_iff _ _).mpr ⟨before, after, rfl, rfl⟩

/-- Stepping back ends at the boundary behind the longest beginning that fits. -/
theorem exists_boundary? (cs : List Char) (offset : Nat) :
    ∃ before after, cs = before ++ after ∧ boundary? cs offset = some (Text.byteLength before) ∧
      Text.byteLength before ≤ offset ∧
      ∀ front back, cs = front ++ back → Text.byteLength front ≤ offset →
        Text.byteLength front ≤ Text.byteLength before := by
  induction offset with
  | zero =>
    have hBoundary : isBoundary 0 cs = true := isBoundary_append [] cs
    refine ⟨[], cs, rfl, ?_, Nat.le_refl _, fun front back _ hFits => hFits⟩
    rw [boundary?, if_pos hBoundary]
    rfl
  | succ offset ih =>
    rw [boundary?]
    split
    · rename_i hBoundary
      obtain ⟨before, after, hText, hBytes⟩ := (isBoundary_iff _ _).mp hBoundary
      rw [← hBytes]
      exact ⟨before, after, hText, rfl, Nat.le_refl _, fun front back _ hFits => hFits⟩
    · rename_i hInside
      obtain ⟨before, after, hText, hFound, hFits, hGreatest⟩ := ih
      refine ⟨before, after, hText, hFound, Nat.le_succ_of_le hFits, ?_⟩
      intro front back hFront hLe
      apply hGreatest front back hFront
      -- the offset itself is no boundary
      have hOther : Text.byteLength front ≠ offset + 1 := by
        intro hBytes
        exact hInside ((isBoundary_iff _ _).mpr ⟨front, back, hFront, hBytes⟩)
      omega

theorem slice?_append (front line after : List Char) :
    slice? (Text.byteLength front) (Text.byteLength (front ++ line)) (front ++ line ++ after) =
      some line := by
  have hFront : isBoundary (Text.byteLength front) (front ++ line ++ after) = true := by
    rw [List.append_assoc]
    exact isBoundary_append front _
  have hLine := isBoundary_append (front ++ line) after
  have hLe : Text.byteLength front ≤ Text.byteLength (front ++ line) := by
    rw [Text.byteLength_append]
    omega
  rw [slice?, if_pos (by rw [hFront, hLine, decide_eq_true hLe]; rfl), beyond, List.append_assoc,
    within_append, List.drop_left, Text.byteLength_append, Nat.add_sub_cancel_left, within_append]

/-! ## Positions -/

theorem position?_of_steps {t : LineTable} {offset place line start : Nat} {stretch : List Char}
    (hPlace : boundary? t.text (min offset (Text.byteLength t.text)) = some place)
    (hLine : (bisect t.starts place 0 t.starts.size (Nat.le_refl _)).last? = some line)
    (hStart : t.starts[line]? = some start) (hStretch : slice? start place t.text = some stretch) :
    t.position? offset =
      some ⟨UInt32.ofNat line + 1, UInt32.ofNat (stretch.length + 1), place⟩ := by
  simp [position?, hPlace, hLine, hStart, hStretch]

theorem position?_of_boundary {before after : List Char} {offset : Nat}
    (hBoundary : boundary? (before ++ after) (min offset (Text.byteLength (before ++ after))) =
      some (Text.byteLength before)) :
    (ofText (before ++ after)).position? offset = some (Position.first.advance before) := by
  obtain ⟨earlier, front, line, hText, hStarts, hEarlier, hLast⟩ := exists_last_line before
  have hEntries := starts_append before after
  rw [hStarts, List.append_assoc, List.singleton_append] at hEntries
  have hLe : Text.byteLength front ≤ Text.byteLength before := by
    rw [hText, Text.byteLength_append]
    omega
  have hLine := last?_bisect (pairwise_starts _) hEntries hLe fun e he => (mem_startsFrom he).1
  have hStart : (ofText (before ++ after)).starts[earlier.length]? =
      some (Text.byteLength front) := by
    rw [← Array.getElem?_toList, hEntries]
    simp
  have hSlice : slice? (Text.byteLength front) (Text.byteLength before) (before ++ after) =
      some line := by
    rw [hText]
    exact slice?_append front line after
  rw [Position.advance_first, ← hEarlier, ← hLast, UInt32.ofNat_add earlier.length 1]
  exact position?_of_steps hBoundary hLine hStart hSlice

theorem boundary?_of_isBoundary {cs : List Char} {offset : Nat}
    (hBoundary : isBoundary offset cs = true) :
    boundary? cs offset = some offset := by
  cases offset with
  | zero => rw [boundary?, if_pos hBoundary]
  | succ offset => rw [boundary?, if_pos hBoundary]

theorem position_append (before after : List Char) :
    (ofText (before ++ after)).position (Text.byteLength before) =
      Position.first.advance before := by
  have hMin : min (Text.byteLength before) (Text.byteLength (before ++ after)) =
      Text.byteLength before := by
    rw [Text.byteLength_append]
    omega
  have hBoundary := boundary?_of_isBoundary (isBoundary_append before after)
  rw [position, position?_of_boundary (by rw [hMin, hBoundary]), Option.getD_some]

theorem span_append (before text after : List Char) :
    (ofText (before ++ text ++ after)).span (Text.byteLength before)
        (Text.byteLength before + Text.byteLength text) =
      ⟨Position.first.advance before, Position.first.advance (before ++ text)⟩ := by
  rw [span, ← Text.byteLength_append, position_append, List.append_assoc, position_append]

theorem offset_position (before after : List Char) :
    ((ofText (before ++ after)).position (Text.byteLength before)).offset =
      Text.byteLength before := by
  rw [position_append, Position.offset_advance_first]

theorem covers_span (before text after : List Char) :
    ((ofText (before ++ text ++ after)).span (Text.byteLength before)
      (Text.byteLength before + Text.byteLength text)).Covers (before ++ text ++ after) text := by
  rw [span_append]
  exact ⟨before, after, rfl, Position.offset_advance_first _, Position.offset_advance_first _⟩

theorem lineCount_ofText (cs : List Char) : (ofText cs).lineCount = cs.count '\n' + 1 := by
  obtain ⟨earlier, front, line, -, hStarts, hEarlier, -⟩ := exists_last_line cs
  rw [lineCount, ← Array.length_toList, hStarts, List.length_append, hEarlier]
  rfl

/-- Only one text below four gigabytes has more lines than 32 bits can tell. -/
theorem count_lineFeed_eq_iff {cs : List Char} {n : Nat} (hSize : Text.byteLength cs ≤ n) :
    cs.count '\n' = n ↔ cs = List.replicate n '\n' := by
  constructor
  · intro hCount
    have hLength := Text.length_le_byteLength cs
    have hLe : cs.count '\n' ≤ cs.length := List.count_le_length
    have hAll : cs.length = n := by omega
    rw [← hAll, List.eq_replicate_iff]
    refine ⟨rfl, fun c hc => ?_⟩
    exact (List.count_eq_length.mp (hCount.trans hAll.symm) c hc).symm
  · rintro rfl
    exact List.count_replicate_self

theorem isValid_iff (text : String) (offset : Nat) :
    (String.Pos.Raw.mk offset).IsValid text ↔
      ∃ before after, text.toList = before ++ after ∧ Text.byteLength before = offset := by
  rw [String.Pos.Raw.isValid_iff_exists_append]
  constructor
  · rintro ⟨before, after, rfl, hEnd⟩
    refine ⟨before.toList, after.toList, String.toList_append, ?_⟩
    rw [Text.byteLength_toList]
    exact (congrArg String.Pos.Raw.byteIdx hEnd).symm
  · rintro ⟨before, after, hText, rfl⟩
    refine ⟨String.ofList before, String.ofList after, ?_, ?_⟩
    · rw [← String.ofList_append, ← hText, String.ofList_toList]
    · rw [← Text.byteLength_ofList]
      rfl

/-- The position at the end of a text tells the number of its lines in 32 bits. -/
theorem line_advance_eq (cs : List Char) :
    (Position.first.advance cs).line = UInt32.ofNat (ofText cs).lineCount := by
  rw [Position.advance_first, lineCount_ofText]

theorem toNat_line_advance_iff {cs : List Char} (hSize : Text.byteLength cs < UInt32.size) :
    (Position.first.advance cs).line.toNat = (ofText cs).lineCount ↔
      cs ≠ List.replicate (UInt32.size - 1) '\n' := by
  have hLe : cs.count '\n' ≤ cs.length := List.count_le_length
  have hLength := Text.length_le_byteLength cs
  have hBound : Text.byteLength cs ≤ UInt32.size - 1 := by omega
  rw [line_advance_eq, lineCount_ofText, Ne, ← count_lineFeed_eq_iff hBound, UInt32.toNat_ofNat']
  change (cs.count '\n' + 1) % UInt32.size = _ ↔ _
  constructor
  · intro hSame hAll
    have hLess : (cs.count '\n' + 1) % UInt32.size < UInt32.size := Nat.mod_lt _ (by decide)
    omega
  · intro hOther
    exact Nat.mod_eq_of_lt (by omega)

end LineTable

end BraceDoc
