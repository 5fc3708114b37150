import BraceDoc.Proofs.Text.Cut
import BraceDoc.Text.Blank
import BraceDoc.Text.Newline

/-!
# Texts with the same lines

Two texts have the same lines when they differ only in how they write line ends. Cutting and
skipping at marks that have no line end in them goes the same way in both.
-/

set_option autoImplicit false

namespace BraceDoc.Text

/-- The second text is the first one with a carriage return before some of its line feeds; the first
one has no carriage returns. -/
inductive SameLines : List Char → List Char → Prop where
  | nil : SameLines [] []
  | char {c : Char} {cs ds : List Char} (hFeed : c ≠ '\n') (hReturn : c ≠ '\r')
    (hRest : SameLines cs ds) : SameLines (c :: cs) (c :: ds)
  | feed {cs ds : List Char} (hRest : SameLines cs ds) : SameLines ('\n' :: cs) ('\n' :: ds)
  | returned {cs ds : List Char} (hRest : SameLines cs ds) :
    SameLines ('\n' :: cs) ('\r' :: '\n' :: ds)

def returned (cs : List Char) : List Char :=
  cs.flatMap fun c => if c = '\n' then ['\r', '\n'] else [c]

theorem sameLines_returned {cs : List Char} (hReturn : '\r' ∉ cs) : SameLines cs (returned cs) := by
  induction cs with
  | nil => exact .nil
  | cons c cs ih =>
    have hRest := ih (fun hMem => hReturn (List.mem_cons_of_mem _ hMem))
    rw [returned, List.flatMap_cons]
    by_cases hFeed : c = '\n'
    · rw [if_pos hFeed, hFeed]
      exact .returned hRest
    · rw [if_neg hFeed]
      refine .char hFeed ?_ hRest
      rintro rfl
      exact hReturn List.mem_cons_self

theorem unify_cons_of_ne {c : Char} (hReturn : c ≠ '\r') (cs : List Char) :
    unify (c :: cs) = c :: unify cs := by
  rw [unify.eq_def]
  split
  · rename_i hEq
    cases hEq
    exact absurd rfl hReturn
  · rename_i hEq
    cases hEq
    rfl
  · rename_i hEq
    cases hEq

theorem not_prefix_of_not_mem {mark : List Char} {c : Char} (hMark : mark ≠ []) (hNot : c ∉ mark)
    (cs : List Char) : ¬ mark <+: c :: cs := by
  cases mark with
  | nil => exact absurd rfl hMark
  | cons m mark =>
    rw [List.cons_prefix_cons]
    rintro ⟨rfl, -⟩
    exact hNot List.mem_cons_self

theorem cut?_cons_of_unmarked {mark cs : List Char} {c : Char} (hNot : ¬ mark <+: c :: cs) :
    cut? mark (c :: cs) = (cut? mark cs).map fun parts => (c :: parts.1, parts.2) := by
  rw [cut?, if_neg]
  rwa [List.isPrefixOf_iff_prefix]

/-- Both texts were cut in the same place, or neither was cut. -/
inductive CutAlike :
    Option (List Char × List Char) → Option (List Char × List Char) → Prop where
  | uncut : CutAlike none none
  | cut {front back front' back' : List Char} (hFront : SameLines front front')
    (hBack : SameLines back back') : CutAlike (some (front, back)) (some (front', back'))

theorem CutAlike.map {x y : Option (List Char × List Char)} {f g : List Char → List Char}
    (hAlike : CutAlike x y)
    (hMap : ∀ {front front'}, SameLines front front' → SameLines (f front) (g front')) :
    CutAlike (x.map fun parts => (f parts.1, parts.2))
      (y.map fun parts => (g parts.1, parts.2)) := by
  cases hAlike with
  | uncut => exact .uncut
  | cut hFront hBack => exact .cut (hMap hFront) hBack

namespace SameLines

variable {cs ds : List Char}

theorem unify_right (hSame : SameLines cs ds) : unify ds = cs := by
  induction hSame with
  | nil => rfl
  | char hFeed hReturn hRest ih => rw [unify_cons_of_ne hReturn, ih]
  | feed hRest ih => rw [unify_cons_of_ne (by decide), ih]
  | returned hRest ih => rw [unify, ih]

theorem unify_left (hSame : SameLines cs ds) : unify cs = cs := by
  induction hSame with
  | nil => rfl
  | char hFeed hReturn hRest ih => rw [unify_cons_of_ne hReturn, ih]
  | feed hRest ih => rw [unify_cons_of_ne (by decide), ih]
  | returned hRest ih => rw [unify_cons_of_ne (by decide), ih]

theorem eq_of_not_mem (hSame : SameLines cs ds) (hFeed : '\n' ∉ cs) : ds = cs := by
  induction hSame with
  | nil => rfl
  | char _ _ hRest ih => rw [ih (fun hMem => hFeed (List.mem_cons_of_mem _ hMem))]
  | feed hRest ih => exact absurd List.mem_cons_self hFeed
  | returned hRest ih => exact absurd List.mem_cons_self hFeed

theorem allBlank_eq (hSame : SameLines cs ds) : allBlank ds = allBlank cs := by
  induction hSame with
  | nil => rfl
  | @char c cs ds _ _ hRest ih =>
    simp only [allBlank, List.all_cons] at ih ⊢
    rw [ih]
  | feed hRest ih => exact ih
  | returned hRest ih => exact ih

/-- A mark without line ends stands in front of both texts or of neither. -/
theorem mark_cases (hSame : SameLines cs ds) {mark : List Char} (hFeed : '\n' ∉ mark)
    (hReturn : '\r' ∉ mark) :
    (∃ as bs, cs = mark ++ as ∧ ds = mark ++ bs ∧ SameLines as bs) ∨
      ¬ mark <+: cs ∧ ¬ mark <+: ds := by
  induction mark generalizing cs ds with
  | nil => exact .inl ⟨cs, ds, rfl, rfl, hSame⟩
  | cons m mark ih =>
    have hOther : ∀ c ∈ m :: mark, c ≠ '\n' ∧ c ≠ '\r' := by
      intro c hc
      constructor
      · rintro rfl
        exact hFeed hc
      · rintro rfl
        exact hReturn hc
    obtain ⟨hMarkFeed, hMarkReturn⟩ := hOther m List.mem_cons_self
    cases hSame with
    | nil => simp
    | @char c cs ds _ _ hTail =>
      obtain ⟨as, bs, rfl, rfl, hRest⟩ | ⟨hLeft, hRight⟩ := ih hTail
        (fun hMem => hFeed (List.mem_cons_of_mem _ hMem))
        (fun hMem => hReturn (List.mem_cons_of_mem _ hMem))
      · by_cases hEq : m = c
        · exact .inl ⟨as, bs, by rw [hEq, List.cons_append], by rw [hEq, List.cons_append], hRest⟩
        · simp [List.cons_prefix_cons, hEq]
      · simp [List.cons_prefix_cons, hLeft, hRight]
    | feed hRest => simp [List.cons_prefix_cons, hMarkFeed]
    | returned hRest => simp [List.cons_prefix_cons, hMarkFeed, hMarkReturn]

theorem exists_of_mark (hSame : SameLines cs ds) {mark : List Char} (hFeed : '\n' ∉ mark)
    (hReturn : '\r' ∉ mark) (hMark : mark <+: cs) :
    ∃ as bs, cs = mark ++ as ∧ ds = mark ++ bs ∧ SameLines as bs :=
  (hSame.mark_cases hFeed hReturn).resolve_right fun hNeither => hNeither.1 hMark

theorem prefix_iff (hSame : SameLines cs ds) {mark : List Char} (hFeed : '\n' ∉ mark)
    (hReturn : '\r' ∉ mark) : mark <+: cs ↔ mark <+: ds := by
  obtain ⟨as, bs, rfl, rfl, -⟩ | ⟨hLeft, hRight⟩ := hSame.mark_cases hFeed hReturn
  · simp
  · simp [hLeft, hRight]

theorem cutAlike (hSame : SameLines cs ds) {mark : List Char} (hFeed : '\n' ∉ mark)
    (hReturn : '\r' ∉ mark) (hMark : mark ≠ []) : CutAlike (cut? mark cs) (cut? mark ds) := by
  have hLineFeed : ∀ cs, cut? mark ('\n' :: cs) = _ := fun cs =>
    cut?_cons_of_unmarked (not_prefix_of_not_mem hMark hFeed cs)
  have hCarriage : ∀ cs, cut? mark ('\r' :: cs) = _ := fun cs =>
    cut?_cons_of_unmarked (not_prefix_of_not_mem hMark hReturn cs)
  induction hSame with
  | nil =>
    rw [cut?, if_neg (mt List.isEmpty_iff.mp hMark)]
    exact .uncut
  | @char c cs ds hChar hOther hRest ih =>
    -- the only place where the mark can stand: it begins with no line end
    obtain ⟨as, bs, hLeft, hRight, hTails⟩ | ⟨hLeft, hRight⟩ :=
      (SameLines.char hChar hOther hRest).mark_cases hFeed hReturn
    · have hCut : ∀ rest, cut? mark (mark ++ rest) = some ([], rest) :=
        cut?_append (endsAt_nil mark)
      rw [hLeft, hRight, hCut, hCut]
      exact .cut .nil hTails
    · rw [cut?_cons_of_unmarked hLeft, cut?_cons_of_unmarked hRight]
      exact ih.map (.char hChar hOther)
  | feed hRest ih =>
    rw [hLineFeed, hLineFeed]
    exact ih.map .feed
  | returned hRest ih =>
    rw [hLineFeed, hCarriage, hLineFeed, Option.map_map]
    exact ih.map .returned

theorem takeWhile_eq (hSame : SameLines cs ds) {p : Char → Bool} (hFeed : p '\n' = false)
    (hReturn : p '\r' = false) :
    ds.takeWhile p = cs.takeWhile p ∧ SameLines (cs.dropWhile p) (ds.dropWhile p) := by
  induction hSame with
  | nil => exact ⟨rfl, .nil⟩
  | @char c cs ds hChar hOther hRest ih =>
    cases hTest : p c with
    | false => simp [hTest, SameLines.char hChar hOther hRest]
    | true => simp [hTest, ih]
  | feed hRest => simp [hFeed, SameLines.feed hRest]
  | returned hRest => simp [hFeed, hReturn, SameLines.returned hRest]

/-- Behind the rest of a line both texts go on with the line feed. -/
theorem dropWhile_line (hSame : SameLines cs ds) :
    SameLines (cs.dropWhile (· != '\n')) (ds.dropWhile (· != '\n')) := by
  induction hSame with
  | nil => exact .nil
  | char hFeed hReturn hRest ih => simpa [List.dropWhile_cons, hFeed] using ih
  | feed hRest ih => exact .feed hRest
  | returned hRest ih => exact .feed hRest

end SameLines

end BraceDoc.Text
