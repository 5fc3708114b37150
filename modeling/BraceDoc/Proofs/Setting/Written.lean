import BraceDoc.Setting.Value
import BraceDoc.Proofs.Setting.Level

/-!
# Written values

The values that a payload can spell out are written as words, decimals, quoted strings and bracketed
members. Each written value is sealed at every depth, and reading it gives the value back.
-/

set_option autoImplicit false

namespace BraceDoc.Setting

open Text (isBlank trim Trimmed)

def escape (c : Char) : List Char :=
  if c = '"' then ['\\', '"'] else [c]

def guarded (cs : List Char) : List Char :=
  cs.flatMap escape

def inQuotes (s : String) : List Char :=
  '"' :: guarded s.toList ++ ['"']

mutual

/-- The text of a value. Reals and lists have none. -/
def written : Json → List Char
  | .null => ['n', 'u', 'l', 'l']
  | .bool true => ['t', 'r', 'u', 'e']
  | .bool false => ['f', 'a', 'l', 's', 'e']
  | .int n => (toString n).toList
  | .str s => inQuotes s
  | .obj members => '[' :: Text.joined [','] (writtenMembers members) ++ [']']
  | .real _ => []
  | .arr _ => []

def writtenMembers : List (String × Json) → List (List Char)
  | [] => []
  | (key, value) :: rest => (key.toList ++ '=' :: written value) :: writtenMembers rest

end

structure Bare (name : String) : Prop where
  ne_empty : name ≠ ""
  trimmed : Text.trimmed name = name
  plain : Plain name.toList

instance (name : String) : Decidable (Bare name) :=
  decidable_of_iff
    (name ≠ "" ∧ Text.trimmed name = name ∧ name.toList.all (fun c => decide (c ∉ punctuation)))
    ⟨fun hAll => ⟨hAll.1, hAll.2.1, Text.forall_mem_of_all hAll.2.2⟩,
      fun hBare => ⟨hBare.ne_empty, hBare.trimmed,
        List.all_eq_true.mpr fun c hMem => decide_eq_true (hBare.plain c hMem)⟩⟩

inductive Writable : Json → Prop
  | null : Writable .null
  | bool (b : Bool) : Writable (.bool b)
  | int {n : Int} (hFits : fitsInteger n = true) : Writable (.int n)
  | str {s : String} (hLast : s.toList.getLast? ≠ some '\\') : Writable (.str s)
  | obj {members : Json.Members} (hSorted : members.Sorted) (hKeys : ∀ m ∈ members, Bare m.1)
      (hValues : ∀ m ∈ members, Writable m.2) : Writable (.obj members)

theorem writtenMembers_eq_map (members : List (String × Json)) :
    writtenMembers members = members.map fun m => m.1.toList ++ '=' :: written m.2 := by
  induction members with
  | nil => rw [writtenMembers, List.map_nil]
  | cons m rest ih => rw [writtenMembers, List.map_cons, ih]

namespace Bare

theorem ne_nil {name : String} (hBare : Bare name) : name.toList ≠ [] :=
  fun hNil => hBare.ne_empty (String.toList_eq_nil_iff.mp hNil)

theorem trim_eq {name : String} (hBare : Bare name) : trim name.toList = name.toList := by
  have hSame := congrArg String.toList hBare.trimmed
  rwa [Text.trimmed, String.toList_ofList] at hSame

theorem toList_trimmed {name : String} (hBare : Bare name) : Trimmed name.toList :=
  Text.trim_eq_self_iff.mp hBare.trim_eq

end Bare

/-! ## Strings -/

theorem guarded_cons (c : Char) (cs : List Char) : guarded (c :: cs) = escape c ++ guarded cs :=
  List.flatMap_cons

theorem head?_guarded (cs : List Char) : (guarded cs).head? ≠ some '"' := by
  cases cs with
  | nil =>
    intro hHead
    cases hHead
  | cons c cs =>
    rw [guarded_cons, escape]
    split
    · exact fun hHead => absurd (Option.some.inj hHead) (by decide)
    · rename_i hOther
      exact fun hHead => hOther (Option.some.inj hHead)

theorem unescape_cons {c : Char} {cs : List Char} (hHead : cs.head? ≠ some '"') :
    unescape (c :: cs) = c :: unescape cs := by
  rw [unescape]
  rintro rest - rfl
  exact hHead rfl

theorem unescape_guarded (cs : List Char) : unescape (guarded cs) = cs := by
  induction cs with
  | nil => rfl
  | cons c cs ih =>
    rw [guarded_cons, escape]
    split
    · rename_i hQuote
      change '"' :: unescape (guarded cs) = c :: cs
      rw [ih, hQuote]
    · rw [List.singleton_append, unescape_cons (head?_guarded cs), ih]

namespace Level

def inside (depth : Nat) (escaped : Bool) : Level where
  quoted := true
  depth := depth
  escaped := escaped

theorem after_escape (depth : Nat) (pending : Bool) (c : Char) :
    (inside depth pending).after (escape c) = inside depth (c = '\\') := by
  rw [escape]
  split
  · rename_i hQuote
    rw [hQuote]
    rfl
  · rename_i hOther
    simp [after, step, inside, hOther]

theorem hides_escape (mark : Char) (depth : Nat) (pending : Bool) (c : Char) :
    (inside depth pending).Hides mark (escape c) := by
  rw [escape]
  split
  · exact ⟨fun _ => rfl, fun _ => rfl, trivial⟩
  · exact ⟨fun _ => rfl, trivial⟩

theorem exists_after_guarded (depth : Nat) (pending : Bool) (cs : List Char) :
    ∃ left, (inside depth pending).after (guarded cs) = inside depth left := by
  induction cs generalizing pending with
  | nil => exact ⟨pending, rfl⟩
  | cons c cs ih =>
    rw [guarded_cons, after_append, after_escape]
    exact ih _

theorem hides_guarded (mark : Char) (depth : Nat) (pending : Bool) (cs : List Char) :
    (inside depth pending).Hides mark (guarded cs) := by
  induction cs generalizing pending with
  | nil => trivial
  | cons c cs ih =>
    rw [guarded_cons, hides_append, after_escape]
    exact ⟨hides_escape mark depth pending c, ih _⟩

/-- Only a backslash at the end would take the closing quote away. -/
theorem after_guarded {cs : List Char} (hLast : cs.getLast? ≠ some '\\') (depth : Nat) :
    (inside depth false).after (guarded cs) = inside depth false := by
  rcases List.eq_nil_or_concat cs with rfl | ⟨init, c, rfl⟩
  · rfl
  · rw [List.concat_eq_append, List.getLast?_concat] at hLast
    have hOther : c ≠ '\\' := fun hSame => hLast (congrArg some hSame)
    obtain ⟨left, hInit⟩ := exists_after_guarded depth false init
    have hSplit : guarded (init ++ [c]) = guarded init ++ escape c := by
      rw [guarded, List.flatMap_append, List.flatMap_singleton]
      rfl
    rw [List.concat_eq_append, hSplit, after_append, hInit, after_escape, decide_eq_false hOther]

theorem Sealed.inQuotes {s : String} (hLast : s.toList.getLast? ≠ some '\\') (depth : Nat) :
    Sealed depth (inQuotes s) where
  after := by
    change (inside depth false).after (guarded s.toList ++ ['"']) = ground depth
    rw [after_append, after_guarded hLast]
    rfl
  hides mark hMark := by
    have hDistinct : ∀ mark ∈ [',', '='], '"' ≠ mark := Text.forall_mem_of_all (by decide)
    refine ⟨fun hSame => absurd hSame (hDistinct mark hMark), ?_⟩
    change (inside depth false).Hides mark (guarded s.toList ++ ['"'])
    rw [hides_append, after_guarded hLast]
    exact ⟨hides_guarded mark depth false s.toList, fun _ => rfl, trivial⟩

end Level

theorem trimmed_enclosed {first last : Char} (hFirst : isBlank first = false)
    (hLast : isBlank last = false) (cs : List Char) : Trimmed (first :: cs ++ [last]) :=
  (Text.trimmed_of_forall (List.forall_mem_singleton.mpr hFirst)).append
    (Text.trimmed_of_forall (List.forall_mem_singleton.mpr hLast))
    (List.cons_ne_nil _ _) (List.cons_ne_nil _ _) cs

theorem between?_enclosed (first last : Char) (cs : List Char) :
    between? first last (first :: cs ++ [last]) = some cs := by
  rw [List.cons_append, between?, if_pos, List.dropLast_concat]
  rw [List.getLast?_concat, decide_eq_true rfl, decide_eq_true rfl]
  rfl

theorem between?_of_head?_ne {first : Char} {cs : List Char} (hHead : cs.head? ≠ some first)
    (last : Char) : between? first last cs = none := by
  cases cs with
  | nil => rfl
  | cons c rest =>
    have hOther : c ≠ first := fun hSame => hHead (congrArg some hSame)
    rw [between?, decide_eq_false hOther]
    rfl

/-! ## Decimals -/

theorem isDigit_of_mem_toDigits {n : Nat} {c : Char} (hMem : c ∈ Nat.toDigits 10 n) :
    Decimal.isDigit c = true := by
  have hDigit := Nat.isDigit_of_mem_toDigits (by decide) (by decide) hMem
  rw [Char.isDigit, Bool.and_eq_true, decide_eq_true_iff, decide_eq_true_iff] at hDigit
  rw [Decimal.isDigit, Bool.and_eq_true, decide_eq_true_iff, decide_eq_true_iff]
  exact hDigit

theorem natOfDigits_toDigits (n : Nat) : Decimal.natOfDigits (Nat.toDigits 10 n) = n := by
  rw [Decimal.natOfDigits, ← Nat.ofDigitChars_eq_foldl]
  exact Nat.ofDigitChars_toDigits (by decide) (by decide)

theorem digitGroups?_of_digits {cs : List Char} (hSome : cs ≠ [])
    (hDigits : ∀ c ∈ cs, Decimal.isDigit c = true) : digitGroups? cs = some (cs, none) := by
  have hSpan : (cs ++ []).takeWhile Decimal.isDigit = cs ∧
      (cs ++ []).dropWhile Decimal.isDigit = [] :=
    Text.span_append hDigits fun _ hNone => nomatch hNone
  rw [List.append_nil] at hSpan
  obtain ⟨hTake, hDrop⟩ := hSpan
  rw [digitGroups?, hTake, hDrop]
  exact if_neg (mt List.isEmpty_iff.mp hSome)

/-- A decimal is its digits, behind a dash where the number is negative. -/
theorem toList_toString (n : Int) :
    (toString n).toList =
      if 0 ≤ n then Nat.toDigits 10 n.toNat else '-' :: Nat.toDigits 10 (-n).toNat := by
  rw [Int.toString_eq_repr, Int.repr_eq_if]
  split
  · exact Nat.toList_repr
  · rw [String.toList_append, Nat.toList_repr]
    rfl

theorem mem_toString {n : Int} {c : Char} (hMem : c ∈ (toString n).toList) :
    c = '-' ∨ Decimal.isDigit c = true := by
  rw [toList_toString] at hMem
  split at hMem
  · exact .inr (isDigit_of_mem_toDigits hMem)
  · rcases List.mem_cons.mp hMem with hDash | hDigit
    · exact .inl hDash
    · exact .inr (isDigit_of_mem_toDigits hDigit)

theorem toString_ne_nil (n : Int) : (toString n).toList ≠ [] := by
  rw [toList_toString]
  split
  · exact Nat.toDigits_ne_nil
  · exact List.cons_ne_nil _ _

theorem number?_digits {cs : List Char} (hSome : cs ≠ [])
    (hDigits : ∀ c ∈ cs, Decimal.isDigit c = true)
    (hFits : fitsInteger (Decimal.natOfDigits cs) = true) :
    number? cs = some (.int (Decimal.natOfDigits cs)) := by
  have hDash : ∀ rest, cs ≠ '-' :: rest := by
    rintro rest rfl
    exact absurd (hDigits '-' List.mem_cons_self) (by decide)
  unfold number?
  split
  rename_i hMatch
  split at hMatch
  · exact absurd rfl (hDash _)
  · cases hMatch
    simp only [digitGroups?_of_digits hSome hDigits, Option.isNone_none, Bool.false_eq_true,
      if_false, hFits, Bool.and_self, if_true]

theorem number?_dash {cs : List Char} (hSome : cs ≠ [])
    (hDigits : ∀ c ∈ cs, Decimal.isDigit c = true)
    (hFits : fitsInteger (-Decimal.natOfDigits cs) = true) :
    number? ('-' :: cs) = some (.int (-Decimal.natOfDigits cs)) := by
  unfold number?
  split
  rename_i hMatch
  cases hMatch
  simp only [digitGroups?_of_digits hSome hDigits, Option.isNone_none, if_true, hFits,
    Bool.and_self]

theorem number?_toString {n : Int} (hFits : fitsInteger n = true) :
    number? (toString n).toList = some (.int n) := by
  rw [toList_toString]
  split
  · rename_i hSign
    have hValue : (Decimal.natOfDigits (Nat.toDigits 10 n.toNat) : Int) = n := by
      rw [natOfDigits_toDigits, Int.toNat_of_nonneg hSign]
    have hNumber := number?_digits Nat.toDigits_ne_nil (fun _ => isDigit_of_mem_toDigits)
      (hValue.symm ▸ hFits)
    rwa [hValue] at hNumber
  · rename_i hSign
    have hValue : (-Decimal.natOfDigits (Nat.toDigits 10 (-n).toNat) : Int) = n := by
      rw [natOfDigits_toDigits]
      omega
    have hNumber := number?_dash Nat.toDigits_ne_nil (fun _ => isDigit_of_mem_toDigits)
      (hValue.symm ▸ hFits)
    rwa [hValue] at hNumber

theorem plain_toString (n : Int) : Plain (toString n).toList := by
  have hOther : ∀ c ∈ punctuation, c ≠ '-' ∧ Decimal.isDigit c = false :=
    Text.forall_mem_of_all (by decide)
  intro c hMem hMark
  obtain ⟨hNotDash, hNotDigit⟩ := hOther c hMark
  rcases mem_toString hMem with hDash | hDigit
  · exact hNotDash hDash
  · rw [hNotDigit] at hDigit
    exact Bool.false_ne_true hDigit

theorem isBlank_of_isDigit {c : Char} (hDigit : Decimal.isDigit c = true) : isBlank c = false := by
  rw [Decimal.isDigit, Bool.and_eq_true, decide_eq_true_iff, decide_eq_true_iff] at hDigit
  have hLow : 48 ≤ c.toNat := hDigit.1
  have hHigh : c.toNat ≤ 57 := hDigit.2
  rw [Bool.eq_false_iff]
  intro hBlank
  simp only [isBlank, Bool.or_eq_true, Bool.and_eq_true, decide_eq_true_iff, beq_iff_eq] at hBlank
  omega

/-! ## Reading values back -/

def member? (clause : List Char) : Option (String × Json) :=
  match cutAtEquals? {} clause with
  | some (before, behind) =>
    if (trim before).isEmpty then none
    else some (String.ofList (trim before), parseValue behind)
  | none => some (String.ofList clause, .bool true)

theorem parseValue_eq (cs : List Char) :
    parseValue cs =
      match between? '[' ']' (trim cs) with
      | some inner => .obj (Json.Members.ofList ((clauses inner).filterMap member?))
      | none => scalar (trim cs) := by
  rw [parseValue]
  split
  · rename_i inner hInner
    rw [hInner, List.filterMap_subtype (g := member?), List.unattach_attach]
    intro clause hClause
    dsimp only
    rw [member?]
    split
    · rename_i hCut
      rw [hCut]
    · rename_i hCut
      rw [hCut]
  · rename_i hInner
    rw [hInner]

theorem parseValue_blank_append {gap : List Char} (hGap : Text.allBlank gap = true)
    (cs : List Char) : parseValue (gap ++ cs) = parseValue cs := by
  rw [parseValue_eq, parseValue_eq, Text.trim_blank_append hGap]

theorem parseValue_of_scalar {cs : List Char} (hTrimmed : Trimmed cs)
    (hHead : cs.head? ≠ some '[') : parseValue cs = scalar cs := by
  rw [parseValue_eq, hTrimmed.trim_eq, between?_of_head?_ne hHead]

theorem parseValue_brackets (inner : List Char) :
    parseValue ('[' :: inner ++ [']']) =
      .obj (Json.Members.ofList ((clauses inner).filterMap member?)) := by
  have hTrimmed : Trimmed ('[' :: inner ++ [']']) := trimmed_enclosed (by decide) (by decide) inner
  rw [parseValue_eq, hTrimmed.trim_eq, between?_enclosed]

theorem number?_inQuotes (s : String) : number? (inQuotes s) = none := by
  have hGroups : digitGroups? (inQuotes s) = none := rfl
  unfold number?
  split
  rename_i hMatch
  cases hMatch
  rw [hGroups]

/-- Whatever its last character, a string in quotes is read as one when it stands alone. -/
theorem scalar_inQuotes (s : String) : scalar (inQuotes s) = .str s := by
  have hWord : ∀ c rest, c ≠ '"' → inQuotes s ≠ c :: rest :=
    fun c rest hOther hSame => hOther (List.cons.inj hSame).1.symm
  rw [scalar, if_neg (hWord _ _ (by decide)), if_neg (hWord _ _ (by decide)),
    if_neg (hWord _ _ (by decide)), number?_inQuotes, inQuotes, between?_enclosed]
  simp only [unescape_guarded, String.ofList_toList]

theorem scalar_toString {n : Int} (hFits : fitsInteger n = true) :
    scalar (toString n).toList = .int n := by
  have hWord : ∀ c rest, c ≠ '-' → Decimal.isDigit c = false → (toString n).toList ≠ c :: rest := by
    intro c rest hNotDash hNotDigit hSame
    have hMem : c ∈ (toString n).toList := hSame ▸ List.mem_cons_self
    rcases mem_toString hMem with hDash | hDigit
    · exact hNotDash hDash
    · rw [hNotDigit] at hDigit
      exact Bool.false_ne_true hDigit
  rw [scalar, if_neg (hWord _ _ (by decide) (by decide)),
    if_neg (hWord _ _ (by decide) (by decide)),
    if_neg (hWord _ _ (by decide) (by decide)), number?_toString hFits]

theorem parseValue_inQuotes (s : String) : parseValue (inQuotes s) = .str s := by
  have hTrimmed : Trimmed (inQuotes s) := trimmed_enclosed (by decide) (by decide) _
  have hHead : (inQuotes s).head? ≠ some '[' :=
    fun hSame => absurd (Option.some.inj hSame) (by decide)
  rw [parseValue_of_scalar hTrimmed hHead, scalar_inQuotes]

theorem member?_written {key : String} (hKey : Bare key) {value : Json}
    (hValue : parseValue (written value) = value) :
    member? (key.toList ++ '=' :: written value) = some (key, value) := by
  have hShown : key.toList.isEmpty = false := List.isEmpty_eq_false_iff.mpr hKey.ne_nil
  rw [member?, cutAtEquals?_plain hKey.plain]
  simp only [hKey.trim_eq, hShown, Bool.false_eq_true, if_false, String.ofList_toList, hValue]

/-! ## Values at every depth -/

theorem sealed_joined {depth : Nat} {texts : List (List Char)}
    (hTexts : ∀ cs ∈ texts, Level.Sealed (depth + 1) cs) :
    Level.Sealed (depth + 1) (Text.joined [','] texts) := by
  induction texts with
  | nil => exact .of_allBlank rfl _
  | cons cs rest ih =>
    obtain ⟨hFirst, hRest⟩ := List.forall_mem_cons.mp hTexts
    cases rest with
    | nil => exact hFirst
    | cons next rest => exact (hFirst.append (.comma_deep depth)).append (ih hRest)

theorem toString_shown (n : Int) : ∀ c ∈ (toString n).toList, isBlank c = false := by
  intro c hMem
  rcases mem_toString hMem with rfl | hDigit
  · decide
  · exact isBlank_of_isDigit hDigit

theorem backslash_not_mem_toString (n : Int) : '\\' ∉ (toString n).toList := by
  intro hMem
  exact absurd (mem_toString hMem) (by decide)

theorem Writable.trimmed {value : Json} (hValue : Writable value) :
    Trimmed (written value) ∧ written value ≠ [] := by
  cases hValue with
  | null => exact ⟨Text.trimmed_of_forall (Text.forall_mem_of_all (by decide)), by decide⟩
  | bool b =>
    cases b with
    | false => exact ⟨Text.trimmed_of_forall (Text.forall_mem_of_all (by decide)), by decide⟩
    | true => exact ⟨Text.trimmed_of_forall (Text.forall_mem_of_all (by decide)), by decide⟩
  | int hFits => exact ⟨Text.trimmed_of_forall (toString_shown _), toString_ne_nil _⟩
  | str hLast => exact ⟨trimmed_enclosed (by decide) (by decide) _, List.cons_ne_nil _ _⟩
  | obj hSorted hKeys hValues =>
    rw [written]
    exact ⟨trimmed_enclosed (by decide) (by decide) _, List.cons_ne_nil _ _⟩

theorem Writable.isSealed {value : Json} (hValue : Writable value) (depth : Nat) :
    Level.Sealed depth (written value) := by
  induction hValue generalizing depth with
  | null => exact .of_plain (Text.forall_mem_of_all (by decide)) (by decide) depth
  | bool b =>
    cases b with
    | false => exact .of_plain (Text.forall_mem_of_all (by decide)) (by decide) depth
    | true => exact .of_plain (Text.forall_mem_of_all (by decide)) (by decide) depth
  | int hFits => exact .of_plain (plain_toString _) (backslash_not_mem_toString _) depth
  | str hLast => exact .inQuotes hLast depth
  | obj hSorted hKeys hValues ih =>
    rw [written, writtenMembers_eq_map]
    refine Level.Sealed.brackets (sealed_joined (List.forall_mem_map.mpr fun m hMem => ?_))
    rw [List.append_cons]
    exact (Level.Sealed.equals_deep (hKeys m hMem).plain depth).append (ih m hMem (depth + 1))

/-- The clauses between the brackets of an object are its members as they are written. -/
theorem clauses_writtenMembers {members : Json.Members} (hKeys : ∀ m ∈ members, Bare m.1)
    (hValues : ∀ m ∈ members, Writable m.2) :
    clauses (Text.joined [','] (writtenMembers members)) = writtenMembers members := by
  rw [writtenMembers_eq_map]
  refine (clauses_joined rfl (List.forall_mem_map.mpr fun m hMem => ?_)).trans ?_
  · exact isClause_append (hKeys m hMem).plain ((hValues m hMem).isSealed 0)
  · rw [List.map_map]
    refine List.map_congr_left fun m hMem => ?_
    obtain ⟨hLast, hEnd⟩ := (hValues m hMem).trimmed
    exact ((hKeys m hMem).toList_trimmed.append hLast (hKeys m hMem).ne_nil hEnd ['=']).trim_eq

theorem parseValue_written {value : Json} (hValue : Writable value) :
    parseValue (written value) = value := by
  induction hValue with
  | null => exact parseValue_of_scalar Writable.null.trimmed.1 (by decide)
  | bool b =>
    cases b with
    | false => exact parseValue_of_scalar (Writable.bool false).trimmed.1 (by decide)
    | true => exact parseValue_of_scalar (Writable.bool true).trimmed.1 (by decide)
  | @int n hFits =>
    have hHead : (toString n).toList.head? ≠ some '[' :=
      fun hSame => (plain_toString n).not_mem (by decide) (List.mem_of_mem_head? hSame)
    exact (parseValue_of_scalar (Writable.int hFits).trimmed.1 hHead).trans (scalar_toString hFits)
  | @str s hLast => exact parseValue_inQuotes s
  | @obj members hSorted hKeys hValues ih =>
    have hMembers : (writtenMembers members).filterMap member? = members := by
      rw [writtenMembers_eq_map, List.filterMap_map]
      refine (List.filterMap_congr fun m hMem => ?_).trans List.filterMap_some
      exact member?_written (hKeys m hMem) (ih m hMem)
    rw [written, parseValue_brackets, clauses_writtenMembers hKeys hValues, hMembers,
      Json.Members.ofList_of_sorted hSorted]

end BraceDoc.Setting
