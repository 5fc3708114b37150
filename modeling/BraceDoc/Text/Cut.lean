/-!
# Cutting texts

Texts are handled as lists of characters. `cut?` divides a text around the first occurrence of a
mark, `fields` divides it at every separator, `anywhere` asks for a condition at some place of the
text, and `byteLength` measures a text in UTF-8.
-/

set_option autoImplicit false

namespace BraceDoc.Text

def byteLength : List Char → Nat
  | [] => 0
  | c :: cs => c.utf8Size + byteLength cs

def cut? (mark : List Char) : List Char → Option (List Char × List Char)
  | [] => if mark.isEmpty then some ([], []) else none
  | c :: cs =>
    if mark.isPrefixOf (c :: cs) then
      some ([], (c :: cs).drop mark.length)
    else
      (cut? mark cs).map fun parts => (c :: parts.1, parts.2)

def contains (mark : List Char) (cs : List Char) : Bool :=
  (cut? mark cs).isSome

/-- The stretches of text between the occurrences of `separator`; there is always one more stretch
than there are separators. -/
def fields (separator : Char) : List Char → List (List Char)
  | [] => [[]]
  | c :: cs =>
    if c = separator then
      [] :: fields separator cs
    else
      match fields separator cs with
      | [] => [[c]]
      | field :: rest => (c :: field) :: rest

/-- Whether some suffix of the text, the empty one included, satisfies `accepts`. -/
def anywhere (accepts : List Char → Bool) : List Char → Bool
  | [] => accepts []
  | c :: cs => accepts (c :: cs) || anywhere accepts cs

def joined (separator : List Char) : List (List Char) → List Char
  | [] => []
  | [cs] => cs
  | cs :: rest => cs ++ separator ++ joined separator rest

theorem cut?_eq_append {mark cs before after : List Char}
    (hCut : cut? mark cs = some (before, after)) : cs = before ++ mark ++ after := by
  induction cs generalizing before with
  | nil =>
    simp only [cut?] at hCut
    split at hCut
    · rename_i hEmpty
      cases hCut
      simpa using hEmpty
    · cases hCut
  | cons c cs ih =>
    simp only [cut?] at hCut
    split at hCut
    · rename_i hMark
      cases hCut
      obtain ⟨rest, hRest⟩ := List.isPrefixOf_iff_prefix.mp hMark
      rw [← hRest]
      simp
    · obtain ⟨⟨front, back⟩, hRest, hEq⟩ := Option.map_eq_some_iff.mp hCut
      cases hEq
      simp [ih hRest]

theorem length_after_cut? {mark cs before after : List Char}
    (hCut : cut? mark cs = some (before, after)) : after.length ≤ cs.length := by
  rw [cut?_eq_append hCut]
  simp only [List.length_append]
  omega

end BraceDoc.Text
