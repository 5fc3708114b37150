import BraceDoc.Setting.Clause
import BraceDoc.Json.Basic
import BraceDoc.Decimal.Layout

/-!
# Values of settings

A value in square brackets is an object, whose clauses are keys with values, or keys alone for
`true`. Every other value is a scalar: a word for a boolean or null, a number, a quoted string, or a
string without quotes. Inside quotes a backslash before a quote is dropped, and nothing else is
escaped.
-/

set_option autoImplicit false

namespace BraceDoc.Setting

def between? (first last : Char) (cs : List Char) : Option (List Char) :=
  match cs with
  | [] => none
  | c :: rest =>
    if c = first && rest.getLast? = some last then some rest.dropLast else none

theorem length_between? {first last : Char} {cs inner : List Char}
    (hBetween : between? first last cs = some inner) : inner.length < cs.length := by
  unfold between? at hBetween
  split at hBetween
  · cases hBetween
  · split at hBetween
    · cases hBetween
      rw [List.length_dropLast, List.length_cons]
      omega
    · cases hBetween

/-- A text with each backslash before a quote dropped. -/
def unescape : List Char → List Char
  | '\\' :: '"' :: cs => '"' :: unescape cs
  | c :: cs => c :: unescape cs
  | [] => []

def digitGroups? (cs : List Char) : Option (List Char × Option (List Char)) :=
  let whole := cs.takeWhile Decimal.isDigit
  if whole.isEmpty then
    none
  else
    match cs.dropWhile Decimal.isDigit with
    | [] => some (whole, none)
    | '.' :: fraction =>
      if !fraction.isEmpty && fraction.all Decimal.isDigit then some (whole, some fraction)
      else none
    | _ => none

def fitsInteger (n : Int) : Bool :=
  -(Nat.pow 2 63 : Nat) ≤ n && n < (Nat.pow 2 63 : Nat)

/-- A number: an integer where 64 bits with sign suffice and there is no point, else a real. -/
def number? (cs : List Char) : Option Json :=
  let (negative, digits) :=
    match cs with
    | '-' :: rest => (true, rest)
    | _ => (false, cs)
  match digitGroups? digits with
  | none => none
  | some (whole, fraction) =>
    let size : Int := Decimal.natOfDigits whole
    let value := if negative then -size else size
    if fraction.isNone && fitsInteger value then
      some (.int value)
    else
      let x := (Decimal.ofDigits whole (fraction.getD []) 0).toFloat
      if x.isFinite then some (.real (if negative then -x else x)) else none

def scalar (cs : List Char) : Json :=
  if cs = ['t', 'r', 'u', 'e'] then .bool true
  else if cs = ['f', 'a', 'l', 's', 'e'] then .bool false
  else if cs = ['n', 'u', 'l', 'l'] then .null
  else
    match number? cs with
    | some number => number
    | none =>
      match between? '"' '"' cs with
      | some inner => .str (String.ofList (unescape inner))
      | none => .str (String.ofList cs)

def parseValue (cs : List Char) : Json :=
  match _hInner : between? '[' ']' (Text.trim cs) with
  | some inner =>
    .obj <| Json.Members.ofList <| (clauses inner).attach.filterMap fun ⟨clause, _hClause⟩ =>
      match _hCut : cutAtEquals? {} clause with
      | some (before, behind) =>
        let key := Text.trim before
        if key.isEmpty then none else some (String.ofList key, parseValue behind)
      | none => some (String.ofList clause, .bool true)
  | none => scalar (Text.trim cs)
termination_by cs.length
decreasing_by
  have hTrim := length_trim_le cs
  have hInside := length_between? _hInner
  have hPart := length_le_of_mem_clauses _hClause
  have hBehind := length_cutAtEquals?_snd _hCut
  omega

end BraceDoc.Setting
