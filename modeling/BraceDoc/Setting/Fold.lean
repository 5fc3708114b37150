import BraceDoc.Setting.Assignment

/-!
# Folding assignments into settings

Settings are the members of an object. An assignment acts on the member that its path leads to; on
the way, whatever is not an object becomes an empty one. A key is plural when it ends in `s`; a
plural key holds a list.
-/

set_option autoImplicit false

namespace BraceDoc

abbrev Settings : Type :=
  Json.Members

namespace Setting

def isPlural (key : String) : Bool :=
  key.toList.getLast? == some 's'

def listBefore (key : String) : Option Json → List Json
  | some (.arr items) => items
  | none | some .null => []
  | some previous => if isPlural key then [] else [previous]

/-- The effect of an operator on the object that holds the last segment of a path. -/
def applyAt (key : String) (operator : Operator) (value : Option Json) (holder : Settings) :
    Settings :=
  match operator with
  | .set => Json.Members.insert key (value.getD .null) holder
  | .append =>
    let items := listBefore key (Json.Members.get? key holder)
    Json.Members.insert key (.arr (items ++ [value.getD .null])) holder
  | .remove =>
    match Json.Members.get? key holder, value with
    | some (.arr items), some value =>
      Json.Members.insert key (.arr (items.filter fun item => !item.same value)) holder
    | _, _ => holder
  | .reset =>
    if isPlural key then
      Json.Members.insert key (.arr value.toList) holder
    else
      match value with
      | some value => Json.Members.insert key value holder
      | none => Json.Members.erase key holder

/-- Follows a path and acts on the object that holds its last segment. -/
def applyPath (operator : Operator) (value : Option Json) : List String → Settings → Settings
  | [], settings => settings
  | [key], settings => applyAt key operator value settings
  | key :: rest, settings =>
    let inner := (Json.ofOption (Json.Members.get? key settings)).members
    Json.Members.insert key (.obj (applyPath operator value rest inner)) settings

def apply (settings : Settings) (a : Assignment) : Settings :=
  applyPath a.operator a.value a.path settings

/-- Applies the clauses of a payload in order. Faulty clauses are left out and listed. -/
def applyPayload (settings : Settings) (payload : String) : Settings × List ClauseError :=
  (parse payload).foldl
    (fun (settings, errors) clause =>
      match clause with
      | .ok a => (apply settings a, errors)
      | .error e => (settings, errors ++ [e]))
    (settings, [])

def lookupPath : List String → Settings → Option Json
  | [], _ => none
  | [key], settings => Json.Members.get? key settings
  | key :: rest, settings =>
    match Json.Members.get? key settings with
    | some (.obj inner) => lookupPath rest inner
    | _ => none

/-- The value at a dotted path; empty segments are passed over. -/
def lookup (path : String) (settings : Settings) : Option Json :=
  let segments := (Text.fields '.' path.toList).filter fun segment => !segment.isEmpty
  lookupPath (segments.map String.ofList) settings

end Setting

end BraceDoc
