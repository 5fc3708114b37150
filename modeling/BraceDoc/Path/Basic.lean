import BraceDoc.Text.Cut

/-!
# Paths

A path is kept as it was spelled. Its parts are what the spelling denotes: the root of an absolute
path, a leading dot, steps up and names. Empty segments, and dots anywhere but at the start, denote
nothing. Two spellings with the same parts are the same path; the order of paths is the
lexicographic order of their parts.
-/

set_option autoImplicit false

namespace BraceDoc

structure Path where
  text : String
  deriving DecidableEq, Inhabited

namespace Path

inductive Part where
  | root
  | here
  | up
  | name (text : String)
  deriving DecidableEq

def Part.text : Part → String
  | .root => "/"
  | .here => "."
  | .up => ".."
  | .name text => text

def Part.rank : Part → Nat
  | .root => 0
  | .here => 1
  | .up => 2
  | .name _ => 3

/-- The order of parts: by kind, names among themselves by their text. -/
def Part.before (a b : Part) : Bool :=
  match a, b with
  | .name s, .name t => decide (s < t)
  | a, b => decide (a.rank < b.rank)

/-- The opening of a path, which is a root, a leading dot or nothing, and the text behind it. -/
def opening : List Char → List Char × List Char
  | '/' :: body => (['/'], body)
  | ['.'] => (['.'], [])
  | '.' :: '/' :: body => (['.'], '/' :: body)
  | body => ([], body)

/-- A segment that denotes no part. -/
def isIdle (segment : List Char) : Bool :=
  segment = [] || segment = ['.']

def openingPart : List Char → List Part
  | ['/'] => [.root]
  | ['.'] => [.here]
  | _ => []

def segmentPart (segment : List Char) : Part :=
  if segment = ['.', '.'] then .up else .name (String.ofList segment)

def segments (p : Path) : List (List Char) :=
  Text.fields '/' (opening p.text.toList).2

def parts (p : Path) : List Part :=
  openingPart (opening p.text.toList).1 ++
    (p.segments.filter fun segment => !isIdle segment).map segmentPart

def same (p q : Path) : Bool :=
  decide (p.parts = q.parts)

def partsLe : List Part → List Part → Bool
  | [], _ => true
  | _ :: _, [] => false
  | a :: as, b :: bs => a.before b || (!b.before a && partsLe as bs)

def le (p q : Path) : Bool :=
  partsLe p.parts q.parts

def isAbsolute (p : Path) : Bool :=
  match p.text.toList with
  | '/' :: _ => true
  | _ => false

/-- `path` seen from the directory `base`; an absolute path stands for itself. -/
def join (base path : Path) : Path :=
  if path.isAbsolute then path
  else if base.text.toList.getLast?.all (· = '/') then ⟨base.text ++ path.text⟩
  else ⟨base.text ++ "/" ++ path.text⟩

def dropIdleEnd (segments : List (List Char)) : List (List Char) :=
  (segments.reverse.dropWhile isIdle).reverse

/-- The path without its last part. The root and the empty path have no parent. -/
def parent? (p : Path) : Option Path :=
  let start := (opening p.text.toList).1
  match (dropIdleEnd p.segments).reverse with
  | [] => if start = ['.'] then some ⟨""⟩ else none
  | _ :: rest =>
    some ⟨String.ofList (start ++ Text.joined ['/'] (dropIdleEnd rest.reverse))⟩

/-- The directory of a file: its parent, where `.` stands for the empty path. -/
def dirname (p : Path) : Path :=
  match p.parent? with
  | some parent => if parent.text.isEmpty then ⟨"."⟩ else parent
  | none => p

def fileName? (p : Path) : Option String :=
  match p.parts.getLast? with
  | some (.name text) => some text
  | _ => none

/-- The file name before and behind its last dot, unless that dot is its first character. -/
def splitName? (p : Path) : Option (String × Option String) :=
  p.fileName?.map fun name =>
    let reversed := name.toList.reverse
    match Text.cut? ['.'] reversed with
    | some (behind, before) =>
      if before.isEmpty then (name, none)
      else (String.ofList before.reverse, some (String.ofList behind.reverse))
    | none => (name, none)

def stem? (p : Path) : Option String :=
  p.splitName?.map (·.1)

def stem (p : Path) : String :=
  p.stem?.getD ""

def extension? (p : Path) : Option String :=
  p.splitName?.bind (·.2)

end Path

end BraceDoc
