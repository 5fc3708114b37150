import BraceDoc.Path.Normal

/-!
# File trees

A file tree maps paths in normal form to texts. Directories have no entries of their own: a path is
a directory when it leads to some file as a proper beginning. Listing a directory gives the names
directly below it in increasing order.
-/

set_option autoImplicit false

namespace BraceDoc

structure FileTree where
  files : List (Path × String) := []
  deriving Inhabited

inductive FileError where
  | noFile (path : Path)
  | noDirectory (path : Path)
  deriving DecidableEq, Inhabited

def FileError.message : FileError → String
  | .noFile path => "no such file: " ++ path.text
  | .noDirectory path => "no such directory: " ++ path.text

namespace FileTree

def paths (t : FileTree) : List Path :=
  t.files.map (·.1)

def isFile (t : FileTree) (path : Path) : Bool :=
  t.paths.contains path.normalize

def get? (t : FileTree) (path : Path) : Option String :=
  t.files.lookup path

def insert (t : FileTree) (path : Path) (text : String) : FileTree :=
  let key := path.normalize
  if t.paths.contains key then
    ⟨t.files.map fun file => if file.1 = key then (key, text) else file⟩
  else
    ⟨t.files ++ [(key, text)]⟩

def erase (t : FileTree) (path : Path) : FileTree :=
  ⟨t.files.filter fun file => file.1 != path.normalize⟩

def below? (directory file : Path) : Option (List Path.Part) :=
  if directory.parts.isPrefixOf file.parts then
    some (file.parts.drop directory.parts.length)
  else
    none

/-- Whether a path in normal form has files below it. -/
def isDirectory (t : FileTree) (path : Path) : Bool :=
  t.paths.any fun file =>
    match below? path file with
    | some (_ :: _) => true
    | _ => false

def holds (t : FileTree) (path : Path) : Bool :=
  t.isFile path || t.isDirectory path.normalize

def read (t : FileTree) (path : Path) : Except FileError String :=
  match t.get? path.normalize with
  | some text => .ok text
  | none => .error (.noFile path)

def sortedNames (names : List String) : List String :=
  (names.mergeSort fun a b => decide (a ≤ b)).eraseReps

def namesBelow (t : FileTree) (directory : Path) : List String :=
  sortedNames <| t.paths.filterMap fun file =>
    (below? directory file).bind fun rest => rest.head?.map Path.Part.text

def list (t : FileTree) (directory : Path) : Except FileError (List String) :=
  let directory := directory.normalize
  if t.isDirectory directory then .ok (t.namesBelow directory) else .error (.noDirectory directory)

end FileTree

end BraceDoc
