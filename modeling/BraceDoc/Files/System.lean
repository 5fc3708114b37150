import BraceDoc.Files.Tree

/-!
# File systems

A file system is what a project is read from. It stores finitely many files; reading and listing may
fail for reasons of their own. Faults can be laid over a file system: reading a path or listing a
directory then fails, or a listing is replaced, while the stored files stay the same.
-/

set_option autoImplicit false

namespace BraceDoc

structure FileSystem where
  /-- The files, by their paths in normal form. -/
  stored : List Path
  /-- Whether a path, however spelled, is that of a file. -/
  isFile : Path → Bool
  /-- The text of a file, or why it cannot be read. -/
  read : Path → Except String String
  /-- The names directly in a directory, or why it cannot be listed. -/
  list : Path → Except String (List String)
  /-- A path seen from a directory, in normal form. -/
  resolve : Path → Path → Path

def FileTree.system (t : FileTree) : FileSystem where
  stored := t.paths
  isFile := t.isFile
  read path := (t.read path).mapError FileError.message
  list path := (t.list path).mapError FileError.message
  resolve := Path.resolve

/-- Faults, by the spelling of the path that is asked for. -/
structure Faults where
  read : List (String × String) := []
  list : List (String × String) := []
  listing : List (String × List String) := []
  deriving Inhabited

def FileSystem.withFaults (fs : FileSystem) (faults : Faults) : FileSystem :=
  { fs with
    read := fun path =>
      match faults.read.lookup path.text with
      | some reason => .error reason
      | none => fs.read path
    list := fun path =>
      match faults.list.lookup path.text with
      | some reason => .error reason
      | none =>
        match faults.listing.lookup path.text with
        | some names => .ok names
        | none => fs.list path }

end BraceDoc
