import BraceDoc.Files.System
import BraceDoc.Text.Blank

/-!
# Resolving imports

An import names a file by a path. A relative path is seen from the directory of the importing file
or from a fixed root. An import without extension may leave out one of the known extensions; a
directory is never the target of an import.
-/

set_option autoImplicit false

namespace BraceDoc

inductive ImportBase where
  /-- The directory of the importing file. -/
  | fileDirectory
  /-- A fixed root; without one, relative imports lead nowhere. -/
  | root (path : Option Path)
  deriving DecidableEq, Inhabited

structure Resolver where
  base : ImportBase := .fileDirectory
  /-- The extensions that an import may leave out, with their dots. -/
  extensions : List String := [".sh1"]
  deriving DecidableEq, Inhabited

namespace Resolver

def baseOf? (r : Resolver) (importer : Path) : Option Path :=
  match r.base with
  | .fileDirectory => some importer.dirname
  | .root path => path

/-- The path that an import denotes, whether or not there is a file. -/
def target? (r : Resolver) (fs : FileSystem) (importer : Path) (text : String) : Option Path :=
  let path : Path := ⟨Text.trimmed text⟩
  if path.text.isEmpty then none
  else if path.isAbsolute then some path.normalize
  else (r.baseOf? importer).map fun base => (fs.resolve base path).normalize

/-- The file that an import denotes. -/
def file? (r : Resolver) (fs : FileSystem) (importer : Path) (text : String) : Option Path :=
  (r.target? fs importer text).bind fun path =>
    if fs.isFile path then
      some path
    else if path.extension?.isSome then
      none
    else
      (r.extensions.map fun extension => Path.mk (path.text ++ extension)).find? fs.isFile

end Resolver

end BraceDoc
