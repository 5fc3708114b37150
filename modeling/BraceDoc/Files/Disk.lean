import BraceDoc.Files.System
import BraceDoc.Plugin.Host

/-!
# Disks

A disk holds directories and files of bytes. Unlike a file tree it has directories of their own, and
a path leads somewhere only if everything before its last part is a directory. The names of a disk
are bounded in length, and so are the paths that it is asked for.

A disk serves both as a file system and as a host. Files are written with the directories they need;
the directories stay even where the file itself is refused.
-/

set_option autoImplicit false

namespace BraceDoc

inductive DiskFault where
  | missing
  | occupied
  | notDirectory
  | isDirectory
  | tooLong
  /-- A path has a character of code zero. -/
  | nulCharacter
  | notText
  deriving DecidableEq, Inhabited

def DiskFault.message : DiskFault → String
  | .missing => "No such file or directory (os error 2)"
  | .occupied => "File exists (os error 17)"
  | .notDirectory => "Not a directory (os error 20)"
  | .isDirectory => "Is a directory (os error 21)"
  | .tooLong => "File name too long (os error 36)"
  | .nulCharacter => "file name contained an unexpected NUL byte"
  | .notText => "stream did not contain valid UTF-8"

structure Disk where
  /-- The directory that relative paths are seen from. -/
  cwd : Path
  /-- The directories, by their paths in normal form. -/
  directories : List Path
  /-- The files, by their paths in normal form. -/
  files : List (Path × Text.Bytes)
  deriving Inhabited

namespace Disk

def nameLimit : Nat := 255

def pathLimit : Nat := 4095

/-- The directories that lead to a path in normal form, the outermost first. -/
def ancestors (p : Path) : List Path :=
  (List.range p.parts.length).tail.map fun n => ⟨Path.render (p.parts.take n)⟩

def ofDirectories (cwd : Path) (directories : List Path) : Disk where
  cwd := cwd
  directories := (directories.flatMap fun d => ancestors d ++ [d]).eraseDups
  files := []

def isDirectory (d : Disk) (p : Path) : Bool :=
  d.directories.contains p

def bytes? (d : Disk) (p : Path) : Option Text.Bytes :=
  d.files.lookup p

/-! ## Finding -/

def spellingFault? (p : Path) : Option DiskFault :=
  if p.text.toList.any (·.toNat = 0) then some .nulCharacter
  else if p.text.utf8ByteSize > pathLimit then some .tooLong
  else none

def isLongName (part : Path.Part) : Bool :=
  part.text.utf8ByteSize > nameLimit

/-- Where a step from a place leads; only a directory can be left. -/
def step (d : Disk) (place : Path) (part : Path.Part) : Except DiskFault Path :=
  match part with
  | .root => .ok ⟨"/"⟩
  | .here => .ok place
  | part =>
    if d.isDirectory place then
      if isLongName part then .error .tooLong
      else .ok ⟨Path.render (Path.normalParts (place.parts ++ [part]))⟩
    else if (d.bytes? place).isSome then
      .error .notDirectory
    else
      .error .missing

/-- Whether a spelling can only be that of a directory. -/
def asksDirectory (p : Path) : Bool :=
  match p.text.toList.reverse with
  | '/' :: _ => true
  | '.' :: '/' :: _ => true
  | _ => false

/-- The file or directory that a path leads to, in normal form. -/
def locate (d : Disk) (p : Path) : Except DiskFault Path :=
  match spellingFault? p with
  | some fault => .error fault
  | none =>
    match p.parts.foldlM d.step d.cwd with
    | .error fault => .error fault
    | .ok place =>
      if d.isDirectory place then .ok place
      else if (d.bytes? place).isNone then .error .missing
      else if asksDirectory p then .error .notDirectory
      else .ok place

def holds (d : Disk) (p : Path) : Bool :=
  (d.locate p).toOption.isSome

def isFile (d : Disk) (p : Path) : Bool :=
  (d.locate p).toOption.any fun place => !d.isDirectory place

def read (d : Disk) (p : Path) : Except DiskFault Text.Bytes :=
  match d.locate p with
  | .error fault => .error fault
  | .ok place =>
    if d.isDirectory place then .error .isDirectory else .ok ((d.bytes? place).getD [])

def readText (d : Disk) (p : Path) : Except DiskFault String :=
  match d.read p with
  | .error fault => .error fault
  | .ok bytes =>
    match Text.decode? bytes with
    | some text => .ok text
    | none => .error .notText

def list (d : Disk) (p : Path) : Except DiskFault (List String) :=
  match d.locate p with
  | .error fault => .error fault
  | .ok place =>
    if d.isDirectory place then
      .ok <| FileTree.sortedNames <| (d.directories ++ d.files.map (·.1)).filterMap fun entry =>
        match FileTree.below? place entry with
        | some [part] => some part.text
        | _ => none
    else
      .error .notDirectory

/-! ## Writing -/

def endsInLongName (p : Path) : Bool :=
  p.parts.getLast?.any isLongName

/-- Makes directories, each in the one before it, up to the first that cannot be made. -/
def makeDirectories (d : Disk) : List Path → Disk × Option DiskFault
  | [] => (d, none)
  | p :: rest =>
    if d.isDirectory p then
      d.makeDirectories rest
    else if (d.bytes? p).isSome then
      (d, some (if rest.isEmpty then .occupied else .notDirectory))
    else if endsInLongName p then
      (d, some .tooLong)
    else
      { d with directories := d.directories ++ [p] }.makeDirectories rest

def makeAncestors (d : Disk) (p : Path) : Disk × Option DiskFault :=
  match (ancestors p).getLast?.bind spellingFault? with
  | some fault => (d, some fault)
  | none => d.makeDirectories (ancestors p)

/-- Why a file cannot stand at a path whose directories are there, if it cannot. -/
def fileFault? (d : Disk) (p : Path) : Option DiskFault :=
  (spellingFault? p).orElse fun _ =>
    if d.isDirectory p then some .isDirectory
    else if endsInLongName p then some .tooLong
    else none

def put (d : Disk) (p : Path) (bytes : Text.Bytes) : Disk :=
  if (d.bytes? p).isSome then
    { d with files := d.files.map fun file => if file.1 = p then (p, bytes) else file }
  else
    { d with files := d.files ++ [(p, bytes)] }

/-- The disk behind a write to a path in normal form, and why the file is not there, if it is
not. -/
def write (d : Disk) (p : Path) (bytes : Text.Bytes) : Disk × Option DiskFault :=
  match d.makeAncestors p with
  | (made, some fault) => (made, some fault)
  | (made, none) =>
    match made.fileFault? p with
    | some fault => (made, some fault)
    | none => (made.put p bytes, none)

def writeAll (d : Disk) (writes : List Write) : Disk :=
  writes.foldl (fun d w => (d.write w.path w.bytes).1) d

/-! ## Uses -/

def resolve (d : Disk) (base path : Path) : Path :=
  let joined := base.join path
  if joined.isAbsolute then joined.normalize else (d.cwd.join joined).normalize

def system (d : Disk) : FileSystem where
  stored := d.files.map (·.1)
  isFile := d.isFile
  read path := (d.readText path).mapError DiskFault.message
  list path := (d.list path).mapError DiskFault.message
  resolve := d.resolve

def host (d : Disk) (base : Path) : Host where
  place := Host.placeIn base
  refusal writes path := ((d.writeAll writes).write path []).2.map DiskFault.message
  fetch writes path :=
    ((d.writeAll writes).read path).mapError fun fault => .read path fault.message

end Disk

end BraceDoc
