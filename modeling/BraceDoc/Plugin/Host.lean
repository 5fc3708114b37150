import BraceDoc.Path.Normal
import BraceDoc.Text.Utf8

/-!
# Hosts

A host takes the files that plugins write. How it answers depends on the files that were sent to it
so far, taken or refused, so that a host is described by functions of that history.
-/

set_option autoImplicit false

namespace BraceDoc

structure Write where
  path : Path
  bytes : Text.Bytes
  /-- Why the host did not take the file, if it did not. -/
  refusal : Option String
  deriving DecidableEq, Inhabited

inductive HostError where
  | write (path : Path) (reason : String)
  | read (path : Path) (reason : String)
  /-- The host has no files to read. -/
  | unsupported
  deriving DecidableEq, Inhabited

def HostError.message : HostError → String
  | .write path reason => "failed to write " ++ path.text ++ ": " ++ reason
  | .read path reason => "failed to read " ++ path.text ++ ": " ++ reason
  | .unsupported => "this host cannot read files"

structure Host where
  /-- Where an output path leads. -/
  place : Path → Path
  /-- Why a write to a path is refused after the given writes, if it is. -/
  refusal : List Write → Path → Option String
  /-- What reading a path gives after the given writes. -/
  fetch : List Write → Path → Except HostError Text.Bytes

namespace Host

/-- The writes behind one more write, and the error if it is refused. -/
def write (h : Host) (writes : List Write) (path : Path) (bytes : Text.Bytes) :
    List Write × Option HostError :=
  let refusal := h.refusal writes path
  (writes ++ [⟨path, bytes, refusal⟩], refusal.map (.write path))

def taken (writes : List Write) : List Write :=
  writes.filter fun w => w.refusal.isNone

def placeIn (base path : Path) : Path :=
  (base.join path).normalize

def entryBase (entry : Path) : Path :=
  entry.parent?.getD ⟨"."⟩

/-- What a path holds after some writes: the bytes of the last write to it that was taken. -/
def held? (writes : List Write) (path : Path) : Option Text.Bytes :=
  (((taken writes).filter fun w => w.path.same path).getLast?).map (·.bytes)

/-- Adds a write to a list of files; a path that is there keeps its place and its spelling. -/
def putFile (files : List (Path × Text.Bytes)) (w : Write) : List (Path × Text.Bytes) :=
  if files.any fun file => file.1.same w.path then
    files.map fun file => if file.1.same w.path then (file.1, w.bytes) else file
  else
    files ++ [(w.path, w.bytes)]

/-- The files that some writes leave, in the order of first writes and in their first spelling. -/
def files (writes : List Write) : List (Path × Text.Bytes) :=
  (taken writes).foldl putFile []

def memory (base : Path) : Host where
  place := placeIn base
  refusal _ _ := none
  fetch writes path :=
    match held? writes path with
    | some bytes => .ok bytes
    | none => .error (.read path "entity not found")

/-- A host that takes files where they are sent, or refuses them all for a reason, and reads
none. -/
def recording (reason : Option String) : Host where
  place path := path
  refusal _ _ := reason
  fetch _ _ := .error .unsupported

end Host

end BraceDoc
