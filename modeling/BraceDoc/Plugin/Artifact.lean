import BraceDoc.Block.Asset
import BraceDoc.Block.Basic

/-!
# Artifacts

What plugins leave for one another, in the order in which it was added. Artifacts are found by their
kind; nothing is ever taken away.
-/

set_option autoImplicit false

namespace BraceDoc

inductive ArtifactData where
  /-- A rendered document. -/
  | blocks (blocks : List Block)
  | assets (store : AssetStore)
  /-- A file that was written, with its length in bytes. -/
  | written (path : Path) (length : Nat)
  | text (content : String)
  | number (value : Int)
  deriving Inhabited

structure Artifact where
  kind : String
  data : ArtifactData
  source : Option Path := none
  deriving Inhabited

namespace Artifact

def allOf (artifacts : List Artifact) (kind : String) : List Artifact :=
  artifacts.filter fun a => a.kind == kind

def latestOf? (artifacts : List Artifact) (kind : String) : Option Artifact :=
  (allOf artifacts kind).getLast?

end Artifact

end BraceDoc
