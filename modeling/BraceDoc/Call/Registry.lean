import BraceDoc.Block.Asset
import BraceDoc.Block.Basic
import BraceDoc.Setting.Fold
import BraceDoc.Source.Problem

/-!
# Handlers of commands

A handler answers a command call with blocks. It may report diagnostics, put assets and change the
settings; these make up the stage on which a document is rendered. A registry holds one handler for
each name; registering a name again replaces its handler.
-/

set_option autoImplicit false

namespace BraceDoc

structure Call where
  name : String
  arg : Option String
  /-- The text between the braces as written. -/
  content : String
  span : Span
  deriving Inhabited

def Call.argText (c : Call) : String :=
  c.arg.getD ""

/-- What the handlers of a run read and change. -/
structure Stage where
  diagnostics : List Diagnostic := []
  assets : AssetStore := {}
  settings : Settings := []
  deriving Inhabited

namespace Stage

def report (stage : Stage) (d : Diagnostic) : Stage :=
  { stage with diagnostics := stage.diagnostics ++ [d] }

def putAsset (stage : Stage) (asset : Asset) : Stage :=
  { stage with assets := stage.assets.put asset }

end Stage

/-- What is done with a call in a file: the blocks it yields and the stage behind it. -/
abbrev Handler : Type :=
  Path → Call → Stage → List Block × Stage

structure Registry where
  handlers : List (String × Handler) := []
  deriving Inhabited

namespace Registry

def get? (r : Registry) (name : String) : Option Handler :=
  r.handlers.lookup name

def has (r : Registry) (name : String) : Bool :=
  (r.get? name).isSome

def register (r : Registry) (name : String) (handler : Handler) : Registry :=
  ⟨(name, handler) :: r.handlers.filter fun entry => entry.1 != name⟩

def registerAll (r : Registry) (entries : List (String × Handler)) : Registry :=
  entries.foldl (fun r entry => r.register entry.1 entry.2) r

def names (r : Registry) : List String :=
  (r.handlers.map (·.1)).mergeSort fun a b => decide (a ≤ b)

end Registry

end BraceDoc
