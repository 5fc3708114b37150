import BraceDoc.Setting.Fold
import BraceDoc.Json.Print

/-!
# What settings ask of a build

Two keys are read by the build itself: `plugins` lists the plugins to run, `outputs` the files to
write. A value that is not a list counts as a list of one item; items of the wrong shape are passed
over.
-/

set_option autoImplicit false

namespace BraceDoc

structure Output where
  kind : String
  path : String
  /-- The plugin that the output is meant for; any plugin where there is none. -/
  plugin : Option String
  deriving DecidableEq, Inhabited

structure BuildRequest where
  plugins : List String
  outputs : List Output
  deriving DecidableEq, Inhabited

namespace Setting

def itemsOf : Option Json → List Json
  | some (.arr items) => items
  | none | some .null => []
  | some value => [value]

def scalarText? : Json → Option String
  | .str s => some s
  | .int n => some (Json.int n).compact
  | .real x => some (Json.real x).compact
  | .bool b => some (Json.bool b).compact
  | _ => none

def output? : Json → Option Output
  | .obj members => do
    let kind ← (Json.Members.get? "type" members).bind scalarText?
    let path ← (Json.Members.get? "path" members).bind scalarText?
    return ⟨kind, path, (Json.Members.get? "plugin" members).bind scalarText?⟩
  | _ => none

end Setting

namespace BuildRequest

def ofSettings (settings : Settings) : BuildRequest where
  plugins :=
    ((Setting.itemsOf (Json.Members.get? "plugins" settings)).filterMap
      Setting.scalarText?).filter fun name => !name.isEmpty
  outputs :=
    (Setting.itemsOf (Json.Members.get? "outputs" settings)).filterMap Setting.output?

def outputsFor (r : BuildRequest) (kind plugin : String) : List Output :=
  r.outputs.filter fun output => output.kind == kind && output.plugin.all (· == plugin)

end BuildRequest

end BraceDoc
