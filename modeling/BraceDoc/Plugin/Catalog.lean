import BraceDoc.Plugin.IrJson

/-!
# Catalogs of plugins

A catalog lists plugins by their manifests, in the order in which their names first came, and makes
them. A plugin that calls itself by another name than the one it is listed under is refused.
-/

set_option autoImplicit false

namespace BraceDoc

inductive LoadError where
  | notFound (name : String)
  | factory (name reason : String)
  | nameMismatch (requested actual : String)
  deriving DecidableEq, Inhabited

def LoadError.message : LoadError → String
  | .notFound name => "no plugin named \"" ++ name ++ "\""
  | .factory name reason => "plugin \"" ++ name ++ "\" failed to load: " ++ reason
  | .nameMismatch requested actual =>
    "plugin \"" ++ requested ++ "\" identifies itself as \"" ++ actual ++ "\""

structure CatalogEntry where
  manifest : Manifest
  /-- The plugin, or why it cannot be made. -/
  made : Except LoadError Plugin

structure Catalog where
  entries : List CatalogEntry := []

namespace Catalog

def lookup? (c : Catalog) (name : String) : Option CatalogEntry :=
  c.entries.find? fun entry => entry.manifest.name == name

def has (c : Catalog) (name : String) : Bool :=
  (c.lookup? name).isSome

def manifest? (c : Catalog) (name : String) : Option Manifest :=
  (c.lookup? name).map (·.manifest)

/-- Adds an entry, in place of the one of the same name. -/
def register (c : Catalog) (entry : CatalogEntry) : Catalog :=
  if c.has entry.manifest.name then
    ⟨c.entries.map fun old => if old.manifest.name == entry.manifest.name then entry else old⟩
  else
    ⟨c.entries ++ [entry]⟩

def providers (c : Catalog) (kind : String) : List String :=
  (c.entries.filter fun entry => entry.manifest.provides.contains kind).map (·.manifest.name)

def names (c : Catalog) : List String :=
  (c.entries.map (·.manifest.name)).mergeSort fun a b => decide (a ≤ b)

def load (c : Catalog) (name : String) : Except LoadError Plugin :=
  match c.lookup? name with
  | none => .error (.notFound name)
  | some entry =>
    match entry.made with
    | .error e => .error e
    | .ok plugin =>
      if plugin.name = name then .ok plugin else .error (.nameMismatch name plugin.name)

def entryOf (p : Plugin) : CatalogEntry :=
  ⟨p.manifest, .ok p⟩

def builtin : Catalog :=
  (({} : Catalog).register (entryOf Docgen.plugin)).register (entryOf IrJson.plugin)

end Catalog

end BraceDoc
