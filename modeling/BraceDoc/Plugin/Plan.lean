import BraceDoc.Plugin.Catalog
import BraceDoc.Plugin.Schedule

/-!
# Plans

A plan is made of the plugins that were asked for and of providers for what these consume. The first
provider that the catalog lists for a kind is taken, as long as no plugin of the plan provides it.
The catalog names providers, a loader makes plugins; usually both are one catalog. Whatever goes
wrong becomes a warning.
-/

set_option autoImplicit false

namespace BraceDoc

abbrev Loader : Type :=
  String → Except LoadError Plugin

structure Plan where
  /-- The plugins in the order in which they run. -/
  ordered : List Plugin
  /-- The plugins that were added as providers. -/
  autoAdded : List String
  warnings : List Diagnostic

def Plan.names (p : Plan) : List String :=
  p.ordered.map (·.name)

structure Planning where
  /-- The loaded plugins with the names they were loaded by, in order. -/
  loaded : List (String × Plugin) := []
  failed : List String := []
  autoAdded : List String := []
  warnings : List Diagnostic := []
  /-- The consumers and kinds for which no provider is known. -/
  unprovided : List (String × String) := []

namespace Planning

def isTried (p : Planning) (name : String) : Bool :=
  (p.loaded.any fun entry => entry.1 == name) || p.failed.contains name

def ensure (loader : Loader) (auto : Bool) (p : Planning) (name : String) : Planning :=
  if p.isTried name then
    p
  else
    match loader name with
    | .ok plugin =>
      { p with
        loaded := p.loaded ++ [(name, plugin)]
        autoAdded := if auto then p.autoAdded ++ [name] else p.autoAdded }
    | .error e =>
      { p with
        failed := p.failed ++ [name]
        warnings := p.warnings ++ [(Problem.pluginNotLoaded name e.message).located none none] }

/-- Every kind that a loaded plugin consumes, with the name of that plugin. -/
def needs (p : Planning) : List (String × String) :=
  p.loaded.flatMap fun entry =>
    entry.2.manifest.consumes.map fun kind => (entry.2.name, kind)

def isProvided (p : Planning) (kind : String) : Bool :=
  p.loaded.any fun entry => entry.2.manifest.provides.contains kind

def noteUnprovided (p : Planning) (consumer kind : String) : Planning :=
  if p.unprovided.contains (consumer, kind) then
    p
  else
    { p with
      unprovided := p.unprovided ++ [(consumer, kind)]
      warnings := p.warnings ++ [(Problem.noProvider kind consumer).located none none] }

/-- Sees to a provider for one need. -/
def provide (loader : Loader) (catalog : Catalog) (p : Planning) (need : String × String) :
    Planning :=
  if p.isProvided need.2 then
    p
  else
    match catalog.providers need.2 with
    | [] => p.noteUnprovided need.1 need.2
    | first :: _ => p.ensure loader true first

def round (loader : Loader) (catalog : Catalog) (p : Planning) : Planning :=
  p.needs.foldl (provide loader catalog) p

def untried (catalog : Catalog) (p : Planning) : Nat :=
  catalog.entries.countP fun entry => !p.isTried entry.manifest.name

/-- Sees to needs until a round tries no further entry of the catalog. -/
def expand (loader : Loader) (catalog : Catalog) (p : Planning) : Planning :=
  let next := p.round loader catalog
  if next.untried catalog < p.untried catalog then expand loader catalog next else next
termination_by p.untried catalog

end Planning

def Plan.make (requested : List String) (loader : Loader) (catalog : Catalog) : Plan :=
  let asked := requested.foldl (Planning.ensure loader false) {}
  let complete := asked.expand loader catalog
  let (ordered, cycle) := Schedule.order (complete.loaded.map (·.2))
  ⟨ordered, complete.autoAdded, complete.warnings ++ cycle⟩

end BraceDoc
