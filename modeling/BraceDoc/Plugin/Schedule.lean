import BraceDoc.Plugin.Basic

/-!
# Scheduling plugins

Plugins are put in an order in which providers come before their consumers. Every plugin waits for a
number of others; one that waits for none is ready, and ready plugins are taken in the order in
which they became so. A plugin that is taken releases the plugins that wait for it. If not all are
taken in the end, the plugins wait for each other in a cycle, and the given order is kept.
-/

set_option autoImplicit false

namespace BraceDoc.Schedule

def needs (consumer provider : Manifest) : Bool :=
  consumer.consumes.any fun kind => provider.provides.contains kind

def waitsFor (manifests : List Manifest) (consumer provider : Nat) : Bool :=
  match manifests[consumer]?, manifests[provider]? with
  | some a, some b => consumer != provider && needs a b
  | _, _ => false

def dependents (manifests : List Manifest) (provider : Nat) : List Nat :=
  (List.range manifests.length).filter fun consumer => waitsFor manifests consumer provider

def waitCount (manifests : List Manifest) (consumer : Nat) : Nat :=
  (List.range manifests.length).countP fun provider => waitsFor manifests consumer provider

structure State where
  /-- For each index, how many plugins it still waits for. -/
  waiting : List Nat
  /-- The indices that are ready, in the order in which they became so. -/
  ready : List Nat
  /-- The indices that have been taken. -/
  taken : List Nat
  deriving DecidableEq

def start (manifests : List Manifest) : State :=
  let waiting := (List.range manifests.length).map (waitCount manifests)
  { waiting
    ready := (List.range manifests.length).filter fun i => waiting[i]? == some 0
    taken := [] }

def release (s : State) (index : Nat) : State :=
  let waiting := s.waiting.modify index (· - 1)
  { s with
    waiting
    ready := if waiting[index]? == some 0 then s.ready ++ [index] else s.ready }

/-- Takes the first plugin that is ready. -/
def take (manifests : List Manifest) (s : State) : State :=
  match s.ready with
  | [] => s
  | first :: rest =>
    (dependents manifests first).foldl release
      { s with ready := rest, taken := s.taken ++ [first] }

def run (manifests : List Manifest) : List Nat :=
  ((List.range manifests.length).foldl (fun s _ => take manifests s) (start manifests)).taken

/-- The plugins in an order that suits them, or as they were where there is none. -/
def order (plugins : List Plugin) : List Plugin × List Diagnostic :=
  let taken := run (plugins.map (·.manifest))
  if taken.length = plugins.length then
    (taken.filterMap fun i => plugins[i]?, [])
  else
    (plugins, [Problem.pluginCycle.located none none])

end BraceDoc.Schedule
