import BraceDoc.Lists
import BraceDoc.Symbol
import Mathlib.Data.List.Basic
import Mathlib.Data.List.Induction

/-!
# Symbols are definitions grouped by name

A table that has taken in some definitions holds their distinct names in the order of first
occurrences, each with its own definitions in order. So it is told by the plain list of definitions.
What is reported of a command depends on the definitions in front of it only.
-/

set_option autoImplicit false

namespace BraceDoc

structure CommandSite where
  file : Path
  command : Command

namespace CommandSite

/-- The commands that define names, in the order of documents and, in each, of the source. -/
def defining (documents : List SourceFile) : List CommandSite :=
  documents.flatMap fun d =>
    (d.commands.filter fun c => c.name == "define").map fun c => ⟨d.file, c⟩

def definition? (site : CommandSite) : Option Definition :=
  let name := Text.trimmed site.command.argText
  if name = "" then none else some ⟨name, site.file, site.command.span⟩

def report? (unique : Bool) (before : List CommandSite) (site : CommandSite) : Option Diagnostic :=
  match site.definition? with
  | none =>
    some ⟨.error, "empty define name", some site.file, site.command.span, some "E_DEFINE_EMPTY"⟩
  | some d =>
    if unique = true ∧ ∃ earlier ∈ before.filterMap definition?, earlier.name = d.name then
      some ⟨.error, "duplicate definition for \"" ++ d.name ++ "\"", some d.file, d.span,
        some "E_DEFINE_DUPLICATE"⟩
    else
      none

def reports (unique : Bool) (sites : List CommandSite) : List Diagnostic :=
  sites.zipIdx.filterMap fun entry => entry.1.report? unique (sites.take entry.2)

theorem reports_concat (unique : Bool) (sites : List CommandSite) (site : CommandSite) :
    reports unique (sites ++ [site]) =
      reports unique sites ++ (site.report? unique sites).toList := by
  have hFront : (sites.zipIdx.filterMap fun entry =>
        entry.1.report? unique ((sites ++ [site]).take entry.2)) = reports unique sites := by
    apply List.filterMap_congr
    rintro ⟨earlier, i⟩ hEntry
    have hi : i ≤ sites.length := by
      have hLess := List.snd_lt_of_mem_zipIdx hEntry
      omega
    rw [List.take_append_of_le_length hi]
  rw [reports, List.zipIdx_append, List.filterMap_append, hFront]
  cases hReport : site.report? unique sites <;> simp [hReport]

end CommandSite

namespace SymbolTable

def grouped (definitions : List Definition) : SymbolTable where
  symbols := (definitions.map (·.name)).eraseDups.map fun name =>
    ⟨name, definitions.filter fun d => d.name == name⟩

theorem names_grouped (definitions : List Definition) :
    (grouped definitions).names = (definitions.map (·.name)).eraseDups := by
  simp only [names, grouped, List.map_map]
  exact List.map_id _

theorem contains_eq_decide (t : SymbolTable) (name : String) :
    t.contains name = decide (name ∈ t.names) := by
  rw [contains, names, Bool.eq_iff_iff]
  simp

theorem contains_grouped (definitions : List Definition) (name : String) :
    (grouped definitions).contains name = decide (∃ d ∈ definitions, d.name = name) := by
  rw [contains_eq_decide, names_grouped]
  simp [List.mem_eraseDups]

theorem find?_keyed (f : String → Symbol) (hKey : ∀ name, (f name).name = name)
    (keys : List String) (name : String) :
    (keys.map f).find? (fun s => s.name == name) = if name ∈ keys then some (f name) else none := by
  induction keys with
  | nil => rfl
  | cons key rest ih =>
    by_cases hSame : key = name
    · simp [hKey, hSame]
    · simp [hKey, hSame, Ne.symm hSame, ih]

theorem get_grouped (definitions : List Definition) (name : String) :
    (grouped definitions).get name = definitions.filter fun d => d.name == name := by
  rw [get, grouped, find?_keyed _ (fun _ => rfl)]
  by_cases hName : name ∈ (definitions.map (·.name)).eraseDups
  · rw [if_pos hName]
  · rw [if_neg hName]
    symm
    rw [List.filter_eq_nil_iff]
    intro d hd hSame
    exact hName (List.mem_eraseDups.mpr (List.mem_map.mpr ⟨d, hd, beq_iff_eq.mp hSame⟩))

theorem insert_grouped (definitions : List Definition) (d : Definition) :
    (grouped definitions).insert d = grouped (definitions ++ [d]) := by
  have hOther : ∀ name, name ≠ d.name →
      ((definitions ++ [d]).filter fun x => x.name == name) =
        definitions.filter fun x => x.name == name := by
    intro name hName
    simp [List.filter_append, Ne.symm hName]
  rw [insert, contains_eq_decide, names_grouped]
  by_cases hOld : d.name ∈ definitions.map (·.name)
  · rw [if_pos (by simpa [List.mem_eraseDups] using hOld)]
    simp only [grouped, List.map_append, List.map_singleton, eraseDups_concat, if_pos hOld,
      List.map_map]
    congr 1
    apply List.map_congr_left
    intro name _
    by_cases hName : name = d.name
    · simp [hName, List.filter_append]
    · simp [hName, hOther name hName]
  · rw [if_neg (by simpa [List.mem_eraseDups] using hOld)]
    simp only [grouped, List.map_append, List.map_singleton, eraseDups_concat, if_neg hOld]
    congr 2
    · apply List.map_congr_left
      intro name hName
      rw [hOther name fun hSame => hOld (hSame ▸ List.mem_eraseDups.mp hName)]
    · have hNone : (definitions.filter fun x => x.name == d.name) = [] := by
        rw [List.filter_eq_nil_iff]
        intro x hx hSame
        exact hOld (List.mem_map.mpr ⟨x, hx, beq_iff_eq.mp hSame⟩)
      simp [List.filter_append, hNone]

/-- One command adds its definition and its report. -/
theorem define_grouped (unique : Bool) (before : List CommandSite) (site : CommandSite)
    (ds : List Diagnostic) :
    define unique site.file (grouped (before.filterMap CommandSite.definition?), ds) site.command =
      (grouped ((before ++ [site]).filterMap CommandSite.definition?),
        ds ++ (site.report? unique before).toList) := by
  by_cases hEmpty : Text.trimmed site.command.argText = ""
  · have hNone : site.definition? = none := if_pos hEmpty
    simp only [define, if_pos (String.isEmpty_iff.mpr hEmpty), List.filterMap_append,
      List.filterMap_cons_none hNone, List.filterMap_nil, List.append_nil, CommandSite.report?,
      hNone]
    rfl
  · have hSome : site.definition? =
        some ⟨Text.trimmed site.command.argText, site.file, site.command.span⟩ := if_neg hEmpty
    simp only [define, if_neg (mt String.isEmpty_iff.mp hEmpty), contains_grouped, insert_grouped,
      List.filterMap_append, List.filterMap_cons_some hSome, List.filterMap_nil,
      CommandSite.report?, hSome, Bool.and_eq_true, decide_eq_true_eq]
    by_cases hTwice : unique = true ∧ ∃ d ∈ before.filterMap CommandSite.definition?,
        d.name = Text.trimmed site.command.argText
    · rw [if_pos hTwice, if_pos hTwice]
      rfl
    · rw [if_neg hTwice, if_neg hTwice]
      simp

theorem foldl_define (unique : Bool) (sites : List CommandSite) :
    sites.foldl (fun state site => define unique site.file state site.command) ({}, []) =
      (grouped (sites.filterMap CommandSite.definition?), CommandSite.reports unique sites) := by
  induction sites using List.reverseRecOn with
  | nil => rfl
  | append_singleton sites site ih =>
    rw [List.foldl_append, ih, List.foldl_cons, List.foldl_nil, define_grouped,
      CommandSite.reports_concat]

theorem ofDocuments_eq (unique : Bool) (documents : List SourceFile) :
    ofDocuments unique documents =
      (grouped ((CommandSite.defining documents).filterMap CommandSite.definition?),
        CommandSite.reports unique (CommandSite.defining documents)) := by
  rw [← foldl_define, CommandSite.defining, List.foldl_flatMap, ofDocuments]
  simp only [List.foldl_map, SourceFile.commandsNamed]

/-- The table is the list of definitions grouped by name, and the reports follow the commands. -/
theorem ofDocuments_groups (unique : Bool) (documents : List SourceFile) :
    let sites := CommandSite.defining documents
    let definitions := sites.filterMap CommandSite.definition?
    let table := (ofDocuments unique documents).1
    table.names = (definitions.map (·.name)).eraseDups ∧
      (∀ name, table.get name = definitions.filter fun d => d.name == name) ∧
      (∀ name, table.get name = [] ↔ ¬ table.contains name = true) ∧
      (∀ other, (ofDocuments other documents).1 = table) ∧
      (ofDocuments unique documents).2 =
        sites.zipIdx.filterMap fun entry => entry.1.report? unique (sites.take entry.2) := by
  intro sites definitions table
  have hTable : table = grouped definitions := by
    simp only [table, ofDocuments_eq]
    rfl
  refine ⟨?_, ?_, ?_, ?_, ?_⟩
  · rw [hTable, names_grouped]
  · intro name
    rw [hTable, get_grouped]
  · intro name
    rw [hTable, get_grouped, contains_grouped, decide_eq_true_eq, List.filter_eq_nil_iff]
    simp
  · intro other
    rw [hTable, ofDocuments_eq]
  · rw [ofDocuments_eq]
    rfl

end SymbolTable

end BraceDoc
