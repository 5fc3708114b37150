import BraceDoc.Project.Build
import BraceDoc.Proofs.Call.Handler
import BraceDoc.Proofs.Import.Order
import BraceDoc.Proofs.Setting.Lookup

/-!
# The settings of the entry win

Collecting the settings of a project applies the assignments of all documents, one document behind
the other in the order of dependence, and lists the clauses that cannot be read in the same order.
The entry comes last in that order, even where documents import each other. So what the entry sets
is found in the settings, unless the entry itself assigns to a related path later on.
-/

set_option autoImplicit false

namespace BraceDoc

def Document.assignments (document : Document) : List Setting.Assignment :=
  document.nodes.flatMap Node.assignments

def SourceFile.clauseReports (d : SourceFile) : List Diagnostic :=
  d.document.nodes.flatMap (Node.clauseReports d.file)

theorem Node.exists_clause_of_mem {node : Node} {a : Setting.Assignment}
    (hMem : a ∈ node.assignments) : ∃ clause, Setting.parseClause clause = .ok a := by
  obtain ⟨parsed, hParsed, hOk⟩ := List.mem_filterMap.mp hMem
  cases node with
  | text value span => cases hParsed
  | literal width content raw span closed => cases hParsed
  | command content raw span closed =>
    rw [clauses] at hParsed
    split at hParsed
    · obtain ⟨clause, -, rfl⟩ := List.mem_map.mp hParsed
      cases hClause : Setting.parseClause clause with
      | error e =>
        rw [hClause] at hOk
        cases hOk
      | ok b =>
        rw [hClause] at hOk
        cases hOk
        exact ⟨clause, hClause⟩
    · cases hParsed

theorem Document.path_of_mem_assignments {document : Document} {a : Setting.Assignment}
    (hMem : a ∈ document.assignments) :
    a.path ≠ [] ∧ ∀ segment ∈ a.path, Setting.IsSegment segment := by
  obtain ⟨node, -, hNode⟩ := List.mem_flatMap.mp hMem
  obtain ⟨clause, hClause⟩ := Node.exists_clause_of_mem hNode
  exact Setting.path_of_parseClause hClause

namespace Graph

variable {g : Graph}

theorem foldl_applyClauses (file : Path) (nodes : List Node) (stage : Stage) :
    nodes.foldl (fun stage node => node.clauses.foldl (Call.applyClause file node.span) stage)
        stage =
      { stage with
        settings := (nodes.flatMap Node.assignments).foldl Setting.apply stage.settings
        diagnostics := stage.diagnostics ++ nodes.flatMap (Node.clauseReports file) } := by
  induction nodes generalizing stage with
  | nil => simp
  | cons node rest ih =>
    rw [List.foldl_cons, ih, Node.foldl_applyClause, List.flatMap_cons, List.flatMap_cons,
      List.foldl_append]
    simp only [Node.assignments, Node.clauseReports, List.append_assoc]

theorem collectFrom_eq (stage : Stage) (d : SourceFile) :
    collectFrom stage d =
      { stage with
        settings := d.document.assignments.foldl Setting.apply stage.settings
        diagnostics := stage.diagnostics ++ d.clauseReports } := by
  rw [collectFrom, Registry.render, Registry.stage_renderNodes]
  simp only [Registry.stage_renderNode_settingsOnly]
  exact foldl_applyClauses d.file d.document.nodes stage

theorem foldl_collectFrom (documents : List SourceFile) (stage : Stage) :
    documents.foldl collectFrom stage =
      { stage with
        settings :=
          (documents.flatMap (·.document.assignments)).foldl Setting.apply stage.settings
        diagnostics := stage.diagnostics ++ documents.flatMap SourceFile.clauseReports } := by
  induction documents generalizing stage with
  | nil => simp
  | cons d rest ih =>
    rw [List.foldl_cons, ih, collectFrom_eq, List.flatMap_cons, List.flatMap_cons,
      List.foldl_append, List.append_assoc]

theorem collectSettings_eq (g : Graph) :
    g.collectSettings =
      ((g.ordered.flatMap (·.document.assignments)).foldl Setting.apply [],
        g.ordered.flatMap SourceFile.clauseReports) := by
  rw [collectSettings, foldl_collectFrom]
  rfl

/-- The entry of a graph that was built is a document, and the last one in the order. -/
theorem exists_ordered_eq {setup : WalkSetup} {entry : Path}
    (hBuild : (build setup entry).graph = .ok g) :
    ∃ d before, g.document? g.entry = some d ∧ g.ordered = before ++ [d] := by
  obtain ⟨hEntry, hReached⟩ := reached_of_build hBuild
  rw [links_eq] at hReached
  obtain ⟨before, hOrder⟩ := exists_dependencyOrder_eq hEntry hReached
  obtain ⟨d, hFind, -⟩ := exists_document? hEntry
  refine ⟨d, before.filterMap g.document?, hFind, ?_⟩
  rw [ordered, hOrder, List.filterMap_append, List.filterMap_cons_some hFind, List.filterMap_nil]

/-- The entry document is the one that its text gives. -/
theorem document?_entry {setup : WalkSetup} {entry : Path} {source : String}
    (hBuild : (build setup entry).graph = .ok g)
    (hRead : setup.system.read (setup.entryFile entry) = .ok source) :
    g.document? g.entry = some (setup.loaded (setup.entryFile entry) source) := by
  obtain ⟨-, hEntry, -⟩ := outcome_of_build hBuild
  obtain ⟨d, hFind, hFile⟩ := exists_document? (reached_of_build hBuild).1
  obtain ⟨text, hLoaded, -, hText⟩ := loaded_of_build hBuild (List.mem_of_find?_eq_some hFind)
  rw [hFile, hEntry] at hLoaded hText
  cases hText.symm.trans hRead
  rw [hFind, hLoaded]

theorem lookup_collectSettings_entry {setup : WalkSetup} {entry : Path}
    (hBuild : (build setup entry).graph = .ok g) :
    ∃ d, g.document? g.entry = some d ∧
      ∀ (front later : List Setting.Assignment) (path : List String) (value : Json),
        d.document.assignments = front ++ ⟨path, .set, some value⟩ :: later →
        (∀ b ∈ later, Setting.Apart path b.path) →
        Setting.lookup (String.intercalate "." path) g.collectSettings.1 = some value := by
  obtain ⟨d, before, hFind, hOrder⟩ := exists_ordered_eq hBuild
  refine ⟨d, hFind, ?_⟩
  intro front later path value hAssignments hApart
  have hMem : ⟨path, .set, some value⟩ ∈ d.document.assignments := by
    rw [hAssignments]
    exact List.mem_append_right _ List.mem_cons_self
  obtain ⟨hPath, hSegments⟩ := Document.path_of_mem_assignments hMem
  rw [Setting.lookup_intercalate hPath hSegments, collectSettings_eq, hOrder, List.flatMap_append,
    List.flatMap_singleton, List.foldl_append, hAssignments, List.foldl_append, List.foldl_cons,
    Setting.lookupPath_foldl_apply hApart]
  exact Setting.lookupPath_applyPath_set hPath value _

def rivalText : String :=
  "\x7bconfig: doc.title = Main, doc.by = me\x7d\x7bimport: b\x7d\x7bconfig: doc.tags += x, =\x7d"

/-- Two files that import each other, and a companion of the first; all of them set the title. -/
def rivalTree : FileTree where
  files := [(⟨"/p/a.sh1"⟩, rivalText), (⟨"/p/a.x.sh1"⟩, "\x7bconfig: doc.title = Beside\x7d"),
    (⟨"/p/b.sh1"⟩, "\x7bconfig: doc = Base\x7d\x7bimport: a\x7d")]

def rivalSetup : WalkSetup where
  system := rivalTree.system

theorem lookup_collectSettings_entry_rivals :
    ∃ g, (build rivalSetup ⟨"/p/a.sh1"⟩).graph = .ok g ∧
      Setting.lookup "doc.title" g.collectSettings.1 = some (.str "Main") := by
  have hStored : rivalSetup.entryFile ⟨"/p/a.sh1"⟩ ∈ rivalSetup.system.stored := by
    decide +kernel
  have hRead : rivalSetup.system.read (rivalSetup.entryFile ⟨"/p/a.sh1"⟩) = .ok rivalText := by
    decide +kernel
  obtain ⟨g, hBuild⟩ := exists_build_tolerate hStored hRead
  obtain ⟨d, hFind, hWins⟩ := lookup_collectSettings_entry hBuild
  cases hFind.symm.trans (document?_entry hBuild hRead)
  refine ⟨g, hBuild, hWins [] [⟨["doc", "by"], .set, some (.str "me")⟩,
    ⟨["doc", "tags"], .append, some (.str "x")⟩] ["doc", "title"] (.str "Main") ?_ (by decide)⟩
  with_unfolding_all rfl

end Graph

end BraceDoc
