import BraceDoc.Import.Graph
import BraceDoc.Import.Resolve
import BraceDoc.Lists
import BraceDoc.Source.Problem

/-!
# Walking a project

A project is walked from its entry file. Loading a file puts its companions and its imports on an
agenda, in front of what was there; every task of the agenda adds an edge and leads to the target of
that edge, unless the target has been dealt with. Files that are missing or cannot be read are
reported once.

The walk ends because every task either takes a stored file that had not been tried, or leaves the
agenda one task shorter.
-/

set_option autoImplicit false

namespace BraceDoc

inductive CyclePolicy where
  /-- An import of a file that is being walked is passed over. -/
  | tolerate
  /-- Such an import ends the walk. -/
  | fail
  deriving DecidableEq, Inhabited

structure Reader where
  parse : String → Path → Parsed
  commands : String → Document → List Command

/-- Commands are taken from the nodes of the document. -/
def Reader.standard : Reader where
  parse source file := Document.parse source file.text
  commands _ document := Command.ofDocument document

/-- Commands are searched in the source text. -/
def Reader.searching : Reader :=
  { Reader.standard with commands := fun source _ => Command.ofSource source }

structure WalkSetup where
  system : FileSystem
  resolver : Resolver := {}
  cycles : CyclePolicy := .tolerate
  companions : Bool := true
  reader : Reader := Reader.standard

inductive Task where
  | companion (source target : Path)
  | importing (source : Path) (command : Command)
  /-- All tasks of the innermost file are done. -/
  | leave
  deriving DecidableEq, Inhabited

structure Walk where
  documents : List SourceFile := []
  edges : List Edge := []
  diagnostics : List Diagnostic := []
  /-- The files that have been reported as missing or unreadable. -/
  failed : List Path := []
  /-- The files that are being walked, the innermost first. -/
  trail : List Path := []
  agenda : List Task := []
  deriving Inhabited

namespace Walk

def isLoaded (w : Walk) (file : Path) : Bool :=
  w.documents.any fun d => d.file == file

def isTried (w : Walk) (file : Path) : Bool :=
  w.isLoaded file || w.failed.contains file

def pending (setup : WalkSetup) (w : Walk) : Nat :=
  setup.system.stored.countP fun file => !w.isTried file

def fail (w : Walk) (file : Path) (problem : Problem) : Walk :=
  { w with
    failed := w.failed ++ [file]
    diagnostics := w.diagnostics ++ [problem.located (some file) none] }

/-- Whether a name is that of a companion: stem, tag and extension with dots between them. -/
def isCompanionName (stem extension name : String) : Bool :=
  let front := stem.toList ++ ['.']
  let back := '.' :: extension.toList
  let name := name.toList
  name.length > front.length + back.length && front.isPrefixOf name && back.isSuffixOf name

def companionsAmong (setup : WalkSetup) (file directory : Path) (stem extension : String)
    (names : List String) : List Path :=
  let found := (names.filter (isCompanionName stem extension)).map fun name =>
    (setup.system.resolve directory ⟨name⟩).normalize
  (found.filter fun path => !path.same file).mergeSort Path.le

def companionsOf (setup : WalkSetup) (file : Path) : Except Problem (List Path) :=
  match file.stem?, file.extension? with
  | some stem, some extension =>
    let directory := file.dirname
    match setup.system.list directory with
    | .ok names => .ok (companionsAmong setup file directory stem extension names)
    | .error reason => .error (.unlistable directory reason)
  | _, _ => .ok []

def companionTasks (setup : WalkSetup) (file : Path) : List Task × List Diagnostic :=
  if setup.companions then
    match companionsOf setup file with
    | .ok companions => (companions.map (.companion file), [])
    | .error problem => ([], [problem.located (some file) none])
  else
    ([], [])

def importTasks (d : SourceFile) : List Task :=
  (d.commandsNamed "import").map (.importing d.file)

/-- Takes in the text of a file and puts its tasks in front of the agenda. -/
def load (setup : WalkSetup) (w : Walk) (file : Path) (source : String) : Walk :=
  let parsed := setup.reader.parse source file
  let loaded : SourceFile :=
    { file, source
      document := parsed.document
      commands := setup.reader.commands source parsed.document }
  let (companions, notes) := companionTasks setup file
  { w with
    documents := w.documents ++ [loaded]
    diagnostics := w.diagnostics ++ parsed.errors.map (·.diagnostic file) ++ notes
    trail := file :: w.trail
    agenda := companions ++ importTasks loaded ++ .leave :: w.agenda }

/-- Tries to load a file that has not been tried. -/
def enter (setup : WalkSetup) (w : Walk) (file : Path) : Walk :=
  if file ∈ setup.system.stored then
    match setup.system.read file with
    | .ok source => w.load setup file source
    | .error reason => w.fail file (.unreadable file reason)
  else
    w.fail file (.fileNotFound file)

/-- The files from `target` to the innermost one, and `target` again. -/
def cycleTo (w : Walk) (target : Path) : List Path :=
  target :: (w.trail.takeWhile (· ≠ target)).reverse ++ [target]

def follow (setup : WalkSetup) (w : Walk) (target : Path) : Except GraphError Walk :=
  if target ∈ w.trail then
    match setup.cycles with
    | .fail => .error (.importCycle (w.cycleTo target))
    | .tolerate => .ok w
  else if w.isTried target then
    .ok w
  else
    .ok (w.enter setup target)

def addEdge (w : Walk) (edge : Edge) : Walk :=
  { w with edges := w.edges ++ [edge] }

/-- Carries out a task that has been taken off the agenda. -/
def perform (setup : WalkSetup) (w : Walk) : Task → Except GraphError Walk
  | .companion source target =>
    (w.addEdge ⟨source, target, companionMark, none⟩).follow setup target
  | .importing source command =>
    match setup.resolver.file? setup.system source command.argText with
    | some path =>
      let target := path.normalize
      (w.addEdge ⟨source, target, command.argText, command.span⟩).follow setup target
    | none =>
      let problem := Problem.importNotFound command.argText
      .ok { w with
        diagnostics := w.diagnostics ++ [problem.located (some source) command.span] }
  | .leave => .ok { w with trail := w.trail.tail }

/-! ## The walk ends -/

def Less (setup : WalkSetup) (w v : Walk) : Prop :=
  Prod.Lex Nat.lt Nat.lt (w.pending setup, w.agenda.length) (v.pending setup, v.agenda.length)

theorem less_of_agenda {setup : WalkSetup} {w v : Walk}
    (hTried : ∀ x, v.isTried x = true → w.isTried x = true)
    (hAgenda : w.agenda.length < v.agenda.length) : Less setup w v := by
  have hLe : w.pending setup ≤ v.pending setup := by
    apply List.countP_mono_left
    intro x _ hNot
    cases hOld : v.isTried x with
    | false => rfl
    | true => simp [hTried x hOld] at hNot
  rcases Nat.lt_or_eq_of_le hLe with hLt | hEq
  · exact Prod.Lex.left _ _ hLt
  · rw [Less, hEq]
    exact Prod.Lex.right _ hAgenda

theorem isTried_fail (w : Walk) (file : Path) (problem : Problem) (x : Path)
    (hTried : w.isTried x = true) : (w.fail file problem).isTried x = true := by
  simp only [isTried, isLoaded, fail, Bool.or_eq_true, List.contains_eq_mem, decide_eq_true_eq,
    List.mem_append] at hTried ⊢
  exact hTried.imp id Or.inl

theorem less_load {setup : WalkSetup} {w v : Walk} {file : Path} {source : String}
    (hTried : ∀ x, v.isTried x = true → w.isTried x = true) (hStored : file ∈ setup.system.stored)
    (hNew : w.isTried file = false) : Less setup (w.load setup file source) v := by
  apply Prod.Lex.left
  have hOld : v.isTried file = false := by
    cases hOld : v.isTried file with
    | false => rfl
    | true => rw [hTried file hOld] at hNew; exact hNew
  refine countP_lt_of_mem ?_ hStored ?_ ?_
  · intro x hNot
    cases hx : v.isTried x with
    | false => rfl
    | true =>
      have hLoaded : (w.load setup file source).isTried x = true := by
        have hBefore := hTried x hx
        simp only [isTried, isLoaded, load, Bool.or_eq_true, List.any_append] at hBefore ⊢
        exact hBefore.imp Or.inl id
      simp [hLoaded] at hNot
  · simp [isTried, isLoaded, load]
  · simp [hOld]

theorem less_follow {setup : WalkSetup} {w v next : Walk} {target : Path}
    (hTried : ∀ x, v.isTried x = true → w.isTried x = true)
    (hAgenda : w.agenda.length < v.agenda.length)
    (hFollow : w.follow setup target = .ok next) : Less setup next v := by
  unfold follow at hFollow
  split at hFollow
  · split at hFollow
    · cases hFollow
    · cases hFollow
      exact less_of_agenda hTried hAgenda
  · split at hFollow
    · cases hFollow
      exact less_of_agenda hTried hAgenda
    · rename_i hNew
      cases hFollow
      have hFail : ∀ problem, Less setup (w.fail target problem) v := fun problem =>
        less_of_agenda (fun x hx => isTried_fail w target problem x (hTried x hx)) hAgenda
      unfold enter
      split
      · rename_i hStored
        split
        · exact less_load hTried hStored (by simpa using hNew)
        · exact hFail _
      · exact hFail _

theorem less_perform {setup : WalkSetup} {w next : Walk} {task : Task} {rest : List Task}
    (hAgenda : w.agenda = task :: rest)
    (hPerform : ({ w with agenda := rest } : Walk).perform setup task = .ok next) :
    Less setup next w := by
  have hShorter : rest.length < w.agenda.length := by
    rw [hAgenda]
    exact Nat.lt_succ_self _
  cases task with
  | companion source target =>
    exact less_follow (w := addEdge { w with agenda := rest } _) (fun _ hx => hx) hShorter hPerform
  | importing source command =>
    simp only [perform] at hPerform
    split at hPerform
    · exact less_follow (w := addEdge { w with agenda := rest } _) (fun _ hx => hx) hShorter
        hPerform
    · cases hPerform
      exact less_of_agenda (fun _ hx => hx) hShorter
  | leave =>
    cases hPerform
    exact less_of_agenda (fun _ hx => hx) hShorter

/-- Carries out the agenda to its end, or up to the first import that the policy refuses. -/
def run (setup : WalkSetup) (w : Walk) : Walk × Option GraphError :=
  match _hAgenda : w.agenda with
  | [] => (w, none)
  | task :: rest =>
    match _hPerform : ({ w with agenda := rest } : Walk).perform setup task with
    | .ok next => run setup next
    | .error e => (w, some e)
termination_by (w.pending setup, w.agenda.length)
decreasing_by exact less_perform _hAgenda _hPerform

end Walk

structure GraphResult where
  graph : Except GraphError Graph
  diagnostics : List Diagnostic

def WalkSetup.entryFile (setup : WalkSetup) (entry : Path) : Path :=
  (setup.system.resolve ⟨"."⟩ entry).normalize

def Graph.build (setup : WalkSetup) (entry : Path) : GraphResult :=
  let file := setup.entryFile entry
  let (walk, error) := ((({} : Walk).enter setup file).run setup)
  match error with
  | some e => ⟨.error e, walk.diagnostics⟩
  | none =>
    if walk.isLoaded file then
      ⟨.ok ⟨file, walk.documents, walk.edges⟩, walk.diagnostics⟩
    else
      ⟨.error (.entryNotFound file), walk.diagnostics⟩

end BraceDoc
