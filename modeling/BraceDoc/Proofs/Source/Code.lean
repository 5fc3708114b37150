import BraceDoc.Source.Problem

/-!
# The codes of diagnostics

Every stage of a run reports under codes of its own. Where the codes of a list are known, the
diagnostics with any other code are none.
-/

set_option autoImplicit false

namespace BraceDoc.Diagnostics

/-- All codes of the diagnostics are among the given ones; a diagnostic may have none. -/
def Within (codes : List String) (ds : List Diagnostic) : Prop :=
  ∀ d ∈ ds, ∀ code ∈ d.code, code ∈ codes

def ofFamily (family : String) (ds : List Diagnostic) : List Diagnostic :=
  ds.filter fun d => d.code.any fun code => family.toList.isPrefixOf code.toList

def Under (code : String) (ds : List Diagnostic) : Prop :=
  ∀ d ∈ ds, d.code = some code

theorem ofFamily_append (family : String) (first rest : List Diagnostic) :
    ofFamily family (first ++ rest) = ofFamily family first ++ ofFamily family rest :=
  List.filter_append ..

theorem within_nil (codes : List String) : Within codes [] :=
  List.forall_mem_nil _

@[simp] theorem within_append {codes : List String} {first rest : List Diagnostic} :
    Within codes (first ++ rest) ↔ Within codes first ∧ Within codes rest :=
  List.forall_mem_append

@[simp] theorem within_located {codes : List String} {problem : Problem} {file : Option Path}
    {span : Option Span} : Within codes [problem.located file span] ↔ problem.code ∈ codes := by
  simp [Within, Problem.located]

@[simp] theorem within_note (codes : List String) (message : String) :
    Within codes [.note message] := by
  simp [Within, Diagnostic.note]

section Within

variable {codes : List String} {ds : List Diagnostic} (hWithin : Within codes ds)

include hWithin

theorem Within.mono {more : List String} (hSubset : ∀ code ∈ codes, code ∈ more) :
    Within more ds :=
  fun d hd code hCode => hSubset code (hWithin d hd code hCode)

theorem Within.withCode_eq_nil {code : String} (hOther : code ∉ codes) : withCode code ds = [] := by
  apply Diagnostics.withCode_eq_nil
  intro d hd hCode
  exact hOther (hWithin d hd code hCode)

theorem Within.ofFamily_eq_nil {family : String}
    (hOther : ∀ code ∈ codes, family.toList.isPrefixOf code.toList = false) :
    ofFamily family ds = [] := by
  rw [ofFamily, List.filter_eq_nil_iff]
  intro d hd hFamily
  cases hCode : d.code with
  | none =>
    rw [hCode] at hFamily
    cases hFamily
  | some code =>
    rw [hCode, Option.any_some, hOther code (hWithin d hd code hCode)] at hFamily
    cases hFamily

end Within

theorem Under.within {code : String} {ds : List Diagnostic} (hUnder : Under code ds) :
    Within [code] ds := by
  intro d hd other hOther
  rw [hUnder d hd, Option.mem_some_iff] at hOther
  exact List.mem_singleton.mpr hOther.symm

theorem Under.withCode_eq {code : String} {ds : List Diagnostic} (hUnder : Under code ds) :
    withCode code ds = ds := by
  rw [withCode, List.filter_eq_self]
  intro d hd
  rw [hUnder d hd, beq_self_eq_true]

end BraceDoc.Diagnostics
