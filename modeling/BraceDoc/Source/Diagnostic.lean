import BraceDoc.Json.Basic
import BraceDoc.Path.Basic
import BraceDoc.Source.Position

/-!
# Diagnostics

A diagnostic reports a problem or a note of a run. It may carry a file, a span of that file and a
stable code. Diagnostics are kept in the order in which they arise.
-/

set_option autoImplicit false

namespace BraceDoc

inductive Severity where
  | error
  | warning
  | info
  deriving DecidableEq, Inhabited

def Severity.text : Severity → String
  | .error => "error"
  | .warning => "warning"
  | .info => "info"

def Severity.ofText? (text : String) : Option Severity :=
  [Severity.error, .warning, .info].find? fun severity => severity.text == text

structure Diagnostic where
  severity : Severity
  message : String
  file : Option Path := none
  span : Option Span := none
  code : Option String := none
  deriving DecidableEq, Inhabited

namespace Diagnostic

def note (message : String) : Diagnostic :=
  ⟨.info, message, none, none, none⟩

def isError (d : Diagnostic) : Bool :=
  d.severity == .error

def place (d : Diagnostic) : String :=
  match d.file, d.span with
  | some file, some span => " (" ++ file.text ++ ":" ++ span.start.text ++ ")"
  | some file, none => " (" ++ file.text ++ ")"
  | none, _ => ""

def display (d : Diagnostic) : String :=
  let code := match d.code with
    | some code => " " ++ code ++ ":"
    | none => ""
  "[" ++ d.severity.text ++ "]" ++ code ++ " " ++ d.message ++ d.place

end Diagnostic

namespace Diagnostics

def hasErrors (ds : List Diagnostic) : Bool :=
  ds.any Diagnostic.isError

def withCode (code : String) (ds : List Diagnostic) : List Diagnostic :=
  ds.filter fun d => d.code == some code

theorem withCode_append (code : String) (first rest : List Diagnostic) :
    withCode code (first ++ rest) = withCode code first ++ withCode code rest :=
  List.filter_append ..

theorem withCode_eq_nil {code : String} {ds : List Diagnostic}
    (hOther : ∀ d ∈ ds, d.code ≠ some code) : withCode code ds = [] := by
  rw [withCode, List.filter_eq_nil_iff]
  intro d hd
  rw [beq_iff_eq]
  exact hOther d hd

end Diagnostics

/-! ## JSON forms -/

def Position.form (p : Position) : Json :=
  .obj [("line", .int p.line.toNat), ("column", .int p.column.toNat), ("offset", .int p.offset)]

def Span.form (s : Span) : Json :=
  .obj [("start", s.start.form), ("end", s.stop.form)]

def Span.form? (s : Option Span) : Json :=
  Json.ofOption (s.map Span.form)

def Path.form (p : Path) : Json :=
  .str p.text

def Diagnostic.form (d : Diagnostic) : Json :=
  .obj
    [("severity", .str d.severity.text),
      ("message", .str d.message),
      ("file", Json.ofOption (d.file.map Path.form)),
      ("range", Span.form? d.span),
      ("code", Json.ofText? d.code)]

end BraceDoc
