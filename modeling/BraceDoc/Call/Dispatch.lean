import BraceDoc.Call.Standard

/-!
# Rendering a document

The nodes of a document become blocks in order: text that is not blank a paragraph, a literal a code
block, a command whatever its handler yields. A command without handler is reported and kept as it
was written, as far as the options ask for it.
-/

set_option autoImplicit false

namespace BraceDoc

structure UnknownPolicy where
  reports : Bool := true
  keepsRaw : Bool := true
  deriving DecidableEq, Inhabited

def UnknownPolicy.tolerant : UnknownPolicy :=
  ⟨false, false⟩

def Call.ofContent (content : String) (span : Span) : Call :=
  let call := splitCall content
  ⟨call.name, call.arg, content, span⟩

namespace Registry

def unknown (policy : UnknownPolicy) : Handler := fun file call stage =>
  let stage :=
    if policy.reports then
      stage.report ((Problem.unknownCommand call.name).located (some file) (some call.span))
    else
      stage
  (if policy.keepsRaw then [.raw ("\x7b" ++ call.content ++ "\x7d")] else [], stage)

def renderNode (r : Registry) (policy : UnknownPolicy) (file : Path) (node : Node)
    (stage : Stage) : List Block × Stage :=
  match node with
  | .text value _ => (if Text.allBlank value.toList then [] else [.ofText value], stage)
  | .literal _ content _ _ _ => ([.code content none none], stage)
  | .command content _ span _ =>
    let call := Call.ofContent content span
    ((r.get? call.name).getD (unknown policy)) file call stage

def renderNodes (r : Registry) (policy : UnknownPolicy) (file : Path) :
    List Node → Stage → List Block × Stage
  | [], stage => ([], stage)
  | node :: rest, stage =>
    let (blocks, stage) := r.renderNode policy file node stage
    let (more, stage) := r.renderNodes policy file rest stage
    (blocks ++ more, stage)

def render (r : Registry) (policy : UnknownPolicy) (file : Path) (document : Document)
    (stage : Stage) : List Block × Stage :=
  r.renderNodes policy file document.nodes stage

end Registry

end BraceDoc
