import BraceDoc.Path.Basic

/-!
# Normal forms of paths

A normal path is a dot, or a root followed by names, or steps up followed by names. `normalize`
brings a path into normal form by its spelling alone: a step up takes away the name before it, stays
at the root, and is kept where there is nothing to take away.
-/

set_option autoImplicit false

namespace BraceDoc.Path

/-- Adds a part to a list of parts in normal form, the last part first. -/
def push (done : List Part) (part : Part) : List Part :=
  match part with
  | .root => [.root]
  | .here => done
  | .up =>
    match done with
    | .name _ :: rest => rest
    | .root :: _ => done
    | _ => .up :: done
  | .name text => .name text :: done

/-- The parts of a path in normal form; none for a path that stays where it is. -/
def normalParts (parts : List Part) : List Part :=
  (parts.foldl push []).reverse

def render : List Part → String
  | [] => "."
  | .root :: rest => "/" ++ String.intercalate "/" (rest.map Part.text)
  | parts => String.intercalate "/" (parts.map Part.text)

def normalize (p : Path) : Path :=
  ⟨render (normalParts p.parts)⟩

def resolve (base path : Path) : Path :=
  (base.join path).normalize

end BraceDoc.Path
