import BraceDoc.Setting.Value

/-!
# Assignments

A clause assigns to a dotted path by one of four operators. A clause without operator or without
path is an error, which leaves the other clauses of its payload as they are.
-/

set_option autoImplicit false

namespace BraceDoc.Setting

inductive Operator where
  /-- `=` overwrites. -/
  | set
  /-- `+=` appends to a list. -/
  | append
  /-- `-=` removes equal items from a list. -/
  | remove
  /-- `!=` starts over. -/
  | reset
  deriving DecidableEq, Inhabited

def Operator.text : Operator → String
  | .set => "="
  | .append => "+="
  | .remove => "-="
  | .reset => "!="

def Operator.ofText? (text : String) : Option Operator :=
  [Operator.set, .append, .remove, .reset].find? fun operator => operator.text == text

structure Assignment where
  path : List String
  operator : Operator
  /-- Absent only where a reset names no value. -/
  value : Option Json
  deriving Inhabited

inductive ClauseError where
  | missingOperator (clause : String)
  | emptyPath (clause : String)
  deriving DecidableEq, Inhabited

def ClauseError.message : ClauseError → String
  | .missingOperator clause => "missing operator in config clause `" ++ clause ++ "`"
  | .emptyPath clause => "empty key path in config clause `" ++ clause ++ "`"

def splitOperator (left : List Char) : Operator × List Char :=
  match left.getLast? with
  | some '+' => (.append, left.dropLast)
  | some '-' => (.remove, left.dropLast)
  | some '!' => (.reset, left.dropLast)
  | _ => (.set, left)

/-- The segments of a dotted path, trimmed and without the empty ones. -/
def pathSegments (cs : List Char) : List String :=
  (((Text.fields '.' cs).map Text.trim).filter fun segment => !segment.isEmpty).map String.ofList

def parseClause (clause : List Char) : Except ClauseError Assignment :=
  match cutAtEquals? {} clause with
  | none => .error (.missingOperator (String.ofList clause))
  | some (left, right) =>
    let (operator, pathText) := splitOperator left
    let path := pathSegments pathText
    if path.isEmpty then
      .error (.emptyPath (String.ofList clause))
    else
      let value :=
        if operator = .reset && Text.allBlank right then none else some (parseValue right)
      .ok ⟨path, operator, value⟩

/-- The assignments of a payload, with the errors in their places. -/
def parse (payload : String) : List (Except ClauseError Assignment) :=
  (clauses (Text.trim payload.toList)).map parseClause

end BraceDoc.Setting
