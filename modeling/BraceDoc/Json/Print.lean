import BraceDoc.Json.Basic
import BraceDoc.Decimal.Layout

/-!
# JSON text

`compact` writes a value without any space, `indented` on several lines with two spaces for each
level. Members are written in the order in which the object lists them. In strings only the quote,
the backslash and the characters below U+0020 are escaped.
-/

set_option autoImplicit false

namespace BraceDoc.Json

def hexDigit (n : Nat) : Char :=
  (Nat.digitChar n)

def escape (c : Char) : List Char :=
  if c = '"' then ['\\', '"']
  else if c = '\\' then ['\\', '\\']
  else if c = '\n' then ['\\', 'n']
  else if c = '\r' then ['\\', 'r']
  else if c = '\t' then ['\\', 't']
  else if c.toNat = 0x08 then ['\\', 'b']
  else if c.toNat = 0x0C then ['\\', 'f']
  else if c.toNat < 0x20 then
    ['\\', 'u', '0', '0', hexDigit (c.toNat / 16), hexDigit (c.toNat % 16)]
  else [c]

def quoted (s : String) : String :=
  "\"" ++ String.ofList (s.toList.flatMap escape) ++ "\""

/-- A number that is not finite has no JSON form and is written as `null`. -/
def realText (x : Float) : String :=
  if x.isFinite then String.ofList (floatText x) else "null"

mutual

def compact : Json → String
  | .null => "null"
  | .bool b => if b then "true" else "false"
  | .int n => toString n
  | .real x => realText x
  | .str s => quoted s
  | .arr items => "[" ++ compactItems items ++ "]"
  | .obj members => "\x7b" ++ compactMembers members ++ "\x7d"

def compactItems : List Json → String
  | [] => ""
  | [item] => compact item
  | item :: rest => compact item ++ "," ++ compactItems rest

def compactMembers : List (String × Json) → String
  | [] => ""
  | [(key, value)] => quoted key ++ ":" ++ compact value
  | (key, value) :: rest => quoted key ++ ":" ++ compact value ++ "," ++ compactMembers rest

end

def newLine (level : Nat) : String :=
  "\n" ++ String.ofList (List.replicate (2 * level) ' ')

mutual

def indentedAt (level : Nat) : Json → String
  | .arr [] => "[]"
  | .arr items => "[" ++ indentedItems (level + 1) items ++ newLine level ++ "]"
  | .obj [] => "\x7b\x7d"
  | .obj members => "\x7b" ++ indentedMembers (level + 1) members ++ newLine level ++ "\x7d"
  | value => compact value

def indentedItems (level : Nat) : List Json → String
  | [] => ""
  | [item] => newLine level ++ indentedAt level item
  | item :: rest => newLine level ++ indentedAt level item ++ "," ++ indentedItems level rest

def indentedMembers (level : Nat) : List (String × Json) → String
  | [] => ""
  | [(key, value)] => newLine level ++ quoted key ++ ": " ++ indentedAt level value
  | (key, value) :: rest =>
    newLine level ++ quoted key ++ ": " ++ indentedAt level value ++ "," ++
      indentedMembers level rest

end

def indented (value : Json) : String :=
  indentedAt 0 value

end BraceDoc.Json
