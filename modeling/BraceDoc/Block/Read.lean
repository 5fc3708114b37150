import BraceDoc.Block.Basic
import BraceDoc.Json.Fields

/-!
# Reading blocks

Blocks are read from their JSON forms. What may be absent in a block may be missing in its form, and
the guess at a literal is never read.
-/

set_option autoImplicit false

namespace BraceDoc

def Inline.ofForm? (value : Json) : Option Inline :=
  let children := fun (_ : Unit) =>
    (value.itemsAt "children").attach.mapM fun child => Inline.ofForm? child.1
  match value.textAt? "kind" with
  | some "text" => (value.textAt? "text").map .text
  | some "strong" => (children ()).map .strong
  | some "emphasis" => (children ()).map .emphasis
  | some "underline" => (children ()).map .underline
  | some "code" => (value.textAt? "text").map .code
  | some "citation" => (value.textAt? "key").map (.citation · (value.textAt? "locator"))
  | some "rawCommand" => (value.textAt? "name").map (.rawCommand · (value.textAt? "arg"))
  | some "image" => (value.textAt? "assetId").map (.image · (value.textAt? "alt"))
  | _ => none
termination_by sizeOf value
decreasing_by exact Json.sizeOf_lt_of_mem_itemsAt child.2

def Block.ofForm? (value : Json) : Option Block :=
  let inlines := (value.itemsAt "inlines").mapM Inline.ofForm?
  match value.textAt? "kind" with
  | some "paragraph" => inlines.map .paragraph
  | some "heading" => (value.natAt? "level").bind fun level => inlines.map (.heading level)
  | some "codeBlock" =>
    (value.textAt? "text").map fun content => .code content (value.textAt? "language") none
  | some "raw" => (value.textAt? "text").map .raw
  | some "bibliography" =>
    ((value.itemsAt "entries").mapM Json.text?).map
      (.bibliography (value.textAt? "style") (value.textAt? "title"))
  | _ => none

end BraceDoc
