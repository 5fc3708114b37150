import BraceDoc.Block.Asset
import BraceDoc.Block.Basic
import BraceDoc.Decimal.Layout
import BraceDoc.Source.Diagnostic

/-!
# JSON forms of blocks and assets
-/

set_option autoImplicit false

namespace BraceDoc

/-- A single precision number in the digits that tell it from its neighbours in that precision. -/
def Json.ofFloat32 (x : Float32) : Json :=
  .real (Binary.ofFloat32 x).shortest.toFloat

def Verdict.form (v : Verdict) : Json :=
  .obj
    [("type", .str v.language.name), ("confidence", Json.ofFloat32 v.confidence),
      ("reason", .str v.reason)]

mutual

def Inline.form : Inline → Json
  | .text content => .obj [("kind", .str "text"), ("text", .str content)]
  | .strong children => .obj [("kind", .str "strong"), ("children", .arr (Inline.forms children))]
  | .emphasis children =>
    .obj [("kind", .str "emphasis"), ("children", .arr (Inline.forms children))]
  | .underline children =>
    .obj [("kind", .str "underline"), ("children", .arr (Inline.forms children))]
  | .code content => .obj [("kind", .str "code"), ("text", .str content)]
  | .citation key locator =>
    .obj [("kind", .str "citation"), ("key", .str key), ("locator", Json.ofText? locator)]
  | .rawCommand name arg =>
    .obj [("kind", .str "rawCommand"), ("name", .str name), ("arg", Json.ofText? arg)]
  | .image assetId alt =>
    .obj [("kind", .str "image"), ("assetId", .str assetId), ("alt", Json.ofText? alt)]

def Inline.forms : List Inline → List Json
  | [] => []
  | inline :: rest => inline.form :: Inline.forms rest

end

/-- The members of a block, where `verdict` gives the form of a guess. -/
def Block.formWith (verdict : Verdict → Json) : Block → Json
  | .paragraph inlines =>
    .obj [("kind", .str "paragraph"), ("inlines", .arr (Inline.forms inlines))]
  | .heading level inlines =>
    .obj [("kind", .str "heading"), ("level", .int level), ("inlines", .arr (Inline.forms inlines))]
  | .code content language detected =>
    .obj
      [("kind", .str "codeBlock"), ("text", .str content), ("language", Json.ofText? language),
        ("detected", Json.ofOption (detected.map verdict))]
  | .raw content => .obj [("kind", .str "raw"), ("text", .str content)]
  | .bibliography style title entries =>
    .obj
      [("kind", .str "bibliography"), ("style", Json.ofText? style), ("title", Json.ofText? title),
        ("entries", .arr (entries.map .str))]

def Block.form : Block → Json :=
  Block.formWith Verdict.form

def Block.documentForm (blocks : List Block) : Json :=
  .obj [("blocks", .arr (blocks.map Block.form))]

/-- The bytes of an asset are not part of its form. -/
def Asset.form (a : Asset) : Json :=
  .obj
    [("id", .str a.id), ("mime", .str a.mime), ("path", Json.ofOption (a.path.map Path.form)),
      ("meta", .obj a.metadata)]

end BraceDoc
