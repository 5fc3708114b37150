import BraceDoc.Path.Basic
import BraceDoc.Json.Basic

/-!
# Assets

Resources that documents refer to. An asset store keeps its assets in the order in which their ids
first came; putting an asset under a known id replaces the one that was there.
-/

set_option autoImplicit false

namespace BraceDoc

structure Asset where
  id : String
  mime : String
  path : Option Path := none
  bytes : Option (List UInt8) := none
  metadata : Json.Members := []
  deriving Inhabited

structure AssetStore where
  assets : List Asset := []
  deriving Inhabited

namespace AssetStore

def get? (store : AssetStore) (id : String) : Option Asset :=
  store.assets.find? fun asset => asset.id == id

def contains (store : AssetStore) (id : String) : Bool :=
  store.assets.any fun asset => asset.id == id

def put (store : AssetStore) (asset : Asset) : AssetStore :=
  if store.contains asset.id then
    ⟨store.assets.map fun old => if old.id == asset.id then asset else old⟩
  else
    ⟨store.assets ++ [asset]⟩

def ids (store : AssetStore) : List String :=
  store.assets.map (·.id)

end AssetStore

def Path.lowerExtension? (p : Path) : Option String :=
  p.extension?.map fun extension => String.ofList (extension.toList.map Char.toLower)

def Asset.mimeOf (p : Path) : String :=
  match p.lowerExtension? with
  | some "png" => "image/png"
  | some "jpg" | some "jpeg" => "image/jpeg"
  | some "gif" => "image/gif"
  | some "svg" => "image/svg+xml"
  | some "webp" => "image/webp"
  | _ => "application/octet-stream"

end BraceDoc
