import DocumentPreview.Json.Basic
import DocumentPreview.Uuid

namespace DocumentPreview

structure FileRecord where
  id : Uuid
  name : String
  storageKey : String
  mimeType : Option String
  deriving DecidableEq, Repr

namespace FileRecord

def fieldNames : List String :=
  ["id", "name", "storage_key", "mime_type"]

def toJson (f : FileRecord) : Json :=
  .record
    [("id", f.id.toJson), ("name", .text f.name), ("storage_key", .text f.storageKey),
     ("mime_type", .ofOption .text f.mimeType)]

def ofFields? : List (Option Json) → Option FileRecord
  | [id, name, storageKey, mimeType] => do
    return {
      id := ← Json.required? Uuid.ofJson? id
      name := ← Json.required? Json.text? name
      storageKey := ← Json.required? Json.text? storageKey
      mimeType := ← Json.optional? Json.text? mimeType }
  | _ => none

def ofJson? (j : Json) : Option FileRecord :=
  (j.fields? fieldNames).bind ofFields?

end FileRecord

structure FileCatalog where
  files : List FileRecord
  deriving Repr

namespace FileCatalog

def empty : FileCatalog :=
  ⟨[]⟩

def insert (c : FileCatalog) (f : FileRecord) : FileCatalog :=
  ⟨f :: c.files.filter (·.id ≠ f.id)⟩

def find? (c : FileCatalog) (id : Uuid) : Option FileRecord :=
  c.files.find? (·.id = id)

end FileCatalog

structure CatalogError where
  reason : String
  deriving DecidableEq, Repr

def CatalogError.message (e : CatalogError) : String :=
  "File catalog unavailable: " ++ e.reason

end DocumentPreview
