import DocumentPreview.Text.Utf8
import DocumentPreview.Uuid

namespace DocumentPreview

inductive StorageError where
  | s3 (cause : String)
  | notFound (key : String)
  | status (key : String) (code : Nat)
  | config (reason : String)
  deriving DecidableEq, Repr

def StorageError.message : StorageError → String
  | .s3 cause => "S3 operation failed: " ++ cause
  | .notFound key => "Object not found: " ++ key
  | .status key code => s!"Unexpected storage status {code} for " ++ key
  | .config reason => "Storage configuration error: " ++ reason

def previewContentType : String :=
  "application/pdf"

def artifactKey (fileId : Uuid) : String :=
  "previews/" ++ fileId.text ++ ".pdf"

structure StoredObject where
  bytes : Bytes
  contentType : String
  deriving DecidableEq, Repr

structure ObjectStore where
  objects : List (String × StoredObject)
  deriving DecidableEq, Repr

namespace ObjectStore

def empty : ObjectStore :=
  ⟨[]⟩

def get? (s : ObjectStore) (key : String) : Option StoredObject :=
  s.objects.lookup key

def upload (s : ObjectStore) (key : String) (bytes : Bytes) (contentType : String) : ObjectStore :=
  ⟨(key, ⟨bytes, contentType⟩) :: s.objects.filter (·.1 ≠ key)⟩

def find (s : ObjectStore) (key : String) : Except StorageError StoredObject :=
  match s.get? key with
  | some o => .ok o
  | none => .error (.notFound key)

def download (s : ObjectStore) (key : String) : Except StorageError Bytes :=
  (s.find key).map (·.bytes)

def contains (s : ObjectStore) (key : String) : Bool :=
  (s.get? key).isSome

def contentType? (s : ObjectStore) (key : String) : Option String :=
  (s.get? key).map (·.contentType)

end ObjectStore

end DocumentPreview
