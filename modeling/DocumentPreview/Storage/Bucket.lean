import DocumentPreview.Storage.Basic
import DocumentPreview.Text.Percent

namespace DocumentPreview.Bucket

structure Request where
  method : String
  path : String
  contentType : Option String
  body : Bytes
  deriving DecidableEq, Repr

structure Reply where
  status : Nat
  body : Bytes
  deriving DecidableEq, Repr

def isPlain (c : Char) : Bool :=
  c.isAlphanum || c = '-' || c = '.' || c = '_' || c = '~' || c = '/'

def path (bucket key : String) : String :=
  "/" ++ bucket ++ "/" ++ String.ofList (Percent.encode isPlain (Utf8.ofString key))

def downloadRequest (bucket key : String) : Request :=
  ⟨"GET", path bucket key, none, []⟩

def uploadRequest (bucket key : String) (data : Bytes) (contentType : String) : Request :=
  ⟨"PUT", path bucket key, some contentType, data⟩

def checkStatus (key : String) (status : Nat) : Except StorageError Unit :=
  if 200 ≤ status ∧ status < 300 then .ok ()
  else if status = 404 then .error (.notFound key)
  else .error (.status key status)

def downloaded (key : String) (reply : Reply) : Except StorageError Bytes :=
  (checkStatus key reply.status).map fun _ => reply.body

def uploaded (key : String) (reply : Reply) : Except StorageError Unit :=
  checkStatus key reply.status

def download (key : String) (sent : Except String Reply) : Except StorageError Bytes :=
  (sent.mapError .s3).bind (downloaded key)

def upload (key : String) (sent : Except String Reply) : Except StorageError Unit :=
  (sent.mapError .s3).bind (uploaded key)

end DocumentPreview.Bucket
