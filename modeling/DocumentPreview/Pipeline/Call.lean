import DocumentPreview.Conversion
import DocumentPreview.FileRecord
import DocumentPreview.JobQueue
import DocumentPreview.Metrics
import DocumentPreview.Program
import DocumentPreview.Replay.Redis
import DocumentPreview.Storage.Basic
import DocumentPreview.Store.Operation

namespace DocumentPreview

inductive DocumentCall where
  | find (fileId : Uuid)
  | download (key : String)
  | convert (name : String) (source : Bytes)
  | upload (key : String) (bytes : Bytes) (contentType : String)
  deriving DecidableEq, Repr

def DocumentCall.Reply : DocumentCall → Type
  | find _ => Except CatalogError (Option FileRecord)
  | download _ => Except StorageError Bytes
  | convert .. => Except ConversionError Bytes
  | upload .. => Except StorageError Unit

inductive ServiceCall where
  | clock
  | freshId
  | store (op : StoreOp)
  | documents (c : DocumentCall)
  | within (deadline : Int) (c : DocumentCall)
  | consume (nonce : String) (expiry : Instant)
  | purge (now : Instant)
  | offer (id : Uuid)
  | queueLoad
  | probeReplay
  | count (c : Counter)
  | timeAttempt
  | metricsPage

def ServiceCall.Reply : ServiceCall → Type
  | clock => Instant
  | freshId => Uuid
  | store op => Except StoreError op.Result
  | documents c => c.Reply
  | within _ c => Option c.Reply
  | consume .. => Except Redis.Error Bool
  | purge _ => Except Redis.Error Nat
  | offer _ => Admission
  | queueLoad => Nat × Nat
  | probeReplay => Bool
  | count _ | timeAttempt => Unit
  | metricsPage => String

def Service : Signature :=
  ⟨ServiceCall, ServiceCall.Reply⟩

abbrev ServiceProgram (α : Type) :=
  Program Service α

end DocumentPreview
