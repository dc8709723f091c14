import DocumentPreview.FileRecord
import DocumentPreview.Database.Error
import DocumentPreview.Job.Basic
import DocumentPreview.Store.Operation

namespace DocumentPreview

structure JobRow where
  id : Uuid
  fileId : Uuid
  status : String
  attempts : Int32
  maxAttempts : Int32
  lastError : Option String
  nextRetryAt : Option Instant
  startedAt : Option Instant
  completedAt : Option Instant
  requestedBy : Option String
  createdAt : Instant
  updatedAt : Instant
  deriving DecidableEq, Repr

namespace JobRow

def ofJob (j : Job) : JobRow where
  id := j.id
  fileId := j.fileId
  status := j.status.name
  attempts := j.attempts
  maxAttempts := j.maxAttempts
  lastError := j.lastError
  nextRetryAt := j.nextRetryAt
  startedAt := j.startedAt
  completedAt := j.completedAt
  requestedBy := j.requestedBy
  createdAt := j.createdAt
  updatedAt := j.updatedAt

def withStatus (r : JobRow) (status : JobStatus) : Job where
  id := r.id
  fileId := r.fileId
  status := status
  attempts := r.attempts
  maxAttempts := r.maxAttempts
  lastError := r.lastError
  nextRetryAt := r.nextRetryAt
  startedAt := r.startedAt
  completedAt := r.completedAt
  requestedBy := r.requestedBy
  createdAt := r.createdAt
  updatedAt := r.updatedAt

def unknownStatus (status : String) : StoreError :=
  .corrupt ("unknown job status '" ++ status ++ "'")

def toJob (r : JobRow) : Except StoreError Job :=
  match JobStatus.ofName? r.status with
  | some status => .ok (r.withStatus status)
  | none => .error (unknownStatus r.status)

def stored (r : JobRow) : JobRow :=
  { r with
    nextRetryAt := r.nextRetryAt.map Instant.cutToMicros
    startedAt := r.startedAt.map Instant.cutToMicros
    completedAt := r.completedAt.map Instant.cutToMicros
    createdAt := r.createdAt.cutToMicros
    updatedAt := r.updatedAt.cutToMicros }

def isActive (r : JobRow) : Bool :=
  r.status = JobStatus.pending.name || r.status = JobStatus.processing.name

def hasStatus (r : JobRow) (status : JobStatus) : Bool :=
  r.status = status.name

def hasAttemptsLeft (r : JobRow) : Bool :=
  r.attempts < r.maxAttempts

def isInFlight (r : JobRow) : Bool :=
  r.isActive || (r.hasStatus .failed && r.hasAttemptsLeft && r.nextRetryAt.isSome)

def isDue (r : JobRow) (now : Instant) : Bool :=
  r.hasStatus .failed && r.hasAttemptsLeft && r.nextRetryAt.any (· ≤ now)

def isStale (r : JobRow) (cutoff : Instant) : Bool :=
  r.hasStatus .processing && r.startedAt.any (· < cutoff)

end JobRow

structure FileRow where
  id : Uuid
  name : Option String
  storageKey : Option String
  mimeType : Option String
  deletedAt : Option Instant
  deriving DecidableEq, Repr

def FileRow.toRecord (r : FileRow) : Except DatabaseError FileRecord :=
  match r.name, r.storageKey with
  | none, _ => .error (.unexpectedNull "name")
  | some _, none => .error (.unexpectedNull "storage_key")
  | some name, some key => .ok ⟨r.id, name, key, r.mimeType⟩

end DocumentPreview
