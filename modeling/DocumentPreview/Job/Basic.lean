import DocumentPreview.Time.Instant
import DocumentPreview.Uuid

namespace DocumentPreview

inductive JobStatus where
  | pending
  | processing
  | completed
  | failed
  deriving DecidableEq, Repr

namespace JobStatus

def name : JobStatus → String
  | pending => "pending"
  | processing => "processing"
  | completed => "completed"
  | failed => "failed"

def all : List JobStatus :=
  [pending, processing, completed, failed]

def ofName? (s : String) : Option JobStatus :=
  all.find? (·.name = s)

theorem ofName?_name (s : JobStatus) : ofName? s.name = some s := by
  cases s <;> decide

def title (s : JobStatus) : String :=
  s.name.capitalize

def isActive : JobStatus → Bool
  | pending => true
  | processing => true
  | _ => false

def unknownMessage : String :=
  "Matching variant not found"

end JobStatus

structure Job where
  id : Uuid
  fileId : Uuid
  status : JobStatus
  attempts : Int32
  maxAttempts : Int32
  lastError : Option String
  nextRetryAt : Option Instant
  startedAt : Option Instant
  completedAt : Option Instant
  requestedBy : Option String
  createdAt : Instant
  updatedAt : Instant
  deriving DecidableEq, Repr

namespace Job

def fresh (id fileId : Uuid) (requestedBy : Option String) (maxAttempts : Int32) (now : Instant) :
    Job where
  id := id
  fileId := fileId
  status := .pending
  attempts := 0
  maxAttempts := maxAttempts
  lastError := none
  nextRetryAt := none
  startedAt := none
  completedAt := none
  requestedBy := requestedBy
  createdAt := now
  updatedAt := now

def isActive (j : Job) : Bool :=
  j.status.isActive

def hasAttemptsLeft (j : Job) : Bool :=
  j.attempts < j.maxAttempts

def isExhausted (j : Job) : Bool :=
  j.status = .failed && !j.hasAttemptsLeft

def isAwaitingRetry (j : Job) : Bool :=
  j.status = .failed && j.hasAttemptsLeft && j.nextRetryAt.isSome

def isInFlight (j : Job) : Bool :=
  j.isActive || j.isAwaitingRetry

def isDue (j : Job) (now : Instant) : Bool :=
  j.status = .failed && j.hasAttemptsLeft && j.nextRetryAt.any (· ≤ now)

def isStale (j : Job) (cutoff : Instant) : Bool :=
  j.status = .processing && j.startedAt.any (· < cutoff)

def leaseExpired : String :=
  "processing lease expired"

def claimed (j : Job) (now clock : Instant) : Job :=
  { j with
    status := .processing, attempts := j.attempts + 1, startedAt := some now, nextRetryAt := none,
    updatedAt := clock }

def finished (j : Job) (now clock : Instant) : Job :=
  { j with
    status := .completed, completedAt := some now, lastError := none, nextRetryAt := none,
    updatedAt := clock }

def failedWith (j : Job) (error : String) (nextRetryAt : Option Instant) (clock : Instant) : Job :=
  { j with
    status := .failed, lastError := some error, nextRetryAt := nextRetryAt, updatedAt := clock }

def restarted (j : Job) (clock : Instant) : Job :=
  { j with
    status := .pending, attempts := 0, lastError := none, nextRetryAt := none, updatedAt := clock }

def requeued (j : Job) (clock : Instant) : Job :=
  { j with status := .pending, nextRetryAt := none, updatedAt := clock }

def reaped (j : Job) (now clock : Instant) : Job :=
  { j with
    status := .failed, lastError := some leaseExpired,
    nextRetryAt := if j.hasAttemptsLeft then some now else none, updatedAt := clock }

end Job

end DocumentPreview
