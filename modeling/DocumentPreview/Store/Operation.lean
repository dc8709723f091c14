import DocumentPreview.Database.Error
import DocumentPreview.Job.Basic

namespace DocumentPreview

inductive StoreError where
  | database (cause : DatabaseError)
  | corrupt (reason : String)
  deriving DecidableEq, Repr

def StoreError.message : StoreError → String
  | .database cause => "Database error: " ++ cause.message
  | .corrupt reason => "Corrupt job row: " ++ reason

structure StatusCounts where
  pending : Nat
  processing : Nat
  completed : Nat
  failed : Nat
  deriving DecidableEq, Repr

namespace StatusCounts

def zero : StatusCounts :=
  ⟨0, 0, 0, 0⟩

def count (jobs : List Job) (status : JobStatus) : Nat :=
  jobs.countP (·.status = status)

def ofJobs (jobs : List Job) : StatusCounts :=
  ⟨count jobs .pending, count jobs .processing, count jobs .completed, count jobs .failed⟩

end StatusCounts

inductive StoreOp where
  | create (fileId : Uuid) (requestedBy : Option String) (maxAttempts : Int32)
  | get (id : Uuid)
  | latest (fileId : Uuid)
  | claim (id : Uuid) (now : Instant)
  | complete (id : Uuid) (now : Instant)
  | recordFailure (id : Uuid) (error : String) (nextRetryAt : Option Instant)
  | reset (id : Uuid)
  | requeueDue (now : Instant) (limit : Int)
  | pending (limit : Int)
  | reapStale (cutoff now : Instant)
  | counts
  | ping
  deriving DecidableEq, Repr

namespace StoreOp

def Result : StoreOp → Type
  | create .. => Job × Bool
  | get .. | latest .. | claim .. | complete .. | recordFailure .. | reset .. => Option Job
  | requeueDue .. | pending .. | reapStale .. => List Job
  | counts => StatusCounts
  | ping => Unit

end StoreOp

end DocumentPreview
