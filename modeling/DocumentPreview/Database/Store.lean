import DocumentPreview.Database.Statement
import DocumentPreview.Program

namespace DocumentPreview

inductive DatabaseCall where
  | freshId
  | execute (s : Statement)

def DatabaseCall.Reply : DatabaseCall → Type
  | freshId => Uuid
  | execute s => Except DatabaseError s.Rows

def Database : Signature :=
  ⟨DatabaseCall, DatabaseCall.Reply⟩

abbrev DatabaseProgram (α : Type) :=
  Program Database α

namespace DatabaseStore

def reading {α : Type} (s : Statement) (f : s.Rows → Except StoreError α) :
    DatabaseProgram (Except StoreError α) :=
  .call (.execute s) fun
    | .ok rows => .done (f rows)
    | .error e => .done (.error (.database e))

def firstJob : List JobRow → Except StoreError (Option Job)
  | [] => .ok none
  | r :: _ => r.toJob.map some

def allJobs : List JobRow → Except StoreError (List Job)
  | [] => .ok []
  | r :: rs => do
    let j ← r.toJob
    let js ← allJobs rs
    return j :: js

def counts : List (String × Nat) → StatusCounts → Except StoreError StatusCounts
  | [], c => .ok c
  | (status, n) :: rest, c =>
    match JobStatus.ofName? status with
    | some .pending => counts rest { c with pending := n }
    | some .processing => counts rest { c with processing := n }
    | some .completed => counts rest { c with completed := n }
    | some .failed => counts rest { c with failed := n }
    | none => .error (JobRow.unknownStatus status)

def maxInserts : Nat :=
  3

def unsettled (fileId : Uuid) : StoreError :=
  .corrupt ("could not settle active job for file " ++ fileId.text)

def insertAgain (fileId : Uuid) (requestedBy : Option String) (maxAttempts : Int32) :
    Nat → DatabaseProgram (Except StoreError (Job × Bool))
  | 0 => .done (.error (unsettled fileId))
  | left + 1 =>
    .call .freshId fun id =>
    .call (.execute (.insertJob id fileId maxAttempts requestedBy)) fun
      | .ok (row :: _) => .done (row.toJob.map (·, true))
      | .error e => .done (.error (.database e))
      | .ok [] =>
        .call (.execute (.findInFlight fileId)) fun
          | .ok (row :: _) => .done (row.toJob.map (·, false))
          | .error e => .done (.error (.database e))
          | .ok [] => insertAgain fileId requestedBy maxAttempts left

def create (fileId : Uuid) (requestedBy : Option String) (maxAttempts : Int32) :
    DatabaseProgram (Except StoreError (Job × Bool)) :=
  .call (.execute (.findInFlight fileId)) fun
    | .ok (row :: _) => .done (row.toJob.map (·, false))
    | .error e => .done (.error (.database e))
    | .ok [] => insertAgain fileId requestedBy maxAttempts maxInserts

def run : (op : StoreOp) → DatabaseProgram (Except StoreError op.Result)
  | .create fileId requestedBy maxAttempts => create fileId requestedBy maxAttempts
  | .get id => reading (.getJob id) firstJob
  | .latest fileId => reading (.latestJob fileId) firstJob
  | .claim id now => reading (.claimJob id now) firstJob
  | .complete id now => reading (.completeJob id now) firstJob
  | .recordFailure id error nextRetryAt => reading (.failJob id error nextRetryAt) firstJob
  | .reset id => reading (.resetJob id) firstJob
  | .requeueDue now limit => reading (.requeueJobs now limit) allJobs
  | .pending limit => reading (.pendingJobs limit) allJobs
  | .reapStale cutoff now => reading (.reapJobs cutoff now) allJobs
  | .counts => reading .countJobs fun rows => counts rows .zero
  | .ping => reading .ping fun _ => .ok ()

end DatabaseStore

namespace DatabaseCatalog

def unavailable (e : DatabaseError) : CatalogError :=
  ⟨e.message⟩

def find (id : Uuid) : DatabaseProgram (Except CatalogError (Option FileRecord)) :=
  .call (.execute (.findFile id)) fun
    | .error e => .done (.error (unavailable e))
    | .ok [] => .done (.ok none)
    | .ok (row :: _) =>
      match row.toRecord with
      | .ok file => .done (.ok (some file))
      | .error e => .done (.error (unavailable e))

end DatabaseCatalog

end DocumentPreview
