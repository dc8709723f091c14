import DocumentPreview.Store.Operation

namespace DocumentPreview

structure MemoryStore where
  rows : List Job
  deriving DecidableEq, Repr

namespace MemoryStore

def empty : MemoryStore :=
  ⟨[]⟩

def put (s : MemoryStore) (j : Job) : MemoryStore :=
  ⟨s.rows.filter (·.id ≠ j.id) ++ [j]⟩

def get? (s : MemoryStore) (id : Uuid) : Option Job :=
  s.rows.find? (·.id = id)

def change (s : MemoryStore) (p : Job → Bool) (f : Job → Job) : MemoryStore :=
  ⟨s.rows.map fun r => if p r then f r else r⟩

def changeRow (s : MemoryStore) (id : Uuid) (f : Job → Job) : MemoryStore :=
  s.change (fun r => r.id = id) f

def slotTaken (s : MemoryStore) (fileId except : Uuid) : Bool :=
  s.rows.any fun r => r.id ≠ except && r.fileId = fileId && r.isActive

def transition (s : MemoryStore) (id : Uuid) (start : JobStatus) (f : Job → Job) :
    Option Job × MemoryStore :=
  match s.get? id with
  | none => (none, s)
  | some j => if j.status = start then (some (f j), s.changeRow id f) else (none, s)

def inFlight? (s : MemoryStore) (fileId : Uuid) : Option Job :=
  s.rows.find? fun r => r.fileId = fileId && r.isInFlight

def create (s : MemoryStore) (clock : Instant) (freshId fileId : Uuid)
    (requestedBy : Option String) (maxAttempts : Int32) : (Job × Bool) × MemoryStore :=
  match s.inFlight? fileId with
  | some j => ((j, false), s)
  | none =>
    let j := Job.fresh freshId fileId requestedBy maxAttempts clock
    ((j, true), s.put j)

def newer (best : Option Job) (j : Job) : Option Job :=
  match best with
  | none => some j
  | some b => if b.createdAt ≤ j.createdAt then some j else some b

def latest? (s : MemoryStore) (fileId : Uuid) : Option Job :=
  (s.rows.filter (·.fileId = fileId)).foldl newer none

def reset (s : MemoryStore) (clock : Instant) (id : Uuid) : Option Job × MemoryStore :=
  match s.get? id with
  | none => (none, s)
  | some j =>
    if s.slotTaken j.fileId id then (none, s)
    else s.transition id .failed (·.restarted clock)

def oldestFirst (jobs : List Job) (limit : Int) : List Job :=
  (jobs.mergeSort fun a b => a.createdAt ≤ b.createdAt).take limit.toNat

def requeueEach (now : Instant) : List Job → MemoryStore → List Job × MemoryStore
  | [], s => ([], s)
  | c :: cs, s =>
    if s.slotTaken c.fileId c.id then requeueEach now cs s
    else
      let (js, s') := requeueEach now cs (s.changeRow c.id (·.requeued now))
      (c.requeued now :: js, s')

def requeueDue (s : MemoryStore) (now : Instant) (limit : Int) : List Job × MemoryStore :=
  requeueEach now (oldestFirst (s.rows.filter (·.isDue now)) limit) s

def pending (s : MemoryStore) (limit : Int) : List Job :=
  oldestFirst (s.rows.filter (·.status = .pending)) limit

def reapStale (s : MemoryStore) (cutoff now : Instant) : List Job × MemoryStore :=
  ((s.rows.filter (·.isStale cutoff)).map (·.reaped now now),
    s.change (·.isStale cutoff) (·.reaped now now))

def run (s : MemoryStore) (clock : Instant) (freshId : Uuid) :
    (op : StoreOp) → op.Result × MemoryStore
  | .create fileId requestedBy maxAttempts => s.create clock freshId fileId requestedBy maxAttempts
  | .get id => (s.get? id, s)
  | .latest fileId => (s.latest? fileId, s)
  | .claim id now => s.transition id .pending (·.claimed now clock)
  | .complete id now => s.transition id .processing (·.finished now clock)
  | .recordFailure id error nextRetryAt =>
    s.transition id .processing (·.failedWith error nextRetryAt clock)
  | .reset id => s.reset clock id
  | .requeueDue now limit => s.requeueDue now limit
  | .pending limit => (s.pending limit, s)
  | .reapStale cutoff now => s.reapStale cutoff now
  | .counts => (StatusCounts.ofJobs s.rows, s)
  | .ping => ((), s)

end MemoryStore

end DocumentPreview
