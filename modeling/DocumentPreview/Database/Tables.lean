import DocumentPreview.Database.Statement

namespace DocumentPreview

inductive TableViolation where
  | activeFile
  | primaryKey
  | maxAttempts
  | attemptsRange
  | negativeLimit
  | textEncoding
  deriving DecidableEq, Repr

def TableViolation.message : TableViolation → String
  | .activeFile => "duplicate key value violates unique constraint \"preview_jobs_active_file\""
  | .primaryKey => "duplicate key value violates unique constraint \"preview_jobs_pkey\""
  | .maxAttempts =>
    "new row for relation \"preview_jobs\" violates check constraint "
      ++ "\"preview_jobs_max_attempts_check\""
  | .attemptsRange => "integer out of range"
  | .negativeLimit => "LIMIT must not be negative"
  | .textEncoding => "invalid byte sequence for encoding \"UTF8\": 0x00"

structure Tables where
  jobs : List JobRow
  files : List FileRow
  versions : List Nat
  uncommitted : List Nat
  deriving DecidableEq, Repr

namespace Tables

def empty : Tables :=
  ⟨[], [], [], []⟩

def putJob (t : Tables) (r : JobRow) : Tables :=
  { t with jobs := t.jobs.filter (·.id ≠ r.id) ++ [r.stored] }

def deleteJob (t : Tables) (id : Uuid) : Nat × Tables :=
  (t.jobs.countP (·.id = id), { t with jobs := t.jobs.filter (·.id ≠ id) })

def putFile (t : Tables) (r : FileRow) : Tables :=
  { t with files := t.files.filter (·.id ≠ r.id) ++ [r] }

def isStorable (text : String) : Bool :=
  !text.toList.contains '\x00'

def hasActive (t : Tables) (fileId : Uuid) : Bool :=
  t.jobs.any fun r => r.fileId = fileId && r.isActive

def limited (limit : Int) (rows : List JobRow) : Except TableViolation (List JobRow) :=
  if limit < 0 then .error .negativeLimit else .ok (rows.take limit.toNat)

def newestFirst (rows : List JobRow) : List JobRow :=
  rows.mergeSort fun a b => b.createdAt ≤ a.createdAt

def oldestFirst (rows : List JobRow) : List JobRow :=
  rows.mergeSort fun a b => a.createdAt ≤ b.createdAt

def dueFirst (rows : List JobRow) : List JobRow :=
  rows.mergeSort fun a b =>
    match a.nextRetryAt, b.nextRetryAt with
    | some s, some t => s ≤ t
    | some _, none => true
    | none, some _ => false
    | none, none => true

def findInFlight (t : Tables) (fileId : Uuid) : List JobRow :=
  (newestFirst (t.jobs.filter fun r => r.fileId = fileId && r.isInFlight)).take 1

def countJobs (t : Tables) : List (String × Nat) :=
  (t.jobs.map (·.status)).eraseDups.map fun s => (s, t.jobs.countP (·.status = s))

def clashes (rows : List JobRow) (r : JobRow) : Bool :=
  r.isActive && rows.any fun o => o.id ≠ r.id && o.fileId = r.fileId && o.isActive

def update (t : Tables) (p : JobRow → Bool) (f : JobRow → JobRow) :
    Except TableViolation (List JobRow × Tables) :=
  let jobs := t.jobs.map fun r => if p r then f r else r
  let changed := (t.jobs.filter p).map f
  if changed.any (clashes jobs) then .error .activeFile else .ok (changed, { t with jobs := jobs })

def insert (t : Tables) (r : JobRow) : Except TableViolation (List JobRow × Tables) :=
  if !r.requestedBy.all isStorable then .error .textEncoding
  else if r.maxAttempts < 1 then .error .maxAttempts
  else if t.hasActive r.fileId then .ok ([], t)
  else if t.jobs.any (·.id = r.id) then .error .primaryKey
  else .ok ([r], { t with jobs := t.jobs ++ [r] })

def newRow (clock : Instant) (id fileId : Uuid) (maxAttempts : Int32)
    (requestedBy : Option String) : JobRow where
  id := id
  fileId := fileId
  status := JobStatus.pending.name
  attempts := 0
  maxAttempts := maxAttempts
  lastError := none
  nextRetryAt := none
  startedAt := none
  completedAt := none
  requestedBy := requestedBy
  createdAt := clock
  updatedAt := clock

def setStatus (r : JobRow) (status : JobStatus) (clock : Instant) : JobRow :=
  { r with status := status.name, updatedAt := clock }

def claim (t : Tables) (clock : Instant) (id : Uuid) (now : Instant) :
    Except TableViolation (List JobRow × Tables) :=
  let claimable := fun (r : JobRow) => r.id = id && r.hasStatus .pending
  if t.jobs.any fun r => claimable r && r.attempts = Int32.maxValue then .error .attemptsRange
  else
    t.update claimable fun r =>
      { setStatus r .processing clock with
        attempts := r.attempts + 1, startedAt := some now, nextRetryAt := none }

def complete (t : Tables) (clock : Instant) (id : Uuid) (now : Instant) :
    Except TableViolation (List JobRow × Tables) :=
  t.update (fun r => r.id = id && r.hasStatus .processing) fun r =>
    { setStatus r .completed clock with
      completedAt := some now, lastError := none, nextRetryAt := none }

def fail (t : Tables) (clock : Instant) (id : Uuid) (error : String)
    (nextRetryAt : Option Instant) : Except TableViolation (List JobRow × Tables) :=
  if isStorable error then
    t.update (fun r => r.id = id && r.hasStatus .processing) fun r =>
      { setStatus r .failed clock with lastError := some error, nextRetryAt := nextRetryAt }
  else .error .textEncoding

def reset (t : Tables) (clock : Instant) (id : Uuid) :
    Except TableViolation (List JobRow × Tables) :=
  t.update (fun r => r.id = id && r.hasStatus .failed && !t.hasActive r.fileId) fun r =>
    { setStatus r .pending clock with attempts := 0, lastError := none, nextRetryAt := none }

def requeue (t : Tables) (clock now : Instant) (limit : Int) :
    Except TableViolation (List JobRow × Tables) := do
  let due := t.jobs.filter fun r => r.isDue now && !t.hasActive r.fileId
  let chosen ← limited limit (dueFirst due)
  t.update (fun r => r.hasStatus .failed && chosen.any (·.id = r.id)) fun r =>
    { setStatus r .pending clock with nextRetryAt := none }

def reap (t : Tables) (clock cutoff now : Instant) :
    Except TableViolation (List JobRow × Tables) :=
  t.update (·.isStale cutoff) fun r =>
    { setStatus r .failed clock with
      lastError := some Job.leaseExpired,
      nextRetryAt := if r.hasAttemptsLeft then some now else none }

def execute (t : Tables) (clock : Instant) :
    (s : Statement) → Except TableViolation (s.Rows × Tables)
  | .findInFlight fileId => .ok (t.findInFlight fileId, t)
  | .insertJob id fileId maxAttempts requestedBy =>
    t.insert (newRow clock.floorToMicros id fileId maxAttempts requestedBy)
  | .getJob id => .ok (t.jobs.filter (·.id = id), t)
  | .latestJob fileId => .ok ((newestFirst (t.jobs.filter (·.fileId = fileId))).take 1, t)
  | .claimJob id now => t.claim clock.floorToMicros id now.cutToMicros
  | .completeJob id now => t.complete clock.floorToMicros id now.cutToMicros
  | .failJob id error nextRetryAt =>
    t.fail clock.floorToMicros id error (nextRetryAt.map Instant.cutToMicros)
  | .resetJob id => t.reset clock.floorToMicros id
  | .requeueJobs now limit => t.requeue clock.floorToMicros now.cutToMicros limit
  | .pendingJobs limit =>
    (limited limit (oldestFirst (t.jobs.filter (·.hasStatus .pending)))).map fun rows => (rows, t)
  | .reapJobs cutoff now => t.reap clock.floorToMicros cutoff.cutToMicros now.cutToMicros
  | .countJobs => .ok (t.countJobs, t)
  | .ping => .ok ((), t)
  | .findFile id => .ok (t.files.filter fun r => r.id = id && r.deletedAt.isNone, t)
  | .unfinishedVersion => .ok ([], t)
  | .versions => .ok (t.versions, t)
  | .beginChange => .ok ((), { t with uncommitted := [] })
  | .recordVersion version => .ok ((), { t with uncommitted := version :: t.uncommitted })
  | .commit =>
    .ok ((), { t with versions := t.versions ++ t.uncommitted.reverse, uncommitted := [] })
  | .createVersions | .currentDatabase | .lock | .unlock | .createJobs | .recordDuration _ =>
    .ok ((), t)

end Tables

end DocumentPreview
