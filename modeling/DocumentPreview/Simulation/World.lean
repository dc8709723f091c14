import DocumentPreview.Replay.Guard
import DocumentPreview.Simulation.Script
import DocumentPreview.Store.Memory

namespace DocumentPreview.Simulation

structure World where
  started : Instant
  elapsed : Nat
  supply : Nat
  store : MemoryStore
  catalog : FileCatalog
  objects : ObjectStore
  nonces : ReplayGuard
  queue : JobQueue
  metrics : Metrics
  replayReachable : Bool
  faults : List (Target × Fault)
  scripts : List (String × Conversion)
  conversions : List (String × Bytes)
  deriving Repr

inductive Course (α : Type) where
  | ended (a : α) (w : World)
  | waiting (delay : Nat) (w : World) (next : World → Course α)
  | stuck (w : World)

namespace Course

def bind {α β : Type} : Course α → (α → World → Course β) → Course β
  | ended a w, f => f a w
  | waiting d w next, f => waiting d w fun w => bind (next w) f
  | stuck w, _ => stuck w

def map {α β : Type} (f : α → β) (c : Course α) : Course β :=
  c.bind fun a w => ended (f a) w

def after {α : Type} (delay : Nat) (w : World) (next : World → Course α) : Course α :=
  if delay = 0 then next w else waiting delay w next

end Course

namespace World

def now (w : World) : Instant :=
  (w.started.shift? (w.elapsed * 1_000_000 : Nat)).getD w.started

def takeId (w : World) : Uuid × World :=
  (Uuid.numbered (w.supply + 1), { w with supply := w.supply + 1 })

def drewId : (op : StoreOp) → op.Result → Bool
  | .create .., r => r.2
  | _, _ => false

def runStore (w : World) (op : StoreOp) : op.Result × World :=
  let (r, store) := w.store.run w.now (Uuid.numbered (w.supply + 1)) op
  (r, { w with store := store, supply := if drewId op r then w.supply + 1 else w.supply })

def put (w : World) (job : Job) : World :=
  { w with store := w.store.put job }

def apply (w : World) : Effect → World
  | .store op => (w.runStore op).2
  | .put job => w.put job

def addFile (w : World) (file : FileRecord) (content : Option Bytes) : World :=
  { w with
    catalog := w.catalog.insert file,
    objects := match content with
      | some bytes => w.objects.upload file.storageKey bytes "application/octet-stream"
      | none => w.objects }

def download (w : World) (key : String) : Except StorageError Bytes × World :=
  (w.objects.download key, w)

def upload (w : World) (key : String) (bytes : Bytes) (contentType : String) :
    Except StorageError Unit × World :=
  (.ok (), { w with objects := w.objects.upload key bytes contentType })

def consume (w : World) (nonce : String) (expiry : Instant) : Except Redis.Error Bool × World :=
  let (fresh, nonces) := w.nonces.consume nonce expiry
  (.ok fresh, { w with nonces := nonces })

def purge (w : World) (now : Instant) : Nat × World :=
  let (n, nonces) := w.nonces.purge now
  (n, { w with nonces := nonces })

def offer (w : World) (id : Uuid) : Admission × World :=
  let (a, queue) := w.queue.tryAdmit id
  (a,
    { w with
      queue := queue,
      metrics := if a = .admitted then w.metrics.setQueueDepth queue.depth else w.metrics })

def dequeue? (w : World) : Option (Uuid × World) :=
  w.queue.dequeue?.map fun (id, queue) =>
    (id, { w with queue := queue, metrics := w.metrics.setQueueDepth queue.depth })

def takeFirst? {κ α : Type} [DecidableEq κ] (k : κ) : List (κ × α) → Option (α × List (κ × α))
  | [] => none
  | (l, a) :: rest =>
    if l = k then some (a, rest) else (takeFirst? k rest).map fun (b, rest) => (b, (l, a) :: rest)

def exposed {α : Type} (w : World) (target : Target) (fail : Failure → α)
    (perform : World → α × World) : Course α :=
  match takeFirst? target w.faults with
  | none => .ended (perform w).1 (perform w).2
  | some (fault, faults) =>
    .after fault.delay { w with faults := faults } fun w =>
      let w := fault.effects.foldl apply w
      match fault.failure with
      | some f => .ended (fail f) w
      | none => .ended (perform w).1 (perform w).2

def takeConversion (w : World) (name : String) : Conversion × World :=
  match takeFirst? name w.scripts with
  | some (c, scripts) => (c, { w with scripts := scripts })
  | none =>
    match takeFirst? "*" w.scripts with
    | some (c, scripts) => (c, { w with scripts := scripts })
    | none => (.plain, w)

def convert (w : World) (name : String) (source : Bytes) : Course (Except ConversionError Bytes) :=
  let (c, w) := w.takeConversion name
  let w := { w with conversions := w.conversions ++ [(name, source)] }
  .after c.delay w fun w =>
    let w := c.effects.foldl apply w
    match c.answer.result? source with
    | some r => .ended r w
    | none => .stuck w

def documents (w : World) : (c : DocumentCall) → Course c.Reply
  | .find fileId => w.exposed .find (.error ·.catalog) fun w => (.ok (w.catalog.find? fileId), w)
  | .download key => w.exposed .download (fun f => .error (f.storage key)) (·.download key)
  | .convert name source => w.convert name source
  | .upload key bytes contentType =>
    w.exposed .upload (fun f => .error (f.storage key)) (·.upload key bytes contentType)

def untilDeadline (w : World) (deadline : Int) : Nat :=
  ((deadline - w.now.nanos + 999_999) / 1_000_000).toNat

def withDeadline {α : Type} (deadline : Int) : Course α → Course (Option α)
  | .ended a w => .ended (some a) w
  | .waiting delay w next =>
    let left := w.untilDeadline deadline
    if delay ≤ left then .waiting delay w fun w => withDeadline deadline (next w)
    else .after left w fun w => .ended none w
  | .stuck w => .after (w.untilDeadline deadline) w fun w => .ended none w

def answer (w : World) : (c : ServiceCall) → Course c.Reply
  | .clock => .ended w.now w
  | .freshId => .ended w.takeId.1 w.takeId.2
  | .store op =>
    w.exposed (.store (.of op)) (.error ·.store) fun w => (.ok (w.runStore op).1, (w.runStore op).2)
  | .documents c => w.documents c
  | .within deadline c => withDeadline deadline (w.documents c)
  | .consume nonce expiry => w.exposed .consume (.error ·.replay) (·.consume nonce expiry)
  | .purge now =>
    w.exposed .purge (.error ·.replay) fun w => (.ok (w.purge now).1, (w.purge now).2)
  | .offer id => .ended (w.offer id).1 (w.offer id).2
  | .queueLoad => .ended (w.queue.depth, w.queue.capacity) w
  | .probeReplay => .ended w.replayReachable w
  | .count c => .ended () { w with metrics := w.metrics.count c }
  | .timeAttempt => .ended () { w with metrics := w.metrics.timeAttempt }
  | .metricsPage => .ended w.metrics.page w

def follow {α : Type} : ServiceProgram α → World → Course (Option α)
  | .done a, w => .ended (some a) w
  | .abort, w => .ended none w
  | .call c next, w => (w.answer c).bind fun r w => follow (next r) w

end World

end DocumentPreview.Simulation
