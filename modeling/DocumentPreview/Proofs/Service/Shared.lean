import DocumentPreview.Pipeline.Attempt
import DocumentPreview.Pipeline.Previews
import DocumentPreview.Pipeline.Sweep
import DocumentPreview.Proofs.Program.Rule
import DocumentPreview.Proofs.Store.SingleFlight

namespace DocumentPreview

structure Shared where
  store : MemoryStore
  queue : JobQueue
  clock : Instant

structure Outside where
  time : Instant
  freshId : Uuid
  reply : (c : ServiceCall) → c.Reply

def Shared.answer (s : Shared) (o : Outside) : (c : ServiceCall) → c.Reply × Shared
  | .clock => (o.time, { s with clock := o.time })
  | .store op =>
    (.ok (s.store.run o.time o.freshId op).1,
      { s with store := (s.store.run o.time o.freshId op).2, clock := o.time })
  | .offer id => ((s.queue.tryAdmit id).1, { s with queue := (s.queue.tryAdmit id).2 })
  | .queueLoad => ((s.queue.depth, s.queue.capacity), s)
  | c => (o.reply c, s)

theorem Shared.answer_store_eq {s : Shared} {o : Outside} (op : StoreOp) {r : op.Result}
    {t : MemoryStore} (h : s.store.run o.time o.freshId op = (r, t)) :
    s.answer o (.store op) = (.ok r, { s with store := t, clock := o.time }) := by
  simp only [answer, h]

def Outside.slow (time : Instant) (freshId : Uuid) : Outside where
  time := time
  freshId := freshId
  reply
    | .clock => time
    | .freshId => freshId
    | .store _ => .error (.corrupt "")
    | .documents (.find id) => .ok (some ⟨id, "a.docx", "a", none⟩)
    | .documents (.download key) => .error (.notFound key)
    | .documents (.convert ..) => .error .emptyOutput
    | .documents (.upload key ..) => .error (.notFound key)
    | .within .. => none
    | .consume .. => .ok true
    | .purge _ => .ok 0
    | .offer _ => .full
    | .queueLoad => (0, 0)
    | .probeReplay => true
    | .count _ | .timeAttempt => ()
    | .metricsPage => ""

def Outside.smooth (time : Instant) (freshId : Uuid) : Outside where
  time := time
  freshId := freshId
  reply
    | .within _ (.find id) => some (.ok (some ⟨id, "a.docx", "a", none⟩))
    | .within _ (.download _) => some (.ok [])
    | .within _ (.convert ..) => some (.ok [2])
    | .within _ (.upload ..) => some (.ok ())
    | c => (slow time freshId).reply c

inductive Activity where
  | work (w : Worker) (id : Uuid)
  | sweep (staleAfter : Span)
  | enqueue (maxAttempts : Int32) (fileId : Uuid) (requestedBy : Option String)
  | retry (fileId : Uuid)

namespace Activity

def Outcome : Activity → Type
  | work .. => Option Job
  | sweep _ => Except StoreError SweepReport
  | enqueue .. | retry _ => Except PreviewError EnqueueOutcome

def program : (a : Activity) → ServiceProgram a.Outcome
  | work w id => w.process id
  | sweep staleAfter => Sweep.runOnce staleAfter
  | enqueue maxAttempts fileId requestedBy => Previews.enqueue maxAttempts fileId requestedBy
  | retry fileId => Previews.retry fileId

end Activity

end DocumentPreview
