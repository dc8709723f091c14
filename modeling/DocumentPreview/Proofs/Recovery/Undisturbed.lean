import DocumentPreview.Proofs.Queue.Admission
import DocumentPreview.Proofs.Service.Shared

namespace DocumentPreview.Sweep

variable {o : Outside} {s : Shared} {cutoff : Instant} {staleAfter : Span}

def offered (report : SweepReport) (q : JobQueue) (ids : List Uuid) : SweepReport :=
  { report with
    admitted := report.admitted + ((q.admitEach ids).depth - q.depth)
    deferred := report.deferred + if ∀ id ∈ ids, (q.admitEach ids).isQueued id then 0 else 1 }

theorem offered_cons (report : SweepReport) (q : JobQueue) (id : Uuid) (ids : List Uuid) :
    offered report q (id :: ids) =
      match (q.tryAdmit id).1 with
      | .admitted => offered { report with admitted := report.admitted + 1 } (q.tryAdmit id).2 ids
      | .alreadyQueued => offered report q ids
      | .full => { report with deferred := report.deferred + 1 }
      | .closed => report := by
  rw [offered, JobQueue.admitEach]
  rcases q.tryAdmit_results id with ⟨queued, he⟩ | ⟨-, -, he⟩ | ⟨new, -, he⟩
  · simp [he, offered, JobQueue.isQueued_admitEach queued]
  · have admitted : (q.tryAdmit id).1 = .admitted := congrArg Prod.fst he
    have queued : (q.tryAdmit id).2.isQueued id := by simp [he, JobQueue.isQueued]
    have deeper : (q.tryAdmit id).2.depth = q.depth + 1 := by simp [he, JobQueue.depth]
    have grown := JobQueue.depth_le_admitEach (q.tryAdmit id).2 ids
    have sum : ∀ n, n + (((q.tryAdmit id).2.admitEach ids).depth - q.depth) =
        n + 1 + (((q.tryAdmit id).2.admitEach ids).depth - (q.tryAdmit id).2.depth) := by omega
    simp [admitted, offered, JobQueue.isQueued_admitEach queued, sum]
  · simp [he, new]

theorem run_offerEach (jobs : List Job) (report : SweepReport) :
    (offerEach jobs report).run (fun c s => s.answer o c) s =
      (some (.ok (offered report s.queue (jobs.map (·.id)))),
        { s with queue := s.queue.admitEach (jobs.map (·.id)) }) := by
  induction jobs generalizing s report with
  | nil => simp [offerEach, Program.run, offered, JobQueue.admitEach]
  | cons job jobs ih =>
    rw [offerEach, List.map_cons, JobQueue.admitEach, offered_cons]
    simp only [Program.run, Shared.answer]
    rcases s.queue.tryAdmit_results job.id with ⟨-, he⟩ | ⟨-, -, he⟩ | ⟨-, -, he⟩ <;> rw [he]
    · exact ih report
    · exact ih _
    · rfl

def after (s : Shared) (cutoff now : Instant) : Shared :=
  let store := ((s.store.reapStale cutoff now).2.requeueDue now batch).2
  ⟨store, s.queue.admitEach ((store.pending batch).map (·.id)), now⟩

def reported (s : Shared) (cutoff now : Instant) : SweepReport :=
  offered ⟨(s.store.reapStale cutoff now).1.length,
      ((s.store.reapStale cutoff now).2.requeueDue now batch).1.length, 0, 0⟩ s.queue
    (((after s cutoff now).store.pending batch).map (·.id))

theorem run_runOnce_cut (h : o.time.shift? (-lease staleAfter) = none) :
    (runOnce staleAfter).run (fun c s => s.answer o c) s = (none, { s with clock := o.time }) := by
  simp only [runOnce, Program.run, Shared.answer, h]

theorem run_runOnce (h : o.time.shift? (-lease staleAfter) = some cutoff) :
    (runOnce staleAfter).run (fun c s => s.answer o c) s =
      (some (.ok (reported s cutoff o.time)), after s cutoff o.time) := by
  simp only [runOnce, Program.run, Shared.answer, h]
  exact run_offerEach _ _

end DocumentPreview.Sweep
