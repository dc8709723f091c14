import DocumentPreview.Proofs.Queue.Admission
import DocumentPreview.Proofs.Service.Shared

namespace DocumentPreview

structure Outside.Serves (o : Outside) (fileId : Uuid) (s : Shared) : Prop where
  finds : ∃ file, o.reply (.documents (.find fileId)) = .ok (some file)
  unused : s.store.Unused o.freshId
  unqueued : ¬ s.queue.isQueued o.freshId

structure Request where
  maxAttempts : Int32
  requestedBy : Option String

namespace Request

def fresh (r : Request) (fileId : Uuid) (o : Outside) : Job :=
  .fresh o.freshId fileId r.requestedBy r.maxAttempts o.time

inductive Stage where
  | asked
  | found
  | made (j : Job)
  | offering (j : Job)
  | refused (j : Job)
  | ended (out : EnqueueOutcome)

def program (r : Request) (fileId : Uuid) :
    Stage → ServiceProgram (Except PreviewError EnqueueOutcome)
  | .asked => Previews.enqueue r.maxAttempts fileId r.requestedBy
  | .found => Previews.create r.maxAttempts fileId r.requestedBy
  | .made j => .call (.count .jobsEnqueued) fun _ => Previews.offer j true
  | .offering j => Previews.offer j true
  | .refused j => .call (.count .queueFull) fun _ => .done (.ok ⟨j, true, true⟩)
  | .ended out => .done (.ok out)

inductive Turns (r : Request) (fileId : Uuid) (o : Outside) (s : Shared) :
    Stage → Stage → Shared → Prop
  | found : Turns r fileId o s .asked .found s
  | joined {j : Job} : s.store.inFlight? fileId = some j →
      Turns r fileId o s .found (.ended ⟨j, false, false⟩) { s with clock := o.time }
  | made : s.store.inFlight? fileId = none →
      Turns r fileId o s .found (.made (r.fresh fileId o))
        { s with store := s.store.put (r.fresh fileId o), clock := o.time }
  | counted (j : Job) : Turns r fileId o s (.made j) (.offering j) s
  | recorded {j : Job} : s.queue.isQueued j.id →
      Turns r fileId o s (.offering j) (.ended ⟨j, true, false⟩) s
  | queued {j : Job} : ¬ s.queue.isQueued j.id → s.queue.depth < s.queue.capacity →
      Turns r fileId o s (.offering j) (.ended ⟨j, true, false⟩)
        { s with queue := { s.queue with
            buffer := s.queue.buffer ++ [j.id], admitted := j.id :: s.queue.admitted } }
  | refused {j : Job} : ¬ s.queue.isQueued j.id → s.queue.capacity ≤ s.queue.depth →
      Turns r fileId o s (.offering j) (.refused j) s
  | ended (j : Job) : Turns r fileId o s (.refused j) (.ended ⟨j, true, true⟩) s

variable {r : Request} {fileId : Uuid} {o : Outside} {s : Shared} {g : Stage}

theorem turns_answered {c : ServiceCall}
    {next : c.Reply → ServiceProgram (Except PreviewError EnqueueOutcome)}
    (ho : ∃ file, o.reply (.documents (.find fileId)) = .ok (some file))
    (h : r.program fileId g = .call c next) :
    ∃ g', next (s.answer o c).1 = r.program fileId g' ∧
      Turns r fileId o s g g' (s.answer o c).2 := by
  cases g with
  | asked =>
    obtain ⟨file, hf⟩ := ho
    cases h
    have found : s.answer o (.documents (.find fileId)) = (.ok (some file), s) :=
      congrArg (·, s) hf
    rw [found]
    exact ⟨.found, rfl, .found⟩
  | found =>
    cases h
    rcases s.store.create_cases o.time o.freshId fileId r.requestedBy r.maxAttempts with
      ⟨j, hj, he⟩ | ⟨hn, he⟩
    · rw [Shared.answer_store_eq (.create fileId r.requestedBy r.maxAttempts) he]
      exact ⟨_, rfl, .joined hj⟩
    · rw [Shared.answer_store_eq (.create fileId r.requestedBy r.maxAttempts) he]
      exact ⟨_, rfl, .made hn⟩
  | made j =>
    cases h
    exact ⟨_, rfl, .counted j⟩
  | offering j =>
    cases h
    have offered : s.answer o (.offer j.id) =
      ((s.queue.tryAdmit j.id).1, { s with queue := (s.queue.tryAdmit j.id).2 }) := rfl
    rcases s.queue.tryAdmit_results j.id with ⟨queued, he⟩ | ⟨new, room, he⟩ | ⟨new, full, he⟩
    · rw [offered, he]
      exact ⟨.ended ⟨j, true, false⟩, rfl, .recorded queued⟩
    · rw [offered, he]
      exact ⟨.ended ⟨j, true, false⟩, rfl, .queued new room⟩
    · rw [offered, he]
      exact ⟨.refused j, rfl, .refused new full⟩
  | refused j =>
    cases h
    exact ⟨.ended ⟨j, true, true⟩, rfl, .ended j⟩
  | ended out => cases h

theorem exists_call (r : Request) (fileId : Uuid) (hg : ∀ out, g ≠ .ended out) :
    ∃ c next, r.program fileId g = .call c next := by
  cases g with
  | ended out => exact absurd rfl (hg out)
  | _ => exact ⟨_, _, rfl⟩

abbrev runWith (o : ServiceCall → Outside) (p : ServiceProgram (Except PreviewError EnqueueOutcome))
    (s : Shared) : Option (Except PreviewError EnqueueOutcome) × Shared :=
  p.run (fun c s => s.answer (o c) c) s

theorem run_turns {o : ServiceCall → Outside}
    (ho : ∀ c, ∃ file, (o c).reply (.documents (.find fileId)) = .ok (some file))
    (hg : ∀ out, g ≠ .ended out) :
    ∃ c g' t, Turns r fileId (o c) s g g' t ∧
      runWith o (r.program fileId g) s = runWith o (r.program fileId g') t := by
  obtain ⟨c, next, hc⟩ := r.exists_call fileId hg
  obtain ⟨g', hnext, turns⟩ := turns_answered (s := s) (ho c) hc
  exact ⟨c, g', _, turns, (congrArg (runWith o · s) hc).trans (congrArg (runWith o · _) hnext)⟩

end Request

structure Enqueued (fileId : Uuid) (s t : Shared) (out : EnqueueOutcome) : Prop where
  inFlight : out.job ∈ t.store.rows ∧ out.job.fileId = fileId ∧ out.job.isInFlight
  joined : (∃ j ∈ s.store.rows, j.fileId = fileId ∧ j.isInFlight) →
    t.store = s.store ∧ t.queue = s.queue ∧ out.created = false ∧ out.queueFull = false
  made : (∀ j ∈ s.store.rows, j.fileId = fileId → ¬ j.isInFlight) →
    t.store.rows = s.store.rows ++ [out.job] ∧ out.job.status = .pending ∧ out.job.attempts = 0 ∧
    out.created = true ∧
    (out.queueFull = false ∧ t.queue.buffer = s.queue.buffer ++ [out.job.id] ∨
      out.queueFull = true ∧ s.queue.capacity ≤ s.queue.depth ∧ t.queue = s.queue)

namespace Request

variable {r : Request} {fileId : Uuid} {s : Shared} {o : ServiceCall → Outside}

theorem enqueued_joined {t : Shared} {j : Job} (hj : s.store.inFlight? fileId = some j)
    (hs : t.store = s.store) (hq : t.queue = s.queue) : Enqueued fileId s t ⟨j, false, false⟩ := by
  obtain ⟨row, file, flying⟩ := MemoryStore.of_inFlight? hj
  constructor
  case inFlight => exact ⟨hs ▸ row, file, flying⟩
  case joined => exact fun _ => ⟨hs, hq, rfl, rfl⟩
  case made => exact fun free => absurd flying (free j row file)

theorem enqueued_made {t : Shared} {p : Outside} {full : Bool} (hp : p.Serves fileId s)
    (hn : s.store.inFlight? fileId = none) (hs : t.store = s.store.put (r.fresh fileId p))
    (hq : full = false ∧ t.queue.buffer = s.queue.buffer ++ [(r.fresh fileId p).id] ∨
      full = true ∧ s.queue.capacity ≤ s.queue.depth ∧ t.queue = s.queue) :
    Enqueued fileId s t ⟨r.fresh fileId p, true, full⟩ := by
  have free := MemoryStore.inFlight?_eq_none_iff.mp hn
  have rows : t.store.rows = s.store.rows ++ [r.fresh fileId p] :=
    (congrArg MemoryStore.rows hs).trans (MemoryStore.rows_put_of_unused hp.unused)
  constructor
  case inFlight => exact ⟨by simp [rows], rfl, rfl⟩
  case joined => exact fun ⟨j, hj, file, flying⟩ => absurd flying (free j hj file)
  case made => exact fun _ => ⟨rows, rfl, rfl, rfl, hq⟩

theorem run_made {j : Job}
    (finds : ∀ c, ∃ file, (o c).reply (.documents (.find fileId)) = .ok (some file))
    (new : ¬ s.queue.isQueued j.id) :
    ∃ full t, runWith o (r.program fileId (.made j)) s = (some (.ok ⟨j, true, full⟩), t) ∧
      t.store = s.store ∧
      (full = false ∧ t.queue.buffer = s.queue.buffer ++ [j.id] ∨
        full = true ∧ s.queue.capacity ≤ s.queue.depth ∧ t.queue = s.queue) := by
  obtain ⟨_, _, _, counted, first⟩ := run_turns (r := r) (g := .made j) (s := s) finds (by simp)
  cases counted
  obtain ⟨_, _, t, offered, second⟩ := run_turns (r := r) (g := .offering j) (s := s) finds
    (by simp)
  cases offered with
  | recorded queued => exact absurd queued new
  | queued _ room => exact ⟨_, _, first.trans second, rfl, .inl ⟨rfl, rfl⟩⟩
  | refused _ full =>
    obtain ⟨_, _, _, ended, third⟩ := run_turns (r := r) (g := .refused j) (s := s) finds (by simp)
    cases ended
    exact ⟨_, _, (first.trans second).trans third, rfl, .inr ⟨rfl, full, rfl⟩⟩

theorem enqueued_alone (ho : ∀ c, (o c).Serves fileId s) :
    ∃ out t, runWith o (Previews.enqueue r.maxAttempts fileId r.requestedBy) s =
        (some (.ok out), t) ∧ Enqueued fileId s t out := by
  have finds c := (ho c).finds
  obtain ⟨_, _, _, asked, first⟩ := run_turns (r := r) (g := .asked) (s := s) finds (by simp)
  cases asked
  obtain ⟨c, _, t, created, second⟩ := run_turns (r := r) (g := .found) (s := s) finds (by simp)
  cases created with
  | joined hj => exact ⟨_, _, first.trans second, enqueued_joined hj rfl rfl⟩
  | made hn =>
    obtain ⟨full, t, third, store, queue⟩ := run_made (r := r) (j := r.fresh fileId (o c))
      (s := { s with store := s.store.put (r.fresh fileId (o c)), clock := (o c).time }) finds
      (ho c).unqueued
    exact ⟨_, t, (first.trans second).trans third, enqueued_made (ho c) hn store queue⟩

end Request

end DocumentPreview
