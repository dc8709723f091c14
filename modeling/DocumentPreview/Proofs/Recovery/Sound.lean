import DocumentPreview.Config.Settings
import DocumentPreview.Proofs.Queue.Admission
import DocumentPreview.Proofs.Service.Uninterrupted

namespace DocumentPreview.Shared

variable {cfg : PipelineSettings} {s : Shared} {o : Outside} {c : ServiceCall}

structure Sound (cfg : PipelineSettings) (s : Shared) : Prop where
  orderly : s.store.Orderly cfg.maxAttempts s.clock
  faithful : s.queue.Faithful
  capacity : s.queue.capacity = cfg.queueCapacity
  queued : s.queue.buffer ⊆ s.store.rows.map (·.id)

def Heeds (m : Int32) (s : Shared) : ServiceCall → Prop
  | .store op => s.store.Heeds m op
  | .offer id => id ∈ s.store.rows.map (·.id)
  | _ => True

theorem sound_start {clock : Instant} {q : JobQueue}
    (hq : JobQueue.new? cfg.queueCapacity = some q) : Sound cfg ⟨.empty, q, clock⟩ := by
  obtain rfl := JobQueue.new?_eq_some hq
  exact ⟨MemoryStore.orderly_empty, JobQueue.faithful_new, rfl, List.nil_subset _⟩

namespace Sound

theorem perm {rows : List Job} (h : s.Sound cfg) (hp : s.store.rows.Perm rows) :
    Sound cfg { s with store := ⟨rows⟩ } where
  orderly := h.orderly.perm hp
  faithful := h.faithful
  capacity := h.capacity
  queued := List.Subset.trans h.queued (hp.map _).subset

theorem later {now : Instant} (h : s.Sound cfg) (hc : s.clock ≤ now) :
    Sound cfg { s with clock := now } :=
  { h with orderly := h.orderly.later hc }

theorem dequeue {id : Uuid} {q : JobQueue} (h : s.Sound cfg)
    (hd : s.queue.dequeue? = some (id, q)) : Sound cfg { s with queue := q } := by
  obtain ⟨hb, -, hc⟩ := JobQueue.dequeue?_eq_some hd
  refine ⟨h.orderly, h.faithful.dequeue hd, hc.trans h.capacity, fun i hi => h.queued ?_⟩
  rw [hb]
  exact .tail _ hi

theorem answer (h : s.Sound cfg) (hm : 0 < cfg.maxAttempts.toInt) (ha : s.Allows o c)
    (hh : s.Heeds cfg.maxAttempts c) : (s.answer o c).2.Sound cfg := by
  cases c with
  | clock => exact h.later ha.1
  | store op =>
    exact ⟨h.orderly.run hm ha.1 ha.2 hh, h.faithful, h.capacity,
      List.Subset.trans h.queued (MemoryStore.ids_run ha.2)⟩
  | offer id =>
    refine ⟨h.orderly, h.faithful.tryAdmit id, JobQueue.capacity_tryAdmit.trans h.capacity, ?_⟩
    intro i hi
    rcases JobQueue.mem_tryAdmit h.faithful hi with hi | rfl
    · exact h.queued hi
    · exact hh
  | _ => exact h

end Sound

end DocumentPreview.Shared
