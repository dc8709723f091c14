import DocumentPreview.Proofs.Recovery.Lease
import DocumentPreview.Proofs.Store.BatchLimit

namespace DocumentPreview

variable {cutoff now : Instant} {j : Job}

theorem Job.not_isStale_iff (hp : j.status = .processing) :
    ¬ j.isStale cutoff ↔ ∀ started, j.startedAt = some started → cutoff ≤ started := by
  rw [isStale_iff]
  constructor
  · intro fresh started hs
    exact Int.not_lt.mp fun early => fresh ⟨hp, started, hs, early⟩
  · rintro late ⟨-, started, hs, early⟩
    exact Int.not_lt.mpr (late started hs) early

namespace MemoryStore

variable {s t : MemoryStore}

structure FirstPending (s : MemoryStore) (j : Job) : Prop where
  row : j ∈ s.rows
  pending : j.status = .pending
  older : s.rows.countP (fun k => k.createdAt < j.createdAt && k.status = .pending) <
    Sweep.batch.toNat

instance (s : MemoryStore) (j : Job) : Decidable (s.FirstPending j) :=
  decidable_of_iff (j ∈ s.rows ∧ j.status = .pending ∧
      s.rows.countP (fun k => k.createdAt < j.createdAt && k.status = .pending) <
        Sweep.batch.toNat)
    ⟨fun ⟨row, pending, older⟩ => ⟨row, pending, older⟩, fun h => ⟨h.row, h.pending, h.older⟩⟩

theorem mem_pending_iff (h : s.CreatedApart) :
    j ∈ s.pending Sweep.batch ↔ s.FirstPending j := by
  rw [pending, mem_oldestFirst_iff_countP h, decide_eq_true_iff]
  exact ⟨fun h => ⟨h.1.1, h.1.2, h.2⟩, fun h => ⟨⟨h.row, h.pending⟩, h.older⟩⟩

structure Revived (cutoff now : Instant) (s m t : MemoryStore) : Prop where
  ids : t.rows.map (·.id) = s.rows.map (·.id)
  current : ∀ j ∈ t.rows, j.status = .processing →
    ∀ started, j.startedAt = some started → cutoff ≤ started
  inWork : ∀ j ∈ s.rows, j.status = .processing →
    (∀ started, j.startedAt = some started → cutoff ≤ started) → t.get? j.id = some j
  reaped : m.rows = s.rows.map fun j => if j.isStale cutoff then j.reaped now now else j
  requeued : (m.rows.filter (·.isDue now)).length ≤ Sweep.batch.toNat →
    ∀ j ∈ m.rows, t.get? j.id = some (if m.FirstDue now j then j.requeued now else j)
  first : ∀ d ∈ m.rows, d.isDue now → ¬ m.Occupied d.fileId →
    ∃! j, j ∈ m.rows ∧ j.fileId = d.fileId ∧ m.FirstDue now j

theorem revived (h : s.Distinct) (ha : s.CreatedApart) :
    Revived cutoff now s (s.reapStale cutoff now).2
      ((s.reapStale cutoff now).2.requeueDue now Sweep.batch).2 := by
  have distinct : (s.reapStale cutoff now).2.Distinct := h.change fun _ _ _ => rfl
  have apart : (s.reapStale cutoff now).2.CreatedApart := ha.change fun _ => rfl
  constructor
  case ids => exact (ids_requeueEach _).trans ids_reapStale
  case current =>
    intro j hj hp
    exact (Job.not_isStale_iff hp).mp ((mem_swept_of_processing h hp).mp hj).2
  case inWork =>
    intro j hj hp late
    exact get?_self (distinct_requeueEach now distinct _)
      ((mem_swept_of_processing h hp).mpr ⟨hj, (Job.not_isStale_iff hp).mpr late⟩)
  case reaped => rfl
  case requeued =>
    intro few j hj
    rw [requeueDue_eq_firstDue distinct apart few,
      get?_change (f := (·.requeued now)) distinct fun _ _ _ => rfl, get?_self distinct hj]
    simp only [Option.map_some, decide_eq_true_eq]
  case first => exact fun d => existsUnique_firstDue apart

end MemoryStore

namespace Sweep

open MemoryStore

variable {s t : Shared} {o : Outside} {staleAfter : Span}

structure Stocked (s t : Shared) : Prop where
  queued : ∀ j, t.store.FirstPending j →
    t.queue.isQueued j.id ∨ t.queue.capacity ≤ t.queue.depth
  added : ∃ added, t.queue.buffer = s.queue.buffer ++ added ∧
    (∀ id ∈ added, ∃ k, t.store.FirstPending k ∧ k.id = id) ∧
    ∀ j, t.store.FirstPending j → ¬ t.queue.isQueued j.id →
      ∀ k ∈ t.store.rows, k.id ∈ added → k.createdAt < j.createdAt
  capacity : t.queue.capacity = s.queue.capacity
  bounded : s.queue.depth ≤ s.queue.capacity → t.queue.depth ≤ t.queue.capacity
  faithful : s.queue.Faithful → t.queue.Faithful

theorem stocked (h : t.store.Distinct) (ha : t.store.CreatedApart)
    (hq : t.queue = s.queue.admitEach ((t.store.pending batch).map (·.id))) : Stocked s t := by
  obtain ⟨_, _, added, split, recorded, buffer, sub, full⟩ :=
    s.queue.admitEach_split ((t.store.pending batch).map (·.id))
  obtain ⟨taken, left, jobs, rfl, rfl⟩ := List.map_eq_append_iff.mp split
  rw [← hq] at recorded buffer full
  have first {j : Job} : t.store.FirstPending j ↔ j ∈ taken ∨ j ∈ left := by
    rw [← mem_pending_iff ha, jobs, List.mem_append]
  have order : (taken ++ left).Pairwise (·.createdAt < ·.createdAt) :=
    jobs ▸ pairwise_oldestFirst_lt ha _ _
  constructor
  case queued =>
    intro j hj
    rcases first.mp hj with hj | hj
    · exact .inl (recorded _ (List.mem_map_of_mem hj))
    · exact .inr (full (List.ne_nil_of_mem (List.mem_map_of_mem hj)))
  case added =>
    refine ⟨added, buffer, fun id hid => ?_, fun j hj out k hk hka => ?_⟩
    · obtain ⟨k, hk, rfl⟩ := List.mem_map.mp (sub hid)
      exact ⟨k, first.mpr (.inl hk), rfl⟩
    · obtain ⟨l, hl, hlk⟩ := List.mem_map.mp (sub hka)
      obtain rfl := h.eq (first.mpr (.inl hl)).row hk hlk
      have later : j ∈ left := (first.mp hj).resolve_left fun hj =>
        out (recorded _ (List.mem_map_of_mem hj))
      exact (List.pairwise_append.mp order).2.2 l hl j later
  case capacity => exact hq ▸ JobQueue.capacity_admitEach _ _
  case bounded => exact fun hb => hq ▸ JobQueue.depth_admitEach_le hb _
  case faithful => exact fun hf => hq ▸ hf.admitEach _

theorem runOnce_outcome (h : s.store.Distinct) (ha : s.store.CreatedApart)
    (hcut : o.time.shift? (-lease staleAfter) = some cutoff) :
    ∃ report m t, (runOnce staleAfter).run (fun c s => s.answer o c) s = (some (.ok report), t) ∧
      Revived cutoff o.time s.store m t.store ∧ Stocked s t := by
  obtain ⟨report, t, hrun, hstore, hq⟩ := run_runOnce_swept (s := s) hcut
  have distinct : (s.store.reapStale cutoff o.time).2.Distinct := h.change fun _ _ _ => rfl
  have apart : (s.store.reapStale cutoff o.time).2.CreatedApart := ha.change fun _ => rfl
  refine ⟨report, _, t, hrun, hstore ▸ revived h ha, stocked ?_ ?_ hq⟩
  · exact hstore ▸ distinct_requeueEach _ distinct _
  · exact hstore ▸ apart.requeueDue distinct

def firstInWork : Shared :=
  ⟨(occupiedFirst.run .epoch (.ofNat 4) (.claim (.ofNat 1) .epoch)).2, ⟨2, [], []⟩, .epoch⟩

theorem runOnce_outcome_firstInWork :
    firstInWork.store.Distinct ∧ firstInWork.store.CreatedApart ∧
      retryTime.shift? (-lease (.ofSeconds 0)) = some retryTime ∧
      ∃ (report : SweepReport) (t : Shared), (runOnce (.ofSeconds 0)).run
          (fun c (s : Shared) => s.answer (.slow retryTime (.ofNat 4)) c) firstInWork =
            (some (.ok report), t) ∧
        (t.store.get? (.ofNat 1)).map (·.status) = some .pending ∧
        (t.store.get? (.ofNat 2)).map (·.status) = some .failed ∧
        (t.store.get? (.ofNat 3)).map (·.status) = some .pending ∧ t.queue.depth ≤ 2 := by
  have distinct : firstInWork.store.Distinct := by decide
  have apart : firstInWork.store.CreatedApart := by decide
  have cut : retryTime.shift? (-lease (.ofSeconds 0)) = some retryTime := by decide
  obtain ⟨report, ⟨rows⟩, t, hrun, revived, stocked⟩ :=
    runOnce_outcome (o := .slow retryTime (.ofNat 4)) distinct apart cut
  obtain rfl : rows = _ := revived.reaped
  have after : ∀ j ∈ firstInWork.store.rows.map fun j =>
      if j.isStale retryTime then j.reaped retryTime retryTime else j,
      (t.store.get? j.id).map (·.status) = some (if j.id = .ofNat 2 then .failed else .pending) :=
    fun j hj => by
      rw [revived.requeued (by decide) j hj]
      revert j
      decide
  refine ⟨distinct, apart, cut, report, t, hrun, ?_, ?_, ?_, ?_⟩
  · exact after _ (.head _)
  · exact after _ (.tail _ (.head _))
  · exact after _ (.tail _ (.tail _ (.head _)))
  · exact Nat.le_trans (stocked.bounded (by decide)) (Nat.le_of_eq stocked.capacity)

end Sweep

end DocumentPreview
