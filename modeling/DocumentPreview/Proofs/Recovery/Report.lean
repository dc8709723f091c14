import DocumentPreview.Proofs.Recovery.Repetition

namespace DocumentPreview

variable {cutoff now : Instant}

namespace MemoryStore

variable {s : MemoryStore} {limit : Int} {start target : JobStatus}

def moved (s t : MemoryStore) (start target : JobStatus) : Nat :=
  s.rows.countP fun j => j.status = start && (t.get? j.id).any (·.status = target)

theorem moved_change {p : Job → Bool} {f : Job → Job} (h : s.Distinct)
    (hid : ∀ r, (f r).id = r.id) (before : ∀ r ∈ s.rows, p r → r.status = start)
    (after : ∀ r, (f r).status = target) (hne : start ≠ target) :
    s.moved (s.change p f) start target = s.rows.countP p := by
  refine List.countP_congr fun r hr => ?_
  rw [get?_change h fun r _ _ => hid r, get?_self h hr, Option.map_some, Option.any_some]
  by_cases hp : p r
  · simp [hp, before r hr hp, after]
  · simp only [hp, Bool.and_eq_true, decide_eq_true_eq]
    exact iff_of_false (fun ⟨hs, ht⟩ => hne (hs.symm.trans ht)) nofun

theorem moved_reapStale (h : s.Distinct) :
    s.moved (s.reapStale cutoff now).2 .processing .failed = (s.reapStale cutoff now).1.length := by
  rw [reapStale, List.length_map, ← List.countP_eq_length_filter]
  exact moved_change h Job.id_reaped (fun _ _ stale => (Job.isStale_iff.mp stale).1) (fun _ => rfl)
    (by decide)

theorem moved_requeueDue (h : s.Distinct) :
    s.moved (s.requeueDue now limit).2 .failed .pending = (s.requeueDue now limit).1.length := by
  rw [requeueDue_eq_picked h, List.length_map]
  have due : ∀ r ∈ s.picked now limit, r ∈ s.rows ∧ r.isDue now := fun r hr =>
    mem_dueBatch (mem_picked hr).1
  have failed : ∀ r ∈ s.rows, decide (r ∈ s.picked now limit) → r.status = .failed := fun r _ hr =>
    (Job.isDue_iff.mp (due r (of_decide_eq_true hr)).2).1
  rw [moved_change h Job.id_requeued failed (fun _ => rfl) (by decide),
    List.countP_eq_length_filter]
  have rows : s.rows.Nodup := List.Nodup.of_map _ h
  have each : (s.picked now limit).Nodup := List.Nodup.of_map _ (nodup_firstOfFiles _)
  refine ((List.perm_ext_iff_of_nodup (rows.filter _) each).mpr fun r => ?_).length_eq
  rw [List.mem_filter, decide_eq_true_iff]
  exact and_iff_right_of_imp fun hr => (due r hr).1

end MemoryStore

def Shared.leftOut (t : Shared) : Nat :=
  t.store.rows.countP fun j =>
    t.store.FirstPending j ∧ ¬ t.queue.isQueued j.id ∧ t.queue.capacity ≤ t.queue.depth

structure SweepReport.Counts (report : SweepReport) (cutoff now : Instant) (s t : Shared)
    (deferred : Nat) : Prop where
  reaped : report.reaped = s.store.moved (s.store.reapStale cutoff now).2 .processing .failed
  requeued : report.requeued =
    (s.store.reapStale cutoff now).2.moved t.store .failed .pending
  admitted : ∃ added, t.queue.buffer = s.queue.buffer ++ added ∧ report.admitted = added.length
  deferred : report.deferred = deferred

namespace Sweep

open MemoryStore

variable {s : Shared} {o : Outside} {staleAfter : Span}

theorem leftOut_after_eq_zero_iff (ha : (after s cutoff now).store.CreatedApart) :
    (after s cutoff now).leftOut = 0 ↔
      ∀ id ∈ ((after s cutoff now).store.pending batch).map (·.id),
        (after s cutoff now).queue.isQueued id := by
  have queued := s.queue.queued_or_full (((after s cutoff now).store.pending batch).map (·.id))
  rw [Shared.leftOut, List.countP_eq_zero, List.forall_mem_map]
  constructor
  · intro none j hj
    have first := (mem_pending_iff ha).mp hj
    by_contra out
    rcases queued with all | full
    · exact out (all j.id (List.mem_map_of_mem hj))
    · exact none j first.row (decide_eq_true ⟨first, out, full⟩)
  · intro all j _ out
    obtain ⟨first, out, -⟩ := of_decide_eq_true out
    exact out (all j ((mem_pending_iff ha).mpr first))

theorem reported_counts (h : s.store.Distinct) (ha : s.store.CreatedApart) :
    (reported s cutoff now).Counts cutoff now s (after s cutoff now)
      (min 1 (after s cutoff now).leftOut) := by
  have distinct : (s.store.reapStale cutoff now).2.Distinct := h.change fun _ _ _ => rfl
  have apart : (s.store.reapStale cutoff now).2.CreatedApart := ha.change fun _ => rfl
  constructor
  case reaped => exact (moved_reapStale h).symm
  case requeued => exact (moved_requeueDue distinct).symm
  case admitted =>
    obtain ⟨-, -, added, -, -, buffer, -⟩ :=
      s.queue.admitEach_split (((after s cutoff now).store.pending batch).map (·.id))
    refine ⟨added, buffer, ?_⟩
    simp only [reported, offered, JobQueue.depth, buffer, List.length_append, Nat.zero_add,
      Nat.add_sub_cancel_left]
  case deferred =>
    have none : (after s cutoff now).leftOut = 0 ↔ _ :=
      leftOut_after_eq_zero_iff (apart.requeueDue distinct)
    rw [reported, offered, Nat.zero_add]
    split
    · rename_i all
      rw [none.mpr all]
      rfl
    · rename_i some
      exact (Nat.min_eq_left (Nat.one_le_iff_ne_zero.mpr (mt none.mp some))).symm

theorem runOnce_counts_iff (h : s.store.Distinct) (ha : s.store.CreatedApart)
    (hcut : o.time.shift? (-lease staleAfter) = some cutoff) :
    ∃ report t, (runOnce staleAfter).run (fun c s => s.answer o c) s = (some (.ok report), t) ∧
      report.Counts cutoff o.time s t (min 1 t.leftOut) ∧
      (report.Counts cutoff o.time s t t.leftOut ↔ t.leftOut ≤ 1) := by
  have counts : (reported s cutoff o.time).Counts .. := reported_counts h ha
  refine ⟨_, _, run_runOnce hcut, counts, fun all => ?_, fun few => ?_⟩
  · rw [← all.deferred, counts.deferred]
    exact Nat.min_le_left _ _
  · rwa [Nat.min_eq_right few] at counts

theorem runOnce_counts_iff_oneSlot :
    oneSlot.store.Distinct ∧ oneSlot.store.CreatedApart ∧
      retryTime.shift? (-lease (.ofSeconds 0)) = some retryTime ∧
      ∃ t : Shared, (runOnce (.ofSeconds 0)).run
          (fun c (s : Shared) => s.answer (.slow retryTime (.ofNat 4)) c) oneSlot =
            (some (.ok ⟨1, 2, 1, 1⟩), t) ∧
        SweepReport.Counts ⟨1, 2, 1, 1⟩ retryTime retryTime oneSlot t t.leftOut := by
  have distinct : oneSlot.store.Distinct := by decide
  have apart : oneSlot.store.CreatedApart := by decide
  have cut : retryTime.shift? (-lease (.ofSeconds 0)) = some retryTime := by decide
  obtain ⟨report, t, hrun, -, counts⟩ :=
    runOnce_counts_iff (o := .slow retryTime (.ofNat 4)) distinct apart cut
  obtain ⟨told, rfl⟩ := Prod.mk.inj (hrun.symm.trans (run_runOnce (o := .slow _ _) cut))
  obtain rfl := (Except.ok.inj (Option.some.inj told)).trans reported_oneSlot
  have one : (after oneSlot retryTime retryTime).leftOut = 1 := by
    rw [after, requeueDue_of_pairwise (by decide), pending_of_pairwise (by decide)]
    decide
  exact ⟨distinct, apart, cut, _, hrun, counts.mpr (Nat.le_of_eq one)⟩

def threePending : Shared where
  store := ⟨[.fresh (.ofNat 1) (.ofNat 7) none 3 { nanos := 5 },
    .fresh (.ofNat 2) (.ofNat 8) none 3 { nanos := 6 },
    .fresh (.ofNat 3) (.ofNat 9) none 3 { nanos := 7 }]⟩
  queue := ⟨1, [], []⟩
  clock := { nanos := 7 }

theorem not_runOnce_counts :
    ¬ ∀ (s : Shared) (o : Outside) (staleAfter : Span) (cutoff : Instant), s.store.Distinct →
      s.store.CreatedApart → o.time.shift? (-lease staleAfter) = some cutoff →
      ∃ report t, (runOnce staleAfter).run (fun c s => s.answer o c) s = (some (.ok report), t) ∧
        report.Counts cutoff o.time s t t.leftOut := by
  intro counts
  have distinct : threePending.store.Distinct := by decide
  have apart : threePending.store.CreatedApart := by decide
  have cut : threePending.clock.shift? (-lease (.ofSeconds 0)) = some threePending.clock := by
    decide
  obtain ⟨report, t, hrun, counts⟩ :=
    counts threePending (.slow threePending.clock (.ofNat 4)) (.ofSeconds 0) _ distinct apart cut
  obtain ⟨told, rfl⟩ := Prod.mk.inj (hrun.symm.trans (run_runOnce (o := .slow _ _) cut))
  obtain rfl := Except.ok.inj (Option.some.inj told)
  have one : (reported threePending threePending.clock threePending.clock).deferred = 1 := by
    rw [reported, after, requeueDue_of_pairwise (by decide), pending_of_pairwise (by decide)]
    decide
  have two : (after threePending threePending.clock threePending.clock).leftOut = 2 := by
    rw [after, requeueDue_of_pairwise (by decide), pending_of_pairwise (by decide)]
    decide
  cases one.symm.trans (counts.deferred.trans two)

end Sweep

end DocumentPreview
