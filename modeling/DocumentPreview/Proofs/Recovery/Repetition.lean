import DocumentPreview.Proofs.Recovery.Outcome

namespace DocumentPreview

variable {cutoff now : Instant} {limit : Int} {j : Job}

namespace MemoryStore

variable {s : MemoryStore}

theorem reapStale_eq_self (h : ∀ j ∈ s.rows, ¬ j.isStale cutoff) :
    s.reapStale cutoff now = ([], s) := by
  rw [reapStale, change_eq_self h, List.filter_eq_nil_iff.mpr h]
  rfl

theorem requeueDue_eq_self (h : s.Distinct)
    (taken : ∀ d ∈ s.rows, d.isDue now → s.Occupied d.fileId) :
    s.requeueDue now limit = ([], s) := by
  have none : s.picked now limit = [] := List.eq_nil_iff_forall_not_mem.mpr fun d hd => by
    obtain ⟨hb, free⟩ := mem_picked hd
    obtain ⟨hr, due⟩ := mem_dueBatch hb
    exact free (taken d hr due)
  rw [requeueDue_eq_picked h, none, change_eq_self (by simp)]
  rfl

theorem not_isStale_of_mem_swept (h : s.Distinct)
    (hj : j ∈ ((s.reapStale cutoff now).2.requeueDue now limit).2.rows) : ¬ j.isStale cutoff :=
  fun stale => ((mem_swept_of_processing h (Job.isStale_iff.mp stale).1).mp hj).2 stale

theorem occupied_of_mem_requeueDue (h : s.Distinct) (ha : s.CreatedApart)
    (few : (s.rows.filter (·.isDue now)).length ≤ limit.toNat)
    (hj : j ∈ (s.requeueDue now limit).2.rows) (due : j.isDue now) :
    (s.requeueDue now limit).2.Occupied j.fileId := by
  rw [requeueDue_eq_firstDue h ha few] at hj ⊢
  obtain ⟨r, hr, rfl⟩ := mem_change.mp hj
  by_cases first : s.FirstDue now r
  · rw [if_pos (decide_eq_true first)] at due
    cases (Job.isDue_iff.mp due).1
  · rw [if_neg (by simpa using first)] at due ⊢
    by_cases free : s.Occupied r.fileId
    · obtain ⟨k, hk, hfile, active⟩ := free
      have kept : ¬ s.FirstDue now k := fun hd => not_isActive_of_isDue hd.due active
      exact ⟨k, mem_change.mpr ⟨k, hk, if_neg (by simpa using kept)⟩, hfile, active⟩
    · obtain ⟨k, ⟨hk, hfile, chosen⟩, -⟩ := existsUnique_firstDue ha hr due free
      exact ⟨k.requeued now, mem_change.mpr ⟨k, hk, if_pos (decide_eq_true chosen)⟩, hfile, rfl⟩

end MemoryStore

namespace Sweep

open MemoryStore

variable {s : Shared} {o p : Outside} {staleAfter : Span}

theorem after_after (h : s.store.Distinct) (ha : s.store.CreatedApart)
    (few : ((s.store.reapStale cutoff now).2.rows.filter (·.isDue now)).length ≤ batch.toNat) :
    after (after s cutoff now) cutoff now = after s cutoff now ∧
      reported (after s cutoff now) cutoff now = ⟨0, 0, 0, (reported s cutoff now).deferred⟩ := by
  have distinct : (s.store.reapStale cutoff now).2.Distinct := h.change fun _ _ _ => rfl
  have apart : (s.store.reapStale cutoff now).2.CreatedApart := ha.change fun _ => rfl
  have reaped : (after s cutoff now).store.reapStale cutoff now =
      ([], (after s cutoff now).store) :=
    reapStale_eq_self fun j => not_isStale_of_mem_swept h
  have requeued : (after s cutoff now).store.requeueDue now batch =
      ([], (after s cutoff now).store) :=
    requeueDue_eq_self (distinct_requeueEach now distinct _) fun j =>
      occupied_of_mem_requeueDue distinct apart few
  have again : (after s cutoff now).queue.admitEach
      (((after s cutoff now).store.pending batch).map (·.id)) = (after s cutoff now).queue :=
    s.queue.admitEach_admitEach _
  have same : after (after s cutoff now) cutoff now = after s cutoff now := by
    rw [after, reaped, requeued, again]
    rfl
  refine ⟨same, ?_⟩
  rw [reported, same, reaped, requeued, offered, again, Nat.sub_self]
  rfl

theorem runOnce_idempotent (h : s.store.Distinct) (ha : s.store.CreatedApart)
    (hcut : o.time.shift? (-lease staleAfter) = some cutoff) (same : p.time = o.time)
    (few : ((s.store.reapStale cutoff o.time).2.rows.filter (·.isDue o.time)).length ≤
      batch.toNat) :
    ∃ report t, (runOnce staleAfter).run (fun c s => s.answer o c) s = (some (.ok report), t) ∧
      (runOnce staleAfter).run (fun c s => s.answer p c) t =
        (some (.ok ⟨0, 0, 0, report.deferred⟩), t) := by
  obtain ⟨store, report⟩ := after_after h ha few
  refine ⟨_, _, run_runOnce hcut, ?_⟩
  rw [run_runOnce (same ▸ hcut), same, store, report]

def oneSlot : Shared :=
  { firstInWork with queue := ⟨1, [], []⟩ }

theorem reported_oneSlot : reported oneSlot retryTime retryTime = ⟨1, 2, 1, 1⟩ := by
  rw [reported, after, requeueDue_of_pairwise (by decide), pending_of_pairwise (by decide)]
  decide

theorem runOnce_idempotent_oneSlot :
    oneSlot.store.Distinct ∧ oneSlot.store.CreatedApart ∧
      retryTime.shift? (-lease (.ofSeconds 0)) = some retryTime ∧
      ((oneSlot.store.reapStale retryTime retryTime).2.rows.filter (·.isDue retryTime)).length ≤
        batch.toNat ∧
      ∃ t, (runOnce (.ofSeconds 0)).run
          (fun c (s : Shared) => s.answer (.slow retryTime (.ofNat 4)) c) oneSlot =
            (some (.ok ⟨1, 2, 1, 1⟩), t) ∧
        (runOnce (.ofSeconds 0)).run
          (fun c (s : Shared) => s.answer (.slow retryTime (.ofNat 5)) c) t =
            (some (.ok ⟨0, 0, 0, 1⟩), t) := by
  have distinct : oneSlot.store.Distinct := by decide
  have apart : oneSlot.store.CreatedApart := by decide
  have cut : retryTime.shift? (-lease (.ofSeconds 0)) = some retryTime := by decide
  have few : ((oneSlot.store.reapStale retryTime retryTime).2.rows.filter
      (·.isDue retryTime)).length ≤ batch.toNat := by decide
  obtain ⟨report, t, first, second⟩ := runOnce_idempotent (o := .slow retryTime (.ofNat 4))
    (p := .slow retryTime (.ofNat 5)) distinct apart cut rfl few
  obtain ⟨told, rfl⟩ := Prod.mk.inj (first.symm.trans (run_runOnce (o := .slow _ _) cut))
  obtain rfl := (Except.ok.inj (Option.some.inj told)).trans reported_oneSlot
  exact ⟨distinct, apart, cut, few, _, first, second⟩

end Sweep

end DocumentPreview
