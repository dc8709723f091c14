import DocumentPreview.Proofs.Database.Statements
import Mathlib.Data.List.Pairwise

namespace DocumentPreview.Tables

open MemoryStore JobRow

variable {t : Tables} {s : MemoryStore} {clock now : Instant} {limit : Int}

def Requeues (t : Tables) (clock now : Instant) (limit : Int) : Prop :=
  ∃ rows u, t.execute clock (.requeueJobs now limit) = .ok (rows, u) ∧
    ((∃ r ∈ t.jobs, r.isDue now.cutToMicros ∧ ¬ t.hasActive r.fileId) →
      ∃ r ∈ t.jobs, r.hasStatus .failed ∧ ∃ r' ∈ u.jobs, r'.id = r.id ∧ r'.hasStatus .pending)

theorem mem_batch_iff (hl : (t.jobs.filter (·.isDue now)).length ≤ limit.toNat) {r : JobRow} :
    r ∈ t.batch now limit ↔ r ∈ t.jobs ∧ r.isDue now ∧ ¬ t.hasActive r.fileId := by
  refine ⟨mem_batch, fun ⟨hr, hd, hfree⟩ => ?_⟩
  have fewer : (t.jobs.filter fun r => r.isDue now && !t.hasActive r.fileId).length ≤
      (t.jobs.filter (·.isDue now)).length := by
    rw [← List.countP_eq_length_filter, ← List.countP_eq_length_filter]
    exact List.countP_mono_left fun r _ hr => (Bool.and_eq_true_iff.mp hr).1
  rw [batch, List.take_of_length_le]
  · exact List.mem_mergeSort.mpr (List.mem_filter.mpr ⟨hr, by simp [hd, hfree]⟩)
  · rw [dueFirst, List.length_mergeSort]
    exact Nat.le_trans fewer hl

namespace Keeps

theorem mem_jobs_iff (h : t.Keeps s) {r : JobRow} : r ∈ t.jobs ↔ ∃ j ∈ s.rows, ofJob j = r := by
  rw [h.jobs, List.mem_map]

theorem pairwise_batch (h : t.Keeps s) {R : JobRow → JobRow → Prop}
    (hR : ∀ a ∈ s.rows, ∀ b ∈ s.rows, ofJob a ∈ t.batch now limit → ofJob b ∈ t.batch now limit →
      a.id ≠ b.id → R (ofJob a) (ofJob b)) : (t.batch now limit).Pairwise R := by
  have ids : (t.jobs.map (·.id)).Nodup := by
    rw [h.jobs, List.map_map]
    exact h.distinct
  have chosen : ((t.batch now limit).map (·.id)).Nodup := by
    refine List.Nodup.sublist ((List.take_sublist _ _).map _) ?_
    refine ((List.mergeSort_perm _ _).map _).nodup_iff.mpr ?_
    exact ids.sublist (List.filter_sublist.map _)
  refine (List.pairwise_map.mp chosen).imp_of_mem fun {a b} ha hb hne => ?_
  obtain ⟨j, hj, rfl⟩ := h.mem_jobs_iff.mp (mem_batch ha).1
  obtain ⟨k, hk, rfl⟩ := h.mem_jobs_iff.mp (mem_batch hb).1
  exact hR j hj k hk ha hb hne

theorem batch_of_oneInFlight (h : t.Keeps s) (ho : s.OneEach Job.isInFlight) :
    (t.batch now limit).Pairwise (·.fileId ≠ ·.fileId) := by
  refine h.pairwise_batch fun a ha b hb hab hbb hne hfile => hne ?_
  have flight : ∀ j, ofJob j ∈ t.batch now limit → j.isInFlight := fun j hj =>
    isInFlight_of_isDue (isDue_of_mem_batch hj)
  exact ho a ha b hb (flight a hab) (flight b hbb) hfile

theorem single_requeued (h : t.Keeps s) (clock : Instant)
    (hb : (t.batch now limit).Pairwise (·.fileId ≠ ·.fileId)) :
    (s.change (pickFrom (t.batch now limit)) (·.requeued clock)).OneEach Job.isActive := by
  -- An active job afterwards was active before, or was taken and its file had none.
  have back : ∀ a ∈ (s.change (pickFrom (t.batch now limit)) (·.requeued clock)).rows, a.isActive →
      ∃ r ∈ s.rows, a.id = r.id ∧ a.fileId = r.fileId ∧
        (r.isActive ∨ ofJob r ∈ t.batch now limit) := by
    intro a ha hactive
    obtain ⟨r, hr, rfl⟩ := mem_change.mp ha
    by_cases hp : pickFrom (t.batch now limit) r
    · rw [if_pos hp]
      exact ⟨r, hr, rfl, rfl, .inr ((h.pickFrom_batch_iff hr).mp hp)⟩
    · rw [if_neg hp] at hactive ⊢
      exact ⟨r, hr, rfl, rfl, .inl hactive⟩
  have free : ∀ a ∈ s.rows, a.isActive → ∀ b, ofJob b ∈ t.batch now limit →
      a.fileId ≠ b.fileId := fun a ha hactive b hbb hfile =>
    (mem_batch hbb).2.2 ((hasActive_iff h.jobs).mpr ⟨a, ha, hfile, hactive⟩)
  intro a ha b hb' hactive hactive' hab
  obtain ⟨r, hr, hrid, hrf, hrc⟩ := back a ha hactive
  obtain ⟨k, hk, hkid, hkf, hkc⟩ := back b hb' hactive'
  have hfile : r.fileId = k.fileId := hrf.symm.trans (hab.trans hkf)
  rw [hrid, hkid]
  rcases hrc with hra | hrb <;> rcases hkc with hka | hkb
  · exact h.single r hr k hk hra hka hfile
  · exact absurd hfile (free r hr hra k hkb)
  · exact absurd hfile.symm (free k hk hka r hrb)
  · by_contra hne
    have different : ofJob r ≠ ofJob k := fun he => hne (congrArg Job.id (ofJob_injective he))
    have symm : Std.Symm fun a b : JobRow => a.fileId ≠ b.fileId := ⟨fun _ _ hn => hn.symm⟩
    exact hb.forall hrb hkb different hfile

theorem exists_requeued (h : t.Keeps s) (hl : 1 ≤ limit)
    (hdue : ∃ r ∈ t.jobs, r.isDue now ∧ ¬ t.hasActive r.fileId) :
    ∃ r ∈ s.rows, pickFrom (t.batch now limit) r := by
  obtain ⟨r, hr, hd, hfree⟩ := hdue
  have candidate : r ∈ dueFirst (t.jobs.filter fun r => r.isDue now && !t.hasActive r.fileId) :=
    List.mem_mergeSort.mpr (List.mem_filter.mpr ⟨hr, by simp [hd, hfree]⟩)
  obtain ⟨first, rest, hsorted⟩ := List.exists_cons_of_ne_nil (List.ne_nil_of_mem candidate)
  have taken : first ∈ t.batch now limit := by
    obtain ⟨n, hn⟩ : ∃ n, limit.toNat = n + 1 := ⟨limit.toNat - 1, by omega⟩
    rw [batch, hsorted, hn, List.take_succ_cons]
    exact .head _
  obtain ⟨j, hj, rfl⟩ := h.mem_jobs_iff.mp (mem_batch taken).1
  exact ⟨j, hj, (h.pickFrom_batch_iff hj).mpr taken⟩

theorem requeues_iff (h : t.Keeps s) (clock now : Instant) (hl : 1 ≤ limit) :
    t.Requeues clock now limit ↔
      (t.batch now.cutToMicros limit).Pairwise (·.fileId ≠ ·.fileId) := by
  have statement : t.execute clock (.requeueJobs now limit) = t.update _ _ :=
    requeue_eq.trans (if_neg (by omega))
  have pick := fun j (_ : j ∈ s.rows) => hasStatus_pickFrom (t.batch now.cutToMicros limit) j
  constructor
  · rintro ⟨rows, u, he, -⟩
    rw [statement] at he
    have single := single_of_update h pick (g := (·.requeued clock.floorToMicros)) (fun _ => rfl) he
    refine h.pairwise_batch fun a ha b hb hab hbb hne hfile => hne ?_
    have mem : ∀ j ∈ s.rows, ofJob j ∈ t.batch now.cutToMicros limit →
        j.requeued clock.floorToMicros ∈ (s.change (pickFrom (t.batch now.cutToMicros limit))
          (·.requeued clock.floorToMicros)).rows := fun j hj hjb =>
      mem_change.mpr ⟨j, hj, if_pos ((h.pickFrom_batch_iff hj).mpr hjb)⟩
    exact single (a.requeued _) (mem a ha hab) (b.requeued _) (mem b hb hbb) rfl rfl hfile
  · intro hpair
    have single := h.single_requeued clock.floorToMicros hpair
    refine ⟨_, _, statement.trans (update_of_single h.jobs pick (fun _ => rfl) single), ?_⟩
    intro hdue
    obtain ⟨j, hj, hp⟩ := h.exists_requeued hl hdue
    have failed : j.status = .failed := of_decide_eq_true (Bool.and_eq_true_iff.mp hp).1
    refine ⟨ofJob j, h.mem_jobs_iff.mpr ⟨j, hj, rfl⟩, by simpa using failed, ?_⟩
    exact ⟨_, List.mem_map_of_mem (mem_change.mpr ⟨j, hj, if_pos hp⟩), rfl, rfl⟩

theorem not_requeues (h : t.Keeps s) (hl : 1 ≤ limit) (hlen : t.jobs.length ≤ limit.toNat)
    {a b : JobRow} (ha : a ∈ t.jobs) (hb : b ∈ t.jobs) (hne : a ≠ b) (hfile : a.fileId = b.fileId)
    (hda : a.isDue now.cutToMicros) (hdb : b.isDue now.cutToMicros)
    (hfree : ¬ t.hasActive a.fileId) : ¬ t.Requeues clock now limit := by
  have room : (t.jobs.filter (·.isDue now.cutToMicros)).length ≤ limit.toNat :=
    Nat.le_trans (List.length_filter_le _ _) hlen
  intro hreq
  have symm : Std.Symm fun a b : JobRow => a.fileId ≠ b.fileId := ⟨fun _ _ hn => hn.symm⟩
  refine ((h.requeues_iff clock now hl).mp hreq).forall ((mem_batch_iff room).mpr ⟨ha, hda, hfree⟩)
    ((mem_batch_iff room).mpr ⟨hb, hdb, ?_⟩) hne hfile
  rwa [← hfile]

end Keeps

end DocumentPreview.Tables
