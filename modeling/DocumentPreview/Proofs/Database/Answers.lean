import DocumentPreview.Proofs.Database.Sessions
import DocumentPreview.Proofs.Recovery.Operations
import DocumentPreview.Proofs.Store.Order

namespace DocumentPreview

namespace MemoryStore

variable {s t : MemoryStore} {fileId : Uuid} {jobs : List Job}

theorem foldl_newer_eq_none (h : jobs.foldl newer none = none) : jobs = [] := by
  have some : ∀ (js : List Job) (b : Job), js.foldl newer (some b) ≠ none := by
    intro js
    induction js with
    | nil => exact fun b h => nomatch h
    | cons j js ih =>
      intro b
      rw [List.foldl_cons, newer]
      split <;> exact ih _
  cases jobs with
  | nil => rfl
  | cons j js => exact absurd h (some js j)

theorem head?_newest (h : s.CreatedApart) (hp : t.rows.Perm s.rows) :
    ((t.rows.filter (·.fileId = fileId)).mergeSort fun a b => b.createdAt ≤ a.createdAt).head? =
      s.latest? fileId := by
  have same : (t.rows.filter (·.fileId = fileId)).Perm (s.rows.filter (·.fileId = fileId)) :=
    hp.filter _
  have sorted := pairwise_sorted (r := fun a b => b ≤ a) (fun hab hbc => Instant.le_trans hbc hab)
    (fun a b => Int.le_total _ _) (t.rows.filter (·.fileId = fileId))
  have perm := (List.mergeSort_perm (t.rows.filter (·.fileId = fileId))
    fun a b => b.createdAt ≤ a.createdAt).trans same
  generalize (t.rows.filter (·.fileId = fileId)).mergeSort _ = l at sorted perm ⊢
  cases l with
  | nil =>
    rw [latest?, List.nil_perm.mp perm]
    rfl
  | cons k l =>
    cases hl : s.latest? fileId with
    | none => exact absurd perm (by rw [foldl_newer_eq_none hl]; simp)
    | some j =>
      obtain ⟨hj, hfile, newest⟩ := newest_of_latest? hl
      obtain ⟨hk, hkf⟩ := List.mem_filter.mp (perm.mem_iff.mp (.head _))
      have hjl : j ∈ k :: l := perm.mem_iff.mpr (List.mem_filter.mpr ⟨hj, decide_eq_true hfile⟩)
      have hkj : k.createdAt ≤ j.createdAt :=
        newest k hk ((of_decide_eq_true hkf).trans hfile.symm)
      have hjk : j.createdAt ≤ k.createdAt := by
        rcases List.mem_cons.mp hjl with rfl | hjl
        · exact Int.le_refl _
        · exact of_decide_eq_true ((List.pairwise_cons.mp sorted).1 j hjl)
      rw [List.head?_cons, h.eq hk hj (Instant.le_antisymm hkj hjk)]

end MemoryStore

namespace Tables

theorem newestFirst_map (jobs : List Job) : newestFirst (jobs.map .ofJob) =
    (jobs.mergeSort fun a b => b.createdAt ≤ a.createdAt).map .ofJob := by
  rw [newestFirst, List.map_mergeSort]
  exact fun _ _ _ _ => rfl

theorem oldestFirst_map (jobs : List Job) : oldestFirst (jobs.map .ofJob) =
    (jobs.mergeSort fun a b => a.createdAt ≤ b.createdAt).map .ofJob := by
  rw [oldestFirst, List.map_mergeSort]
  exact fun _ _ _ _ => rfl

theorem countJobs_eq {t : Tables} {rows : List Job} (ht : t.jobs = rows.map .ofJob) :
    ∃ statuses : List JobStatus, (∀ j ∈ rows, j.status ∈ statuses) ∧
      t.countJobs = statuses.map fun status => (status.name, StatusCounts.count rows status) := by
  have mem : ∀ name, name ∈ (t.jobs.map (·.status)).eraseDups ↔
      ∃ j ∈ rows, j.status.name = name := by
    intro name
    rw [List.mem_eraseDups, ht, List.map_map, List.mem_map]
    rfl
  obtain ⟨statuses, hs⟩ :
      ∃ statuses : List JobStatus, statuses.map (·.name) = (t.jobs.map (·.status)).eraseDups := by
    rw [← Set.mem_range, Set.range_list_map]
    intro name hn
    obtain ⟨j, -, hj⟩ := (mem name).mp hn
    exact ⟨j.status, hj⟩
  have count : ∀ status : JobStatus,
      t.jobs.countP (·.status = status.name) = StatusCounts.count rows status := by
    intro status
    rw [ht, List.countP_map]
    exact List.countP_congr fun j _ => by simp [JobRow.ofJob, JobStatus.name_inj]
  refine ⟨statuses, fun j hj => ?_, ?_⟩
  · obtain ⟨status, hmem, hname⟩ := List.mem_map.mp (hs ▸ (mem j.status.name).mpr ⟨j, hj, rfl⟩)
    exact JobStatus.name_inj.mp hname ▸ hmem
  · rw [countJobs, ← hs, List.map_map]
    exact List.map_congr_left fun status _ => congrArg (Prod.mk _) (count status)

end Tables

namespace DatabaseStore

theorem counts_map (n : JobStatus → Nat) (statuses : List JobStatus) (c : StatusCounts) :
    counts (statuses.map fun status => (status.name, n status)) c = .ok
      { pending := if .pending ∈ statuses then n .pending else c.pending
        processing := if .processing ∈ statuses then n .processing else c.processing
        completed := if .completed ∈ statuses then n .completed else c.completed
        failed := if .failed ∈ statuses then n .failed else c.failed } := by
  induction statuses generalizing c with
  | nil => simp [counts]
  | cons status statuses ih =>
    rw [List.map_cons, counts, JobStatus.ofName?_name]
    cases status
    all_goals
      dsimp only
      rw [ih]
      simp

theorem counts_countJobs {t : Tables} {rows : List Job} (ht : t.jobs = rows.map .ofJob) :
    counts t.countJobs .zero = .ok (.ofJobs rows) := by
  obtain ⟨statuses, listed, counted⟩ := Tables.countJobs_eq ht
  have absent : ∀ status : JobStatus, (if status ∈ statuses then StatusCounts.count rows status
      else 0) = StatusCounts.count rows status := by
    intro status
    split
    · rfl
    rename_i hn
    refine (List.countP_eq_zero.mpr fun j hj hjs => hn ?_).symm
    exact of_decide_eq_true hjs ▸ listed j hj
  rw [counted, counts_map]
  simp only [StatusCounts.zero, absent, StatusCounts.ofJobs]

end DatabaseStore

end DocumentPreview
