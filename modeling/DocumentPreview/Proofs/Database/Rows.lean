import DocumentPreview.Database.Store
import DocumentPreview.Database.Tables
import DocumentPreview.Proofs.Store.Selection
import Mathlib.Data.List.Perm.Basic
import Mathlib.Data.Set.List

namespace DocumentPreview

theorem JobStatus.name_inj {a b : JobStatus} : a.name = b.name ↔ a = b := by
  refine ⟨fun h => Option.some.inj ?_, congrArg name⟩
  rw [← ofName?_name a, ← ofName?_name b, h]

namespace JobRow

variable {j : Job} {now cutoff : Instant}

@[simp] theorem toJob_ofJob : (ofJob j).toJob = .ok j := by
  simp only [toJob, ofJob, JobStatus.ofName?_name]
  rfl

@[simp] theorem hasStatus_ofJob {status : JobStatus} :
    (ofJob j).hasStatus status = decide (j.status = status) := by
  simp only [hasStatus, ofJob, JobStatus.name_inj]

@[simp] theorem isActive_ofJob : (ofJob j).isActive = j.isActive := by
  simp only [isActive, ofJob, JobStatus.name_inj, Job.isActive]
  cases j.status <;> rfl

@[simp] theorem isInFlight_ofJob : (ofJob j).isInFlight = j.isInFlight := by
  simp only [isInFlight, isActive_ofJob, hasStatus_ofJob]
  rfl

@[simp] theorem isDue_ofJob : (ofJob j).isDue now = j.isDue now := by
  simp only [isDue, hasStatus_ofJob]
  rfl

@[simp] theorem isStale_ofJob : (ofJob j).isStale cutoff = j.isStale cutoff := by
  simp only [isStale, hasStatus_ofJob]
  rfl

theorem ofJob_injective : Function.Injective ofJob := fun a b h => by
  have ha := toJob_ofJob (j := a)
  rw [h, toJob_ofJob] at ha
  exact (Except.ok.inj ha).symm

theorem exists_of_perm {rows : List JobRow} {jobs : List Job} (hp : rows.Perm (jobs.map ofJob)) :
    ∃ jobs' : List Job, rows = jobs'.map ofJob ∧ jobs'.Perm jobs := by
  obtain ⟨jobs', rfl⟩ : ∃ jobs' : List Job, jobs'.map ofJob = rows := by
    rw [← Set.mem_range, Set.range_list_map]
    intro r hr
    obtain ⟨j, -, hj⟩ := List.mem_map.mp (hp.mem_iff.mp hr)
    exact ⟨j, hj⟩
  exact ⟨jobs', rfl, (List.map_perm_map_iff ofJob_injective).mp hp⟩

end JobRow

namespace DatabaseStore

theorem allJobs_map (jobs : List Job) : allJobs (jobs.map .ofJob) = .ok jobs := by
  induction jobs with
  | nil => rfl
  | cons j jobs ih =>
    rw [List.map_cons, allJobs, JobRow.toJob_ofJob, ih]
    rfl

theorem firstJob_map (jobs : List Job) : firstJob (jobs.map .ofJob) = .ok jobs.head? := by
  cases jobs with
  | nil => rfl
  | cons j jobs =>
    rw [List.map_cons, firstJob, JobRow.toJob_ofJob]
    rfl

end DatabaseStore

namespace Tables

open MemoryStore JobRow

variable {t u : Tables} {s : MemoryStore} {p : JobRow → Bool} {q : Job → Bool}
  {f : JobRow → JobRow} {g : Job → Job} {rows : List JobRow}

structure Keeps (t : Tables) (s : MemoryStore) : Prop where
  jobs : t.jobs = s.rows.map ofJob
  distinct : s.Distinct
  single : s.OneEach Job.isActive

def changed (t : Tables) (s : MemoryStore) (q : Job → Bool) (g : Job → Job) : List JobRow × Tables :=
  (((s.rows.filter q).map g).map ofJob, { t with jobs := (s.change q g).rows.map ofJob })

theorem filter_jobs (ht : t.jobs = s.rows.map ofJob) (hp : ∀ j ∈ s.rows, p (ofJob j) = q j) :
    t.jobs.filter p = (s.rows.filter q).map ofJob := by
  rw [ht, List.filter_map]
  exact congrArg _ (List.filter_congr hp)

theorem hasActive_iff (ht : t.jobs = s.rows.map ofJob) {fileId : Uuid} :
    t.hasActive fileId ↔ ∃ r ∈ s.rows, r.fileId = fileId ∧ r.isActive := by
  simp only [hasActive, ht, List.any_map, List.any_eq_true, Function.comp_apply, isActive_ofJob,
    Bool.and_eq_true, decide_eq_true_eq]
  rfl

theorem clashes_map {j : Job} :
    clashes (s.rows.map ofJob) (ofJob j) = (j.isActive && s.slotTaken j.fileId j.id) := by
  simp only [clashes, slotTaken, isActive_ofJob, List.any_map]
  congr 2
  funext r
  simp only [Function.comp_apply, isActive_ofJob]
  rfl

theorem update_eq (ht : t.jobs = s.rows.map ofJob) (hp : ∀ j ∈ s.rows, p (ofJob j) = q j)
    (hf : ∀ j, f (ofJob j) = ofJob (g j)) :
    t.update p f =
      if ((s.rows.filter q).map g).any
          fun j => j.isActive && (s.change q g).slotTaken j.fileId j.id then .error .activeFile
      else .ok (t.changed s q g) := by
  have rows : (t.jobs.filter p).map f = ((s.rows.filter q).map g).map ofJob := by
    rw [filter_jobs ht hp, List.map_map, List.map_map]
    exact List.map_congr_left fun j _ => hf j
  have jobs : (t.jobs.map fun r => if p r then f r else r) = (s.change q g).rows.map ofJob := by
    simp only [ht, change, List.map_map]
    refine List.map_congr_left fun j hj => ?_
    simp only [Function.comp_apply, hp j hj, hf]
    split <;> rfl
  simp only [update, rows, jobs, List.any_map, Function.comp_def, clashes_map, changed]

theorem update_of_single (ht : t.jobs = s.rows.map ofJob) (hp : ∀ j ∈ s.rows, p (ofJob j) = q j)
    (hf : ∀ j, f (ofJob j) = ofJob (g j)) (ho : (s.change q g).OneEach Job.isActive) :
    t.update p f = .ok (t.changed s q g) := by
  rw [update_eq ht hp hf]
  refine if_neg fun hclash => ?_
  obtain ⟨j, hj, hac⟩ := List.any_eq_true.mp hclash
  obtain ⟨ha, htaken⟩ := Bool.and_eq_true_iff.mp hac
  obtain ⟨r, hr, rfl⟩ := List.mem_map.mp hj
  obtain ⟨hrs, hq⟩ := List.mem_filter.mp hr
  obtain ⟨k, hk, hne, hfile, hka⟩ := slotTaken_iff.mp htaken
  exact hne (ho k hk (g r) (mem_change.mpr ⟨r, hrs, if_pos hq⟩) hka ha hfile)

theorem single_of_update (h : t.Keeps s) (hp : ∀ j ∈ s.rows, p (ofJob j) = q j)
    (hf : ∀ j, f (ofJob j) = ofJob (g j)) (he : t.update p f = .ok (rows, u)) :
    (s.change q g).OneEach Job.isActive := by
  rw [update_eq h.jobs hp hf] at he
  split at he
  · cases he
  rename_i clear
  have alone : ∀ r ∈ s.rows, q r → (g r).isActive →
      ¬ (s.change q g).slotTaken (g r).fileId (g r).id := fun r hr hq ha htaken =>
    clear (List.any_eq_true.mpr ⟨g r, List.mem_map_of_mem (List.mem_filter.mpr ⟨hr, hq⟩),
      Bool.and_eq_true_iff.mpr ⟨ha, htaken⟩⟩)
  intro a ha b hb hactive hactive' hab
  by_contra hne
  obtain ⟨r, hr, rfl⟩ := mem_change.mp ha
  obtain ⟨k, hk, rfl⟩ := mem_change.mp hb
  by_cases hqr : q r
  · rw [if_pos hqr] at ha hactive hab hne
    exact alone r hr hqr hactive (slotTaken_iff.mpr ⟨_, hb, Ne.symm hne, hab.symm, hactive'⟩)
  by_cases hqk : q k
  · rw [if_pos hqk] at hb hactive' hab hne
    exact alone k hk hqk hactive' (slotTaken_iff.mpr ⟨_, ha, hne, hab, hactive⟩)
  · rw [if_neg hqr] at hactive hab hne
    rw [if_neg hqk] at hactive' hab hne
    exact hne (h.single r hr k hk hactive hactive' hab)

theorem Keeps.update (h : t.Keeps s) (hp : ∀ j ∈ s.rows, p (ofJob j) = q j)
    (hf : ∀ j, f (ofJob j) = ofJob (g j)) (hid : ∀ j, (g j).id = j.id)
    (he : t.update p f = .ok (rows, u)) : u.Keeps (s.change q g) := by
  have single := single_of_update h hp hf he
  rw [update_of_single h.jobs hp hf single] at he
  obtain ⟨-, rfl⟩ := Prod.mk.inj (Except.ok.inj he)
  exact ⟨rfl, h.distinct.change fun r _ _ => hid r, single⟩

end Tables

end DocumentPreview
