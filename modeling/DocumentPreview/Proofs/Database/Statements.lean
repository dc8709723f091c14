import DocumentPreview.Proofs.Database.Rows

namespace DocumentPreview.Tables

open MemoryStore JobRow

variable {t u : Tables} {s : MemoryStore} {clock now cutoff : Instant} {id fileId : Uuid}
  {rows : List JobRow}

def Crowds (t : Tables) : Statement → Prop
  | .insertJob _ fileId _ _ =>
    ¬ t.hasActive fileId ∧ ∃ o ∈ t.jobs, o.fileId = fileId ∧ o.isInFlight
  | .resetJob id =>
    ∃ r ∈ t.jobs, r.id = id ∧ r.hasStatus .failed ∧ ¬ t.hasActive r.fileId ∧
      ∃ o ∈ t.jobs, o.id ≠ id ∧ o.fileId = r.fileId ∧ o.isInFlight
  | _ => False

def batch (t : Tables) (now : Instant) (limit : Int) : List JobRow :=
  (dueFirst (t.jobs.filter fun r => r.isDue now && !t.hasActive r.fileId)).take limit.toNat

def pickFrom (chosen : List JobRow) (j : Job) : Bool :=
  j.status = .failed && chosen.any (·.id = j.id)

theorem mem_batch {limit : Int} {r : JobRow} (hr : r ∈ t.batch now limit) :
    r ∈ t.jobs ∧ r.isDue now ∧ ¬ t.hasActive r.fileId := by
  have hf := List.mem_mergeSort.mp (List.mem_of_mem_take hr)
  simpa using List.mem_filter.mp hf

theorem isDue_of_mem_batch {limit : Int} {j : Job} (hj : ofJob j ∈ t.batch now limit) :
    j.isDue now := by
  rw [← isDue_ofJob]
  exact (mem_batch hj).2.1

theorem hasStatus_isAt {status : JobStatus} (j : Job) :
    (decide ((ofJob j).id = id) && (ofJob j).hasStatus status) = j.isAt id status := by
  rw [hasStatus_ofJob]
  rfl

theorem hasStatus_pickFrom (chosen : List JobRow) (j : Job) :
    ((ofJob j).hasStatus .failed && chosen.any (·.id = (ofJob j).id)) = pickFrom chosen j := by
  rw [hasStatus_ofJob]
  rfl

theorem requeue_eq {limit : Int} : t.requeue clock now limit =
    if limit < 0 then .error .negativeLimit
    else t.update (fun r => r.hasStatus .failed && (t.batch now limit).any (·.id = r.id))
      fun r => { setStatus r .pending clock with nextRetryAt := none } := by
  unfold requeue limited
  split <;> rfl

theorem newRow_eq {maxAttempts : Int32} {requestedBy : Option String} :
    newRow clock id fileId maxAttempts requestedBy =
      ofJob (.fresh id fileId requestedBy maxAttempts clock) :=
  rfl

theorem update_of_fail {error : String} {next : Option Instant} {changed : List JobRow × Tables}
    (he : t.fail clock id error next = .ok changed) : isStorable error ∧
      t.update (fun r => r.id = id && r.hasStatus .processing)
        (fun r => { setStatus r .failed clock with lastError := some error, nextRetryAt := next }) =
        .ok changed := by
  unfold fail at he
  split at he
  · exact ⟨‹_›, he⟩
  · cases he

theorem insert_cases {r : JobRow} (he : t.insert r = .ok (rows, u)) :
    rows = [] ∧ u = t ∨ rows = [r] ∧ ¬ t.hasActive r.fileId ∧ (∀ o ∈ t.jobs, o.id ≠ r.id) ∧
      u = { t with jobs := t.jobs ++ [r] } := by
  unfold insert at he
  split at he
  · cases he
  split at he
  · cases he
  split at he
  · obtain ⟨rfl, rfl⟩ := Prod.mk.inj (Except.ok.inj he)
    exact .inl ⟨rfl, rfl⟩
  split at he
  · cases he
  · rename_i hfree hnew
    obtain ⟨rfl, rfl⟩ := Prod.mk.inj (Except.ok.inj he)
    refine .inr ⟨rfl, hfree, fun o ho hid => hnew ?_, rfl⟩
    exact List.any_eq_true.mpr ⟨o, ho, decide_eq_true hid⟩

theorem findInFlight_cases (t : Tables) (fileId : Uuid) :
    (t.findInFlight fileId = [] ∧ ∀ r ∈ t.jobs, r.fileId = fileId → ¬ r.isInFlight) ∨
    ∃ r ∈ t.jobs, r.fileId = fileId ∧ r.isInFlight ∧ t.findInFlight fileId = [r] := by
  let flying := newestFirst (t.jobs.filter fun r => r.fileId = fileId && r.isInFlight)
  have found {r : JobRow} : r ∈ flying ↔ r ∈ t.jobs ∧ r.fileId = fileId ∧ r.isInFlight := by
    simp only [flying, newestFirst, List.mem_mergeSort, List.mem_filter, Bool.and_eq_true,
      decide_eq_true_eq]
  have newest : t.findInFlight fileId = flying.take 1 := rfl
  rw [newest]
  cases hf : flying with
  | nil => exact .inl ⟨rfl, fun r hr hfile hin => List.not_mem_nil (hf ▸ found.mpr ⟨hr, hfile, hin⟩)⟩
  | cons r rest =>
    obtain ⟨hr, hfile, hin⟩ := found.mp (hf ▸ List.mem_cons_self)
    exact .inr ⟨r, hr, hfile, hin, rfl⟩

inductive Turns (t : Tables) (s : MemoryStore) (clock : Instant) : Statement → MemoryStore → Prop
  | same {c : Statement} : Turns t s clock c s
  | inserted {id fileId : Uuid} {maxAttempts : Int32} {requestedBy : Option String} :
      ¬ t.hasActive fileId → s.Unused id →
        Turns t s clock (.insertJob id fileId maxAttempts requestedBy)
          (s.put (.fresh id fileId requestedBy maxAttempts clock))
  | claimed {id : Uuid} {now : Instant} :
      Turns t s clock (.claimJob id now)
        (s.change (·.isAt id .pending) (·.claimed now.cutToMicros clock))
  | completed {id : Uuid} {now : Instant} :
      Turns t s clock (.completeJob id now)
        (s.change (·.isAt id .processing) (·.finished now.cutToMicros clock))
  | failed {id : Uuid} {error : String} {next : Option Instant} :
      Turns t s clock (.failJob id error next)
        (s.change (·.isAt id .processing)
          (·.failedWith error (next.map Instant.cutToMicros) clock))
  | reset {id : Uuid} :
      Turns t s clock (.resetJob id)
        (s.change (fun j => j.isAt id .failed && !t.hasActive j.fileId) (·.restarted clock))
  | requeued {now : Instant} {limit : Int} :
      Turns t s clock (.requeueJobs now limit)
        (s.change (pickFrom (t.batch now.cutToMicros limit)) (·.requeued clock))
  | reaped {cutoff now : Instant} :
      Turns t s clock (.reapJobs cutoff now)
        (s.change (·.isStale cutoff.cutToMicros) (·.reaped now.cutToMicros clock))

namespace Keeps

theorem of_jobs (h : t.Keeps s) (hu : u.jobs = t.jobs) : u.Keeps s :=
  ⟨hu.trans h.jobs, h.distinct, h.single⟩

theorem insert {j : Job} (h : t.Keeps s) (he : t.insert (ofJob j) = .ok (rows, u)) :
    u.Keeps s ∨ ¬ t.hasActive j.fileId ∧ s.Unused j.id ∧ u.Keeps (s.put j) := by
  rcases insert_cases he with ⟨-, rfl⟩ | ⟨-, hfree, hnew, rfl⟩
  · exact .inl h
  have unused : s.Unused j.id := fun r hr => by
    refine hnew (ofJob r) ?_
    rw [h.jobs]
    exact List.mem_map_of_mem hr
  refine .inr ⟨hfree, unused, ?_, h.distinct.put, h.single.put fun r hr hrf ha => hfree ?_⟩
  · rw [rows_put_of_unused unused, List.map_append, ← h.jobs]
    rfl
  · exact (hasActive_iff h.jobs).mpr ⟨r, hr, hrf, ha⟩

theorem execute {c : Statement} {r : c.Rows} (h : t.Keeps s) (he : t.execute clock c = .ok (r, u)) :
    ∃ s', u.Keeps s' ∧ Turns t s clock.floorToMicros c s' := by
  cases c with
  | insertJob id fileId maxAttempts requestedBy =>
    rw [Tables.execute, newRow_eq] at he
    rcases h.insert he with hs | ⟨hfree, unused, hput⟩
    · exact ⟨s, hs, .same⟩
    · exact ⟨_, hput, .inserted hfree unused⟩
  | claimJob id now =>
    simp only [Tables.execute, claim] at he
    split at he
    · cases he
    · refine ⟨_, ?_, .claimed⟩
      exact h.update (fun j _ => hasStatus_isAt j) (fun _ => rfl) (fun _ => rfl) he
  | completeJob id now =>
    refine ⟨_, ?_, .completed⟩
    exact h.update (fun j _ => hasStatus_isAt j) (fun _ => rfl) (fun _ => rfl) he
  | failJob id error next =>
    refine ⟨_, ?_, .failed⟩
    exact h.update (fun j _ => hasStatus_isAt j) (fun _ => rfl) (fun _ => rfl) (update_of_fail he).2
  | resetJob id =>
    refine ⟨_, ?_, .reset⟩
    exact h.update (fun j _ => congrArg (· && _) (hasStatus_isAt j)) (fun _ => rfl) (fun _ => rfl) he
  | requeueJobs now limit =>
    simp only [Tables.execute, requeue_eq] at he
    split at he
    · cases he
    · refine ⟨_, ?_, .requeued⟩
      exact h.update (fun j _ => hasStatus_pickFrom _ j) (fun _ => rfl) (fun _ => rfl) he
  | reapJobs cutoff now =>
    refine ⟨_, ?_, .reaped⟩
    exact h.update (fun _ _ => isStale_ofJob) (fun _ => rfl) (fun _ => rfl) he
  | pendingJobs limit =>
    simp only [Tables.execute, limited] at he
    split at he
    · cases he
    · obtain ⟨-, rfl⟩ := Prod.mk.inj (Except.ok.inj he)
      exact ⟨s, h, .same⟩
  | _ =>
    obtain ⟨-, rfl⟩ := Prod.mk.inj (Except.ok.inj he)
    exact ⟨s, h.of_jobs rfl, .same⟩

theorem pickFrom_batch_iff {limit : Int} (h : t.Keeps s) {j : Job} (hj : j ∈ s.rows) :
    pickFrom (t.batch now limit) j ↔ ofJob j ∈ t.batch now limit := by
  simp only [pickFrom, Bool.and_eq_true, List.any_eq_true, decide_eq_true_eq]
  constructor
  · rintro ⟨-, r, hr, hid⟩
    have hjobs := (mem_batch hr).1
    rw [h.jobs] at hjobs
    obtain ⟨k, hk, rfl⟩ := List.mem_map.mp hjobs
    rwa [← h.distinct.eq hk hj hid]
  · intro hr
    exact ⟨(Job.isDue_iff.mp (isDue_of_mem_batch hr)).1, _, hr, rfl⟩

theorem oneInFlight_reset (h : t.Keeps s) (hc : ¬ t.Crowds (.resetJob id))
    (ho : s.OneEach Job.isInFlight) :
    (s.change (fun j => j.isAt id .failed && !t.hasActive j.fileId) (·.restarted clock)).OneEach
      Job.isInFlight := by
  by_cases hj : ∃ j ∈ s.rows, j.isAt id .failed && !t.hasActive j.fileId
  · obtain ⟨j, hjs, hat⟩ := hj
    obtain ⟨hp, hfree⟩ := Bool.and_eq_true_iff.mp hat
    obtain ⟨hid, hf⟩ := Job.isAt_iff.mp hp
    have only : ∀ r ∈ s.rows, r.isAt id .failed && !t.hasActive r.fileId → r.id = j.id :=
      fun r _ hr => (Job.isAt_iff.mp (Bool.and_eq_true_iff.mp hr).1).1.trans hid.symm
    rw [change_eq_changeRow h.distinct hjs hat only]
    refine ho.changeRow h.distinct (get?_self h.distinct hjs) rfl fun r hr hne hfile hin => hc ?_
    have mem : ∀ k ∈ s.rows, ofJob k ∈ t.jobs := fun k hk => h.jobs ▸ List.mem_map_of_mem hk
    exact ⟨ofJob j, mem j hjs, hid, by simpa using hf, by simpa [ofJob] using hfree, ofJob r,
      mem r hr, hid ▸ hne, hfile, by simpa using hin⟩
  · exact ho.change fun r hr hat => absurd ⟨r, hr, hat⟩ hj

theorem oneInFlight {c : Statement} {s' : MemoryStore} (h : t.Keeps s) (ht : Turns t s clock c s')
    (hc : ¬ t.Crowds c) (ho : s.OneEach Job.isInFlight) : s'.OneEach Job.isInFlight := by
  cases ht with
  | same => exact ho
  | inserted hfree unused =>
    refine ho.put fun r hr hfile hin => hc ⟨hfree, ofJob r, ?_, hfile, by simpa using hin⟩
    exact h.jobs ▸ List.mem_map_of_mem hr
  | claimed =>
    refine ho.change fun r _ hq => ⟨rfl, rfl, fun _ => ?_⟩
    exact isInFlight_of_isActive (isActive_iff.mpr (.inl (Job.isAt_iff.mp hq).2))
  | completed => exact ho.change fun r _ _ => ⟨rfl, rfl, fun hin => absurd hin Bool.false_ne_true⟩
  | failed =>
    refine ho.change fun r _ hq => ⟨rfl, rfl, fun _ => ?_⟩
    exact isInFlight_of_isActive (isActive_iff.mpr (.inr (Job.isAt_iff.mp hq).2))
  | reset => exact h.oneInFlight_reset hc ho
  | requeued =>
    refine ho.change fun r hr hq => ⟨rfl, rfl, fun _ => ?_⟩
    exact isInFlight_of_isDue (isDue_of_mem_batch ((h.pickFrom_batch_iff hr).mp hq))
  | reaped =>
    refine ho.change fun r _ hq => ⟨rfl, rfl, fun _ => ?_⟩
    exact isInFlight_of_isActive (isActive_iff.mpr (.inr (Job.isStale_iff.mp hq).1))

end Keeps

end DocumentPreview.Tables
