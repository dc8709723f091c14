import DocumentPreview.Proofs.Service.Backend
import DocumentPreview.Proofs.Store.History
import DocumentPreview.Proofs.Worker.Schedule
import DocumentPreview.Proofs.Worker.Stages

namespace DocumentPreview

def Station.changed (s : Station) (store : MemoryStore) (clock : Instant) (looks : Nat) : Station :=
  { s with shared := { s.shared with store := store, clock := clock }, looks := looks }

namespace Worker

variable {e : Surroundings} {s : Station} {w : Worker} {job j : Job} {cause : AttemptError}
  {next : Option Instant} {id : Uuid}

theorem answer_clock : e.answer .clock s =
    (e.time s.looks, s.changed s.shared.store (e.time s.looks) (s.looks + 1)) := rfl

theorem answer_store {op : StoreOp} {r : op.Result} {t : MemoryStore}
    (h : s.shared.store.run (e.time s.looks) default op = (r, t)) :
    e.answer (.store op) s = (.ok r, s.changed t (e.time s.looks) (s.looks + 1)) := by
  have answer := Shared.answer_store_eq (o := .slow (e.time s.looks) default) op h
  simp only [Surroundings.answer, answer]
  rfl

def Records (e : Surroundings) (s : Station) (job : Job) (p : ServiceProgram (Option Job))
    (f : Job → Job) : Prop :=
  ∃ clock looks, p.run e.answer s =
    (some (some (f job)), s.changed (s.shared.store.changeRow job.id f) clock looks)

theorem records_success (hrow : s.shared.store.get? job.id = some job)
    (hp : job.status = .processing) :
    ∃ now clock, Records e s job (recordSuccess job) (·.finished now clock) := by
  have complete : e.answer (.store (.complete job.id (e.time s.looks)))
      (s.changed s.shared.store (e.time s.looks) (s.looks + 1)) = _ :=
    answer_store (MemoryStore.transition_of_get? hrow hp)
  refine ⟨e.time s.looks, e.time (s.looks + 1), e.time (s.looks + 1), s.looks + 2, ?_⟩
  simp only [recordSuccess, Program.run, answer_clock, complete]
  rfl

theorem records_failureAt (hrow : s.shared.store.get? job.id = some job)
    (hp : job.status = .processing) :
    ∃ clock, Records e s job (recordFailureAt job cause next)
      (·.failedWith cause.message next clock) := by
  have failed : e.answer (.store (.recordFailure job.id cause.message next)) s = _ :=
    answer_store (MemoryStore.transition_of_get? hrow hp)
  have counted : e.answer (.count (.jobsFailed next.isNone)) s = ((), s) := rfl
  refine ⟨e.time s.looks, e.time s.looks, s.looks + 1, ?_⟩
  simp only [recordFailureAt, Program.run, counted, failed]

theorem records_failure (hrow : s.shared.store.get? job.id = some job)
    (hp : job.status = .processing) (ha : 1 ≤ job.attempts.toInt)
    (short : ∀ d ∈ w.retry.delays, d.nanos ≤ 86400 * 1_000_000_000)
    (due : job.attempts.toInt < job.maxAttempts.toInt → ∃ t : Instant, t.nanos =
      (e.time s.looks).nanos + (w.retry.delayOf job.attempts.toInt.toNat).nanos) :
    ∃ next clock,
      Records e s job (w.recordFailure job cause) (·.failedWith cause.message next clock) ∧
      next.map (·.nanos) =
        if job.attempts.toInt < job.maxAttempts.toInt then
          some ((e.time s.looks).nanos + (w.retry.delayOf job.attempts.toInt.toNat).nanos)
        else none := by
  rw [recordFailure]
  by_cases left : job.hasAttemptsLeft
  · have below := Job.hasAttemptsLeft_iff.mp left
    obtain ⟨t, ht⟩ := due below
    have set : w.retry.nextRetryAt? job.attempts (e.time s.looks) = some t := by
      rw [RetrySchedule.nextRetryAt?_eq_some_iff short (by decide),
        RetrySchedule.delayAfter_eq_delayOf ha, ht]
    have recorded : ∃ clock, Records e (s.changed s.shared.store (e.time s.looks) (s.looks + 1)) job
        (recordFailureAt job cause (some t)) _ := records_failureAt hrow hp
    obtain ⟨clock, last, looks, hrun⟩ := recorded
    refine ⟨some t, clock, ⟨last, looks, ?_⟩, by rw [if_pos below, ← ht]; rfl⟩
    rw [if_pos left]
    simp only [Program.run, answer_clock, set]
    exact hrun
  · rw [if_neg left, if_neg (mt Job.hasAttemptsLeft_iff.mpr left)]
    obtain ⟨clock, recorded⟩ := records_failureAt hrow hp
    exact ⟨none, clock, recorded, rfl⟩

theorem run_process_of_none (h : ∀ j, s.shared.store.get? id = some j → j.status ≠ .pending) :
    (w.process id).run e.answer s =
      (some none, s.changed s.shared.store (e.time (s.looks + 1)) (s.looks + 2)) := by
  have refused : s.shared.store.transition id .pending
      (·.claimed (e.time s.looks) (e.time (s.looks + 1))) = (none, s.shared.store) := by
    rcases s.shared.store.transition_cases id .pending
        (·.claimed (e.time s.looks) (e.time (s.looks + 1))) with ⟨-, he⟩ | ⟨j, hj, hp, -⟩
    · exact he
    · exact absurd hp (h j hj)
  have claim : e.answer (.store (.claim id (e.time s.looks)))
      (s.changed s.shared.store (e.time s.looks) (s.looks + 1)) = _ := answer_store refused
  simp only [process, Program.run, answer_clock, claim]
  rfl

def outcome (w : Worker) (e : Surroundings) (objects : ObjectStore) (fileId : Uuid) :
    Except AttemptError Bytes :=
  e.outcome objects w.timeLimit ((e.time 2).nanos + w.timeLimit.nanos) fileId

variable {shared : Shared} {objects : ObjectStore} {now clock : Instant}

def staged (w : Worker) (e : Surroundings) (shared : Shared) (objects : ObjectStore) (j : Job)
    (now clock : Instant) : Station where
  shared := { shared with
    store := shared.store.changeRow j.id (·.claimed now clock), clock := e.time 2 }
  objects := objects.rendered j.fileId (w.outcome e objects j.fileId)
  looks := 3

theorem run_process_of_pending (hj : shared.store.get? j.id = some j) (hp : j.status = .pending) :
    ∃ now clock, (w.process j.id).run e.answer ⟨shared, objects, 0⟩ =
      (w.finish (j.claimed now clock) ((w.outcome e objects j.fileId).map fun _ => ())).run e.answer
        (w.staged e shared objects j now clock) := by
  have claim : e.answer (.store (.claim j.id (e.time 0)))
      (Station.changed ⟨shared, objects, 0⟩ shared.store (e.time 0) 1) = _ :=
    answer_store (MemoryStore.transition_of_get? hj hp)
  refine ⟨e.time 0, e.time 1, ?_⟩
  simp only [process, Program.run, answer_clock, Nat.zero_add, claim]
  exact ends_find

structure Turned (shared : Shared) (j : Job) (t : Shared) (k : Job) : Prop where
  row : t.store.get? j.id = some k
  ids : t.store.rows.map (·.id) = shared.store.rows.map (·.id)
  others : ∀ id, id ≠ j.id → t.store.get? id = shared.store.get? id
  queue : t.queue = shared.queue
  origin : j.SameOrigin k
  attempts : k.attempts.toInt = j.attempts.toInt + 1

theorem Records.turned {p : ServiceProgram (Option Job)} {f : Job → Job}
    (recorded : Records e (w.staged e shared objects j now clock) (j.claimed now clock) p f)
    (h : shared.store.Distinct) (hj : shared.store.get? j.id = some j)
    (few : j.attempts.toInt < 0x7FFF_FFFF) (origin : ∀ r : Job, r.SameOrigin (f r))
    (same : ∀ r, (f r).attempts = r.attempts) :
    ∃ t, p.run e.answer (w.staged e shared objects j now clock) =
        (some (some (f (j.claimed now clock))), t) ∧
      Turned shared j t.shared (f (j.claimed now clock)) ∧
      t.objects = objects.rendered j.fileId (w.outcome e objects j.fileId) := by
  obtain ⟨last, looks, hrun⟩ := recorded
  have ids : ∀ r : Job, (f (r.claimed now clock)).id = r.id := fun r => (origin _).id
  have store : (shared.store.changeRow j.id (·.claimed now clock)).changeRow j.id f =
      shared.store.changeRow j.id fun r => f (r.claimed now clock) :=
    MemoryStore.changeRow_changeRow Job.id_claimed
  refine ⟨_, hrun, ?_, rfl⟩
  constructor
  case row => exact (congrArg (·.get? j.id) store).trans (MemoryStore.get?_changeRow_self h ids hj)
  case ids =>
    exact (congrArg (·.rows.map (·.id)) store).trans (MemoryStore.ids_change fun r _ _ => ids r)
  case others =>
    exact fun id hid =>
      (congrArg (·.get? id) store).trans (MemoryStore.get?_changeRow_of_ne h ids hid)
  case queue => rfl
  case origin =>
    have turned := origin (j.claimed now clock)
    exact ⟨turned.id, turned.fileId, turned.maxAttempts, turned.requestedBy, turned.createdAt⟩
  case attempts => rw [same, Job.toInt_attempts_claimed_of_lt few]

structure Attempted (w : Worker) (e : Surroundings) (s : Station) (j : Job) (t : Station) (k : Job) :
    Prop where
  turned : Turned s.shared j t.shared k
  completed : ∀ preview, w.outcome e s.objects j.fileId = .ok preview →
    k.status = .completed ∧ k.lastError = none ∧ k.nextRetryAt = none ∧
    t.objects.get? (artifactKey j.fileId) = some ⟨preview, previewContentType⟩ ∧
    ∀ key, key ≠ artifactKey j.fileId → t.objects.get? key = s.objects.get? key
  failed : ∀ cause, w.outcome e s.objects j.fileId = .error cause →
    k.status = .failed ∧ k.lastError = some cause.message ∧ t.objects = s.objects ∧
    k.nextRetryAt.map (·.nanos) =
      if k.attempts.toInt < k.maxAttempts.toInt then
        some ((e.time 3).nanos + (w.retry.delayOf k.attempts.toInt.toNat).nanos)
      else none

def Due (w : Worker) (e : Surroundings) (j : Job) : Prop :=
  j.attempts.toInt + 1 < j.maxAttempts.toInt → ∃ t : Instant,
    t.nanos = (e.time 3).nanos + (w.retry.delayOf (j.attempts.toInt + 1).toNat).nanos

theorem process_attempted (h : shared.store.Distinct) (hj : shared.store.get? j.id = some j)
    (hp : j.status = .pending) (hn : 0 ≤ j.attempts.toInt) (few : j.attempts.toInt < 0x7FFF_FFFF)
    (short : ∀ d ∈ w.retry.delays, d.nanos ≤ 86400 * 1_000_000_000)
    (due : ∀ cause, w.outcome e objects j.fileId = .error cause → w.Due e j) :
    ∃ k t, (w.process j.id).run e.answer ⟨shared, objects, 0⟩ = (some (some k), t) ∧
      Attempted w e ⟨shared, objects, 0⟩ j t k := by
  obtain ⟨now, clock, staged⟩ := run_process_of_pending (e := e) (w := w) hj hp
  have row : (w.staged e shared objects j now clock).shared.store.get? (j.claimed now clock).id =
      some (j.claimed now clock) := MemoryStore.get?_changeRow_self h Job.id_claimed hj
  have claimed : (j.claimed now clock).attempts.toInt = j.attempts.toInt + 1 :=
    Job.toInt_attempts_claimed_of_lt few
  have same : ∀ r : Job, r.SameOrigin r := .refl
  cases hr : w.outcome e objects j.fileId with
  | ok preview =>
    rw [hr] at staged
    obtain ⟨done, last, recorded⟩ := records_success row rfl
    obtain ⟨t, hrun, turned, left⟩ :=
      recorded.turned h hj few (fun _ => ⟨rfl, rfl, rfl, rfl, rfl⟩) fun _ => rfl
    refine ⟨_, t, staged.trans hrun, turned, fun p hp => ?_, fun _ he => ?_⟩
    · rw [hr] at left hp
      obtain rfl := Except.ok.inj hp
      rw [left]
      exact ⟨rfl, rfl, rfl, ObjectStore.get?_upload_self,
        fun key hk => ObjectStore.get?_upload_of_ne hk⟩
    · cases hr.symm.trans he
  | error cause =>
    rw [hr] at staged
    obtain ⟨next, last, recorded, set⟩ := records_failure row rfl
      (by omega) short (by rw [claimed]; exact due cause hr)
    obtain ⟨t, hrun, turned, left⟩ :=
      recorded.turned h hj few (fun _ => ⟨rfl, rfl, rfl, rfl, rfl⟩) fun _ => rfl
    refine ⟨_, t, staged.trans hrun, turned, fun _ he => ?_, fun c hc => ?_⟩
    · cases hr.symm.trans he
    · rw [hr] at left hc
      obtain rfl := Except.error.inj hc
      exact ⟨rfl, rfl, left, set⟩

theorem process_outcome (w : Worker) (e : Surroundings) (objects : ObjectStore)
    (h : shared.store.Distinct)
    (budget : ∀ j ∈ shared.store.rows, 0 ≤ j.attempts.toInt ∧ j.attempts.toInt < 0x7FFF_FFFF)
    (short : ∀ d ∈ w.retry.delays, d.nanos ≤ 86400 * 1_000_000_000) (id : Uuid) :
    ((∀ j, shared.store.get? id = some j → j.status ≠ .pending) →
      ∃ t, (w.process id).run e.answer ⟨shared, objects, 0⟩ = (some none, t) ∧
        t.shared.store = shared.store ∧ t.shared.queue = shared.queue ∧ t.objects = objects) ∧
    ∀ j, shared.store.get? id = some j → j.status = .pending →
      (∀ cause, w.outcome e objects j.fileId = .error cause → w.Due e j) →
      ∃ k t, (w.process id).run e.answer ⟨shared, objects, 0⟩ = (some (some k), t) ∧
        Attempted w e ⟨shared, objects, 0⟩ j t k := by
  refine ⟨fun none => ⟨_, run_process_of_none none, rfl, rfl, rfl⟩, fun j hj hp due => ?_⟩
  obtain ⟨row, rfl⟩ := MemoryStore.mem_of_get? hj
  obtain ⟨nonneg, few⟩ := budget j row
  exact process_attempted h hj hp nonneg few short due

def thirdAttempt : Shared where
  store := ⟨[{ Job.fresh (.ofNat 1) (.ofNat 8) none 5 .epoch with attempts := 2 }]⟩
  queue := ⟨2, [], []⟩
  clock := .epoch

def twoDelays : Worker where
  retry := .ofSeconds [30, 120]
  timeLimit := .ofSeconds 60

def prompt (converter : Except ConversionError Bytes) : Surroundings where
  time n := { nanos := min n 9 * 1_000_000_000 }
  answered _ := 10_000_000_000
  catalog id := .ok (some ⟨id, "a.docx", "a", none⟩)
  converter _ _ := converter
  refusal _ := none

def thirdObjects : ObjectStore :=
  ⟨[("a", ⟨[1], "application/msword"⟩)]⟩

theorem process_outcome_thirdAttempt :
    thirdAttempt.store.Distinct ∧
    (∀ j ∈ thirdAttempt.store.rows, 0 ≤ j.attempts.toInt ∧ j.attempts.toInt < 0x7FFF_FFFF) ∧
    (∀ d ∈ twoDelays.retry.delays, d.nanos ≤ 86400 * 1_000_000_000) ∧
    (∃ k t, (twoDelays.process (.ofNat 1)).run (prompt (.ok [2])).answer
        ⟨thirdAttempt, thirdObjects, 0⟩ = (some (some k), t) ∧
      k.status = .completed ∧
      t.objects.get? (artifactKey (.ofNat 8)) = some ⟨[2], previewContentType⟩) ∧
    ∃ k t, (twoDelays.process (.ofNat 1)).run (prompt (.error .emptyOutput)).answer
        ⟨thirdAttempt, thirdObjects, 0⟩ = (some (some k), t) ∧
      k.status = .failed ∧ k.attempts.toInt = 3 ∧
      k.lastError = some "Conversion failed: Conversion service returned an empty document" ∧
      k.nextRetryAt.map (·.nanos) = some (123 * 1_000_000_000) ∧ t.objects = thirdObjects := by
  have distinct : thirdAttempt.store.Distinct := by decide
  have budget : ∀ j ∈ thirdAttempt.store.rows,
      0 ≤ j.attempts.toInt ∧ j.attempts.toInt < 0x7FFF_FFFF := by decide
  have short : ∀ d ∈ twoDelays.retry.delays, d.nanos ≤ 86400 * 1_000_000_000 := by decide
  have attempt (converter : Except ConversionError Bytes) :=
    (process_outcome twoDelays (prompt converter) thirdObjects distinct budget short (.ofNat 1)).2 _
      rfl rfl fun _ _ _ => ⟨{ nanos := 123 * 1_000_000_000 }, rfl⟩
  refine ⟨distinct, budget, short, ?_, ?_⟩
  · obtain ⟨k, t, hrun, -, completed, -⟩ := attempt (.ok [2])
    obtain ⟨status, -, -, stored, -⟩ := completed [2] rfl
    exact ⟨k, t, hrun, status, stored⟩
  · obtain ⟨k, t, hrun, turned, -, failed⟩ := attempt (.error .emptyOutput)
    obtain ⟨status, error, objects, next⟩ := failed (.conversion .emptyOutput) rfl
    refine ⟨k, t, hrun, status, turned.attempts, error, ?_, objects⟩
    rw [turned.attempts, turned.origin.maxAttempts] at next
    exact next

end Worker

end DocumentPreview
