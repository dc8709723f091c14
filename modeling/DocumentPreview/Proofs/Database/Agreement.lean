import DocumentPreview.Proofs.Database.Rewrites

namespace DocumentPreview

open MemoryStore JobRow DatabaseStore

variable {s u : MemoryStore} {t : Tables} {q : Job → Bool} {clock clock' : Instant} {id id' : Uuid}

structure MemoryStore.Admissible (s : MemoryStore) : Prop where
  distinct : s.Distinct
  apart : s.CreatedApart
  counted : ∀ j ∈ s.rows, 0 ≤ j.attempts.toInt ∧ j.attempts.toInt ≤ j.maxAttempts.toInt ∧
    1 ≤ j.maxAttempts.toInt
  pending : ∀ j ∈ s.rows, j.status = .pending → j.hasAttemptsLeft
  oneInFlight : s.OneEach Job.isInFlight

theorem MemoryStore.Admissible.single (h : s.Admissible) (hp : u.rows.Perm s.rows) :
    u.OneEach Job.isActive :=
  (h.oneInFlight.of_imp fun _ => isInFlight_of_isActive).perm hp.symm

def StoreOp.Exact : StoreOp → Prop
  | .claim _ now | .complete _ now | .requeueDue now _ => now.cutToMicros = now
  | .recordFailure _ _ next => next.map Instant.cutToMicros = next
  | .reapStale cutoff now => cutoff.cutToMicros = cutoff ∧ now.cutToMicros = now
  | .create .. | .get _ | .latest _ | .reset _ | .pending _ | .counts | .ping => True

def StoreOp.Fits (s : MemoryStore) : StoreOp → Prop
  | .create _ _ maxAttempts => 1 ≤ maxAttempts.toInt
  | .requeueDue now limit => ((s.rows.filter (·.isDue now)).length : Int) ≤ limit
  | .pending limit => 0 ≤ limit
  | _ => True

def StoreOp.Storable (s : MemoryStore) : StoreOp → Prop
  | .create fileId requestedBy _ => s.inFlight? fileId = none → requestedBy.all Tables.isStorable
  | .recordFailure _ error _ => Tables.isStorable error
  | _ => True

def StoreOp.Alike (rows : List Job) : (op : StoreOp) → op.Result → op.Result → Prop
  | .create .., r, r' => r.2 = r'.2 ∧ r.1.unmarked rows = r'.1.unmarked rows
  | .claim .., r, r' | .complete .., r, r' | .recordFailure .., r, r' | .reset _, r, r' =>
    Option.map (·.unmarked rows) r = Option.map (·.unmarked rows) r'
  | .requeueDue .., r, r' | .reapStale .., r, r' =>
    (List.map (·.unmarked rows) r).Perm (List.map (·.unmarked rows) r')
  | .get _, r, r' | .latest _, r, r' | .pending _, r, r' | .counts, r, r' | .ping, r, r' => r = r'

def Agrees (s : MemoryStore) (t : Tables) {op : StoreOp}
    (d : Option (Except StoreError op.Result) × Tables) (m : op.Result × MemoryStore) : Prop :=
  ∃ (r : op.Result) (rows : List Job), d = (some (.ok r), { t with jobs := rows.map .ofJob }) ∧
    op.Alike s.rows r m.1 ∧ (rows.map (·.unmarked s.rows)).Perm (m.2.rows.map (·.unmarked s.rows))

def Refuses (t : Tables) {α : Type} (v : TableViolation)
    (d : Option (Except StoreError α) × Tables) : Prop :=
  d = (some (.error (.database (.server v.message))), t)

theorem Refuses.not_agrees {v : TableViolation} {op : StoreOp}
    {d : Option (Except StoreError op.Result) × Tables} {m : op.Result × MemoryStore}
    (h : Refuses t v d) : ¬ Agrees s t d m := by
  rintro ⟨r, rows, done, -⟩
  cases h.symm.trans done

def Tables.run (t : Tables) (clock : Instant) (freshId : Uuid) (op : StoreOp) :
    Option (Except StoreError op.Result) × Tables :=
  (DatabaseStore.run op).run (fun c t => t.answer clock freshId c) t

namespace DatabaseStore

theorem run_execute {α : Type} {c : Statement} {r : c.Rows} {t' : Tables}
    {next : Except DatabaseError c.Rows → DatabaseProgram α} (he : t.execute clock c = .ok (r, t')) :
    Program.run (S := Database) (fun c t => t.answer clock id c) (.call (.execute c) next) t =
      (next (.ok r)).run (fun c t => t.answer clock id c) t' := by
  simp only [Program.run, Tables.answer, he]

theorem run_reading {α : Type} {c : Statement} {r : c.Rows} {t' : Tables}
    {f : c.Rows → Except StoreError α} (he : t.execute clock c = .ok (r, t')) :
    (reading c f).run (fun c t => t.answer clock id c) t = (some (f r), t') :=
  run_execute he

theorem refuses_reading {α : Type} {c : Statement} {v : TableViolation}
    {f : c.Rows → Except StoreError α} (he : t.execute clock c = .error v) :
    Refuses t v ((reading c f).run (fun c t => t.answer clock id c) t) := by
  simp only [Refuses, reading, Program.run, Tables.answer, he]

theorem run_insertAgain {fileId : Uuid} {requestedBy : Option String} {maxAttempts : Int32}
    {left : Nat} {j : Job} {t' : Tables}
    (he : t.execute clock (.insertJob id fileId maxAttempts requestedBy) = .ok ([ofJob j], t')) :
    (insertAgain fileId requestedBy maxAttempts (left + 1)).run (fun c t => t.answer clock id c) t =
      (some (.ok (j, true)), t') := by
  simp only [insertAgain, Program.run, Tables.answer, he, toJob_ofJob]
  rfl

theorem refuses_insertAgain {fileId : Uuid} {requestedBy : Option String} {maxAttempts : Int32}
    {left : Nat} {v : TableViolation}
    (he : t.execute clock (.insertJob id fileId maxAttempts requestedBy) = .error v) :
    Refuses t v ((insertAgain fileId requestedBy maxAttempts (left + 1)).run
      (fun c t => t.answer clock id c) t) := by
  simp only [Refuses, insertAgain, Program.run, Tables.answer, he]

end DatabaseStore

namespace Agrees

variable {op : StoreOp} {r : op.Result} {m : op.Result × MemoryStore} {c : Statement} {rows : c.Rows}
  {f : c.Rows → Except StoreError op.Result}

theorem of_same {d : Option (Except StoreError op.Result) × Tables}
    (ht : t.jobs = u.rows.map .ofJob) (hp : u.rows.Perm s.rows) (hd : d = (some (.ok r), t))
    (ha : op.Alike s.rows r m.1) (hm : m.2 = s) : Agrees s t d m := by
  refine ⟨r, u.rows, ?_, ha, ?_⟩
  · rw [hd, ← ht]
  · rw [hm]
    exact hp.map _

theorem of_read (ht : t.jobs = u.rows.map .ofJob) (hp : u.rows.Perm s.rows)
    (hc : t.execute clock c = .ok (rows, t)) (hf : f rows = .ok r) (ha : op.Alike s.rows r m.1)
    (hm : m.2 = s) : Agrees s t ((reading c f).run (fun c t => t.answer clock id c) t) m := by
  refine of_same ht hp ?_ ha hm
  rw [run_reading hc, hf]

theorem of_change {start : JobStatus} {g : Instant → Job → Job} {time time' : Instant}
    (hg : Rewrites start g) (h : s.Distinct) (hp : u.rows.Perm s.rows)
    (hq : ∀ j, q j → j.status = start)
    (hc : t.execute clock c = .ok (rows, (t.changed u q (g time)).2)) (hf : f rows = .ok r)
    (ha : op.Alike s.rows r m.1) (hm : m.2 = s.change q (g time')) :
    Agrees s t ((reading c f).run (fun c t => t.answer clock id c) t) m := by
  refine ⟨r, (u.change q (g time)).rows, ?_, ha, hm ▸ hg.perm_change h hp hq⟩
  rw [run_reading hc, hf]
  rfl

end Agrees

section Operations

variable (h : s.Admissible) (ht : t.jobs = u.rows.map .ofJob) (hp : u.rows.Perm s.rows)
include h ht hp

theorem findInFlight_eq (fileId : Uuid) :
    t.findInFlight fileId = (s.inFlight? fileId).toList.map .ofJob := by
  have found : t.jobs.filter (fun r => r.fileId = fileId && r.isInFlight) =
      (u.rows.filter fun j => j.fileId = fileId && j.isInFlight).map .ofJob :=
    Tables.filter_jobs ht fun j _ => by rw [isInFlight_ofJob]; rfl
  have same := hp.filter fun j => j.fileId = fileId && j.isInFlight
  have one := h.oneInFlight.length_le h.distinct fileId
  rw [Tables.findInFlight, found, MemoryStore.inFlight?, ← List.head?_filter]
  cases hs : s.rows.filter fun j => j.fileId = fileId && j.isInFlight with
  | nil =>
    rw [hs] at same
    simp [List.perm_nil.mp same, Tables.newestFirst]
  | cons j rest =>
    rw [hs, List.length_cons] at one
    obtain rfl := List.eq_nil_of_length_eq_zero (Nat.le_zero.mp (Nat.le_of_succ_le_succ one))
    rw [hs] at same
    simp [List.perm_singleton.mp same, Tables.newestFirst]

theorem run_create_of_inFlight {fileId : Uuid} {j : Job} (hj : s.inFlight? fileId = some j)
    (requestedBy : Option String) (maxAttempts : Int32) :
    t.run clock id (.create fileId requestedBy maxAttempts) = (some (.ok (j, false)), t) := by
  have found : t.execute clock (.findInFlight fileId) = .ok ([.ofJob j], t) := by
    simp only [Tables.execute, findInFlight_eq h ht hp, hj]
    rfl
  refine (run_execute found).trans ?_
  simp only [toJob_ofJob]
  rfl

theorem execute_findInFlight_of_free {fileId : Uuid} (hn : s.inFlight? fileId = none) :
    t.execute clock (.findInFlight fileId) = .ok ([], t) := by
  simp only [Tables.execute, findInFlight_eq h ht hp, hn]
  rfl

theorem refuses_create {fileId : Uuid} {requestedBy : Option String}
    (hn : s.inFlight? fileId = none) (hs : ¬ requestedBy.all Tables.isStorable)
    (maxAttempts : Int32) :
    Refuses t .textEncoding (t.run clock id (.create fileId requestedBy maxAttempts)) := by
  have found : t.execute clock (.findInFlight fileId) = .ok ([], t) :=
    execute_findInFlight_of_free h ht hp hn
  have refused : t.execute clock (.insertJob id fileId maxAttempts requestedBy) =
      .error .textEncoding := by
    refine if_pos ?_
    simpa [Tables.newRow] using hs
  exact (run_execute found).trans (refuses_insertAgain refused)

theorem run_create_of_free {fileId : Uuid} {requestedBy : Option String} {maxAttempts : Int32}
    (hs : requestedBy.all Tables.isStorable) (hm : 1 ≤ maxAttempts.toInt)
    (hn : s.inFlight? fileId = none) (hu : s.Unused id) :
    t.run clock id (.create fileId requestedBy maxAttempts) =
      (some (.ok (.fresh id fileId requestedBy maxAttempts clock.floorToMicros, true)),
        { t with jobs := (u.rows ++
          [Job.fresh id fileId requestedBy maxAttempts clock.floorToMicros]).map .ofJob }) := by
  have found : t.execute clock (.findInFlight fileId) = .ok ([], t) :=
    execute_findInFlight_of_free h ht hp hn
  have free : ∀ r ∈ u.rows, r.fileId = fileId → ¬ r.isActive := fun r hr hfile hactive =>
    inFlight?_eq_none_iff.mp hn r (hp.mem_iff.mp hr) hfile (isInFlight_of_isActive hactive)
  have unused : u.Unused id := fun r hr => hu r (hp.mem_iff.mp hr)
  refine (run_execute found).trans ?_
  exact run_insertAgain (Tables.execute_insert ht hs hm free unused)

theorem agrees_create {fileId : Uuid} {requestedBy : Option String} {maxAttempts : Int32}
    (hs : s.inFlight? fileId = none → requestedBy.all Tables.isStorable)
    (hm : 1 ≤ maxAttempts.toInt) (hu : s.Unused id) (hu' : s.Unused id') :
    Agrees s t (t.run clock id (.create fileId requestedBy maxAttempts))
      (s.run clock' id' (.create fileId requestedBy maxAttempts)) := by
  rcases s.create_cases clock' id' fileId requestedBy maxAttempts with ⟨j, hj, he⟩ | ⟨hn, he⟩
  · rw [MemoryStore.run, he]
    exact .of_same ht hp (run_create_of_inFlight h ht hp hj _ _) ⟨rfl, rfl⟩ rfl
  · have alike : (Job.fresh id fileId requestedBy maxAttempts clock.floorToMicros).unmarked s.rows =
        (Job.fresh id' fileId requestedBy maxAttempts clock').unmarked s.rows := by
      rw [Job.unmarked_fresh hu, Job.unmarked_fresh hu']
    rw [MemoryStore.run, he]
    refine ⟨_, _, run_create_of_free h ht hp (hs hn) hm hn hu, ⟨rfl, alike⟩, ?_⟩
    rw [rows_put_of_unused hu', List.map_append, List.map_append, List.map_singleton,
      List.map_singleton, alike]
    exact (hp.map _).append_right _

theorem agrees_get (wanted : Uuid) :
    Agrees s t (t.run clock id (.get wanted)) (s.run clock' id' (.get wanted)) := by
  have answer : firstJob (t.jobs.filter (·.id = wanted)) = .ok (s.get? wanted) := by
    rw [Tables.filter_jobs ht fun _ _ => rfl, firstJob_map, List.head?_filter]
    exact congrArg Except.ok (get?_perm h.distinct hp.symm wanted)
  exact .of_read ht hp rfl answer rfl rfl

theorem agrees_latest (fileId : Uuid) :
    Agrees s t (t.run clock id (.latest fileId)) (s.run clock' id' (.latest fileId)) := by
  have answer : firstJob ((Tables.newestFirst (t.jobs.filter (·.fileId = fileId))).take 1) =
      .ok (s.latest? fileId) := by
    rw [Tables.filter_jobs ht fun _ _ => rfl, Tables.newestFirst_map, ← List.map_take, firstJob_map,
      List.head?_take, if_neg Nat.one_ne_zero]
    exact congrArg Except.ok (head?_newest h.apart hp)
  exact .of_read ht hp rfl answer rfl rfl

theorem agrees_pending {limit : Int} (hl : 0 ≤ limit) :
    Agrees s t (t.run clock id (.pending limit)) (s.run clock' id' (.pending limit)) := by
  have waiting : ∀ j ∈ s.rows.filter (·.status = .pending), j ∈ s.rows := fun _ hj =>
    (List.mem_filter.mp hj).1
  have rows : t.execute clock (.pendingJobs limit) = .ok ((s.pending limit).map .ofJob, t) := by
    rw [MemoryStore.pending, ← oldestFirst_perm h.apart waiting (hp.filter _)]
    simp only [Tables.execute, Tables.limited, if_neg (not_lt.mpr hl)]
    rw [Tables.filter_jobs ht fun _ _ => hasStatus_ofJob, Tables.oldestFirst_map, ← List.map_take]
    rfl
  exact .of_read ht hp rows (allJobs_map _) rfl rfl

omit h in
theorem agrees_counts : Agrees s t (t.run clock id .counts) (s.run clock' id' .counts) := by
  have same : StatusCounts.ofJobs u.rows = .ofJobs s.rows := by
    simp only [StatusCounts.ofJobs, StatusCounts.count, hp.countP_eq]
  exact .of_read ht hp rfl (counts_countJobs ht) same rfl

theorem agrees_claim {wanted : Uuid} {now : Instant} (hn : now.cutToMicros = now) :
    Agrees s t (t.run clock id (.claim wanted now)) (s.run clock' id' (.claim wanted now)) := by
  have below : ∀ j ∈ u.rows, j.status = .pending → j.hasAttemptsLeft := fun j hj =>
    h.pending j (hp.mem_iff.mp hj)
  have claimed := rewrites_claimed now
  rw [MemoryStore.run, transition_eq h.distinct]
  exact .of_change claimed h.distinct hp (fun _ hat => (Job.isAt_iff.mp hat).2)
    (hn ▸ Tables.execute_claim ht (h.single hp) below) (firstJob_map _)
    (claimed.head?_changed h.distinct hp fun _ => Job.isAt_iff.mp) rfl

theorem agrees_complete {wanted : Uuid} {now : Instant} (hn : now.cutToMicros = now) :
    Agrees s t (t.run clock id (.complete wanted now))
      (s.run clock' id' (.complete wanted now)) := by
  have finished := rewrites_finished now
  rw [MemoryStore.run, transition_eq h.distinct]
  exact .of_change finished h.distinct hp (fun _ hat => (Job.isAt_iff.mp hat).2)
    (hn ▸ Tables.execute_complete ht (h.single hp)) (firstJob_map _)
    (finished.head?_changed h.distinct hp fun _ => Job.isAt_iff.mp) rfl

theorem agrees_recordFailure {wanted : Uuid} {error : String} {next : Option Instant}
    (hs : Tables.isStorable error) (hn : next.map Instant.cutToMicros = next) :
    Agrees s t (t.run clock id (.recordFailure wanted error next))
      (s.run clock' id' (.recordFailure wanted error next)) := by
  have failed := rewrites_failedWith error next
  rw [MemoryStore.run, transition_eq h.distinct]
  exact .of_change failed h.distinct hp (fun _ hat => (Job.isAt_iff.mp hat).2)
    (hn ▸ Tables.execute_fail ht (h.single hp) hs) (firstJob_map _)
    (failed.head?_changed h.distinct hp fun _ => Job.isAt_iff.mp) rfl

theorem agrees_reset (wanted : Uuid) :
    Agrees s t (t.run clock id (.reset wanted)) (s.run clock' id' (.reset wanted)) := by
  have taken : ∀ fileId, u.slotTaken fileId wanted = s.slotTaken fileId wanted := fun fileId => by
    rw [Bool.eq_iff_iff, slotTaken_iff, slotTaken_iff]
    exact exists_congr fun r => and_congr_left' hp.mem_iff
  have done := Tables.execute_reset ht (h.distinct.perm hp.symm) (h.single hp) clock wanted
  simp only [taken] at done
  have failed : ∀ j : Job, j.isAt wanted .failed && !s.slotTaken j.fileId wanted →
      j.id = wanted ∧ j.status = .failed := fun j hat =>
    Job.isAt_iff.mp (Bool.and_eq_true_iff.mp hat).1
  rw [MemoryStore.run, reset_eq h.distinct]
  exact .of_change rewrites_restarted h.distinct hp (fun j hat => (failed j hat).2)
    done (firstJob_map _) (rewrites_restarted.head?_changed h.distinct hp failed) rfl

theorem agrees_requeueDue {now : Instant} {limit : Int} (hn : now.cutToMicros = now)
    (hl : ((s.rows.filter (·.isDue now)).length : Int) ≤ limit) :
    Agrees s t (t.run clock id (.requeueDue now limit))
      (s.run clock' id' (.requeueDue now limit)) := by
  have room : ((u.rows.filter (·.isDue now.cutToMicros)).length : Int) ≤ limit := by
    rwa [hn, (hp.filter _).length_eq]
  have done := Tables.execute_requeue ht (h.distinct.perm hp.symm) (h.oneInFlight.perm hp.symm)
    clock room
  rw [hn] at done
  rw [MemoryStore.run, requeueDue_eq h.distinct h.oneInFlight (by omega)]
  have failed : ∀ j : Job, j.isDue now → j.status = .failed := fun j hd => (Job.isDue_iff.mp hd).1
  have order : (oldestFirst (s.rows.filter (·.isDue now)) limit).Perm (s.rows.filter (·.isDue now)) :=
    perm_oldestFirst (by omega)
  exact .of_change rewrites_requeued h.distinct hp failed done (allJobs_map _)
    ((rewrites_requeued.perm_changed h.distinct hp failed).trans ((order.map _).map _).symm) rfl

theorem agrees_reapStale {cutoff now : Instant} (hc : cutoff.cutToMicros = cutoff)
    (hn : now.cutToMicros = now) :
    Agrees s t (t.run clock id (.reapStale cutoff now))
      (s.run clock' id' (.reapStale cutoff now)) := by
  have done := Tables.execute_reap ht (h.single hp) clock cutoff now
  have reaped := rewrites_reaped now
  have stale : ∀ j : Job, j.isStale cutoff → j.status = .processing := fun j hj =>
    (Job.isStale_iff.mp hj).1
  rw [hc, hn] at done
  exact .of_change reaped h.distinct hp stale done (allJobs_map _)
    (reaped.perm_changed h.distinct hp stale) rfl

end Operations

theorem agrees_of_storable (h : s.Admissible) (ht : t.jobs.Perm (s.rows.map .ofJob)) {op : StoreOp}
    (hs : op.Storable s) (he : op.Exact) (hf : op.Fits s) (hu : s.Unused id) (hu' : s.Unused id') :
    Agrees s t (t.run clock id op) (s.run clock' id' op) := by
  obtain ⟨rows, ht, hp⟩ := exists_of_perm ht
  cases op with
  | create fileId requestedBy maxAttempts =>
    exact agrees_create (u := ⟨rows⟩) h ht hp hs hf hu hu'
  | get wanted => exact agrees_get (u := ⟨rows⟩) h ht hp wanted
  | latest fileId => exact agrees_latest (u := ⟨rows⟩) h ht hp fileId
  | claim wanted now => exact agrees_claim (u := ⟨rows⟩) h ht hp he
  | complete wanted now => exact agrees_complete (u := ⟨rows⟩) h ht hp he
  | recordFailure wanted error next => exact agrees_recordFailure (u := ⟨rows⟩) h ht hp hs he
  | reset wanted => exact agrees_reset (u := ⟨rows⟩) h ht hp wanted
  | requeueDue now limit => exact agrees_requeueDue (u := ⟨rows⟩) h ht hp he hf
  | pending limit => exact agrees_pending (u := ⟨rows⟩) h ht hp hf
  | reapStale cutoff now => exact agrees_reapStale (u := ⟨rows⟩) h ht hp he.1 he.2
  | counts => exact agrees_counts (u := ⟨rows⟩) ht hp
  | ping => exact .of_read (u := ⟨rows⟩) ht hp rfl rfl rfl rfl

theorem refuses_of_not_storable (h : s.Admissible) (ht : t.jobs.Perm (s.rows.map .ofJob))
    {op : StoreOp} (hs : ¬ op.Storable s) :
    Refuses t .textEncoding (t.run clock id op) := by
  obtain ⟨rows, ht, hp⟩ := exists_of_perm ht
  cases op with
  | create fileId requestedBy maxAttempts =>
    obtain ⟨free, unstorable⟩ := Classical.not_imp.mp hs
    exact refuses_create (u := ⟨rows⟩) h ht hp free unstorable maxAttempts
  | recordFailure wanted error next => exact refuses_reading (if_neg hs)
  | _ => exact absurd trivial hs

theorem stores_agree_iff (h : s.Admissible) (ht : t.jobs.Perm (s.rows.map .ofJob)) {op : StoreOp}
    (he : op.Exact) (hf : op.Fits s) (hu : s.Unused id) (hu' : s.Unused id') (clock clock' : Instant) :
    (Agrees s t (t.run clock id op) (s.run clock' id' op) ↔ op.Storable s) ∧
      (¬ op.Storable s → Refuses t .textEncoding (t.run clock id op)) := by
  have refuses (hs : ¬ op.Storable s) : Refuses t .textEncoding (t.run clock id op) :=
    refuses_of_not_storable h ht hs
  refine ⟨⟨fun agrees => ?_, fun hs => agrees_of_storable h ht hs he hf hu hu'⟩, refuses⟩
  by_contra hs
  exact (refuses hs).not_agrees agrees

def mixed : MemoryStore :=
  ⟨[((Job.fresh (.ofNat 1) (.ofNat 8) none 2 .least).claimed .epoch .epoch).failedWith ""
      (some .epoch) .epoch,
    (Job.fresh (.ofNat 2) (.ofNat 9) none 2 .epoch).claimed .epoch .epoch]⟩

def zeroByteNote : StoreOp :=
  .recordFailure (.ofNat 2) "\x00" none

theorem admissible_mixed : mixed.Admissible where
  distinct := by decide +kernel
  apart := by decide +kernel
  counted := by decide +kernel
  pending := by decide +kernel
  oneInFlight := by decide +kernel

theorem not_storable_zeroByteNote : ¬ zeroByteNote.Storable mixed := by
  change ¬ Tables.isStorable "\x00"
  decide +kernel

theorem stores_agree_iff_mixed :
    let tables : Tables := ⟨mixed.rows.reverse.map .ofJob, [], [], []⟩
    mixed.Admissible ∧ (StoreOp.requeueDue .epoch 1).Fits mixed ∧
    Agrees mixed tables (tables.run .least (.ofNat 3) (.requeueDue .epoch 1))
      (mixed.run .epoch (.ofNat 4) (.requeueDue .epoch 1)) ∧
    Refuses tables .textEncoding (tables.run .least (.ofNat 3) zeroByteNote) := by
  intro tables
  have kept : (StoreOp.requeueDue .epoch 1).Exact := by
    change Instant.epoch.cutToMicros = Instant.epoch
    decide
  have fits : (StoreOp.requeueDue .epoch 1).Fits mixed := by
    change ((mixed.rows.filter (·.isDue .epoch)).length : Int) ≤ 1
    decide +kernel
  have reversed : tables.jobs.Perm (mixed.rows.map .ofJob) :=
    (List.reverse_perm mixed.rows).map JobRow.ofJob
  have unused : mixed.Unused (.ofNat 3) ∧ mixed.Unused (.ofNat 4) := by decide
  have requeued := stores_agree_iff admissible_mixed reversed kept fits unused.1 unused.2 .least .epoch
  have noted := stores_agree_iff admissible_mixed reversed (show zeroByteNote.Exact from rfl)
    (show zeroByteNote.Fits mixed from trivial) unused.1 unused.2 .least .epoch
  exact ⟨admissible_mixed, fits, requeued.1.mpr trivial, noted.2 not_storable_zeroByteNote⟩

theorem not_stores_agree_zeroByte :
    ¬ ∀ (s : MemoryStore) (t : Tables) (op : StoreOp) (id id' : Uuid) (clock clock' : Instant),
      s.Admissible → t.jobs.Perm (s.rows.map .ofJob) → op.Exact → op.Fits s → s.Unused id →
        s.Unused id' → Agrees s t (t.run clock id op) (s.run clock' id' op) := by
  intro agree
  let tables : Tables := ⟨mixed.rows.map .ofJob, [], [], []⟩
  have same : tables.jobs.Perm (mixed.rows.map .ofJob) := .refl _
  have agrees := agree mixed tables zeroByteNote (.ofNat 3) (.ofNat 4) .epoch .epoch admissible_mixed
    same rfl trivial (by decide) (by decide)
  exact (refuses_of_not_storable admissible_mixed same not_storable_zeroByteNote).not_agrees agrees

end DocumentPreview
