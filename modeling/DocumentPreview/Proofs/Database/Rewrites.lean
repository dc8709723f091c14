import DocumentPreview.Proofs.Database.Answers

namespace DocumentPreview

open MemoryStore JobRow

variable {s u : MemoryStore} {t : Tables} {q : Job → Bool} {clock clock' now cutoff : Instant}
  {id : Uuid}

def Job.unmarked (rows : List Job) (j : Job) : Job :=
  if j ∈ rows then j
  else if j.id ∈ rows.map (·.id) then { j with updatedAt := .epoch }
  else { j with id := default, createdAt := .epoch, updatedAt := .epoch }

theorem Job.unmarked_fresh {fileId : Uuid} {requestedBy : Option String} {maxAttempts : Int32}
    (hu : s.Unused id) : (fresh id fileId requestedBy maxAttempts clock).unmarked s.rows =
      fresh default fileId requestedBy maxAttempts .epoch := by
  rw [unmarked, if_neg fun hj => hu _ hj rfl, if_neg fun hid => ?_]
  · rfl
  · obtain ⟨r, hr, hrid⟩ := List.mem_map.mp hid
    exact hu r hr hrid

structure Rewrites (start : JobStatus) (g : Instant → Job → Job) : Prop where
  id : ∀ clock j, (g clock j).id = j.id
  fileId : ∀ clock j, (g clock j).fileId = j.fileId
  status : ∀ clock j, (g clock j).status ≠ start
  same : ∀ clock clock' j, { g clock j with updatedAt := .epoch } =
    { g clock' j with updatedAt := .epoch }

theorem rewrites_claimed (now : Instant) : Rewrites .pending fun c j => j.claimed now c :=
  ⟨fun _ _ => rfl, fun _ _ => rfl, fun _ _ => JobStatus.noConfusion, fun _ _ _ => rfl⟩

theorem rewrites_finished (now : Instant) : Rewrites .processing fun c j => j.finished now c :=
  ⟨fun _ _ => rfl, fun _ _ => rfl, fun _ _ => JobStatus.noConfusion, fun _ _ _ => rfl⟩

theorem rewrites_failedWith (error : String) (next : Option Instant) :
    Rewrites .processing fun c j => j.failedWith error next c :=
  ⟨fun _ _ => rfl, fun _ _ => rfl, fun _ _ => JobStatus.noConfusion, fun _ _ _ => rfl⟩

theorem rewrites_restarted : Rewrites .failed fun c j => j.restarted c :=
  ⟨fun _ _ => rfl, fun _ _ => rfl, fun _ _ => JobStatus.noConfusion, fun _ _ _ => rfl⟩

theorem rewrites_requeued : Rewrites .failed fun c j => j.requeued c :=
  ⟨fun _ _ => rfl, fun _ _ => rfl, fun _ _ => JobStatus.noConfusion, fun _ _ _ => rfl⟩

theorem rewrites_reaped (now : Instant) : Rewrites .processing fun c j => j.reaped now c :=
  ⟨fun _ _ => rfl, fun _ _ => rfl, fun _ _ => JobStatus.noConfusion, fun _ _ _ => rfl⟩

namespace Rewrites

variable {start : JobStatus} {g : Instant → Job → Job}

theorem unmarked_eq (hg : Rewrites start g) (h : s.Distinct) {j : Job} (hj : j ∈ s.rows)
    (hs : j.status = start) : (g clock j).unmarked s.rows = (g clock' j).unmarked s.rows := by
  have listed : j.id ∈ s.rows.map (·.id) := List.mem_map_of_mem hj
  have new : ∀ c, g c j ∉ s.rows := fun c hc =>
    hg.status c j ((congrArg Job.status (h.eq hc hj (hg.id c j))).trans hs)
  rw [Job.unmarked, Job.unmarked, if_neg (new clock), if_neg (new clock'),
    if_pos (by rwa [hg.id]), if_pos (by rwa [hg.id]), hg.same clock clock']

theorem perm_change (hg : Rewrites start g) (h : s.Distinct) (hp : u.rows.Perm s.rows)
    (hq : ∀ j, q j → j.status = start) :
    ((u.change q (g clock)).rows.map (·.unmarked s.rows)).Perm
      ((s.change q (g clock')).rows.map (·.unmarked s.rows)) := by
  simp only [change, List.map_map]
  refine (hp.map _).trans (.of_eq (List.map_congr_left fun j hj => ?_))
  simp only [Function.comp_apply]
  by_cases hqj : q j
  · rw [if_pos hqj, if_pos hqj, hg.unmarked_eq h hj (hq j hqj)]
  · rw [if_neg hqj, if_neg hqj]

theorem perm_changed (hg : Rewrites start g) (h : s.Distinct) (hp : u.rows.Perm s.rows)
    (hq : ∀ j, q j → j.status = start) :
    (((u.rows.filter q).map (g clock)).map (·.unmarked s.rows)).Perm
      (((s.rows.filter q).map (g clock')).map (·.unmarked s.rows)) := by
  rw [List.map_map, List.map_map]
  refine ((hp.filter q).map _).trans (.of_eq (List.map_congr_left fun j hj => ?_))
  obtain ⟨hjs, hqj⟩ := List.mem_filter.mp hj
  exact hg.unmarked_eq h hjs (hq j hqj)

theorem head?_changed (hg : Rewrites start g) (h : s.Distinct) (hp : u.rows.Perm s.rows)
    (hq : ∀ j, q j → j.id = id ∧ j.status = start) :
    (((u.rows.filter q).map (g clock)).head?).map (·.unmarked s.rows) =
      (((s.rows.filter q).map (g clock')).head?).map (·.unmarked s.rows) := by
  -- At most one row is picked, so that there is no order.
  have picked := hp.filter q
  cases hs : s.rows.filter q with
  | nil =>
    rw [hs] at picked
    rw [List.perm_nil.mp picked]
    rfl
  | cons j rest =>
    obtain ⟨hj, hqj⟩ := List.mem_filter.mp (hs ▸ List.mem_cons_self : j ∈ s.rows.filter q)
    have only := filter_eq_singleton h hj hqj fun r _ hqr => (hq r hqr).1.trans (hq j hqj).1.symm
    rw [only] at picked
    rw [← hs, only, List.perm_singleton.mp picked]
    exact congrArg some (hg.unmarked_eq h hj (hq j hqj).2)

theorem single (hg : Rewrites start g) (ho : u.OneEach Job.isActive) (hstart : start.isActive)
    (hq : ∀ j, q j → j.status = start) : (u.change q (g clock)).OneEach Job.isActive :=
  ho.change fun j _ hqj => ⟨hg.id clock j, hg.fileId clock j, fun _ => by
    rw [Job.isActive, hq j hqj]
    exact hstart⟩

end Rewrites

namespace Tables

variable (ht : t.jobs = u.rows.map .ofJob)
include ht

theorem execute_insert {fileId : Uuid} {maxAttempts : Int32} {requestedBy : Option String}
    (hs : requestedBy.all isStorable) (hm : 1 ≤ maxAttempts.toInt) (hfree : ∀ r ∈ u.rows, r.fileId = fileId → ¬ r.isActive)
    (hu : u.Unused id) :
    t.execute clock (.insertJob id fileId maxAttempts requestedBy) =
      .ok ([ofJob (.fresh id fileId requestedBy maxAttempts clock.floorToMicros)],
        { t with jobs := (u.rows ++
          [Job.fresh id fileId requestedBy maxAttempts clock.floorToMicros]).map ofJob }) := by
  have storable : ¬ !requestedBy.all isStorable := by simp [hs]
  have bounded : ¬ maxAttempts < 1 := fun hlt => by
    have below := Int32.lt_iff_toInt_lt.mp hlt
    have one : (1 : Int32).toInt = 1 := by decide
    omega
  have free : ¬ t.hasActive fileId := fun hactive => by
    obtain ⟨r, hr, hfile, hra⟩ := (hasActive_iff ht).mp hactive
    exact hfree r hr hfile hra
  have unused : ¬ t.jobs.any (·.id = id) := fun hid => by
    obtain ⟨r, hr, hrid⟩ := List.any_eq_true.mp hid
    rw [ht] at hr
    obtain ⟨j, hj, rfl⟩ := List.mem_map.mp hr
    exact hu j hj (of_decide_eq_true hrid)
  rw [List.map_append, ← ht]
  exact (if_neg storable).trans
    ((if_neg bounded).trans ((if_neg free).trans (if_neg unused)))

theorem execute_claim (ho : u.OneEach Job.isActive)
    (hpending : ∀ j ∈ u.rows, j.status = .pending → j.hasAttemptsLeft) :
    t.execute clock (.claimJob id now) = .ok (t.changed u (·.isAt id .pending)
      (·.claimed now.cutToMicros clock.floorToMicros)) := by
  simp only [Tables.execute, Tables.claim]
  refine (if_neg fun hspent => ?_).trans ?_
  · obtain ⟨r, hr, hfull⟩ := List.any_eq_true.mp hspent
    rw [ht] at hr
    obtain ⟨j, hj, rfl⟩ := List.mem_map.mp hr
    obtain ⟨hat, hmax⟩ := Bool.and_eq_true_iff.mp hfull
    rw [hasStatus_isAt] at hat
    have below := Job.hasAttemptsLeft_iff.mp (hpending j hj (Job.isAt_iff.mp hat).2)
    rw [show j.attempts = Int32.maxValue from of_decide_eq_true hmax] at below
    have top := j.maxAttempts.toInt_lt
    have max : Int32.maxValue.toInt = 2147483647 := by decide
    omega
  · exact update_of_single ht (fun j _ => hasStatus_isAt j) (fun _ => rfl)
      ((rewrites_claimed _).single ho rfl fun _ hat => (Job.isAt_iff.mp hat).2)

theorem execute_complete (ho : u.OneEach Job.isActive) :
    t.execute clock (.completeJob id now) = .ok (t.changed u (·.isAt id .processing)
      (·.finished now.cutToMicros clock.floorToMicros)) :=
  update_of_single ht (fun j _ => hasStatus_isAt j) (fun _ => rfl)
    ((rewrites_finished _).single ho rfl fun _ hat => (Job.isAt_iff.mp hat).2)

theorem execute_fail (ho : u.OneEach Job.isActive) {error : String} {next : Option Instant}
    (hs : isStorable error) :
    t.execute clock (.failJob id error next) = .ok (t.changed u (·.isAt id .processing)
      (·.failedWith error (next.map Instant.cutToMicros) clock.floorToMicros)) :=
  (if_pos hs).trans <| update_of_single ht (fun j _ => hasStatus_isAt j) (fun _ => rfl)
    ((rewrites_failedWith _ _).single ho rfl fun _ hat => (Job.isAt_iff.mp hat).2)

theorem execute_reap (ho : u.OneEach Job.isActive) (clock cutoff now : Instant) :
    t.execute clock (.reapJobs cutoff now) = .ok (t.changed u (·.isStale cutoff.cutToMicros)
      (·.reaped now.cutToMicros clock.floorToMicros)) :=
  update_of_single ht (fun _ _ => isStale_ofJob) (fun _ => rfl)
    ((rewrites_reaped _).single ho rfl fun _ hstale => (Job.isStale_iff.mp hstale).1)

theorem execute_reset (h : u.Distinct) (ho : u.OneEach Job.isActive) (clock : Instant)
    (id : Uuid) : t.execute clock (.resetJob id) =
      .ok (t.changed u (fun j => j.isAt id .failed && !u.slotTaken j.fileId id)
        (·.restarted clock.floorToMicros)) := by
  refine update_of_single ht (fun j hj => ?_) (fun _ => rfl) ?_
  · refine (congrArg (· && _) (hasStatus_isAt j)).trans ?_
    by_cases hat : j.isAt id .failed
    · obtain ⟨hid, hf⟩ := Job.isAt_iff.mp hat
      have notSelf : ∀ r ∈ u.rows, r.isActive → r.id ≠ id := fun r hr hactive hrid => by
        rw [h.eq hr hj (hrid.trans hid.symm), Job.isActive, hf] at hactive
        cases hactive
      have same : t.hasActive j.fileId = u.slotTaken j.fileId id := by
        rw [Bool.eq_iff_iff, hasActive_iff ht, slotTaken_iff]
        exact exists_congr fun r => and_congr_right fun hr =>
          ⟨fun hra => ⟨notSelf r hr hra.2, hra⟩, And.right⟩
      exact congrArg (fun taken => j.isAt id .failed && !taken) same
    · simp [hat]
  · have single : (u.run clock.floorToMicros id (.reset id)).2.OneEach Job.isActive :=
      oneActive_run h ho (.reset id)
    rwa [MemoryStore.run, reset_eq h] at single

theorem execute_requeue (h : u.Distinct) (ho : u.OneEach Job.isInFlight) (clock : Instant)
    {limit : Int} (hl : ((u.rows.filter (·.isDue now.cutToMicros)).length : Int) ≤ limit) :
    t.execute clock (.requeueJobs now limit) = .ok (t.changed u (·.isDue now.cutToMicros)
      (·.requeued clock.floorToMicros)) := by
  have active := ho.of_imp fun j => isInFlight_of_isActive
  have room : (t.jobs.filter (·.isDue now.cutToMicros)).length ≤ limit.toNat := by
    rw [filter_jobs ht fun _ _ => isDue_ofJob, List.length_map]
    omega
  -- A due job is in flight, so that its file has no active one and every due job is taken.
  have taken : ∀ j ∈ u.rows,
      pickFrom (t.batch now.cutToMicros limit) j = j.isDue now.cutToMicros := by
    intro j hj
    rw [Bool.eq_iff_iff, Keeps.pickFrom_batch_iff ⟨ht, h, active⟩ hj,
      mem_batch_iff room, isDue_ofJob]
    refine ⟨fun hb => hb.2.1, fun hd => ⟨ht ▸ List.mem_map_of_mem hj, hd, fun hactive => ?_⟩⟩
    obtain ⟨r, hr, hfile, hra⟩ := (hasActive_iff ht).mp hactive
    obtain rfl := h.eq hr hj (ho r hr j hj (isInFlight_of_isActive hra) (isInFlight_of_isDue hd) hfile)
    rw [Job.isActive, (Job.isDue_iff.mp hd).1] at hra
    cases hra
  refine (requeue_eq.trans (if_neg (by omega))).trans ?_
  refine update_of_single ht
    (fun j hj => (hasStatus_pickFrom _ j).trans (taken j hj)) (fun _ => rfl) ?_
  have single : (u.change (·.isDue now.cutToMicros) (·.requeued clock.floorToMicros)).OneEach
      Job.isInFlight := ho.change fun r _ hd => ⟨rfl, rfl, fun _ => isInFlight_of_isDue hd⟩
  exact single.of_imp fun j => isInFlight_of_isActive

end Tables

end DocumentPreview
