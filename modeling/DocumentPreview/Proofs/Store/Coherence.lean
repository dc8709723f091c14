import DocumentPreview.Proofs.Store.Budget

namespace DocumentPreview

namespace Job

structure Coherent (j : Job) : Prop where
  completedAt : j.completedAt.isSome ↔ j.status = .completed
  nextRetryAt : j.status ≠ .failed → j.nextRetryAt = none
  startedAt : j.status ≠ .pending → j.startedAt.isSome
  completed : j.status = .completed → j.lastError = none
  failed : j.status = .failed → j.lastError.isSome
  untried : j.status = .pending → j.attempts = 0 → j.lastError = none

variable {k : JobChange} {j j' : Job}

theorem coherent_fresh (id fileId : Uuid) (requestedBy : Option String) (maxAttempts : Int32)
    (clock : Instant) : (fresh id fileId requestedBy maxAttempts clock).Coherent where
  completedAt := by simp [fresh]
  nextRetryAt := fun _ => rfl
  startedAt := by simp [fresh]
  completed := fun _ => rfl
  failed := by simp [fresh]
  untried := fun _ _ => rfl

theorem Coherent.not_completedAt (h : j.Coherent) (hs : j.status ≠ .completed) :
    ¬ j.completedAt.isSome :=
  fun hc => hs (h.completedAt.mp hc)

theorem WithinBudget.attempts_ne_zero (h : j.WithinBudget) (hs : j.status ≠ .pending) :
    j.attempts ≠ 0 := by
  intro hz
  have begun := h.begun hs
  rw [hz] at begun
  exact absurd begun (by decide)

theorem Coherent.turned (h : j.Coherent) (hb : j.WithinBudget) (ht : Turns k j j') :
    j'.Coherent := by
  cases ht with
  | claimed _ now clock hs =>
    have unfinished : ¬ j.completedAt.isSome := h.not_completedAt (by rw [hs]; decide)
    exact ⟨iff_of_false unfinished nofun, fun _ => rfl, fun _ => rfl, nofun, nofun, nofun⟩
  | completed _ now clock hs =>
    have started := h.startedAt (by rw [hs]; decide)
    exact ⟨iff_of_true rfl rfl, fun _ => rfl, fun _ => started, fun _ => rfl, nofun, nofun⟩
  | failed _ error next clock hs =>
    have unfinished : ¬ j.completedAt.isSome := h.not_completedAt (by rw [hs]; decide)
    have started := h.startedAt (by rw [hs]; decide)
    exact ⟨iff_of_false unfinished nofun, fun hf => absurd rfl hf, fun _ => started, nofun,
      fun _ => rfl, nofun⟩
  | reaped _ cutoff now hs =>
    have running := (isStale_iff.mp hs).1
    have unfinished : ¬ j.completedAt.isSome := h.not_completedAt (by rw [running]; decide)
    have started := h.startedAt (by rw [running]; decide)
    exact ⟨iff_of_false unfinished nofun, fun hf => absurd rfl hf, fun _ => started, nofun,
      fun _ => rfl, nofun⟩
  | reset _ clock hs =>
    have unfinished : ¬ j.completedAt.isSome := h.not_completedAt (by rw [hs]; decide)
    exact ⟨iff_of_false unfinished nofun, fun _ => rfl, fun hp => absurd rfl hp, nofun, nofun,
      fun _ _ => rfl⟩
  | requeued _ now hd =>
    have ended : j.status = .failed := (isDue_iff.mp hd).1
    have unfinished : ¬ j.completedAt.isSome := h.not_completedAt (by rw [ended]; decide)
    -- The error of the last attempt stays, but that attempt was counted.
    have tried : j.attempts ≠ 0 := hb.attempts_ne_zero (by rw [ended]; decide)
    exact ⟨iff_of_false unfinished nofun, fun _ => rfl, fun hp => absurd rfl hp, nofun, nofun,
      fun _ hz => absurd hz tried⟩

end Job

namespace MemoryStore

variable {s : MemoryStore} {log : List (Uuid × JobChange)} {clock : Instant} {freshId : Uuid}

theorem coherent_run (hd : s.Distinct) (hb : ∀ j ∈ s.rows, j.WithinBudget)
    (h : ∀ j ∈ s.rows, j.Coherent) (op : StoreOp) :
    ∀ j ∈ (s.run clock freshId op).2.rows, j.Coherent := by
  intro j hj
  by_cases hc : ∃ fileId requestedBy maxAttempts, op = .create fileId requestedBy maxAttempts
  · obtain ⟨fileId, requestedBy, maxAttempts, rfl⟩ := hc
    rcases s.create_cases clock freshId fileId requestedBy maxAttempts with ⟨_, -, he⟩ | ⟨-, he⟩
    · simp only [run, he] at hj
      exact h j hj
    · simp only [run, he] at hj
      rcases mem_put.mp hj with ⟨hj, -⟩ | rfl
      · exact h j hj
      · exact Job.coherent_fresh ..
  · have hop : ∀ fileId requestedBy maxAttempts, op ≠ .create fileId requestedBy maxAttempts :=
      fun _ _ _ he => hc ⟨_, _, _, he⟩
    obtain ⟨r, hr, -, -, -, rfl | ⟨k, -, ht⟩⟩ := origin_of_mem_run hd hop hj
    · exact h j hr
    · exact (h r hr).turned (hb r hr) ht

theorem Logged.withinBudget (h : Logged log s) : ∀ j ∈ s.rows, j.WithinBudget :=
  fun j hj => (h.kept j.id j (get?_self h.distinct hj)).1

theorem Logged.coherent (h : Logged log s) : ∀ j ∈ s.rows, j.Coherent := by
  induction h with
  | empty => exact fun j hj => absurd hj List.not_mem_nil
  | run clock freshId op hs _ ih => exact coherent_run hs.distinct hs.withinBudget ih op
  | reorder _ hp ih => exact fun j hj => ih j (hp.mem_iff.mpr hj)

theorem rows_coherent (h : Logged log s) :
    (∀ j ∈ s.rows, j.Coherent) ∧
    ∀ j ∈ s.rows, j.status = .processing → ∃ started, j.startedAt = some started ∧
      ∀ cutoff now, started < cutoff → j.reaped now now ∈ (s.reapStale cutoff now).1 := by
  have coherent := h.coherent
  refine ⟨coherent, fun j hj hs => ?_⟩
  have begun := (coherent j hj).startedAt (by rw [hs]; decide)
  obtain ⟨started, hstarted⟩ := Option.isSome_iff_exists.mp begun
  refine ⟨started, hstarted, fun cutoff now hlt => ?_⟩
  have stale : j.isStale cutoff := Job.isStale_iff.mpr ⟨hs, started, hstarted, hlt⟩
  exact List.mem_map.mpr ⟨j, List.mem_filter.mpr ⟨hj, stale⟩, rfl⟩

theorem rows_coherent_requeued :
    ∃ log s, Logged log s ∧ s.rows.map (fun j => (j.status, j.attempts, j.lastError.isSome)) =
        [(.pending, 1, true), (.completed, 1, false), (.processing, 1, false)] ∧
      (∀ j ∈ s.rows, j.Coherent) ∧
      ∃ j ∈ s.rows, j.id = .ofNat 3 ∧ ∃ started, j.startedAt = some started ∧
        ∀ cutoff now, started < cutoff → j.reaped now now ∈ (s.reapStale cutoff now).1 := by
  have two_attempts : (1 : Int) ≤ (2 : Int32).toInt := by decide
  have created := Logged.empty.run .epoch (.ofNat 1) (.create (.ofNat 7) none 2) two_attempts
  have claimed := created.run .epoch (.ofNat 2) (.claim (.ofNat 1) .epoch) trivial
  have failed := claimed.run .epoch (.ofNat 2)
    (.recordFailure (.ofNat 1) "Conversion failed" (some .epoch)) trivial
  have requeued := failed.run .epoch (.ofNat 2) (.requeueDue .epoch 500) trivial
  have second := requeued.run .epoch (.ofNat 2) (.create (.ofNat 8) none 2) two_attempts
  have working := second.run .epoch (.ofNat 3) (.claim (.ofNat 2) .epoch) trivial
  have completed := working.run .epoch (.ofNat 3) (.complete (.ofNat 2) .epoch) trivial
  have third := completed.run .epoch (.ofNat 3) (.create (.ofNat 9) none 2) two_attempts
  have last := third.run .epoch (.ofNat 4) (.claim (.ofNat 3) .epoch) trivial
  obtain ⟨coherent, reapable⟩ := rows_coherent last
  refine ⟨_, _, last, by decide +kernel, coherent, ?_⟩
  refine ⟨((Job.fresh (.ofNat 3) (.ofNat 9) none 2 .epoch).claimed .epoch .epoch), ?_, rfl, ?_⟩
  · decide +kernel
  · exact reapable _ (by decide +kernel) rfl

end MemoryStore

end DocumentPreview
