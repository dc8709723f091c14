import DocumentPreview.Proofs.Store.Budget
import DocumentPreview.Proofs.Store.Selection

namespace DocumentPreview

namespace Job

structure SameOrigin (j j' : Job) : Prop where
  id : j'.id = j.id
  fileId : j'.fileId = j.fileId
  maxAttempts : j'.maxAttempts = j.maxAttempts
  requestedBy : j'.requestedBy = j.requestedBy
  createdAt : j'.createdAt = j.createdAt

variable {k : JobChange} {j j' : Job}

theorem SameOrigin.refl (j : Job) : j.SameOrigin j :=
  ⟨rfl, rfl, rfl, rfl, rfl⟩

theorem Turns.sameOrigin (h : Turns k j j') : j.SameOrigin j' := by
  cases h <;> exact ⟨rfl, rfl, rfl, rfl, rfl⟩

theorem Turns.not_completed (h : Turns k j j') : j.status ≠ .completed := by
  cases h with
  | claimed _ _ _ hs | completed _ _ _ hs | failed _ _ _ _ hs | reset _ _ hs => simp [hs]
  | requeued _ _ hd => simp [(isDue_iff.mp hd).1]
  | reaped _ _ _ hs => simp [(isStale_iff.mp hs).1]

theorem isExhausted_iff : j.isExhausted ↔ j.status = .failed ∧ ¬ j.hasAttemptsLeft := by
  simp [isExhausted]

theorem Turns.eq_reset (h : Turns k j j') (hx : j.isExhausted) : k = .reset := by
  obtain ⟨failed, spent⟩ := isExhausted_iff.mp hx
  cases h with
  | reset => rfl
  | claimed _ _ _ hs | completed _ _ _ hs | failed _ _ _ _ hs => simp [hs] at failed
  | requeued _ _ hd => exact absurd (isDue_iff.mp hd).2.1 spent
  | reaped _ _ _ hs => simp [(isStale_iff.mp hs).1] at failed

end Job

theorem RowStep.kept {clock : Instant} {changes : List (Uuid × JobChange)} {id : Uuid} {j : Job}
    {after : Option Job} (h : RowStep clock changes id (some j) after) :
    ∃ j', after = some j' ∧ (j' = j ∨ ∃ k, (id, k) ∈ changes ∧ Job.Turns k j j') := by
  cases h with
  | same => exact ⟨j, rfl, .inl rfl⟩
  | turned hk _ ht => exact ⟨_, rfl, .inr ⟨_, hk, ht⟩⟩

namespace MemoryStore

variable {s : MemoryStore} {clock now cutoff : Instant} {freshId id other : Uuid} {j j' : Job}

def Confined (s s' : MemoryStore) : (op : StoreOp) → op.Result → Prop
  | .create .., r => if r.2 then s'.rows = s.rows ++ [r.1] else s' = s
  | .claim id _, r | .complete id _, r | .recordFailure id _ _, r | .reset id, r =>
    (r = none → s' = s) ∧ ∀ other, other ≠ id → s'.get? other = s.get? other
  | .requeueDue .., r | .reapStale .., r =>
    s'.rows.map (·.id) = s.rows.map (·.id) ∧
      ∀ other, other ∉ List.map Job.id r → s'.get? other = s.get? other
  | .get _, _ | .latest _, _ | .pending _, _ | .counts, _ | .ping, _ => s' = s

theorem get?_of_not_changed {k : JobChange} {jobs : List Job} {s' : MemoryStore}
    (h : RowStep clock (StoreOp.changedTo k jobs) other (s.get? other) (s'.get? other))
    (hn : other ∉ jobs.map (·.id)) : s'.get? other = s.get? other := by
  refine h.eq_of_unchanged fun l hl => hn ?_
  obtain ⟨-, j, hj, rfl⟩ := StoreOp.mem_changedTo.mp hl
  exact List.mem_map_of_mem hj

theorem transition_confined {start : JobStatus} {f : Job → Job} (h : s.Distinct)
    (hf : ∀ r, (f r).id = r.id) :
    ((s.transition id start f).1 = none → (s.transition id start f).2 = s) ∧
      ∀ other, other ≠ id → (s.transition id start f).2.get? other = s.get? other := by
  rcases s.transition_cases id start f with ⟨-, he⟩ | ⟨j, hj, -, he⟩
  · rw [he]
    exact ⟨fun _ => rfl, fun _ _ => rfl⟩
  · rw [he]
    exact ⟨nofun, fun other ho => get?_changeRow_of_ne h hf ho⟩

theorem reset_confined (h : s.Distinct) (clock : Instant) (id : Uuid) :
    ((s.reset clock id).1 = none → (s.reset clock id).2 = s) ∧
      ∀ other, other ≠ id → (s.reset clock id).2.get? other = s.get? other := by
  rcases s.reset_cases clock id with ⟨-, he⟩ | ⟨j, hj, -, -, he⟩
  · rw [he]
    exact ⟨fun _ => rfl, fun _ _ => rfl⟩
  · rw [he]
    exact ⟨nofun, fun other ho => get?_changeRow_of_ne h Job.id_restarted ho⟩

theorem run_confined (h : s.Distinct) (hu : s.Unused freshId) (op : StoreOp) :
    s.Confined (s.run clock freshId op).2 op (s.run clock freshId op).1 := by
  cases op with
  | create fileId requestedBy maxAttempts =>
    rcases s.create_cases clock freshId fileId requestedBy maxAttempts with ⟨j, -, he⟩ | ⟨-, he⟩
    · simp [Confined, run, he]
    · simpa [Confined, run, he] using rows_put_of_unused (j := Job.fresh ..) hu
  | claim => exact transition_confined h Job.id_claimed
  | complete => exact transition_confined h Job.id_finished
  | recordFailure => exact transition_confined h Job.id_failedWith
  | reset id => exact reset_confined h clock id
  | requeueDue now limit =>
    refine ⟨ids_requeueEach _, fun other => ?_⟩
    have row : RowStep clock (StoreOp.changedTo .requeued (s.requeueDue now limit).1) other _ _ :=
      requeueDue_row h other
    exact get?_of_not_changed row
  | reapStale cutoff now =>
    refine ⟨ids_change fun _ _ _ => rfl, fun other => ?_⟩
    have row : RowStep clock (StoreOp.changedTo .reaped (s.reapStale cutoff now).1) other _ _ :=
      reapStale_row h other
    exact get?_of_not_changed row
  | get | latest | pending | counts | ping => rfl

theorem reset_of_changed (h : s.Distinct) (hj' : (s.reset clock id).2.get? id = some j')
    (hne : s.get? id ≠ some j') : (s.reset clock id).1 = some j' := by
  rcases s.reset_cases clock id with ⟨-, he⟩ | ⟨j, hj, -, -, he⟩
  · rw [he] at hj'
    exact absurd hj' hne
  · rw [he, get?_changeRow_self h Job.id_restarted hj] at hj'
    rw [he, hj']

structure Preserves (s : MemoryStore) (clock : Instant) (op : StoreOp) (j j' : Job) : Prop where
  origin : j.SameOrigin j'
  completed : j.status = .completed → j' = j
  exhausted : j.isExhausted → j' = j ∨ op = .reset j.id ∧ (s.reset clock j.id).1 = some j'

theorem run_preserves (h : s.Distinct) (hu : s.Unused freshId) (op : StoreOp)
    (hj : s.get? id = some j) :
    ∃ j', (s.run clock freshId op).2.get? id = some j' ∧ s.Preserves clock op j j' := by
  obtain ⟨-, rfl⟩ := mem_of_get? hj
  have hrow : RowStep clock _ j.id _ _ := s.run_row h hu op j.id
  rw [hj] at hrow
  obtain ⟨j', hj', same | ⟨k, hk, ht⟩⟩ := hrow.kept
  · exact ⟨j', hj', same ▸ .refl j, fun _ => same, fun _ => .inl same⟩
  · refine ⟨j', hj', ht.sameOrigin, fun hc => absurd hc ht.not_completed, fun hx => ?_⟩
    obtain rfl := eq_reset_of_mem_changes (ht.eq_reset hx ▸ hk)
    by_cases hsame : j' = j
    · exact .inl hsame
    · refine .inr ⟨rfl, reset_of_changed h hj' fun he => hsame ?_⟩
      exact Option.some.inj (he.symm.trans hj)

theorem history_kept (h : s.Distinct) (hu : s.Unused freshId) (clock : Instant) (op : StoreOp) :
    (∀ id j, s.get? id = some j →
      ∃ j', (s.run clock freshId op).2.get? id = some j' ∧ s.Preserves clock op j j') ∧
    s.Confined (s.run clock freshId op).2 op (s.run clock freshId op).1 :=
  ⟨fun _ _ hj => run_preserves h hu op hj, run_confined h hu op⟩

def disordered : MemoryStore :=
  let job (n : Nat) (status : JobStatus) (attempts : Int32) : Job :=
    { Job.fresh (.ofNat n) (.ofNat (n / 10)) none 2 .epoch with
      status := status, attempts := attempts, nextRetryAt := some .epoch }
  ⟨[job 10 .completed 0, job 20 .failed 2, job 30 .processing 1, job 31 .pending 5,
    job 40 .failed 1]⟩

theorem history_kept_disordered :
    disordered.Distinct ∧ disordered.Unused (.ofNat 50) ∧
      (disordered.requeueDue .epoch 500).1.map (·.id) = [.ofNat 40] ∧
      (∀ id j, disordered.get? id = some j →
        ∃ j', (disordered.requeueDue .epoch 500).2.get? id = some j' ∧
          disordered.Preserves .epoch (.requeueDue .epoch 500) j j') ∧
      disordered.Confined (disordered.requeueDue .epoch 500).2 (.requeueDue .epoch 500)
        (disordered.requeueDue .epoch 500).1 := by
  have distinct : disordered.Distinct := by decide
  have unused : disordered.Unused (.ofNat 50) := by decide
  obtain ⟨kept, confined⟩ := history_kept distinct unused .epoch (.requeueDue .epoch 500)
  exact ⟨distinct, unused, by decide +kernel, kept, confined⟩

end MemoryStore

end DocumentPreview
