import DocumentPreview.Proofs.Store.SingleFlight

namespace DocumentPreview.MemoryStore

variable {s : MemoryStore} {clock now : Instant} {freshId : Uuid}

theorem isInFlight_iff {j : Job} : j.isInFlight ↔ j.isActive ∨ j.isAwaitingRetry := by
  simp [Job.isInFlight]

theorem isAwaitingRetry_iff {j : Job} :
    j.isAwaitingRetry ↔ j.status = .failed ∧ j.hasAttemptsLeft ∧ j.nextRetryAt.isSome := by
  simp [Job.isAwaitingRetry, and_assoc]

theorem isAwaitingRetry_of_isDue {j : Job} (h : j.isDue now) : j.isAwaitingRetry := by
  obtain ⟨hs, ha, t, ht, -⟩ := Job.isDue_iff.mp h
  exact isAwaitingRetry_iff.mpr ⟨hs, ha, by simp [ht]⟩

theorem isInFlight_of_isDue {j : Job} (h : j.isDue now) : j.isInFlight :=
  isInFlight_iff.mpr (.inr (isAwaitingRetry_of_isDue h))

theorem isActive_iff {j : Job} : j.isActive ↔ j.status = .pending ∨ j.status = .processing := by
  cases h : j.status <;> simp [Job.isActive, JobStatus.isActive, h]

def Crowds (s : MemoryStore) (op : StoreOp) : Prop :=
  ∃ id j k, op = .reset id ∧ s.get? id = some j ∧ j.status = .failed ∧ ¬ s.slotTaken j.fileId id ∧
    k ∈ s.rows ∧ k.id ≠ id ∧ k.fileId = j.fileId ∧ k.isAwaitingRetry

theorem Candidates.oneInFlight_next {c : Job} {cs : List Job} (h : s.Distinct)
    (ho : s.OneEach Job.isInFlight) (hc : s.Candidates now (c :: cs)) :
    (s.changeRow c.id (·.requeued now)).OneEach Job.isInFlight := by
  refine ho.change fun r hr hrc => ⟨rfl, rfl, fun _ => ?_⟩
  have hrow := hc.row c (.head _)
  rw [← of_decide_eq_true hrc, get?_self h hr] at hrow
  rw [Option.some.inj hrow]
  exact isInFlight_of_isDue (hc.due c (.head _))

theorem oneInFlight_requeueEach {cs : List Job} (h : s.Distinct) (ho : s.OneEach Job.isInFlight)
    (hc : s.Candidates now cs) : (requeueEach now cs s).2.OneEach Job.isInFlight := by
  induction cs generalizing s with
  | nil => exact ho
  | cons c cs ih =>
    simp only [requeueEach]
    split
    · exact ih h ho hc.tail
    · exact ih (h.changeRow Job.id_requeued) (hc.oneInFlight_next h ho) (hc.next h)

theorem oneInFlight_reset_iff {id : Uuid} (h : s.Distinct) (ho : s.OneEach Job.isInFlight) :
    (s.reset clock id).2.OneEach Job.isInFlight ↔ ¬ s.Crowds (.reset id) := by
  rcases s.reset_cases clock id with ⟨hn, he⟩ | ⟨j, hj, hs, ht, he⟩
  · rw [he]
    refine iff_of_true ho ?_
    rintro ⟨_, k, -, ⟨⟩, hk, hf, hfree, -⟩
    rcases hn k hk with htaken | hnf
    · exact hfree htaken
    · exact hnf hf
  · rw [he]
    obtain ⟨hjr, hji⟩ := mem_of_get? hj
    constructor
    · rintro hone ⟨_, i, k, ⟨⟩, hi, -, -, hk, hkid, hkf, hkw⟩
      obtain rfl := Option.some.inj (hj.symm.trans hi)
      have hj' : j.restarted clock ∈ (s.changeRow id (·.restarted clock)).rows :=
        mem_changeRow.mpr ⟨j, hjr, if_pos hji⟩
      have hk' : k ∈ (s.changeRow id (·.restarted clock)).rows :=
        mem_changeRow.mpr ⟨k, hk, if_neg hkid⟩
      have hkj := hone k hk' (j.restarted clock) hj' (isInFlight_iff.mpr (.inr hkw)) rfl hkf
      exact hkid (hkj.trans hji)
    · intro hnc
      refine ho.changeRow h hj rfl fun r hr hrid hrf hrP => ?_
      rcases isInFlight_iff.mp hrP with ha | hw
      · exact free_of_not_slotTaken ht r hr hrid hrf ha
      · exact hnc ⟨id, j, r, rfl, hj, hs, ht, hr, hrid, hrf, hw⟩

theorem oneInFlight_run (h : s.Distinct) (ho : s.OneEach Job.isInFlight) {op : StoreOp}
    (hop : ∀ id, op ≠ .reset id) : (s.run clock freshId op).2.OneEach Job.isInFlight := by
  cases op with
  | reset id => exact absurd rfl (hop id)
  | create fileId requestedBy maxAttempts =>
    rcases s.create_cases clock freshId fileId requestedBy maxAttempts with ⟨j, -, he⟩ | ⟨hn, he⟩
    · simpa only [run, he] using ho
    · simp only [run, he]
      exact ho.put (inFlight?_eq_none_iff.mp hn)
  | claim id now =>
    exact ho.transition Job.id_claimed
      (fun r hr => ⟨rfl, fun _ => isInFlight_of_isActive (isActive_iff.mpr (.inl hr))⟩) h
  | complete id now =>
    exact ho.transition Job.id_finished (fun _ _ => ⟨rfl, fun ha => absurd ha Bool.false_ne_true⟩) h
  | recordFailure id error next =>
    exact ho.transition Job.id_failedWith
      (fun r hr => ⟨rfl, fun _ => isInFlight_of_isActive (isActive_iff.mpr (.inr hr))⟩) h
  | requeueDue now limit => exact oneInFlight_requeueEach h ho (candidates_due h now limit)
  | reapStale cutoff now =>
    exact ho.change fun r _ hr => ⟨rfl, rfl, fun _ =>
      isInFlight_of_isActive (isActive_iff.mpr (.inr (Job.isStale_iff.mp hr).1))⟩
  | get | latest | pending | counts | ping => exact ho

theorem oneInFlight_run_iff (h : s.Distinct) (ho : s.OneEach Job.isInFlight) (op : StoreOp) :
    (s.run clock freshId op).2.OneEach Job.isInFlight ↔ ¬ s.Crowds op := by
  by_cases hr : ∃ id, op = .reset id
  · obtain ⟨id, rfl⟩ := hr
    exact oneInFlight_reset_iff h ho
  · have hop : ∀ id, op ≠ .reset id := fun id hid => hr ⟨id, hid⟩
    exact iff_of_true (oneInFlight_run h ho hop) fun ⟨id, _, _, hid, _⟩ => hop id hid

end DocumentPreview.MemoryStore
