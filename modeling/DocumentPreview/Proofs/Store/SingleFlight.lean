import DocumentPreview.Proofs.Store.Steps

namespace DocumentPreview.MemoryStore

variable {s : MemoryStore} {P : Job → Bool} {p : Job → Bool} {f : Job → Job} {id freshId : Uuid}
  {clock now : Instant}

def OneEach (P : Job → Bool) (s : MemoryStore) : Prop :=
  ∀ a ∈ s.rows, ∀ b ∈ s.rows, P a → P b → a.fileId = b.fileId → a.id = b.id

instance (P : Job → Bool) (s : MemoryStore) : Decidable (s.OneEach P) :=
  inferInstanceAs (Decidable (∀ a ∈ s.rows, ∀ b ∈ s.rows, P a → P b → a.fileId = b.fileId →
    a.id = b.id))

theorem OneEach.change (ho : s.OneEach P)
    (hf : ∀ r ∈ s.rows, p r → (f r).id = r.id ∧ (f r).fileId = r.fileId ∧ (P (f r) → P r)) :
    (s.change p f).OneEach P := by
  have back : ∀ a ∈ (s.change p f).rows, ∃ r ∈ s.rows,
      a.id = r.id ∧ a.fileId = r.fileId ∧ (P a → P r) := by
    intro a ha
    obtain ⟨r, hr, rfl⟩ := mem_change.mp ha
    refine ⟨r, hr, ?_⟩
    split
    · exact hf r hr ‹_›
    · exact ⟨rfl, rfl, id⟩
  intro a ha b hb hPa hPb hfile
  obtain ⟨r, hr, hrid, hrf, hrP⟩ := back a ha
  obtain ⟨q, hq, hqid, hqf, hqP⟩ := back b hb
  rw [hrid, hqid]
  exact ho r hr q hq (hrP hPa) (hqP hPb) (hrf.symm.trans (hfile.trans hqf))

theorem OneEach.changeRow {j : Job} (ho : s.OneEach P) (h : s.Distinct) (hj : s.get? id = some j)
    (hfile : (f j).fileId = j.fileId)
    (hfree : ∀ r ∈ s.rows, r.id ≠ id → r.fileId = j.fileId → ¬ P r) :
    (s.changeRow id f).OneEach P := by
  obtain ⟨hjr, hji⟩ := mem_of_get? hj
  have split_row : ∀ a ∈ (s.changeRow id f).rows, a = f j ∨ a ∈ s.rows ∧ a.id ≠ id := by
    intro a ha
    obtain ⟨r, hr, rfl⟩ := mem_changeRow.mp ha
    split
    · exact .inl (congrArg f (h.eq hr hjr (by rw [hji]; assumption)))
    · exact .inr ⟨hr, ‹_›⟩
  intro a ha b hb hPa hPb hab
  rcases split_row a ha with rfl | ⟨hra, hna⟩ <;> rcases split_row b hb with rfl | ⟨hrb, hnb⟩
  · rfl
  · exact absurd hPb (hfree b hrb hnb (hab.symm.trans hfile))
  · exact absurd hPa (hfree a hra hna (hab.trans hfile))
  · exact ho a hra b hrb hPa hPb hab

theorem OneEach.put {j : Job} (ho : s.OneEach P)
    (hfree : ∀ r ∈ s.rows, r.fileId = j.fileId → ¬ P r) : (s.put j).OneEach P := by
  intro a ha b hb hPa hPb hab
  rcases mem_put.mp ha with ⟨hra, -⟩ | rfl <;> rcases mem_put.mp hb with ⟨hrb, -⟩ | rfl
  · exact ho a hra b hrb hPa hPb hab
  · exact absurd hPa (hfree a hra hab)
  · exact absurd hPb (hfree b hrb hab.symm)
  · rfl

theorem OneEach.perm {t : MemoryStore} (ho : s.OneEach P) (hp : s.rows.Perm t.rows) :
    t.OneEach P := fun a ha b hb =>
  ho a (hp.mem_iff.mpr ha) b (hp.mem_iff.mpr hb)

theorem OneEach.of_imp {Q : Job → Bool} (ho : s.OneEach P) (hQ : ∀ j, Q j → P j) : s.OneEach Q :=
  fun a ha b hb hQa hQb => ho a ha b hb (hQ a hQa) (hQ b hQb)

theorem OneEach.transition {start : JobStatus} (ho : s.OneEach P) (hid : ∀ r, (f r).id = r.id)
    (hf : ∀ r, r.status = start → (f r).fileId = r.fileId ∧ (P (f r) → P r)) (h : s.Distinct) :
    (s.transition id start f).2.OneEach P := by
  rcases s.transition_cases id start f with ⟨-, he⟩ | ⟨j, hj, hs, he⟩
  · rwa [he]
  · rw [he]
    refine ho.change fun r hr hrid => ⟨hid r, ?_⟩
    obtain ⟨hjr, hji⟩ := mem_of_get? hj
    obtain rfl := h.eq hr hjr (hji ▸ of_decide_eq_true hrid)
    exact hf r hs

theorem OneEach.length_le (ho : s.OneEach P) (h : s.Distinct) (fileId : Uuid) :
    (s.rows.filter fun j => j.fileId = fileId && P j).length ≤ 1 := by
  cases hl : s.rows.filter fun j => j.fileId = fileId && P j with
  | nil => exact Nat.zero_le 1
  | cons a l =>
    have hn : (a :: l).Nodup := hl ▸ (List.Nodup.of_map _ h).filter _
    have mem : ∀ b ∈ a :: l, b ∈ s.rows ∧ b.fileId = fileId ∧ P b := by
      intro b hb
      rw [← hl] at hb
      simpa using hb
    have hs : a :: l ⊆ [a] := by
      intro b hb
      obtain ⟨har, haf, haP⟩ := mem a (.head _)
      obtain ⟨hbr, hbf, hbP⟩ := mem b hb
      exact List.mem_singleton.mpr (h.eq hbr har (ho b hbr a har hbP haP (hbf.trans haf.symm)))
    exact hn.length_le_of_subset hs

theorem free_of_not_slotTaken {fileId except : Uuid} (ht : ¬ s.slotTaken fileId except) :
    ∀ r ∈ s.rows, r.id ≠ except → r.fileId = fileId → ¬ r.isActive := fun r hr hne hfile ha =>
  ht (slotTaken_iff.mpr ⟨r, hr, hne, hfile, ha⟩)

theorem isInFlight_of_isActive {j : Job} (h : j.isActive) : j.isInFlight := by
  simp [Job.isInFlight, h]

theorem oneActive_requeueEach {cs : List Job} (h : s.Distinct) (ho : s.OneEach Job.isActive)
    (hc : s.Candidates now cs) : (requeueEach now cs s).2.OneEach Job.isActive := by
  induction cs generalizing s with
  | nil => exact ho
  | cons c cs ih =>
    simp only [requeueEach]
    split
    · exact ih h ho hc.tail
    · exact ih (h.changeRow Job.id_requeued)
        (ho.changeRow h (hc.row c (.head _)) rfl (free_of_not_slotTaken ‹_›))
        (hc.next h)

theorem oneActive_run (h : s.Distinct) (ho : s.OneEach Job.isActive) (op : StoreOp) :
    (s.run clock freshId op).2.OneEach Job.isActive := by
  cases op with
  | create fileId requestedBy maxAttempts =>
    rcases s.create_cases clock freshId fileId requestedBy maxAttempts with ⟨j, -, he⟩ | ⟨hn, he⟩
    · simpa only [run, he] using ho
    · simp only [run, he]
      exact ho.put fun r hr hfile ha =>
        inFlight?_eq_none_iff.mp hn r hr hfile (isInFlight_of_isActive ha)
  | claim id now =>
    exact ho.transition Job.id_claimed
      (fun r hs => ⟨rfl, fun _ => by simp [Job.isActive, hs, JobStatus.isActive]⟩) h
  | complete id now =>
    exact ho.transition Job.id_finished (fun _ _ => ⟨rfl, fun ha => absurd ha Bool.false_ne_true⟩) h
  | recordFailure id error next =>
    exact ho.transition Job.id_failedWith (fun _ _ => ⟨rfl, fun ha => absurd ha Bool.false_ne_true⟩) h
  | reset id =>
    rcases s.reset_cases clock id with ⟨-, he⟩ | ⟨j, hj, -, ht, he⟩
    · simpa only [run, he] using ho
    · simp only [run, he]
      exact ho.changeRow h hj rfl (free_of_not_slotTaken ht)
  | requeueDue now limit => exact oneActive_requeueEach h ho (candidates_due h now limit)
  | reapStale cutoff now => exact ho.change fun _ _ _ => ⟨rfl, rfl, fun ha => absurd ha Bool.false_ne_true⟩
  | get | latest | pending | counts | ping => exact ho

inductive Reaches : MemoryStore → Prop
  | empty : Reaches .empty
  | run {s : MemoryStore} (clock : Instant) (freshId : Uuid) (op : StoreOp) :
      Reaches s → s.Unused freshId → Reaches (s.run clock freshId op).2
  | reorder {s t : MemoryStore} : Reaches s → s.rows.Perm t.rows → Reaches t

theorem Reaches.distinct (h : Reaches s) : s.Distinct := by
  induction h with
  | empty => exact distinct_empty
  | run clock freshId op _ _ ih => exact ih.run op
  | reorder _ hp ih => exact ih.perm hp

theorem Reaches.oneActive (h : Reaches s) : s.OneEach Job.isActive := by
  induction h with
  | empty => exact fun a ha => absurd ha List.not_mem_nil
  | run clock freshId op hs _ ih => exact oneActive_run hs.distinct ih op
  | reorder _ hp ih => exact ih.perm hp

theorem active_jobs_le_one (h : Reaches s) (fileId : Uuid) :
    (s.rows.filter fun j => j.fileId = fileId && j.isActive).length ≤ 1 :=
  h.oneActive.length_le h.distinct fileId

theorem active_jobs_le_one_after_completion :
    ∃ s, Reaches s ∧ s.rows.map (·.status) = [.completed, .pending] ∧
      (s.rows.filter fun j => j.fileId = Uuid.ofNat 9 && j.isActive).length ≤ 1 := by
  have created := Reaches.empty.run .epoch (.ofNat 1)
    (.create (.ofNat 9) none 3) (by decide)
  have claimed := created.run .epoch (.ofNat 2) (.claim (.ofNat 1) .epoch) (by decide)
  have completed := claimed.run .epoch (.ofNat 2) (.complete (.ofNat 1) .epoch)
    (by decide)
  have again := completed.run .epoch (.ofNat 2) (.create (.ofNat 9) none 3) (by decide)
  exact ⟨_, again, by decide, active_jobs_le_one again (.ofNat 9)⟩

end DocumentPreview.MemoryStore
