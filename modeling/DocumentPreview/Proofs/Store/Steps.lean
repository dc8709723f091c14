import DocumentPreview.Proofs.Store.Change

namespace DocumentPreview.MemoryStore

variable {s : MemoryStore} {clock now cutoff : Instant} {freshId id : Uuid}

theorem slotTaken_iff {fileId except : Uuid} :
    s.slotTaken fileId except ↔ ∃ r ∈ s.rows, r.id ≠ except ∧ r.fileId = fileId ∧ r.isActive := by
  simp [slotTaken, and_assoc]

theorem inFlight?_eq_none_iff {fileId : Uuid} :
    s.inFlight? fileId = none ↔ ∀ r ∈ s.rows, r.fileId = fileId → ¬ r.isInFlight := by
  simp [inFlight?, List.find?_eq_none]

theorem of_inFlight? {fileId : Uuid} {j : Job} (h : s.inFlight? fileId = some j) :
    j ∈ s.rows ∧ j.fileId = fileId ∧ j.isInFlight := by
  have hp := List.find?_some h
  rw [Bool.and_eq_true, decide_eq_true_iff] at hp
  exact ⟨List.mem_of_find?_eq_some h, hp⟩

theorem inFlight?_put {fileId : Uuid} {j : Job} (hn : s.inFlight? fileId = none)
    (hu : s.Unused j.id) (hj : j.fileId = fileId) (hf : j.isInFlight) :
    (s.put j).inFlight? fileId = some j := by
  rw [inFlight?, rows_put_of_unused hu, List.find?_append]
  rw [inFlight?] at hn
  simp [hn, hj, hf]

theorem create_cases (s : MemoryStore) (clock : Instant) (freshId fileId : Uuid)
    (requestedBy : Option String) (maxAttempts : Int32) :
    (∃ j, s.inFlight? fileId = some j ∧
      s.create clock freshId fileId requestedBy maxAttempts = ((j, false), s)) ∨
    (s.inFlight? fileId = none ∧
      s.create clock freshId fileId requestedBy maxAttempts =
        ((Job.fresh freshId fileId requestedBy maxAttempts clock, true),
          s.put (Job.fresh freshId fileId requestedBy maxAttempts clock))) := by
  cases h : s.inFlight? fileId with
  | none => exact .inr ⟨rfl, by simp only [create, h]⟩
  | some j => exact .inl ⟨j, rfl, by simp only [create, h]⟩

theorem transition_cases (s : MemoryStore) (id : Uuid) (start : JobStatus) (f : Job → Job) :
    ((∀ j, s.get? id = some j → j.status ≠ start) ∧ s.transition id start f = (none, s)) ∨
    (∃ j, s.get? id = some j ∧ j.status = start ∧
      s.transition id start f = (some (f j), s.changeRow id f)) := by
  cases h : s.get? id with
  | none => exact .inl ⟨by simp, by simp only [transition, h]⟩
  | some j =>
    by_cases hs : j.status = start
    · exact .inr ⟨j, rfl, hs, by simp only [transition, h, hs, if_true]⟩
    · refine .inl ⟨?_, by simp only [transition, h, if_neg hs]⟩
      rintro k ⟨⟩
      exact hs

theorem transition_of_get? {j : Job} {start : JobStatus} {f : Job → Job} (hj : s.get? id = some j)
    (hs : j.status = start) : s.transition id start f = (some (f j), s.changeRow id f) := by
  rw [transition, hj]
  exact if_pos hs

theorem reset_cases (s : MemoryStore) (clock : Instant) (id : Uuid) :
    ((∀ j, s.get? id = some j → s.slotTaken j.fileId id ∨ j.status ≠ .failed) ∧
      s.reset clock id = (none, s)) ∨
    (∃ j, s.get? id = some j ∧ j.status = .failed ∧ ¬ s.slotTaken j.fileId id ∧
      s.reset clock id = (some (j.restarted clock), s.changeRow id (·.restarted clock))) := by
  cases h : s.get? id with
  | none => exact .inl ⟨by simp, by simp only [reset, h]⟩
  | some j =>
    by_cases ht : s.slotTaken j.fileId id
    · refine .inl ⟨?_, by simp only [reset, h, if_pos ht]⟩
      rintro k ⟨⟩
      exact .inl ht
    · have hr : s.reset clock id = s.transition id .failed (·.restarted clock) := by
        simp only [reset, h, if_neg ht]
      rw [hr]
      rcases s.transition_cases id .failed (·.restarted clock) with ⟨hn, he⟩ | ⟨k, hk, hf, he⟩
      · exact .inl ⟨by rintro k ⟨⟩; exact .inr (hn j h), he⟩
      · obtain rfl : j = k := Option.some.inj (h.symm.trans hk)
        exact .inr ⟨j, rfl, hf, ht, he⟩

theorem mem_oldestFirst {jobs : List Job} {limit : Int} {j : Job}
    (h : j ∈ oldestFirst jobs limit) : j ∈ jobs :=
  List.mem_mergeSort.mp (List.mem_of_mem_take h)

theorem nodup_oldestFirst {jobs : List Job} (limit : Int) (h : (jobs.map (·.id)).Nodup) :
    ((oldestFirst jobs limit).map (·.id)).Nodup := by
  have hs := ((List.mergeSort_perm jobs fun a b => decide (a.createdAt ≤ b.createdAt)).map
    (·.id)).nodup_iff.mpr h
  exact hs.sublist ((List.take_sublist _ _).map _)

theorem perm_oldestFirst {jobs : List Job} {limit : Int} (h : jobs.length ≤ limit.toNat) :
    (oldestFirst jobs limit).Perm jobs := by
  rw [oldestFirst, List.take_of_length_le (by simpa using h)]
  exact List.mergeSort_perm _ _

theorem mem_oldestFirst_iff {jobs : List Job} {limit : Int} (h : jobs.length ≤ limit.toNat)
    {j : Job} : j ∈ oldestFirst jobs limit ↔ j ∈ jobs :=
  (perm_oldestFirst h).mem_iff

structure Candidates (s : MemoryStore) (now : Instant) (cs : List Job) : Prop where
  nodup : (cs.map (·.id)).Nodup
  row : ∀ c ∈ cs, s.get? c.id = some c
  due : ∀ c ∈ cs, c.isDue now

theorem candidates_due (h : s.Distinct) (now : Instant) (limit : Int) :
    s.Candidates now (oldestFirst (s.rows.filter (·.isDue now)) limit) where
  nodup := nodup_oldestFirst limit (h.sublist ((List.filter_sublist).map _))
  row := fun _ hc => get?_self h (List.mem_filter.mp (mem_oldestFirst hc)).1
  due := fun _ hc => (List.mem_filter.mp (mem_oldestFirst hc)).2

variable {cs : List Job} {c : Job}

theorem Candidates.tail (h : s.Candidates now (c :: cs)) : s.Candidates now cs where
  nodup := (List.nodup_cons.mp h.nodup).2
  row := fun d hd => h.row d (.tail _ hd)
  due := fun d hd => h.due d (.tail _ hd)

theorem Candidates.ne_head (h : s.Candidates now (c :: cs)) {d : Job} (hd : d ∈ cs) :
    d.id ≠ c.id := fun he =>
  (List.nodup_cons.mp h.nodup).1 (List.mem_map.mpr ⟨d, hd, he⟩)

theorem Candidates.next (hs : s.Distinct) (h : s.Candidates now (c :: cs)) :
    (s.changeRow c.id (·.requeued now)).Candidates now cs where
  nodup := h.tail.nodup
  row := fun d hd => by
    rw [get?_changeRow_of_ne hs Job.id_requeued (h.ne_head hd)]
    exact h.tail.row d hd
  due := h.tail.due

theorem distinct_requeueEach (now : Instant) (h : s.Distinct) (cs : List Job) :
    (requeueEach now cs s).2.Distinct := by
  induction cs generalizing s with
  | nil => exact h
  | cons c cs ih =>
    simp only [requeueEach]
    split
    · exact ih h
    · exact ih (h.changeRow Job.id_requeued)

theorem get?_requeueEach_of_not_mem (h : s.Distinct) (hn : ∀ c ∈ cs, c.id ≠ id) :
    (requeueEach now cs s).2.get? id = s.get? id := by
  induction cs generalizing s with
  | nil => rfl
  | cons c cs ih =>
    have hc : id ≠ c.id := (hn c (.head _)).symm
    have ht : ∀ d ∈ cs, d.id ≠ id := fun d hd => hn d (.tail _ hd)
    simp only [requeueEach]
    split
    · exact ih h ht
    · exact (ih (h.changeRow Job.id_requeued) ht).trans
        (get?_changeRow_of_ne h Job.id_requeued hc)

theorem get?_requeueEach (h : s.Distinct) (hc : s.Candidates now cs) (id : Uuid) :
    ((∀ j ∈ (requeueEach now cs s).1, j.id ≠ id) ∧
      (requeueEach now cs s).2.get? id = s.get? id) ∨
    (∃ c ∈ cs, c.id = id ∧ c.requeued now ∈ (requeueEach now cs s).1 ∧
      (requeueEach now cs s).2.get? id = some (c.requeued now)) := by
  induction cs generalizing s with
  | nil => exact .inl ⟨fun j hj => absurd hj List.not_mem_nil, rfl⟩
  | cons c cs ih =>
    simp only [requeueEach]
    split
    · rcases ih h hc.tail with hl | ⟨d, hd, hr⟩
      · exact .inl hl
      · exact .inr ⟨d, .tail _ hd, hr⟩
    · have h' : (s.changeRow c.id (·.requeued now)).Distinct := h.changeRow Job.id_requeued
      by_cases hid : c.id = id
      · refine .inr ⟨c, .head _, hid, .head _, ?_⟩
        subst hid
        rw [get?_requeueEach_of_not_mem h' fun d hd => hc.ne_head hd]
        exact get?_changeRow_self h Job.id_requeued (hc.row c (.head _))
      · rcases ih h' (hc.next h) with ⟨hn, hg⟩ | ⟨d, hd, hdid, hm, hg⟩
        · refine .inl ⟨?_, by rw [hg, get?_changeRow_of_ne h Job.id_requeued (Ne.symm hid)]⟩
          intro j hj
          rcases List.mem_cons.mp hj with rfl | hj
          · exact hid
          · exact hn j hj
        · exact .inr ⟨d, .tail _ hd, hdid, .tail _ hm, hg⟩

theorem changeRow_row {k : JobChange} {j : Job} {f : Job → Job} (h : s.Distinct)
    (hf : ∀ r, (f r).id = r.id) (hj : s.get? id = some j) (hk : Job.Turns k j (f j)) (other : Uuid) :
    RowStep clock (StoreOp.changedTo k [f j]) other (s.get? other)
      ((s.changeRow id f).get? other) := by
  have hid : (f j).id = id := (hf j).trans (mem_of_get? hj).2
  by_cases ho : other = id
  · subst ho
    rw [hj, get?_changeRow_self h hf hj]
    refine .turned (StoreOp.mem_changedTo.mpr ⟨rfl, f j, .head _, hid⟩) ?_ hk
    exact fun l hl => (StoreOp.mem_changedTo.mp hl).1
  · rw [get?_changeRow_of_ne h hf ho]
    refine .same _ fun l hl => ?_
    obtain ⟨-, r, hr, hro⟩ := StoreOp.mem_changedTo.mp hl
    rw [List.mem_singleton.mp hr, hid] at hro
    exact ho hro.symm

theorem transition_row {k : JobChange} {start : JobStatus} {f : Job → Job} (h : s.Distinct)
    (hf : ∀ r, (f r).id = r.id) (hk : ∀ j, j.status = start → Job.Turns k j (f j)) (other : Uuid) :
    RowStep clock (StoreOp.changedTo k (s.transition id start f).1.toList) other (s.get? other)
      ((s.transition id start f).2.get? other) := by
  rcases s.transition_cases id start f with ⟨-, he⟩ | ⟨j, hj, hs, he⟩
  · rw [he]
    exact .same _ fun _ hl => absurd hl List.not_mem_nil
  · rw [he]
    exact changeRow_row h hf hj (hk j hs) other

theorem requeueDue_row {limit : Int} (h : s.Distinct) (other : Uuid) :
    RowStep clock (StoreOp.changedTo .requeued (s.requeueDue now limit).1) other (s.get? other)
      ((s.requeueDue now limit).2.get? other) := by
  have hc := candidates_due h now limit
  rcases get?_requeueEach h hc other with ⟨hn, hg⟩ | ⟨c, hm, rfl, hr, hg⟩
  · rw [requeueDue, hg]
    refine .same _ fun l hl => ?_
    obtain ⟨-, j, hj, hid⟩ := StoreOp.mem_changedTo.mp hl
    exact hn j hj hid
  · rw [requeueDue, hg, hc.row c hm]
    refine .turned (StoreOp.mem_changedTo.mpr ⟨rfl, _, hr, rfl⟩) ?_ (.requeued c now (hc.due c hm))
    exact fun l hl => (StoreOp.mem_changedTo.mp hl).1

theorem reapStale_row (h : s.Distinct) (other : Uuid) :
    RowStep clock (StoreOp.changedTo .reaped (s.reapStale cutoff now).1) other (s.get? other)
      ((s.reapStale cutoff now).2.get? other) := by
  have hf : ∀ r ∈ s.rows, r.isStale cutoff → (r.reaped now now).id = r.id := fun _ _ _ => rfl
  have hm : ∀ l, (other, l) ∈ StoreOp.changedTo .reaped (s.reapStale cutoff now).1 ↔
      l = .reaped ∧ ∃ r ∈ s.rows, r.isStale cutoff ∧ r.id = other := by
    intro l
    simp only [StoreOp.mem_changedTo, reapStale, List.mem_map, List.mem_filter]
    refine and_congr_right fun _ => ⟨?_, ?_⟩
    · rintro ⟨_, ⟨r, ⟨hr, hs⟩, rfl⟩, hid⟩
      exact ⟨r, hr, hs, hid⟩
    · rintro ⟨r, hr, hs, hid⟩
      exact ⟨_, ⟨r, ⟨hr, hs⟩, rfl⟩, hid⟩
  simp only [reapStale] at hm ⊢
  rw [get?_change h hf]
  cases hg : s.get? other with
  | none =>
    refine .same _ fun l hl => ?_
    obtain ⟨-, r, hr, -, hid⟩ := (hm l).mp hl
    exact get?_eq_none_iff.mp hg r hr hid
  | some j =>
    obtain ⟨hj, hjid⟩ := mem_of_get? hg
    by_cases hs : j.isStale cutoff
    · rw [Option.map_some, if_pos hs]
      exact .turned ((hm _).mpr ⟨rfl, j, hj, hs, hjid⟩) (fun l hl => ((hm l).mp hl).1)
        (.reaped j cutoff now hs)
    · rw [Option.map_some, if_neg hs]
      refine .same _ fun l hl => ?_
      obtain ⟨-, r, hr, hrs, hid⟩ := (hm l).mp hl
      exact hs (h.eq hr hj (hid.trans hjid.symm) ▸ hrs)

theorem create_row {fileId : Uuid} {requestedBy : Option String} {maxAttempts : Int32}
    (h : s.Distinct) (hu : s.Unused freshId) (other : Uuid) :
    RowStep clock
      (StoreOp.changes (.create fileId requestedBy maxAttempts)
        (s.create clock freshId fileId requestedBy maxAttempts).1)
      other (s.get? other)
      ((s.create clock freshId fileId requestedBy maxAttempts).2.get? other) := by
  rcases s.create_cases clock freshId fileId requestedBy maxAttempts with ⟨j, -, he⟩ | ⟨-, he⟩
  · rw [he]
    exact .same _ fun _ hl => absurd hl List.not_mem_nil
  · rw [he]
    by_cases ho : other = freshId
    · subst ho
      rw [get?_eq_none_iff.mpr hu]
      exact get?_put_self (j := Job.fresh other fileId requestedBy maxAttempts clock) h ▸
        .created fileId requestedBy maxAttempts rfl
    · rw [get?_put_of_ne h ho]
      refine .same _ fun l hl => ho ?_
      exact (Prod.mk.inj (List.mem_singleton.mp hl)).1

theorem run_row_of_ne_create (h : s.Distinct) {op : StoreOp}
    (hop : ∀ fileId requestedBy maxAttempts, op ≠ .create fileId requestedBy maxAttempts)
    (other : Uuid) :
    RowStep clock (op.changes (s.run clock freshId op).1) other (s.get? other)
      ((s.run clock freshId op).2.get? other) := by
  cases op with
  | create => exact absurd rfl (hop _ _ _)
  | claim id now => exact transition_row h Job.id_claimed (fun j hj => .claimed j now clock hj) other
  | complete id now =>
    exact transition_row h Job.id_finished (fun j hj => .completed j now clock hj) other
  | recordFailure id error next =>
    exact transition_row h Job.id_failedWith (fun j hj => .failed j error next clock hj) other
  | reset id =>
    rcases s.reset_cases clock id with ⟨-, he⟩ | ⟨j, hj, hf, -, he⟩
    · simp only [run, he]
      exact .same _ fun _ hl => absurd hl List.not_mem_nil
    · simp only [run, he]
      exact changeRow_row h Job.id_restarted hj (.reset j clock hf) other
  | requeueDue => exact requeueDue_row h other
  | reapStale => exact reapStale_row h other
  | get | latest | pending | counts | ping => exact .same _ fun _ hl => absurd hl List.not_mem_nil

theorem run_row (h : s.Distinct) (hu : s.Unused freshId) (op : StoreOp) (other : Uuid) :
    RowStep clock (op.changes (s.run clock freshId op).1) other (s.get? other)
      ((s.run clock freshId op).2.get? other) := by
  cases op with
  | create => exact create_row h hu other
  | _ => exact run_row_of_ne_create h (by simp) other

theorem Distinct.transition {start : JobStatus} {f : Job → Job} (h : s.Distinct)
    (hf : ∀ r, (f r).id = r.id) : (s.transition id start f).2.Distinct := by
  rcases s.transition_cases id start f with ⟨-, he⟩ | ⟨_, _, _, he⟩
  · rwa [he]
  · rw [he]
    exact h.changeRow hf

theorem Distinct.run (h : s.Distinct) (op : StoreOp) :
    (s.run clock freshId op).2.Distinct := by
  cases op with
  | create fileId requestedBy maxAttempts =>
    rcases s.create_cases clock freshId fileId requestedBy maxAttempts with ⟨j, -, he⟩ | ⟨-, he⟩
    · simpa only [MemoryStore.run, he] using h
    · simp only [MemoryStore.run, he]
      exact h.put
  | claim => exact h.transition Job.id_claimed
  | complete => exact h.transition Job.id_finished
  | recordFailure => exact h.transition Job.id_failedWith
  | reset id =>
    rcases s.reset_cases clock id with ⟨-, he⟩ | ⟨_, _, _, _, he⟩
    · simpa only [MemoryStore.run, he] using h
    · simp only [MemoryStore.run, he]
      exact h.changeRow Job.id_restarted
  | requeueDue now limit => exact distinct_requeueEach now h _
  | reapStale cutoff now => exact h.change fun _ _ _ => rfl
  | get | latest | pending | counts | ping => exact h

theorem origin_of_mem_run (h : s.Distinct) {op : StoreOp}
    (hop : ∀ fileId requestedBy maxAttempts, op ≠ .create fileId requestedBy maxAttempts) {a : Job}
    (ha : a ∈ (s.run clock freshId op).2.rows) :
    ∃ r ∈ s.rows, r.id = a.id ∧ r.fileId = a.fileId ∧ r.createdAt = a.createdAt ∧
      (a = r ∨ ∃ k, (r.id, k) ∈ op.changes (s.run clock freshId op).1 ∧ Job.Turns k r a) := by
  have hrow : RowStep clock (op.changes (s.run clock freshId op).1) a.id _ _ :=
    s.run_row_of_ne_create h hop a.id
  rw [get?_self (h.run op) ha] at hrow
  generalize hb : s.get? a.id = before at hrow
  generalize hafter : some a = after at hrow
  cases hrow with
  | same =>
    obtain ⟨hr, -⟩ := mem_of_get? (hb.trans hafter.symm)
    exact ⟨a, hr, rfl, rfl, rfl, .inl rfl⟩
  | created _ _ _ hc =>
    have hkind := StoreOp.change?_of_mem_changes (hc ▸ List.mem_singleton_self _)
    cases op with
    | create => exact absurd rfl (hop _ _ _)
    | _ => cases hkind
  | turned hk _ ht =>
    obtain rfl := Option.some.inj hafter
    obtain ⟨hr, hid⟩ := mem_of_get? hb
    exact ⟨_, hr, hid, ht.fileId.symm, ht.createdAt.symm, .inr ⟨_, hid ▸ hk, ht⟩⟩

end DocumentPreview.MemoryStore
