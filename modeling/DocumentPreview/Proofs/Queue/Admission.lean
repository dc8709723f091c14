import DocumentPreview.JobQueue

namespace DocumentPreview.JobQueue

variable {q q' : JobQueue} {id i : Uuid}

structure Faithful (q : JobQueue) : Prop where
  nodup : q.buffer.Nodup
  recorded : ∀ id, id ∈ q.admitted ↔ id ∈ q.buffer

theorem isQueued_iff (h : q.Faithful) : q.isQueued id ↔ id ∈ q.buffer := by
  rw [isQueued, List.contains_iff_mem, h.recorded]

theorem new?_eq_some {capacity : Nat} (h : new? capacity = some q) : q = ⟨capacity, [], []⟩ := by
  unfold new? at h
  split at h
  · cases h
  · exact (Option.some.inj h).symm

theorem faithful_new {capacity : Nat} : (⟨capacity, [], []⟩ : JobQueue).Faithful where
  nodup := .nil
  recorded := fun _ => Iff.rfl

theorem trySend_channel (q : JobQueue) (id : Uuid) : q.channel.trySend id =
    if q.depth < q.capacity then .ok ⟨q.capacity, q.buffer ++ [id], true⟩ else .error .full :=
  rfl

theorem tryAdmit_results (q : JobQueue) (id : Uuid) :
    (q.isQueued id ∧ q.tryAdmit id = (.alreadyQueued, q)) ∨
    (¬ q.isQueued id ∧ q.depth < q.capacity ∧ q.tryAdmit id =
      (.admitted, { q with buffer := q.buffer ++ [id], admitted := id :: q.admitted })) ∨
    (¬ q.isQueued id ∧ q.capacity ≤ q.depth ∧ q.tryAdmit id = (.full, q)) := by
  by_cases hq : q.isQueued id
  · exact .inl ⟨hq, by rw [tryAdmit, if_pos hq]⟩
  · by_cases hd : q.depth < q.capacity
    · exact .inr (.inl ⟨hq, hd, by rw [tryAdmit, if_neg hq, trySend_channel, if_pos hd]⟩)
    · refine .inr (.inr ⟨hq, Nat.not_lt.mp hd, ?_⟩)
      rw [tryAdmit, if_neg hq, trySend_channel, if_neg hd]

theorem tryAdmit_ne_closed (q : JobQueue) (id : Uuid) : (q.tryAdmit id).1 ≠ .closed := by
  rcases tryAdmit_results q id with ⟨-, he⟩ | ⟨-, -, he⟩ | ⟨-, -, he⟩ <;> rw [he] <;> nofun

theorem tryAdmit_cases (h : q.Faithful) (id : Uuid) :
    (id ∈ q.buffer ∧ q.tryAdmit id = (.alreadyQueued, q)) ∨
    (id ∉ q.buffer ∧ q.depth < q.capacity ∧ q.tryAdmit id =
      (.admitted, { q with buffer := q.buffer ++ [id], admitted := id :: q.admitted })) ∨
    (id ∉ q.buffer ∧ q.capacity ≤ q.depth ∧ q.tryAdmit id = (.full, q)) := by
  rw [← isQueued_iff h]
  exact tryAdmit_results q id

theorem Faithful.tryAdmit (h : q.Faithful) (id : Uuid) : (q.tryAdmit id).2.Faithful := by
  rcases tryAdmit_cases h id with ⟨-, he⟩ | ⟨hn, -, he⟩ | ⟨-, -, he⟩
  · rwa [he]
  · rw [he]
    refine ⟨List.nodup_append.mpr ⟨h.nodup, by simp, ?_⟩, fun i => ?_⟩
    · intro a ha b hb hab
      exact hn (List.mem_singleton.mp hb ▸ hab ▸ ha)
    · simp [h.recorded, or_comm]
  · rwa [he]

theorem mem_tryAdmit (h : q.Faithful) (hi : i ∈ (q.tryAdmit id).2.buffer) : i ∈ q.buffer ∨ i = id := by
  rcases tryAdmit_cases h id with ⟨-, he⟩ | ⟨-, -, he⟩ | ⟨-, -, he⟩ <;> rw [he] at hi
  · exact .inl hi
  · simpa using hi
  · exact .inl hi

theorem capacity_tryAdmit : (q.tryAdmit id).2.capacity = q.capacity := by
  rcases tryAdmit_results q id with ⟨-, he⟩ | ⟨-, -, he⟩ | ⟨-, -, he⟩ <;> rw [he]

theorem tryAdmit_of_room (h : q.Faithful) {ids : List Uuid} (hsub : q.buffer ⊆ ids)
    (hid : id ∈ ids) (hc : ids.length ≤ q.capacity) :
    (q.tryAdmit id).1 ≠ .full ∧ id ∈ (q.tryAdmit id).2.buffer ∧
      q.buffer ⊆ (q.tryAdmit id).2.buffer := by
  rcases tryAdmit_cases h id with ⟨hq, he⟩ | ⟨-, -, he⟩ | ⟨hn, hfull, -⟩
  · rw [he]
    exact ⟨by simp, hq, List.Subset.refl _⟩
  · rw [he]
    exact ⟨by simp, by simp, by simp⟩
  · have more : (id :: q.buffer).length ≤ ids.length :=
      (List.nodup_cons.mpr ⟨hn, h.nodup⟩).length_le_of_subset (List.cons_subset.mpr ⟨hid, hsub⟩)
    simp only [List.length_cons, depth] at more hfull
    omega

def admitEach (q : JobQueue) : List Uuid → JobQueue
  | [] => q
  | id :: ids => if (q.tryAdmit id).1 = .full then (q.tryAdmit id).2 else (q.tryAdmit id).2.admitEach ids

theorem admitEach_induction {P : JobQueue → Prop} (h : P q)
    (step : ∀ q id, P q → P (q.tryAdmit id).2) (ids : List Uuid) : P (q.admitEach ids) := by
  induction ids generalizing q with
  | nil => exact h
  | cons id ids ih =>
    rw [admitEach]
    split
    · exact step q id h
    · exact ih (step q id h)

theorem Faithful.admitEach (h : q.Faithful) (ids : List Uuid) : (q.admitEach ids).Faithful :=
  admitEach_induction h (fun _ id hq => hq.tryAdmit id) ids

theorem capacity_admitEach (q : JobQueue) (ids : List Uuid) :
    (q.admitEach ids).capacity = q.capacity :=
  admitEach_induction (P := fun p => p.capacity = q.capacity) rfl
    (fun _ _ hp => capacity_tryAdmit.trans hp) ids

theorem depth_tryAdmit_le (h : q.depth ≤ q.capacity) :
    (q.tryAdmit id).2.depth ≤ (q.tryAdmit id).2.capacity := by
  rcases tryAdmit_results q id with ⟨-, he⟩ | ⟨-, room, he⟩ | ⟨-, -, he⟩ <;> rw [he]
  · exact h
  · exact Nat.le_trans (Nat.le_of_eq List.length_append) room
  · exact h

theorem depth_admitEach_le (h : q.depth ≤ q.capacity) (ids : List Uuid) :
    (q.admitEach ids).depth ≤ (q.admitEach ids).capacity :=
  admitEach_induction (P := fun q => q.depth ≤ q.capacity) h (fun _ _ => depth_tryAdmit_le) ids

theorem isQueued_tryAdmit (h : q.isQueued i) : (q.tryAdmit id).2.isQueued i := by
  rcases tryAdmit_results q id with ⟨-, he⟩ | ⟨-, -, he⟩ | ⟨-, -, he⟩ <;> rw [he]
  · exact h
  · exact List.contains_iff_mem.mpr (.tail _ (List.contains_iff_mem.mp h))
  · exact h

theorem isQueued_admitEach (h : q.isQueued i) (ids : List Uuid) : (q.admitEach ids).isQueued i :=
  admitEach_induction (P := fun q => q.isQueued i) h (fun _ _ => isQueued_tryAdmit) ids

theorem admitEach_split (q : JobQueue) (ids : List Uuid) : ∃ taken left added,
    ids = taken ++ left ∧ (∀ id ∈ taken, (q.admitEach ids).isQueued id) ∧
      (q.admitEach ids).buffer = q.buffer ++ added ∧ added ⊆ taken ∧
      (left ≠ [] → (q.admitEach ids).capacity ≤ (q.admitEach ids).depth) := by
  induction ids generalizing q with
  | nil => exact ⟨[], [], [], by simp [admitEach]⟩
  | cons id ids ih =>
    rcases tryAdmit_results q id with ⟨queued, he⟩ | ⟨-, -, he⟩ | ⟨-, full, he⟩
    · obtain ⟨taken, left, added, split, recorded, buffer, sub, full⟩ := ih q
      rw [admitEach, he, if_neg nofun]
      refine ⟨id :: taken, left, added, congrArg _ split, ?_, buffer, ?_, full⟩
      · exact List.forall_mem_cons.mpr ⟨isQueued_admitEach queued ids, recorded⟩
      · exact List.subset_cons_of_subset _ sub
    · obtain ⟨taken, left, added, split, recorded, buffer, sub, full⟩ :=
        ih { q with buffer := q.buffer ++ [id], admitted := id :: q.admitted }
      rw [admitEach, he, if_neg nofun]
      refine ⟨id :: taken, left, id :: added, congrArg _ split, ?_, ?_, List.cons_subset_cons _ sub,
        full⟩
      · refine List.forall_mem_cons.mpr ⟨isQueued_admitEach ?_ ids, recorded⟩
        exact List.contains_iff_mem.mpr (.head _)
      · rw [buffer, List.append_assoc]
        rfl
    · rw [admitEach, he, if_pos rfl]
      exact ⟨[], id :: ids, [], rfl, nofun, (List.append_nil _).symm, List.Subset.refl _,
        fun _ => full⟩

theorem queued_or_full (q : JobQueue) (ids : List Uuid) :
    (∀ id ∈ ids, (q.admitEach ids).isQueued id) ∨
      (q.admitEach ids).capacity ≤ (q.admitEach ids).depth := by
  obtain ⟨taken, left, added, split, recorded, -, -, full⟩ := q.admitEach_split ids
  cases left with
  | nil => exact .inl (by rwa [split.trans (List.append_nil taken)] at recorded ⊢)
  | cons id left => exact .inr (full (List.cons_ne_nil id left))

theorem depth_le_admitEach (q : JobQueue) (ids : List Uuid) : q.depth ≤ (q.admitEach ids).depth := by
  obtain ⟨-, -, added, -, -, buffer, -⟩ := q.admitEach_split ids
  simp only [depth, buffer, List.length_append, Nat.le_add_right]

theorem admitEach_eq_self {ids : List Uuid}
    (h : (∀ id ∈ ids, q.isQueued id) ∨ q.capacity ≤ q.depth) : q.admitEach ids = q := by
  induction ids with
  | nil => rfl
  | cons id ids ih =>
    rcases tryAdmit_results q id with ⟨-, he⟩ | ⟨new, room, -⟩ | ⟨-, -, he⟩
    · rw [admitEach, he, if_neg nofun]
      exact ih (h.imp_left fun queued i hi => queued i (.tail _ hi))
    · rcases h with queued | full
      · exact absurd (queued id (.head _)) new
      · exact absurd room (Nat.not_lt.mpr full)
    · rw [admitEach, he, if_pos rfl]

theorem admitEach_admitEach (q : JobQueue) (ids : List Uuid) :
    (q.admitEach ids).admitEach ids = q.admitEach ids :=
  admitEach_eq_self (q.queued_or_full ids)

theorem mem_admitEach_of_room {ids all : List Uuid} (h : q.Faithful) (hsub : q.buffer ⊆ all)
    (hids : ids ⊆ all) (hc : all.length ≤ q.capacity) :
    q.buffer ⊆ (q.admitEach ids).buffer ∧ ids ⊆ (q.admitEach ids).buffer := by
  induction ids generalizing q with
  | nil => exact ⟨List.Subset.refl _, List.nil_subset _⟩
  | cons id ids ih =>
    obtain ⟨hid, htail⟩ := List.cons_subset.mp hids
    obtain ⟨hfull, hmem, hgrow⟩ := tryAdmit_of_room h hsub hid hc
    have hsub' : (q.tryAdmit id).2.buffer ⊆ all := by
      intro i hi
      rcases mem_tryAdmit h hi with hi | rfl
      · exact hsub hi
      · exact hid
    have hc' : all.length ≤ (q.tryAdmit id).2.capacity := by rwa [capacity_tryAdmit]
    obtain ⟨hkeep, hrest⟩ := ih (h.tryAdmit id) hsub' htail hc'
    rw [admitEach, if_neg hfull]
    exact ⟨List.Subset.trans hgrow hkeep, List.cons_subset.mpr ⟨hkeep hmem, hrest⟩⟩

theorem dequeue?_eq_some (h : q.dequeue? = some (id, q')) :
    q.buffer = id :: q'.buffer ∧ q'.admitted = q.admitted.filter (· ≠ id) ∧
      q'.capacity = q.capacity := by
  unfold dequeue? at h
  split at h
  · cases h
  · obtain ⟨rfl, rfl⟩ := Prod.mk.inj (Option.some.inj h)
    exact ⟨‹_›, rfl, rfl⟩

theorem dequeue?_eq_none_iff : q.dequeue? = none ↔ q.buffer = [] := by
  unfold dequeue?
  split <;> simp_all

theorem Faithful.dequeue (h : q.Faithful) (hd : q.dequeue? = some (id, q')) : q'.Faithful := by
  obtain ⟨hb, ha, -⟩ := dequeue?_eq_some hd
  have hnd := h.nodup
  rw [hb, List.nodup_cons] at hnd
  refine ⟨hnd.2, fun i => ?_⟩
  rw [ha, List.mem_filter, h.recorded, hb, List.mem_cons, decide_eq_true_iff]
  constructor
  · rintro ⟨rfl | hi, hne⟩
    · exact absurd rfl hne
    · exact hi
  · intro hi
    refine ⟨.inr hi, ?_⟩
    rintro rfl
    exact hnd.1 hi

end DocumentPreview.JobQueue
