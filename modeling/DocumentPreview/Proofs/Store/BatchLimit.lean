import DocumentPreview.Proofs.Store.History
import DocumentPreview.Proofs.Store.Requeue
import Mathlib.Data.Finset.Card

namespace DocumentPreview.MemoryStore

variable {s : MemoryStore} {now : Instant} {limit : Int} {cs : List Job} {fileId : Uuid}

def waiting (s : MemoryStore) (now : Instant) : Finset Uuid :=
  ((s.rows.filter fun j => j.isDue now ∧ ¬ s.Occupied j.fileId).map (·.fileId)).toFinset

theorem mem_waiting_iff :
    fileId ∈ s.waiting now ↔ (∃ j ∈ s.rows, j.isDue now ∧ j.fileId = fileId) ∧ ¬ s.Occupied fileId := by
  simp only [waiting, List.mem_toFinset, List.mem_map, List.mem_filter, decide_eq_true_eq]
  constructor
  · rintro ⟨j, ⟨hj, due, free⟩, rfl⟩
    exact ⟨⟨j, hj, due, rfl⟩, free⟩
  · rintro ⟨⟨j, hj, due, rfl⟩, free⟩
    exact ⟨j, ⟨hj, due, free⟩, rfl⟩

theorem length_firstOfFiles (cs : List Job) :
    (firstOfFiles cs).length = (cs.map (·.fileId)).toFinset.card := by
  have files : ((firstOfFiles cs).map (·.fileId)).toFinset = (cs.map (·.fileId)).toFinset := by
    ext f
    simp only [List.mem_toFinset, List.mem_map]
    constructor
    · rintro ⟨d, hd, rfl⟩
      exact ⟨d, mem_of_mem_firstOfFiles hd, rfl⟩
    · rintro ⟨c, hc, rfl⟩
      exact exists_mem_firstOfFiles hc
  rw [← files, List.toFinset_card_of_nodup (nodup_firstOfFiles cs), List.length_map]

def reached (s : MemoryStore) (now : Instant) (limit : Int) : Finset Uuid :=
  (((s.dueBatch now limit).filter fun c => ¬ s.Occupied c.fileId).map (·.fileId)).toFinset

theorem mem_reached_iff : fileId ∈ s.reached now limit ↔
    (∃ c ∈ s.dueBatch now limit, c.fileId = fileId) ∧ ¬ s.Occupied fileId := by
  simp only [reached, List.mem_toFinset, List.mem_map, List.mem_filter, decide_eq_true_eq]
  constructor
  · rintro ⟨c, ⟨hc, free⟩, rfl⟩
    exact ⟨⟨c, hc, rfl⟩, free⟩
  · rintro ⟨⟨c, hc, rfl⟩, free⟩
    exact ⟨c, ⟨hc, free⟩, rfl⟩

theorem length_requeueDue (h : s.Distinct) :
    (s.requeueDue now limit).1.length = (s.reached now limit).card := by
  rw [requeueDue_eq_picked h, List.length_map, picked, length_firstOfFiles, reached]

theorem reached_subset_waiting (s : MemoryStore) (now : Instant) (limit : Int) :
    s.reached now limit ⊆ s.waiting now := by
  intro f hf
  obtain ⟨⟨c, hc, rfl⟩, free⟩ := mem_reached_iff.mp hf
  obtain ⟨hr, due⟩ := mem_dueBatch hc
  exact mem_waiting_iff.mpr ⟨⟨c, hr, due, rfl⟩, free⟩

theorem reached_eq_waiting_iff : s.reached now limit = s.waiting now ↔
    ∀ f ∈ s.waiting now, ∃ c ∈ s.dueBatch now limit, c.fileId = f := by
  constructor
  · intro he f hf
    exact (mem_reached_iff.mp (he ▸ hf)).1
  · intro all
    refine Finset.Subset.antisymm (reached_subset_waiting s now limit) fun f hf => ?_
    exact mem_reached_iff.mpr ⟨all f hf, (mem_waiting_iff.mp hf).2⟩

theorem length_dueBatch_le (s : MemoryStore) (now : Instant) (limit : Int) :
    (s.dueBatch now limit).length ≤ limit.toNat :=
  List.length_take_le _ _

theorem card_reached_le (s : MemoryStore) (now : Instant) (limit : Int) :
    (s.reached now limit).card ≤ (s.dueBatch now limit).length :=
  (List.toFinset_card_le _).trans ((List.length_map _).trans_le (List.length_filter_le _ _))

theorem card_reached_eq_iff : (s.reached now limit).card = (s.dueBatch now limit).length ↔
    ((s.dueBatch now limit).map (·.fileId)).Nodup ∧ ∀ c ∈ s.dueBatch now limit, ¬ s.Occupied c.fileId := by
  have few : (s.reached now limit).card ≤
      ((s.dueBatch now limit).filter fun c => ¬ s.Occupied c.fileId).length :=
    (List.toFinset_card_le _).trans_eq (List.length_map _)
  have taken := List.length_filter_le (fun c => ¬ s.Occupied c.fileId) (s.dueBatch now limit)
  constructor
  · intro he
    have all : ((s.dueBatch now limit).filter fun c => ¬ s.Occupied c.fileId) =
        s.dueBatch now limit := List.filter_sublist.eq_of_length (by omega)
    rw [reached, all, ← List.length_map (·.fileId)] at he
    refine ⟨Multiset.toFinset_card_eq_card_iff_nodup.mp he, fun c hc => ?_⟩
    simpa using List.filter_eq_self.mp all c hc
  · rintro ⟨nodup, free⟩
    rw [reached, List.filter_eq_self.mpr fun c hc => decide_eq_true (free c hc),
      List.toFinset_card_of_nodup nodup, List.length_map]

theorem reached_eq_waiting_of_length_lt (h : (s.dueBatch now limit).length < limit.toNat) :
    s.reached now limit = s.waiting now := by
  have room : (s.rows.filter (·.isDue now)).length ≤ limit.toNat := by
    rw [dueBatch, oldestFirst, List.length_take, List.length_mergeSort] at h
    omega
  refine reached_eq_waiting_iff.mpr fun f hf => ?_
  obtain ⟨⟨j, hj, due, rfl⟩, -⟩ := mem_waiting_iff.mp hf
  exact ⟨j, (mem_oldestFirst_iff room).mpr (List.mem_filter.mpr ⟨hj, due⟩), rfl⟩

theorem card_reached_eq_min_iff : (s.reached now limit).card = min limit.toNat (s.waiting now).card ↔
    s.reached now limit = s.waiting now ∨
      (s.reached now limit).card = (s.dueBatch now limit).length := by
  have fewer := Finset.card_le_card (reached_subset_waiting s now limit)
  have taken := card_reached_le s now limit
  have limited := length_dueBatch_le s now limit
  constructor
  · intro full
    by_cases hw : (s.waiting now).card ≤ limit.toNat
    · exact .inl (Finset.eq_of_subset_of_card_le (reached_subset_waiting s now limit) (by omega))
    · exact .inr (by omega)
  · rintro (all | spent)
    · rw [all] at taken ⊢
      omega
    · rcases Nat.lt_or_ge (s.dueBatch now limit).length limit.toNat with room | full
      · rw [reached_eq_waiting_of_length_lt room] at taken ⊢
        omega
      · omega

theorem of_mem_requeueDue {j : Job} (h : s.Distinct) (hj : j ∈ (s.requeueDue now limit).1) :
    ∃ c ∈ s.rows, c.isDue now ∧ ¬ s.Occupied c.fileId ∧ j = c.requeued now ∧
      (s.requeueDue now limit).2.get? c.id = some j := by
  rw [requeueDue_eq_picked h] at hj ⊢
  obtain ⟨c, hc, rfl⟩ := List.mem_map.mp hj
  obtain ⟨taken, free⟩ := mem_picked hc
  obtain ⟨hr, due⟩ := mem_dueBatch taken
  refine ⟨c, hr, due, free, rfl, ?_⟩
  rw [get?_change (f := fun j => j.requeued now) h fun _ _ _ => rfl, get?_self h hr,
    Option.map_some, if_pos (decide_eq_true hc)]

theorem nodup_files_requeueDue (h : s.Distinct) :
    ((s.requeueDue now limit).1.map (·.fileId)).Nodup := by
  rw [requeueDue_eq_picked h, List.map_map]
  exact nodup_firstOfFiles _

theorem requeueDue_fills_iff (h : Reaches s) (now : Instant) (limit : Int) :
    (∀ j ∈ (s.requeueDue now limit).1, ∃ c ∈ s.rows, c.isDue now ∧ ¬ s.Occupied c.fileId ∧
      j = c.requeued now ∧ (s.requeueDue now limit).2.get? c.id = some j) ∧
    ((s.requeueDue now limit).1.map (·.fileId)).Nodup ∧
    (∀ id ∉ (s.requeueDue now limit).1.map (·.id),
      (s.requeueDue now limit).2.get? id = s.get? id) ∧
    ((s.requeueDue now limit).1.length = min limit.toNat (s.waiting now).card ↔
      (∀ f ∈ s.waiting now, ∃ c ∈ s.dueBatch now limit, c.fileId = f) ∨
        ((s.dueBatch now limit).map (·.fileId)).Nodup ∧
          ∀ c ∈ s.dueBatch now limit, ¬ s.Occupied c.fileId) := by
  have distinct := h.distinct
  refine ⟨fun j => of_mem_requeueDue distinct, nodup_files_requeueDue distinct, fun id hid => ?_, ?_⟩
  · have row : RowStep now (StoreOp.changedTo .requeued (s.requeueDue now limit).1) id _ _ :=
      requeueDue_row distinct id
    exact get?_of_not_changed row hid
  · rw [length_requeueDue distinct, card_reached_eq_min_iff, reached_eq_waiting_iff,
      card_reached_eq_iff]

def retryTime : Instant :=
  { nanos := 3 }

def occupiedFirst : MemoryStore :=
  let job (n file : Nat) (status : JobStatus) (created updated : Instant) : Job :=
    { Job.fresh (.ofNat n) (.ofNat file) none 3 created with
      status := status, startedAt := some .epoch, updatedAt := updated }
  let retried (j : Job) : Job :=
    { j with attempts := 1, lastError := some "no", nextRetryAt := some retryTime }
  ⟨[job 1 8 .pending .epoch { nanos := 1 }, retried (job 2 8 .failed { nanos := 1 } { nanos := 1 }),
    retried (job 3 9 .failed { nanos := 2 } { nanos := 2 })]⟩

theorem reaches_occupiedFirst : Reaches occupiedFirst := by
  have created := Reaches.empty.run .epoch (.ofNat 1) (.create (.ofNat 8) none 3) (by decide)
  have claimed := created.run .epoch (.ofNat 2) (.claim (.ofNat 1) .epoch) (by decide)
  have failed := claimed.run .epoch (.ofNat 2) (.recordFailure (.ofNat 1) "no" none) (by decide)
  have created := failed.run { nanos := 1 } (.ofNat 2) (.create (.ofNat 8) none 3) (by decide)
  have claimed := created.run { nanos := 1 } (.ofNat 3) (.claim (.ofNat 2) .epoch) (by decide)
  have failed := claimed.run { nanos := 1 } (.ofNat 3)
    (.recordFailure (.ofNat 2) "no" (some retryTime)) (by decide)
  have reset := failed.run { nanos := 1 } (.ofNat 3) (.reset (.ofNat 1)) (by decide)
  have created := reset.run { nanos := 2 } (.ofNat 3) (.create (.ofNat 9) none 3) (by decide)
  have claimed := created.run { nanos := 2 } (.ofNat 4) (.claim (.ofNat 3) .epoch) (by decide)
  exact claimed.run { nanos := 2 } (.ofNat 4)
    (.recordFailure (.ofNat 3) "no" (some retryTime)) (by decide)

theorem dueBatch_occupiedFirst : occupiedFirst.dueBatch retryTime limit =
    (occupiedFirst.rows.drop 1).take limit.toNat := by
  have due : occupiedFirst.rows.filter (·.isDue retryTime) = occupiedFirst.rows.drop 1 := by
    decide
  have sorted : (occupiedFirst.rows.drop 1).Pairwise (·.createdAt ≤ ·.createdAt) := by decide
  rw [dueBatch, due, oldestFirst_of_pairwise sorted]

theorem requeueDue_fills_iff_occupiedFirst :
    Reaches occupiedFirst ∧ occupiedFirst.waiting retryTime = {.ofNat 9} ∧
      (occupiedFirst.requeueDue retryTime 2).1.length =
        min (Int.toNat 2) (occupiedFirst.waiting retryTime).card := by
  obtain ⟨-, -, -, fills⟩ := requeueDue_fills_iff reaches_occupiedFirst retryTime 2
  rw [dueBatch_occupiedFirst] at fills
  exact ⟨reaches_occupiedFirst, by decide, fills.mpr (.inl (by decide))⟩

theorem not_requeueDue_fills :
    ¬ ∀ s, Reaches s → ∀ (now : Instant) (limit : Int), 1 ≤ limit →
      (s.requeueDue now limit).1.length = min limit.toNat (s.waiting now).card := by
  intro fills
  have full := fills occupiedFirst reaches_occupiedFirst retryTime 1 (by decide)
  rw [length_requeueDue reaches_occupiedFirst.distinct, reached, dueBatch_occupiedFirst] at full
  exact absurd full (by decide)

end DocumentPreview.MemoryStore
