import DocumentPreview.Proofs.Store.Order
import DocumentPreview.Proofs.Store.Selection

namespace DocumentPreview.MemoryStore

variable {s : MemoryStore} {now : Instant} {limit : Int} {cs : List Job} {c j : Job} {fileId : Uuid}

def Occupied (s : MemoryStore) (fileId : Uuid) : Prop :=
  ∃ r ∈ s.rows, r.fileId = fileId ∧ r.isActive

instance (s : MemoryStore) (fileId : Uuid) : Decidable (s.Occupied fileId) :=
  inferInstanceAs (Decidable (∃ r ∈ s.rows, r.fileId = fileId ∧ r.isActive))

theorem not_isActive_of_isDue (h : j.isDue now) : ¬ j.isActive := by
  rw [isActive_iff, (Job.isDue_iff.mp h).1]
  simp

theorem occupied_iff_slotTaken (h : s.Distinct) (hj : j ∈ s.rows) (hd : j.isDue now) :
    s.Occupied j.fileId ↔ s.slotTaken j.fileId j.id := by
  rw [slotTaken_iff]
  constructor
  · rintro ⟨r, hr, hfile, ha⟩
    refine ⟨r, hr, fun hid => ?_, hfile, ha⟩
    exact not_isActive_of_isDue hd (h.eq hr hj hid ▸ ha)
  · rintro ⟨r, hr, -, hfile, ha⟩
    exact ⟨r, hr, hfile, ha⟩

theorem occupied_requeued (h : s.Distinct) (hj : s.get? j.id = some j) :
    (s.changeRow j.id (·.requeued now)).Occupied fileId ↔
      s.Occupied fileId ∨ fileId = j.fileId := by
  obtain ⟨hjr, -⟩ := mem_of_get? hj
  constructor
  · rintro ⟨a, ha, hfile, active⟩
    obtain ⟨r, hr, rfl⟩ := mem_changeRow.mp ha
    by_cases hid : r.id = j.id
    · obtain rfl := h.eq hr hjr hid
      rw [if_pos rfl] at hfile
      exact .inr hfile.symm
    · rw [if_neg hid] at hfile active
      exact .inl ⟨r, hr, hfile, active⟩
  · rintro (⟨r, hr, rfl, ha⟩ | rfl)
    · refine ⟨_, mem_changeRow.mpr ⟨r, hr, rfl⟩, ?_⟩
      split
      · exact ⟨rfl, rfl⟩
      · exact ⟨rfl, ha⟩
    · exact ⟨_, mem_changeRow.mpr ⟨j, hjr, rfl⟩, by rw [if_pos rfl]; exact ⟨rfl, rfl⟩⟩

def firstOfFiles : List Job → List Job
  | [] => []
  | c :: cs => c :: (firstOfFiles cs).filter (·.fileId ≠ c.fileId)

theorem firstOfFiles_sublist (cs : List Job) : (firstOfFiles cs).Sublist cs := by
  induction cs with
  | nil => exact .slnil
  | cons c cs ih => exact (List.filter_sublist.trans ih).cons_cons c

theorem mem_of_mem_firstOfFiles (h : j ∈ firstOfFiles cs) : j ∈ cs :=
  (firstOfFiles_sublist cs).subset h

theorem nodup_firstOfFiles (cs : List Job) : ((firstOfFiles cs).map (·.fileId)).Nodup := by
  induction cs with
  | nil => exact .nil
  | cons c cs ih =>
    refine List.nodup_cons.mpr ⟨fun hc => ?_, ih.sublist (List.filter_sublist.map _)⟩
    obtain ⟨d, hd, hdc⟩ := List.mem_map.mp hc
    exact of_decide_eq_true (List.mem_filter.mp hd).2 hdc

theorem firstOfFiles_filter (p : Uuid → Bool) (cs : List Job) :
    firstOfFiles (cs.filter fun j => p j.fileId) = (firstOfFiles cs).filter fun j => p j.fileId := by
  induction cs with
  | nil => rfl
  | cons c cs ih =>
    by_cases hc : p c.fileId
    · rw [List.filter_cons, if_pos hc, firstOfFiles, firstOfFiles, List.filter_cons, if_pos hc, ih,
        List.filter_comm]
    · rw [List.filter_cons, if_neg hc, firstOfFiles, List.filter_cons, if_neg hc, ih,
        List.filter_filter]
      refine List.filter_congr fun j _ => ?_
      by_cases hj : j.fileId = c.fileId
      · simp [hj, hc]
      · simp [hj]

theorem exists_mem_firstOfFiles (h : j ∈ cs) : ∃ d ∈ firstOfFiles cs, d.fileId = j.fileId := by
  induction cs with
  | nil => exact absurd h List.not_mem_nil
  | cons c cs ih =>
    by_cases hc : c.fileId = j.fileId
    · exact ⟨c, .head _, hc⟩
    · rcases List.mem_cons.mp h with rfl | h
      · exact absurd rfl hc
      · obtain ⟨d, hd, hdj⟩ := ih h
        refine ⟨d, .tail _ (List.mem_filter.mpr ⟨hd, ?_⟩), hdj⟩
        rw [hdj]
        exact decide_eq_true (Ne.symm hc)

theorem le_of_mem_firstOfFiles (ho : cs.Pairwise (·.createdAt ≤ ·.createdAt))
    (h : j ∈ firstOfFiles cs) (hc : c ∈ cs) (hfile : c.fileId = j.fileId) :
    j.createdAt ≤ c.createdAt := by
  induction cs with
  | nil => exact absurd hc List.not_mem_nil
  | cons d cs ih =>
    obtain ⟨first, rest⟩ := List.pairwise_cons.mp ho
    rcases List.mem_cons.mp h with rfl | h
    · rcases List.mem_cons.mp hc with rfl | hc
      · exact Int.le_refl _
      · exact first c hc
    · obtain ⟨h, hne⟩ := List.mem_filter.mp h
      rcases List.mem_cons.mp hc with rfl | hc
      · exact absurd hfile.symm (of_decide_eq_true hne)
      · exact ih rest h hc

def dueBatch (s : MemoryStore) (now : Instant) (limit : Int) : List Job :=
  oldestFirst (s.rows.filter (·.isDue now)) limit

def picked (s : MemoryStore) (now : Instant) (limit : Int) : List Job :=
  firstOfFiles ((s.dueBatch now limit).filter fun c => ¬ s.Occupied c.fileId)

theorem requeueEach_eq_first (h : s.Distinct) (hc : s.Candidates now cs) :
    (requeueEach now cs s).1 =
      (firstOfFiles (cs.filter fun c => ¬ s.Occupied c.fileId)).map (·.requeued now) := by
  induction cs generalizing s with
  | nil => rfl
  | cons c cs ih =>
    have row := hc.row c (.head _)
    have slot := occupied_iff_slotTaken h (mem_of_get? row).1 (hc.due c (.head _))
    by_cases taken : s.Occupied c.fileId
    · rw [requeueEach, if_pos (slot.mp taken), ih h hc.tail, List.filter_cons_of_neg (by simpa)]
    · rw [requeueEach, if_neg (mt slot.mpr taken), List.filter_cons_of_pos (by simpa), firstOfFiles,
        List.map_cons]
      have rest := ih (h.changeRow Job.id_requeued) (hc.next h)
      have others : (cs.filter fun d =>
            ¬ (s.changeRow c.id (·.requeued now)).Occupied d.fileId) =
          (cs.filter fun d => ¬ s.Occupied d.fileId).filter fun d => d.fileId ≠ c.fileId := by
        rw [List.filter_filter]
        refine List.filter_congr fun d _ => ?_
        simp [occupied_requeued h row, and_comm]
      rw [others, firstOfFiles_filter fun f => f ≠ c.fileId] at rest
      exact congrArg _ rest

theorem mem_dueBatch (h : j ∈ s.dueBatch now limit) : j ∈ s.rows ∧ j.isDue now :=
  List.mem_filter.mp (mem_oldestFirst h)

theorem mem_picked (h : j ∈ s.picked now limit) :
    j ∈ s.dueBatch now limit ∧ ¬ s.Occupied j.fileId := by
  obtain ⟨hb, hfree⟩ := List.mem_filter.mp (mem_of_mem_firstOfFiles h)
  exact ⟨hb, of_decide_eq_true hfree⟩

theorem requeueDue_eq_picked (h : s.Distinct) (now : Instant) (limit : Int) :
    s.requeueDue now limit =
      ((s.picked now limit).map (·.requeued now),
        s.change (· ∈ s.picked now limit) (·.requeued now)) := by
  have hc := candidates_due h now limit
  have answer : (s.requeueDue now limit).1 = (s.picked now limit).map (·.requeued now) :=
    requeueEach_eq_first h hc
  have ids : ∀ r ∈ s.rows, decide (r ∈ s.picked now limit) → (r.requeued now).id = r.id :=
    fun _ _ _ => rfl
  refine Prod.ext answer (eq_of_get? (h.change ids) (distinct_requeueEach now h _) ?_ fun id => ?_)
  · exact (ids_requeueEach _).trans (ids_change ids).symm
  rw [get?_change h ids]
  rcases get?_requeueEach h hc id with ⟨hn, hg⟩ | ⟨c, hcm, rfl, hr, hg⟩
  · rw [requeueDue, hg]
    cases hj : s.get? id with
    | none => rfl
    | some j =>
      have other : j ∉ s.picked now limit := fun hp =>
        hn (j.requeued now) (answer ▸ List.mem_map_of_mem hp) (mem_of_get? hj).2
      simp [other]
  · obtain ⟨d, hd, hdc⟩ := List.mem_map.mp (answer ▸ hr)
    have same : (d.requeued now).id = (c.requeued now).id := congrArg Job.id hdc
    obtain rfl : d = c :=
      h.eq (mem_dueBatch (mem_picked hd).1).1 (mem_of_get? (hc.row c hcm)).1 same
    rw [requeueDue, hg, hc.row d hcm, Option.map_some, if_pos (decide_eq_true hd)]

theorem CreatedApart.requeueDue (h : s.CreatedApart) (hd : s.Distinct) :
    (s.requeueDue now limit).2.CreatedApart := by
  rw [requeueDue_eq_picked hd]
  exact h.change fun _ => rfl

structure FirstDue (s : MemoryStore) (now : Instant) (j : Job) : Prop where
  due : j.isDue now
  free : ¬ s.Occupied j.fileId
  oldest : ∀ d ∈ s.rows, d.isDue now → d.fileId = j.fileId → j.createdAt ≤ d.createdAt

instance (s : MemoryStore) (now : Instant) (j : Job) : Decidable (s.FirstDue now j) :=
  decidable_of_iff (j.isDue now ∧ ¬ s.Occupied j.fileId ∧
      ∀ d ∈ s.rows, d.isDue now → d.fileId = j.fileId → j.createdAt ≤ d.createdAt)
    ⟨fun ⟨due, free, oldest⟩ => ⟨due, free, oldest⟩, fun h => ⟨h.due, h.free, h.oldest⟩⟩

theorem mem_picked_iff (h : s.CreatedApart)
    (hl : (s.rows.filter (·.isDue now)).length ≤ limit.toNat) (hj : j ∈ s.rows) :
    j ∈ s.picked now limit ↔ s.FirstDue now j := by
  have taken {d : Job} : d ∈ s.dueBatch now limit ↔ d ∈ s.rows ∧ d.isDue now :=
    (mem_oldestFirst_iff hl).trans List.mem_filter
  have sorted : ((s.dueBatch now limit).filter fun c => ¬ s.Occupied c.fileId).Pairwise
      (·.createdAt ≤ ·.createdAt) := (pairwise_oldestFirst _ _).filter _
  constructor
  · intro hp
    obtain ⟨hb, free⟩ := mem_picked hp
    refine ⟨(taken.mp hb).2, free, fun d hd due hfile => le_of_mem_firstOfFiles sorted hp ?_ hfile⟩
    exact List.mem_filter.mpr ⟨taken.mpr ⟨hd, due⟩, decide_eq_true (hfile ▸ free)⟩
  · rintro ⟨due, free, oldest⟩
    have candidate : j ∈ (s.dueBatch now limit).filter fun c => ¬ s.Occupied c.fileId :=
      List.mem_filter.mpr ⟨taken.mpr ⟨hj, due⟩, decide_eq_true free⟩
    obtain ⟨d, hd, hfile⟩ := exists_mem_firstOfFiles candidate
    obtain ⟨hdr, hdd⟩ := taken.mp (mem_picked hd).1
    have later := le_of_mem_firstOfFiles sorted hd candidate hfile.symm
    obtain rfl := h.eq hj hdr (Instant.le_antisymm (oldest d hdr hdd hfile) later)
    exact hd

theorem requeueDue_eq_firstDue (h : s.Distinct) (ha : s.CreatedApart)
    (hl : (s.rows.filter (·.isDue now)).length ≤ limit.toNat) :
    (s.requeueDue now limit).2 = s.change (s.FirstDue now ·) (·.requeued now) := by
  rw [requeueDue_eq_picked h]
  refine congrArg MemoryStore.mk (List.map_congr_left fun r hr => ?_)
  simp only [mem_picked_iff ha hl hr]

theorem existsUnique_firstDue (h : s.CreatedApart) (hj : j ∈ s.rows) (due : j.isDue now)
    (free : ¬ s.Occupied j.fileId) :
    ∃! d, d ∈ s.rows ∧ d.fileId = j.fileId ∧ s.FirstDue now d := by
  have all : (s.rows.filter (·.isDue now)).length ≤
      Int.toNat ((s.rows.filter (·.isDue now)).length : Int) := Nat.le_refl _
  have taken : j ∈ s.dueBatch now _ :=
    (mem_oldestFirst_iff all).mpr (List.mem_filter.mpr ⟨hj, due⟩)
  have candidate : j ∈ (s.dueBatch now _).filter fun c => ¬ s.Occupied c.fileId :=
    List.mem_filter.mpr ⟨taken, decide_eq_true free⟩
  obtain ⟨d, hd, hfile⟩ := exists_mem_firstOfFiles candidate
  have row := (mem_dueBatch (mem_picked hd).1).1
  have first := (mem_picked_iff h all row).mp hd
  refine ⟨d, ⟨row, hfile, first⟩, fun k ⟨hk, hkf, other⟩ => h.eq hk row ?_⟩
  have same : k.fileId = d.fileId := hkf.trans hfile.symm
  exact Instant.le_antisymm (other.oldest d row first.due same.symm)
    (first.oldest k hk other.due same)

end DocumentPreview.MemoryStore
