import DocumentPreview.Proofs.Store.InFlight

namespace DocumentPreview

def Job.isAt (id : Uuid) (status : JobStatus) (j : Job) : Bool :=
  j.id = id && j.status = status

theorem Job.isAt_iff {id : Uuid} {status : JobStatus} {j : Job} :
    j.isAt id status ↔ j.id = id ∧ j.status = status := by
  simp [isAt]

namespace MemoryStore

variable {s t : MemoryStore} {clock now : Instant} {id : Uuid} {q : Job → Bool} {j : Job}

theorem rows_eq_filterMap (h : s.Distinct) : (s.rows.map (·.id)).filterMap s.get? = s.rows := by
  rw [List.filterMap_map]
  have row : ∀ r ∈ s.rows, (s.get? ∘ (·.id)) r = some r := fun r hr => get?_self h hr
  rw [List.filterMap_congr row, List.filterMap_some]

theorem eq_of_get? (h : s.Distinct) (ht : t.Distinct)
    (hids : t.rows.map (·.id) = s.rows.map (·.id)) (hget : ∀ id, t.get? id = s.get? id) : t = s := by
  have rows : t.rows = s.rows := by
    rw [← rows_eq_filterMap h, ← rows_eq_filterMap ht, hids]
    exact List.filterMap_congr fun id _ => hget id
  exact congrArg MemoryStore.mk rows

theorem filter_eq_singleton (h : s.Distinct) (hj : j ∈ s.rows) (hq : q j)
    (hid : ∀ r ∈ s.rows, q r → r.id = j.id) : s.rows.filter q = [j] := by
  have nodup : (s.rows.filter q).Nodup := (List.Nodup.of_map _ h).filter _
  refine List.perm_singleton.mp ((List.perm_ext_iff_of_nodup nodup (List.nodup_singleton j)).mpr ?_)
  intro r
  rw [List.mem_filter, List.mem_singleton]
  constructor
  · rintro ⟨hr, hqr⟩
    exact h.eq hr hj (hid r hr hqr)
  · rintro rfl
    exact ⟨hj, hq⟩

theorem transition_eq (h : s.Distinct) (id : Uuid) (start : JobStatus) {f : Job → Job} :
    s.transition id start f =
      (((s.rows.filter (·.isAt id start)).map f).head?, s.change (·.isAt id start) f) := by
  rcases s.transition_cases id start f with ⟨hn, he⟩ | ⟨j, hj, hs, he⟩
  · have none : ∀ r ∈ s.rows, ¬ r.isAt id start := fun r hr hat => by
      obtain ⟨rfl, hstart⟩ := Job.isAt_iff.mp hat
      exact hn r (get?_self h hr) hstart
    rw [he, change_eq_self none, List.filter_eq_nil_iff.mpr none]
    rfl
  · obtain ⟨hjr, hid⟩ := mem_of_get? hj
    have only : ∀ r ∈ s.rows, r.isAt id start → r.id = j.id := fun r _ hat =>
      (Job.isAt_iff.mp hat).1.trans hid.symm
    have here : j.isAt id start := Job.isAt_iff.mpr ⟨hid, hs⟩
    rw [he, change_eq_changeRow h hjr here only, filter_eq_singleton h hjr here only, hid]
    rfl

theorem reset_eq (h : s.Distinct) (id : Uuid) :
    s.reset clock id =
      (((s.rows.filter fun j => j.isAt id .failed && !s.slotTaken j.fileId id).map
          (·.restarted clock)).head?,
        s.change (fun j => j.isAt id .failed && !s.slotTaken j.fileId id) (·.restarted clock)) := by
  rcases s.reset_cases clock id with ⟨hn, he⟩ | ⟨j, hj, hs, hfree, he⟩
  · have none : ∀ r ∈ s.rows, ¬ (r.isAt id .failed && !s.slotTaken r.fileId id) := by
      intro r hr hat
      obtain ⟨hat, hopen⟩ := Bool.and_eq_true_iff.mp hat
      obtain ⟨rfl, hf⟩ := Job.isAt_iff.mp hat
      rcases hn r (get?_self h hr) with htaken | hne
      · simp [htaken] at hopen
      · exact hne hf
    rw [he, change_eq_self none, List.filter_eq_nil_iff.mpr none]
    rfl
  · obtain ⟨hjr, hid⟩ := mem_of_get? hj
    have only : ∀ r ∈ s.rows, r.isAt id .failed && !s.slotTaken r.fileId id → r.id = j.id :=
      fun r _ hat => (Job.isAt_iff.mp (Bool.and_eq_true_iff.mp hat).1).1.trans hid.symm
    have here : j.isAt id .failed && !s.slotTaken j.fileId id := by
      simpa [Job.isAt_iff, hid, hs] using hfree
    rw [he, change_eq_changeRow h hjr here only, filter_eq_singleton h hjr here only, hid]
    rfl

theorem requeueEach_all {cs : List Job} (h : s.Distinct) (ho : s.OneEach Job.isInFlight)
    (hc : s.Candidates now cs) : (requeueEach now cs s).1 = cs.map (·.requeued now) := by
  induction cs generalizing s with
  | nil => rfl
  | cons c cs ih =>
    have hrow := hc.row c (.head _)
    have hfl : c.isInFlight := isInFlight_of_isDue (hc.due c (.head _))
    -- The candidate itself is in flight, so no other job of its file can be active.
    have free : ¬ s.slotTaken c.fileId c.id := by
      intro ht
      obtain ⟨r, hr, hne, hfile, ha⟩ := slotTaken_iff.mp ht
      exact hne (ho r hr c (mem_of_get? hrow).1 (isInFlight_of_isActive ha) hfl hfile)
    simp only [requeueEach, if_neg free, List.map_cons]
    rw [ih (h.changeRow Job.id_requeued) (hc.oneInFlight_next h ho) (hc.next h)]

theorem ids_requeueEach (cs : List Job) :
    (requeueEach now cs s).2.rows.map (·.id) = s.rows.map (·.id) := by
  induction cs generalizing s with
  | nil => rfl
  | cons c cs ih =>
    simp only [requeueEach]
    split
    · exact ih
    · exact ih.trans (ids_change fun _ _ _ => rfl)

theorem get?_requeueDue {limit : Int} (h : s.Distinct) (ho : s.OneEach Job.isInFlight)
    (hl : (s.rows.filter (·.isDue now)).length ≤ limit.toNat) (id : Uuid) :
    (s.requeueDue now limit).2.get? id =
      (s.get? id).map fun j => if j.isDue now then j.requeued now else j := by
  have hc := candidates_due h now limit
  have all := requeueEach_all h ho hc
  rcases get?_requeueEach h hc id with ⟨hn, hg⟩ | ⟨c, hcm, rfl, -, hg⟩
  · rw [requeueDue, hg]
    cases hj : s.get? id with
    | none => rfl
    | some j =>
      obtain ⟨hjr, rfl⟩ := mem_of_get? hj
      have hdue : ¬ j.isDue now := by
        intro hd
        have hjc := (mem_oldestFirst_iff hl).mpr (List.mem_filter.mpr ⟨hjr, hd⟩)
        refine hn (j.requeued now) ?_ rfl
        rw [all]
        exact List.mem_map.mpr ⟨j, hjc, rfl⟩
      simp [hdue]
  · rw [requeueDue, hg, hc.row c hcm, Option.map_some, if_pos (hc.due c hcm)]

theorem requeueDue_eq {limit : Int} (h : s.Distinct) (ho : s.OneEach Job.isInFlight)
    (hl : (s.rows.filter (·.isDue now)).length ≤ limit.toNat) :
    s.requeueDue now limit =
      ((oldestFirst (s.rows.filter (·.isDue now)) limit).map (·.requeued now),
        s.change (·.isDue now) (·.requeued now)) := by
  have hc := candidates_due h now limit
  have ids : ∀ r ∈ s.rows, r.isDue now → (r.requeued now).id = r.id := fun _ _ _ => rfl
  refine Prod.ext (requeueEach_all h ho hc) ?_
  refine eq_of_get? (h.change ids) (distinct_requeueEach now h _) ?_ fun id => ?_
  · exact (ids_requeueEach _).trans (ids_change ids).symm
  · rw [get?_requeueDue h ho hl, get?_change h ids]

end MemoryStore

end DocumentPreview
