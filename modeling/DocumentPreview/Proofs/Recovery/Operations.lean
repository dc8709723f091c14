import DocumentPreview.Proofs.Recovery.Rows
import DocumentPreview.Proofs.Store.Selection

namespace DocumentPreview.MemoryStore

variable {s : MemoryStore} {m : Int32} {clock time now cutoff : Instant} {id freshId : Uuid}

def Admits (s : MemoryStore) (time : Instant) (freshId : Uuid) : StoreOp → Prop
  | .create .. => s.Unused freshId ∧ ∀ j ∈ s.rows, j.createdAt ≠ time
  | _ => True

def Heeds (m : Int32) (s : MemoryStore) : StoreOp → Prop
  | .create _ _ maxAttempts => maxAttempts = m
  | .recordFailure id _ next => ∀ j, s.get? id = some j → j.hasAttemptsLeft → next.isSome
  | .reset id => ∀ j, s.get? id = some j → s.Newest j
  | _ => True

namespace Orderly

theorem changeRow {f : Job → Job} {j : Job} (h : s.Orderly m clock) (hj : s.get? id = some j)
    (hf : (f j).id = j.id ∧ (f j).fileId = j.fileId ∧ (f j).createdAt = j.createdAt)
    (hr : (f j).Recoverable m) (hn : (f j).isInFlight → s.Newest j) :
    (s.changeRow id f).Orderly m clock := by
  refine h.change fun r hr' hid => ?_
  have hget : s.get? id = some r := (get?_eq_some_iff h.distinct).mpr ⟨hr', of_decide_eq_true hid⟩
  obtain rfl := Option.some.inj (hget.symm.trans hj)
  exact ⟨hf, hr, hn⟩

theorem transition {start : JobStatus} {f : Job → Job} (h : s.Orderly m clock)
    (hf : ∀ j, (f j).id = j.id ∧ (f j).fileId = j.fileId ∧ (f j).createdAt = j.createdAt)
    (hs : ∀ j, s.get? id = some j → j.status = start →
      (f j).Recoverable m ∧ ((f j).isInFlight → j.isInFlight)) :
    (s.transition id start f).2.Orderly m clock := by
  rcases s.transition_cases id start f with ⟨-, he⟩ | ⟨j, hj, hstart, he⟩
  · rwa [he]
  · rw [he]
    obtain ⟨hr, hn⟩ := hs j hj hstart
    exact h.changeRow hj (hf j) hr fun hfl => h.newest j (mem_of_get? hj).1 (hn hfl)

theorem create {fileId : Uuid} {requestedBy : Option String} (h : s.Orderly m clock)
    (hm : 0 < m.toInt) (hc : clock ≤ time)
    (ha : s.Admits time freshId (.create fileId requestedBy m)) :
    (s.create time freshId fileId requestedBy m).2.Orderly m time := by
  rcases s.create_cases time freshId fileId requestedBy m with ⟨_, _, he⟩ | ⟨hn, he⟩
  · rw [he]
    exact h.later hc
  · rw [he]
    exact h.put (j := Job.fresh freshId fileId requestedBy m time) ha.1 (Job.recoverable_fresh hm)
      (inFlight?_eq_none_iff.mp hn) hc ha.2

theorem reset (h : s.Orderly m clock) (hm : 0 < m.toInt)
    (hn : ∀ j, s.get? id = some j → s.Newest j) : (s.reset time id).2.Orderly m clock := by
  rcases s.reset_cases time id with ⟨-, he⟩ | ⟨j, hj, -, -, he⟩
  · rwa [he]
  · rw [he]
    have hr := h.recoverable j (mem_of_get? hj).1
    exact h.changeRow hj ⟨rfl, rfl, rfl⟩ (hr.restarted hm) fun _ => hn j hj

theorem requeueEach {cs : List Job} (h : s.Orderly m clock) (hc : s.Candidates now cs) :
    (requeueEach now cs s).2.Orderly m clock := by
  induction cs generalizing s with
  | nil => exact h
  | cons c cs ih =>
    simp only [MemoryStore.requeueEach]
    split
    · exact ih h hc.tail
    · have hrow := hc.row c (.head _)
      have hdue := hc.due c (.head _)
      have hmem := (mem_of_get? hrow).1
      refine ih (h.changeRow hrow ⟨rfl, rfl, rfl⟩ ((h.recoverable c hmem).requeued hdue) ?_)
        (hc.next h.distinct)
      exact fun _ => h.newest c hmem (isInFlight_of_isDue hdue)

theorem reapStale (h : s.Orderly m clock) : (s.reapStale cutoff now).2.Orderly m clock := by
  refine h.change fun r hr hstale => ⟨⟨rfl, rfl, rfl⟩, (h.recoverable r hr).reaped, fun _ => ?_⟩
  have active : r.isActive := isActive_iff.mpr (.inr (Job.isStale_iff.mp hstale).1)
  exact h.newest r hr (isInFlight_of_isActive active)

theorem run (h : s.Orderly m clock) (hm : 0 < m.toInt) (hc : clock ≤ time) {op : StoreOp}
    (ha : s.Admits time freshId op) (ho : s.Heeds m op) :
    (s.run time freshId op).2.Orderly m time := by
  cases op with
  | create fileId requestedBy maxAttempts =>
    obtain rfl : maxAttempts = m := ho
    exact h.create hm hc ha
  | claim id now =>
    refine (h.later hc).transition (fun _ => ⟨rfl, rfl, rfl⟩) fun j hj hs => ⟨?_, fun _ => ?_⟩
    · exact (h.recoverable j (mem_of_get? hj).1).claimed hs
    · exact isInFlight_of_isActive (isActive_iff.mpr (.inl hs))
  | complete id now =>
    refine (h.later hc).transition (fun _ => ⟨rfl, rfl, rfl⟩) fun j hj _ => ⟨?_, fun hf => ?_⟩
    · exact (h.recoverable j (mem_of_get? hj).1).finished
    · exact nomatch hf
  | recordFailure id error next =>
    refine (h.later hc).transition (fun _ => ⟨rfl, rfl, rfl⟩) fun j hj hs => ⟨?_, fun _ => ?_⟩
    · exact (h.recoverable j (mem_of_get? hj).1).failedWith (ho j hj)
    · exact isInFlight_of_isActive (isActive_iff.mpr (.inr hs))
  | reset id => exact (h.later hc).reset hm ho
  | requeueDue now limit => exact (h.later hc).requeueEach (candidates_due h.distinct now limit)
  | reapStale cutoff now => exact (h.later hc).reapStale
  | get | latest | pending | counts | ping => exact h.later hc

end Orderly

theorem foldl_newer {jobs : List Job} {best : Option Job} {j : Job}
    (h : jobs.foldl newer best = some j) :
    (j ∈ jobs ∨ best = some j) ∧ (∀ k ∈ jobs, k.createdAt ≤ j.createdAt) ∧
      ∀ b, best = some b → b.createdAt ≤ j.createdAt := by
  induction jobs generalizing best with
  | nil =>
    obtain rfl : best = some j := h
    refine ⟨.inr rfl, fun k hk => absurd hk List.not_mem_nil, ?_⟩
    rintro b ⟨⟩
    exact Int.le_refl _
  | cons k jobs ih =>
    obtain ⟨hmem, hall, hbest⟩ := ih h
    have chosen : ∃ b, newer best k = some b ∧ (b = k ∨ best = some b) ∧
        k.createdAt ≤ b.createdAt ∧ ∀ c, best = some c → c.createdAt ≤ b.createdAt := by
      cases best with
      | none => exact ⟨k, rfl, .inl rfl, Int.le_refl _, fun _ hc => nomatch hc⟩
      | some c =>
        by_cases hck : c.createdAt ≤ k.createdAt
        · refine ⟨k, if_pos hck, .inl rfl, Int.le_refl _, ?_⟩
          rintro _ ⟨⟩
          exact hck
        · refine ⟨c, if_neg hck, .inr rfl, Int.le_of_lt (Int.not_le.mp hck), ?_⟩
          rintro _ ⟨⟩
          exact Int.le_refl _
    obtain ⟨b, hb, hbk, hkb, hcb⟩ := chosen
    have hbj := hbest b hb
    refine ⟨?_, ?_, fun c hc => Instant.le_trans (hcb c hc) hbj⟩
    · rcases hmem with hmem | hmem
      · exact .inl (.tail _ hmem)
      · obtain rfl := Option.some.inj (hb.symm.trans hmem)
        rcases hbk with rfl | hbk
        · exact .inl (.head _)
        · exact .inr hbk
    · intro i hi
      rcases List.mem_cons.mp hi with rfl | hi
      · exact Instant.le_trans hkb hbj
      · exact hall i hi

theorem newest_of_latest? {fileId : Uuid} {j : Job} (h : s.latest? fileId = some j) :
    j ∈ s.rows ∧ j.fileId = fileId ∧ s.Newest j := by
  obtain ⟨hmem, hall, -⟩ := foldl_newer h
  obtain ⟨hj, hf⟩ := List.mem_filter.mp (hmem.resolve_right fun hn => nomatch hn)
  refine ⟨hj, of_decide_eq_true hf, fun k hk hkf => hall k (List.mem_filter.mpr ⟨hk, ?_⟩)⟩
  rw [hkf]
  exact hf

theorem ids_transition {start : JobStatus} {f : Job → Job} (hf : ∀ r, (f r).id = r.id) :
    (s.transition id start f).2.rows.map (·.id) = s.rows.map (·.id) := by
  rcases s.transition_cases id start f with ⟨-, he⟩ | ⟨_, _, _, he⟩
  · rw [he]
  · rw [he]
    exact ids_change fun r _ _ => hf r

theorem ids_reapStale : (s.reapStale cutoff now).2.rows.map (·.id) = s.rows.map (·.id) :=
  ids_change fun _ _ _ => rfl

theorem ids_run {op : StoreOp} (ha : s.Admits time freshId op) :
    s.rows.map (·.id) ⊆ (s.run time freshId op).2.rows.map (·.id) := by
  have same : ∀ {t : MemoryStore}, t.rows.map (·.id) = s.rows.map (·.id) →
      s.rows.map (·.id) ⊆ t.rows.map (·.id) := fun ht => ht ▸ List.Subset.refl _
  cases op with
  | create fileId requestedBy maxAttempts =>
    rcases s.create_cases time freshId fileId requestedBy maxAttempts with ⟨_, _, he⟩ | ⟨-, he⟩
    · simp only [run, he]
      exact List.Subset.refl _
    · simp only [run, he]
      intro i hi
      obtain ⟨j, hj, rfl⟩ := List.mem_map.mp hi
      have hput := (mem_put_of_unused (j := Job.fresh freshId fileId requestedBy maxAttempts time)
        ha.1).mpr (.inl hj)
      exact List.mem_map_of_mem hput
  | claim id now => exact same (ids_transition Job.id_claimed)
  | complete id now => exact same (ids_transition Job.id_finished)
  | recordFailure id error next => exact same (ids_transition Job.id_failedWith)
  | reset id =>
    rcases s.reset_cases time id with ⟨-, he⟩ | ⟨_, _, _, _, he⟩
    · simp only [run, he]
      exact List.Subset.refl _
    · simp only [run, he]
      exact same (ids_change fun _ _ _ => rfl)
  | requeueDue now limit => exact same (ids_requeueEach _)
  | reapStale cutoff now => exact same ids_reapStale
  | get | latest | pending | counts | ping => exact List.Subset.refl _

theorem get?_reapStale (h : s.Distinct) (id : Uuid) : (s.reapStale cutoff now).2.get? id =
    (s.get? id).map fun j => if j.isStale cutoff then j.reaped now now else j :=
  get?_change (f := fun j => j.reaped now now) h (fun _ _ _ => rfl) id

theorem mem_pending {limit : Int} (hl : s.rows.length ≤ limit.toNat) {j : Job} :
    j ∈ s.pending limit ↔ j ∈ s.rows ∧ j.status = .pending := by
  have hlen : (s.rows.filter (·.status = .pending)).length ≤ limit.toNat :=
    Nat.le_trans (List.length_filter_le _ _) hl
  rw [pending, mem_oldestFirst_iff hlen, List.mem_filter, decide_eq_true_iff]

end DocumentPreview.MemoryStore
