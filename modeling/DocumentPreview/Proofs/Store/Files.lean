import DocumentPreview.Proofs.Store.BatchLimit

namespace DocumentPreview

def StoreOp.file? (s : MemoryStore) : StoreOp → Option Uuid
  | create fileId _ _ | latest fileId => some fileId
  | get id | claim id _ | complete id _ | recordFailure id _ _ | reset id =>
    (s.get? id).map (·.fileId)
  | requeueDue .. | pending _ | reapStale .. | counts | ping => none

namespace MemoryStore

variable {s t : MemoryStore} {clock now : Instant} {limit : Int} {id freshId fileId : Uuid}
  {op : StoreOp} {j : Job}

def ofFile (s : MemoryStore) (fileId : Uuid) : MemoryStore :=
  ⟨s.rows.filter (·.fileId = fileId)⟩

theorem mem_ofFile : j ∈ (s.ofFile fileId).rows ↔ j ∈ s.rows ∧ j.fileId = fileId := by
  rw [ofFile, List.mem_filter, decide_eq_true_iff]

theorem ofFile_ofFile : (s.ofFile fileId).ofFile fileId = s.ofFile fileId := by
  simp [ofFile]

theorem Distinct.ofFile (h : s.Distinct) : (s.ofFile fileId).Distinct :=
  h.sublist (List.filter_sublist.map _)

theorem CreatedApart.ofFile (h : s.CreatedApart) : (s.ofFile fileId).CreatedApart :=
  h.sublist (List.filter_sublist.map _)

theorem Unused.ofFile (h : s.Unused id) : (s.ofFile fileId).Unused id := fun j hj =>
  h j (mem_ofFile.mp hj).1

theorem perm_of_ofFile (h : ∀ fileId, s.ofFile fileId = t.ofFile fileId) : s.rows.Perm t.rows := by
  rw [List.perm_iff_count]
  intro j
  have own (u : MemoryStore) : (u.ofFile j.fileId).rows.count j = u.rows.count j :=
    List.count_filter (decide_eq_true rfl)
  rw [← own s, ← own t, h]

theorem get?_ofFile (h : s.Distinct) (hj : s.get? id = some j) (hfile : j.fileId = fileId) :
    (s.ofFile fileId).get? id = some j := by
  obtain ⟨hr, hid⟩ := mem_of_get? hj
  exact (get?_eq_some_iff h.ofFile).mpr ⟨mem_ofFile.mpr ⟨hr, hfile⟩, hid⟩

theorem slotTaken_ofFile {except : Uuid} :
    (s.ofFile fileId).slotTaken fileId except = s.slotTaken fileId except := by
  rw [Bool.eq_iff_iff, slotTaken_iff, slotTaken_iff]
  constructor
  · rintro ⟨r, hr, hid, hfile, ha⟩
    exact ⟨r, (mem_ofFile.mp hr).1, hid, hfile, ha⟩
  · rintro ⟨r, hr, hid, hfile, ha⟩
    exact ⟨r, mem_ofFile.mpr ⟨hr, hfile⟩, hid, hfile, ha⟩

theorem occupied_ofFile : (s.ofFile fileId).Occupied fileId ↔ s.Occupied fileId := by
  constructor
  · rintro ⟨r, hr, hfile, ha⟩
    exact ⟨r, (mem_ofFile.mp hr).1, hfile, ha⟩
  · rintro ⟨r, hr, hfile, ha⟩
    exact ⟨r, mem_ofFile.mpr ⟨hr, hfile⟩, hfile, ha⟩

theorem firstDue_ofFile (hj : j.fileId = fileId) :
    (s.ofFile fileId).FirstDue now j ↔ s.FirstDue now j := by
  subst hj
  constructor
  · rintro ⟨due, free, oldest⟩
    exact ⟨due, mt occupied_ofFile.mpr free, fun d hd hdue hfile =>
      oldest d (mem_ofFile.mpr ⟨hd, hfile⟩) hdue hfile⟩
  · rintro ⟨due, free, oldest⟩
    exact ⟨due, mt occupied_ofFile.mp free, fun d hd => oldest d (mem_ofFile.mp hd).1⟩

theorem inFlight?_ofFile : (s.ofFile fileId).inFlight? fileId = s.inFlight? fileId := by
  simp only [inFlight?, ofFile, List.find?_filter]
  congr 1
  funext r
  by_cases hr : r.fileId = fileId <;> simp [hr]

theorem latest?_ofFile : (s.ofFile fileId).latest? fileId = s.latest? fileId := by
  simp [latest?, ofFile]

section Change

variable {p q : Job → Bool} {f : Job → Job}

theorem ofFile_change (hf : ∀ r, (f r).fileId = r.fileId)
    (hpq : ∀ r ∈ s.rows, r.fileId = fileId → p r = q r) :
    (s.change p f).ofFile fileId = ((s.ofFile fileId).change q f).ofFile fileId := by
  have file (p : Job → Bool) (r : Job) : (if p r then f r else r).fileId = r.fileId := by
    split
    · exact hf r
    · rfl
  have rows (u : MemoryStore) (p : Job → Bool) :
      ((u.change p f).ofFile fileId).rows = ((u.ofFile fileId).change p f).rows := by
    simp only [ofFile, change, List.filter_map]
    exact congrArg _ (List.filter_congr fun r _ => congrArg (decide <| · = fileId) (file p r))
  refine congrArg mk ((rows s p).trans (.trans ?_ (rows _ q).symm))
  rw [ofFile_ofFile]
  refine List.map_congr_left fun r hr => ?_
  obtain ⟨hr, hfile⟩ := mem_ofFile.mp hr
  rw [hpq r hr hfile]

end Change

theorem ofFile_put : (s.put j).ofFile fileId = ((s.ofFile fileId).put j).ofFile fileId := by
  have twice : ((s.ofFile fileId).rows.filter (·.id ≠ j.id)).filter (·.fileId = fileId) =
      (s.rows.filter (·.id ≠ j.id)).filter (·.fileId = fileId) := by
    simp only [ofFile, List.filter_filter]
    refine List.filter_congr fun r _ => ?_
    rw [Bool.and_comm, Bool.and_assoc, Bool.and_self, Bool.and_comm]
  simp only [put, ofFile, List.filter_append] at twice ⊢
  rw [twice]

theorem ofFile_put_of_ne (hu : s.Unused j.id) (hfile : j.fileId ≠ fileId) :
    (s.put j).ofFile fileId = s.ofFile fileId := by
  have none : [j].filter (·.fileId = fileId) = [] :=
    List.filter_cons_of_neg (by simpa using hfile)
  refine congrArg mk ?_
  rw [rows_put_of_unused hu, List.filter_append, none, List.append_nil]

theorem transition_ofFile {start : JobStatus} {f : Job → Job} (h : s.Distinct)
    (hf : ∀ r, (f r).fileId = r.fileId) :
    ((s.ofFile fileId).transition id start f).2.ofFile fileId =
      (s.transition id start f).2.ofFile fileId := by
  rw [transition_eq h, transition_eq h.ofFile]
  exact (ofFile_change hf fun _ _ _ => rfl).symm

theorem reset_ofFile (h : s.Distinct) :
    ((s.ofFile fileId).reset clock id).2.ofFile fileId = (s.reset clock id).2.ofFile fileId := by
  rw [reset_eq h, reset_eq h.ofFile]
  refine (ofFile_change (f := (·.restarted clock)) (fun _ => rfl) fun r _ hfile => ?_).symm
  rw [hfile, slotTaken_ofFile]

theorem length_due_ofFile_le (s : MemoryStore) (now : Instant) (fileId : Uuid) :
    ((s.ofFile fileId).rows.filter (·.isDue now)).length ≤ (s.rows.filter (·.isDue now)).length :=
  (List.filter_sublist.filter _).length_le

theorem requeueDue_ofFile (h : s.Distinct) (ha : s.CreatedApart)
    (hl : (s.rows.filter (·.isDue now)).length ≤ limit.toNat) :
    ((s.ofFile fileId).requeueDue now limit).2.ofFile fileId =
      (s.requeueDue now limit).2.ofFile fileId := by
  rw [requeueDue_eq_firstDue h ha hl, requeueDue_eq_firstDue h.ofFile ha.ofFile
    ((length_due_ofFile_le s now fileId).trans hl)]
  refine (ofFile_change (f := (·.requeued now)) (fun _ => rfl) fun r _ hfile => ?_).symm
  exact decide_eq_decide.mpr (firstDue_ofFile hfile).symm

section Create

variable {requestedBy : Option String} {maxAttempts : Int32} {file : Uuid}

theorem ofFile_create_of_ne (hu : s.Unused freshId) (hfile : file ≠ fileId) :
    (s.create clock freshId file requestedBy maxAttempts).2.ofFile fileId = s.ofFile fileId := by
  rcases s.create_cases clock freshId file requestedBy maxAttempts with ⟨j, -, he⟩ | ⟨-, he⟩
  · rw [he]
  · rw [he]
    exact ofFile_put_of_ne hu hfile

theorem create_ofFile (hu : s.Unused freshId) :
    ((s.ofFile fileId).create clock freshId file requestedBy maxAttempts).2.ofFile fileId =
      (s.create clock freshId file requestedBy maxAttempts).2.ofFile fileId := by
  by_cases hfile : file = fileId
  · subst hfile
    rcases s.create_cases clock freshId file requestedBy maxAttempts with ⟨j, hj, he⟩ | ⟨hn, he⟩
    · rw [he, create, inFlight?_ofFile, hj]
      exact ofFile_ofFile
    · rw [he, create, inFlight?_ofFile, hn]
      exact ofFile_put.symm
  · rw [ofFile_create_of_ne hu hfile, ofFile_create_of_ne hu.ofFile hfile, ofFile_ofFile]

end Create

theorem get?_ofFile_of_ne {other : Uuid} (h : s.Distinct)
    (hf : (s.get? id).map (·.fileId) = some other) (hne : other ≠ fileId) :
    (s.ofFile fileId).get? id = none := by
  obtain ⟨j, hj, rfl⟩ := Option.map_eq_some_iff.mp hf
  obtain ⟨hr, rfl⟩ := mem_of_get? hj
  refine get?_eq_none_iff.mpr fun r hrf hid => hne ?_
  obtain ⟨hrs, hfile⟩ := mem_ofFile.mp hrf
  rw [← hfile, h.eq hrs hr hid]

theorem ofFile_transition_of_none {start : JobStatus} {f : Job → Job} (h : s.Distinct)
    (hf : ∀ r, (f r).fileId = r.fileId) (hn : (s.ofFile fileId).get? id = none) :
    (s.transition id start f).2.ofFile fileId = s.ofFile fileId := by
  rw [← transition_ofFile h hf, transition, hn]
  exact ofFile_ofFile

theorem ofFile_reset_of_none (h : s.Distinct) (hn : (s.ofFile fileId).get? id = none) :
    (s.reset clock id).2.ofFile fileId = s.ofFile fileId := by
  rw [← reset_ofFile h, reset, hn]
  exact ofFile_ofFile

theorem run_ofFile (h : s.Distinct) (hu : s.Unused freshId)
    (hl : ∀ now limit, op = .requeueDue now limit →
      s.CreatedApart ∧ (s.rows.filter (·.isDue now)).length ≤ limit.toNat) :
    ((s.ofFile fileId).run clock freshId op).2.ofFile fileId =
      (s.run clock freshId op).2.ofFile fileId := by
  cases op with
  | create => exact create_ofFile hu
  | claim => exact transition_ofFile h fun _ => rfl
  | complete => exact transition_ofFile h fun _ => rfl
  | recordFailure => exact transition_ofFile h fun _ => rfl
  | reset => exact reset_ofFile h
  | requeueDue now limit =>
    obtain ⟨ha, hl⟩ := hl now limit rfl
    exact requeueDue_ofFile h ha hl
  | reapStale cutoff now =>
    exact (ofFile_change (f := (·.reaped now now)) (fun _ => rfl) fun _ _ _ => rfl).symm
  | get | latest | pending | counts | ping => exact ofFile_ofFile

theorem ofFile_run_of_ne {other : Uuid} (h : s.Distinct) (hu : s.Unused freshId)
    (hop : op.file? s = some other) (hne : other ≠ fileId) :
    (s.run clock freshId op).2.ofFile fileId = s.ofFile fileId := by
  cases op with
  | create => exact ofFile_create_of_ne hu (Option.some.inj hop ▸ hne)
  | claim | complete | recordFailure =>
    exact ofFile_transition_of_none h (fun _ => rfl) (get?_ofFile_of_ne h hop hne)
  | reset => exact ofFile_reset_of_none h (get?_ofFile_of_ne h hop hne)
  | requeueDue | reapStale => cases hop
  | get | latest | pending | counts | ping => rfl

theorem transition_answer_ofFile {start : JobStatus} {f : Job → Job} (h : s.Distinct)
    (hf : (s.get? id).map (·.fileId) = some fileId) :
    ((s.ofFile fileId).transition id start f).1 = (s.transition id start f).1 := by
  obtain ⟨j, hj, hfile⟩ := Option.map_eq_some_iff.mp hf
  simp only [transition, hj, get?_ofFile h hj hfile]
  split <;> rfl

theorem run_answer_ofFile (h : s.Distinct) (hop : op.file? s = some fileId) :
    ((s.ofFile fileId).run clock freshId op).1 = (s.run clock freshId op).1 := by
  cases op with
  | create file requestedBy maxAttempts =>
    obtain rfl : file = fileId := Option.some.inj hop
    simp only [run, create, inFlight?_ofFile]
    split <;> rfl
  | latest file =>
    obtain rfl : file = fileId := Option.some.inj hop
    exact latest?_ofFile
  | get id =>
    obtain ⟨j, hj, hfile⟩ := Option.map_eq_some_iff.mp hop
    exact (get?_ofFile h hj hfile).trans hj.symm
  | claim | complete | recordFailure => exact transition_answer_ofFile h hop
  | reset id =>
    obtain ⟨j, hj, rfl⟩ := Option.map_eq_some_iff.mp hop
    simp only [run, reset, hj, get?_ofFile h hj rfl, slotTaken_ofFile]
    split
    · rfl
    · exact transition_answer_ofFile h hop
  | requeueDue | pending | reapStale | counts | ping => cases hop

theorem file?_of_ofFile_eq (ht : t.Distinct) (he : t.ofFile fileId = s.ofFile fileId)
    (hop : op.file? s = some fileId) : op.file? t = some fileId := by
  have found {id : Uuid} (hid : (s.get? id).map (·.fileId) = some fileId) :
      (t.get? id).map (·.fileId) = some fileId := by
    obtain ⟨j, hj, hfile⟩ := Option.map_eq_some_iff.mp hid
    obtain ⟨hr, hjid⟩ := mem_of_get? hj
    have kept : j ∈ (t.ofFile fileId).rows := he ▸ mem_ofFile.mpr ⟨hr, hfile⟩
    exact Option.map_eq_some_iff.mpr
      ⟨j, (get?_eq_some_iff ht).mpr ⟨(mem_ofFile.mp kept).1, hjid⟩, hfile⟩
  cases op with
  | get | claim | complete | recordFailure | reset => exact found hop
  | _ => exact hop

theorem run_answer_of_ofFile_eq (h : s.Distinct) (ht : t.Distinct)
    (he : t.ofFile fileId = s.ofFile fileId) (hop : op.file? s = some fileId) :
    (t.run clock freshId op).1 = (s.run clock freshId op).1 := by
  rw [← run_answer_ofFile h hop, ← run_answer_ofFile ht (file?_of_ofFile_eq ht he hop), he]

theorem run_of_ofFile_eq {other : Uuid} (h : s.Distinct) (ht : t.Distinct) (hu : s.Unused freshId)
    (hut : t.Unused freshId) (he : t.ofFile fileId = s.ofFile fileId)
    (hop : op.file? s = some other) :
    (t.run clock freshId op).2.ofFile fileId = (s.run clock freshId op).2.ofFile fileId := by
  have single : ∀ now limit, op ≠ .requeueDue now limit := by
    rintro now limit rfl
    cases hop
  rw [← run_ofFile h hu fun now limit he => absurd he (single now limit),
    ← run_ofFile ht hut fun now limit he => absurd he (single now limit), he]

theorem Unused.run (h : s.Distinct) (hu : s.Unused id) (hne : id ≠ freshId) (op : StoreOp) :
    (s.run clock freshId op).2.Unused id := by
  intro j hj
  cases op with
  | create fileId requestedBy maxAttempts =>
    simp only [MemoryStore.run] at hj
    rcases s.create_cases clock freshId fileId requestedBy maxAttempts with ⟨k, -, he⟩ | ⟨-, he⟩
    · rw [he] at hj
      exact hu j hj
    · rw [he] at hj
      rcases mem_put.mp hj with ⟨hj, -⟩ | rfl
      · exact hu j hj
      · exact hne.symm
  | _ =>
    obtain ⟨r, hr, hid, -⟩ := origin_of_mem_run h (by simp) hj
    exact hid ▸ hu r hr

section Pair

variable {a b : StoreOp} {ca cb : Instant} {ia ib f g : Uuid}

theorem run_answer_after (h : s.Distinct) (ha : a.file? s = some f) (hb : b.file? s = some g)
    (hfg : f ≠ g) (hia : s.Unused ia) :
    ((s.run ca ia a).2.run cb ib b).1 = (s.run cb ib b).1 :=
  run_answer_of_ofFile_eq h (h.run a) (ofFile_run_of_ne h hia ha hfg) hb

theorem ofFile_run_run (h : s.Distinct) (ha : a.file? s = some f) (hb : b.file? s = some g)
    (hfg : f ≠ g) (hia : s.Unused ia) (hib : s.Unused ib) (hne : ia ≠ ib) {x : Uuid} (hx : g ≠ x) :
    ((s.run ca ia a).2.run cb ib b).2.ofFile x = ((s.run cb ib b).2.run ca ia a).2.ofFile x := by
  have hb' : b.file? (s.run ca ia a).2 = some g :=
    file?_of_ofFile_eq (h.run a) (ofFile_run_of_ne h hia ha hfg) hb
  calc ((s.run ca ia a).2.run cb ib b).2.ofFile x
      = (s.run ca ia a).2.ofFile x := ofFile_run_of_ne (h.run a) (hib.run h hne.symm a) hb' hx
    _ = ((s.run cb ib b).2.run ca ia a).2.ofFile x :=
      (run_of_ofFile_eq h (h.run b) hia (hia.run h hne b) (ofFile_run_of_ne h hib hb hx) ha).symm

theorem run_run_perm (h : s.Distinct) (ha : a.file? s = some f) (hb : b.file? s = some g)
    (hfg : f ≠ g) (hia : s.Unused ia) (hib : s.Unused ib) (hne : ia ≠ ib) :
    ((s.run ca ia a).2.run cb ib b).2.rows.Perm ((s.run cb ib b).2.run ca ia a).2.rows := by
  refine perm_of_ofFile fun x => ?_
  by_cases hx : g = x
  · exact (ofFile_run_run h hb ha hfg.symm hib hia hne.symm fun hfx => hfg (hfx.trans hx.symm)).symm
  · exact ofFile_run_run h ha hb hfg hia hib hne hx

end Pair

theorem files_independent (h : s.Distinct) (apart : s.CreatedApart) :
    (∀ clock freshId op fileId, s.Unused freshId →
      (∀ now limit, op = .requeueDue now limit →
        (s.rows.filter (·.isDue now)).length ≤ limit.toNat) →
      ((s.ofFile fileId).run clock freshId op).2.ofFile fileId =
        (s.run clock freshId op).2.ofFile fileId ∧
      ∀ other, op.file? s = some other → other ≠ fileId →
        (s.run clock freshId op).2.ofFile fileId = s.ofFile fileId) ∧
    ∀ (a b : StoreOp) (ca cb : Instant) (ia ib f g : Uuid),
      a.file? s = some f → b.file? s = some g → f ≠ g →
      s.Unused ia → s.Unused ib → ia ≠ ib →
      ((s.run ca ia a).2.run cb ib b).1 = (s.run cb ib b).1 ∧
      ((s.run cb ib b).2.run ca ia a).1 = (s.run ca ia a).1 ∧
      ((s.run ca ia a).2.run cb ib b).2.rows.Perm ((s.run cb ib b).2.run ca ia a).2.rows := by
  refine ⟨fun clock freshId op fileId hu hl => ⟨?_, fun other => ofFile_run_of_ne h hu⟩, ?_⟩
  · exact run_ofFile h hu fun now limit hop => ⟨apart, hl now limit hop⟩
  · intro a b ca cb ia ib f g ha hb hfg hia hib hne
    exact ⟨run_answer_after h ha hb hfg hia, run_answer_after h hb ha hfg.symm hib,
      run_run_perm h ha hb hfg hia hib hne⟩

theorem files_independent_occupiedFirst :
    occupiedFirst.Distinct ∧ occupiedFirst.CreatedApart ∧
      ((occupiedFirst.requeueDue retryTime 2).2.ofFile (.ofNat 9)).rows.map (·.status) =
        [.pending] ∧
      ((occupiedFirst.run .epoch (.ofNat 4) (.claim (.ofNat 1) .epoch)).2.run .epoch (.ofNat 5)
          (.reset (.ofNat 3))).2.rows.Perm
        ((occupiedFirst.run .epoch (.ofNat 5) (.reset (.ofNat 3))).2.run .epoch (.ofNat 4)
          (.claim (.ofNat 1) .epoch)).2.rows := by
  have distinct : occupiedFirst.Distinct := by decide
  have apart : occupiedFirst.CreatedApart := by decide
  obtain ⟨alone, pairs⟩ := files_independent distinct apart
  obtain ⟨rows, -⟩ := alone .epoch (.ofNat 4) (.requeueDue retryTime 2) (.ofNat 9) (by decide)
    (by rintro _ _ ⟨⟩; decide)
  obtain ⟨-, -, perm⟩ := pairs (.claim (.ofNat 1) .epoch) (.reset (.ofNat 3)) .epoch .epoch
    (.ofNat 4) (.ofNat 5) (.ofNat 8) (.ofNat 9) (by decide) (by decide) (by decide) (by decide)
    (by decide) (by decide)
  have requeued : (((occupiedFirst.ofFile (.ofNat 9)).requeueDue retryTime 2).2.ofFile
      (.ofNat 9)).rows.map (·.status) = [.pending] := by
    rw [requeueDue_eq_firstDue distinct.ofFile apart.ofFile (by decide)]
    decide
  exact ⟨distinct, apart, (congrArg (·.rows.map (·.status)) rows).symm.trans requeued, perm⟩

end MemoryStore

end DocumentPreview
