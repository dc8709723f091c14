import DocumentPreview.Store.Memory
import Mathlib.Data.List.Nodup

namespace DocumentPreview.MemoryStore

variable {s : MemoryStore} {id : Uuid} {j a b : Job}

def Distinct (s : MemoryStore) : Prop :=
  (s.rows.map (·.id)).Nodup

instance (s : MemoryStore) : Decidable s.Distinct :=
  inferInstanceAs (Decidable (List.Nodup _))

def Unused (s : MemoryStore) (id : Uuid) : Prop :=
  ∀ j ∈ s.rows, j.id ≠ id

instance (s : MemoryStore) (id : Uuid) : Decidable (s.Unused id) :=
  inferInstanceAs (Decidable (∀ j ∈ s.rows, j.id ≠ id))

theorem distinct_empty : empty.Distinct := by
  simp [Distinct, empty]

theorem Distinct.eq (h : s.Distinct) (ha : a ∈ s.rows) (hb : b ∈ s.rows) (hid : a.id = b.id) :
    a = b :=
  List.inj_on_of_nodup_map h ha hb hid

theorem Distinct.perm {t : MemoryStore} (h : s.Distinct) (hp : s.rows.Perm t.rows) :
    t.Distinct :=
  (hp.map _).nodup_iff.mp h

theorem mem_of_get? (h : s.get? id = some j) : j ∈ s.rows ∧ j.id = id := by
  refine ⟨List.mem_of_find?_eq_some h, ?_⟩
  simpa using List.find?_some h

theorem get?_eq_none_iff : s.get? id = none ↔ s.Unused id := by
  simp [get?, Unused, List.find?_eq_none]

theorem get?_eq_some_iff (h : s.Distinct) : s.get? id = some j ↔ j ∈ s.rows ∧ j.id = id := by
  refine ⟨mem_of_get?, ?_⟩
  rintro ⟨hj, rfl⟩
  cases hf : s.get? j.id with
  | none => exact absurd rfl (get?_eq_none_iff.mp hf j hj)
  | some k =>
    obtain ⟨hk, hid⟩ := mem_of_get? hf
    rw [h.eq hk hj hid]

theorem get?_self (h : s.Distinct) (hj : j ∈ s.rows) : s.get? j.id = some j :=
  (get?_eq_some_iff h).mpr ⟨hj, rfl⟩

theorem get?_perm {t : MemoryStore} (h : s.Distinct) (hp : s.rows.Perm t.rows) (id : Uuid) :
    t.get? id = s.get? id := by
  apply Option.ext
  intro j
  rw [get?_eq_some_iff (h.perm hp), get?_eq_some_iff h, hp.mem_iff]

theorem exists_get?_of_ids {t : MemoryStore} (h : s.Distinct)
    (hids : t.rows.map (·.id) = s.rows.map (·.id)) (hj : j ∈ t.rows) :
    ∃ k, s.get? j.id = some k := by
  have listed : j.id ∈ s.rows.map (·.id) := hids ▸ List.mem_map_of_mem hj
  obtain ⟨k, hk, hkj⟩ := List.mem_map.mp listed
  exact ⟨k, (get?_eq_some_iff h).mpr ⟨hk, hkj⟩⟩

theorem length_of_ids {t : MemoryStore} (hids : t.rows.map (·.id) = s.rows.map (·.id)) :
    t.rows.length = s.rows.length := by
  simpa using congrArg List.length hids

section Change

variable {p : Job → Bool} {f : Job → Job}

theorem mem_change : j ∈ (s.change p f).rows ↔ ∃ r ∈ s.rows, (if p r then f r else r) = j := by
  simp only [change, List.mem_map]

theorem id_change (hf : ∀ r ∈ s.rows, p r → (f r).id = r.id) {r : Job} (hr : r ∈ s.rows) :
    (if p r then f r else r).id = r.id := by
  split
  · exact hf r hr ‹_›
  · rfl

theorem ids_change (hf : ∀ r ∈ s.rows, p r → (f r).id = r.id) :
    (s.change p f).rows.map (·.id) = s.rows.map (·.id) := by
  simp only [change, List.map_map]
  exact List.map_congr_left fun r hr => id_change hf hr

theorem Distinct.change (h : s.Distinct) (hf : ∀ r ∈ s.rows, p r → (f r).id = r.id) :
    (s.change p f).Distinct := by
  rw [Distinct, ids_change hf]
  exact h

theorem get?_change (h : s.Distinct) (hf : ∀ r ∈ s.rows, p r → (f r).id = r.id) (id : Uuid) :
    (s.change p f).get? id = (s.get? id).map fun r => if p r then f r else r := by
  cases hg : s.get? id with
  | none =>
    rw [get?_eq_none_iff] at hg
    refine get?_eq_none_iff.mpr fun j hj => ?_
    obtain ⟨r, hr, rfl⟩ := mem_change.mp hj
    rw [id_change hf hr]
    exact hg r hr
  | some r =>
    obtain ⟨hr, rfl⟩ := mem_of_get? hg
    exact (get?_eq_some_iff (h.change hf)).mpr ⟨mem_change.mpr ⟨r, hr, rfl⟩, id_change hf hr⟩

end Change

section ChangeRow

variable {f : Job → Job}

theorem mem_changeRow :
    j ∈ (s.changeRow id f).rows ↔ ∃ r ∈ s.rows, (if r.id = id then f r else r) = j := by
  simp only [changeRow, mem_change, decide_eq_true_eq]

theorem Distinct.changeRow (h : s.Distinct) (hf : ∀ r, (f r).id = r.id) :
    (s.changeRow id f).Distinct :=
  h.change fun r _ _ => hf r

theorem get?_changeRow_self (h : s.Distinct) (hf : ∀ r, (f r).id = r.id) (hg : s.get? id = some j) :
    (s.changeRow id f).get? id = some (f j) := by
  rw [changeRow, get?_change h fun r _ _ => hf r, hg]
  simp [(mem_of_get? hg).2]

theorem get?_changeRow_of_ne (h : s.Distinct) (hf : ∀ r, (f r).id = r.id) {other : Uuid}
    (hne : other ≠ id) : (s.changeRow id f).get? other = s.get? other := by
  rw [changeRow, get?_change h fun r _ _ => hf r]
  cases hg : s.get? other with
  | none => rfl
  | some r => simp [(mem_of_get? hg).2, hne]

theorem changeRow_changeRow {g : Job → Job} (hf : ∀ r, (f r).id = r.id) :
    (s.changeRow id f).changeRow id g = s.changeRow id fun r => g (f r) := by
  simp only [changeRow, change, List.map_map, mk.injEq]
  refine List.map_congr_left fun r _ => ?_
  by_cases hr : r.id = id <;> simp [hr, hf]

theorem change_eq_changeRow {p : Job → Bool} (h : s.Distinct) (hj : j ∈ s.rows) (hp : p j)
    (hid : ∀ r ∈ s.rows, p r → r.id = j.id) : s.change p f = s.changeRow j.id f := by
  refine congrArg MemoryStore.mk (List.map_congr_left fun r hr => ?_)
  have same : p r = decide (r.id = j.id) := by
    rw [Bool.eq_iff_iff, decide_eq_true_iff]
    exact ⟨hid r hr, fun hrid => h.eq hr hj hrid ▸ hp⟩
  dsimp only
  rw [same]

theorem change_eq_self {p : Job → Bool} (hp : ∀ r ∈ s.rows, ¬ p r) : s.change p f = s := by
  have same : s.rows.map (fun r => if p r then f r else r) = s.rows.map id :=
    List.map_congr_left fun r hr => if_neg (hp r hr)
  exact congrArg MemoryStore.mk (same.trans (List.map_id _))

end ChangeRow

theorem mem_put : a ∈ (s.put j).rows ↔ (a ∈ s.rows ∧ a.id ≠ j.id) ∨ a = j := by
  simp [put]

theorem rows_put_of_unused (hu : s.Unused j.id) : (s.put j).rows = s.rows ++ [j] :=
  congrArg (· ++ [j]) (List.filter_eq_self.mpr fun r hr => decide_eq_true (hu r hr))

theorem mem_put_of_unused (hu : s.Unused j.id) : a ∈ (s.put j).rows ↔ a ∈ s.rows ∨ a = j := by
  rw [mem_put]
  exact or_congr_left ⟨And.left, fun ha => ⟨ha, hu a ha⟩⟩

theorem Distinct.put (h : s.Distinct) : (s.put j).Distinct := by
  simp only [Distinct, MemoryStore.put, List.map_append, List.map_cons, List.map_nil]
  refine List.nodup_append.mpr ⟨h.sublist (List.filter_sublist.map _), by simp, ?_⟩
  intro x hx y hy
  obtain ⟨r, hr, rfl⟩ := List.mem_map.mp hx
  rw [List.mem_singleton.mp hy]
  exact of_decide_eq_true (List.mem_filter.mp hr).2

theorem get?_put_self (h : s.Distinct) : (s.put j).get? j.id = some j :=
  get?_self h.put (mem_put.mpr (.inr rfl))

theorem get?_put_of_ne (h : s.Distinct) (hne : id ≠ j.id) : (s.put j).get? id = s.get? id := by
  apply Option.ext
  intro a
  rw [get?_eq_some_iff h.put, get?_eq_some_iff h, mem_put]
  constructor
  · rintro ⟨⟨ha, -⟩ | rfl, rfl⟩
    · exact ⟨ha, rfl⟩
    · exact absurd rfl hne
  · rintro ⟨ha, rfl⟩
    exact ⟨.inl ⟨ha, hne⟩, rfl⟩

end DocumentPreview.MemoryStore
