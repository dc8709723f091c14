import Mathlib.Data.List.Perm.Basic

namespace DocumentPreview

variable {α : Type}

theorem snoc_eq_append_cons {xs as bs : List α} {x a : α}
    (h : xs ++ [x] = as ++ a :: bs) :
    bs = [] ∧ xs = as ∧ x = a ∨ ∃ cs, bs = cs ++ [x] ∧ xs = as ++ a :: cs := by
  rcases List.eq_nil_or_concat bs with rfl | ⟨cs, c, rfl⟩
  · obtain ⟨hxs, hx⟩ := List.append_inj' h rfl
    exact .inl ⟨rfl, hxs, List.singleton_inj.mp hx⟩
  · rw [List.concat_eq_append, ← List.cons_append, ← List.append_assoc] at h
    obtain ⟨hxs, hx⟩ := List.append_inj' h rfl
    obtain rfl := List.singleton_inj.mp hx
    exact .inr ⟨cs, List.concat_eq_append, hxs⟩

theorem getElem?_snoc {l : List α} {a c : α} {k : Nat} (h : (l ++ [a])[k]? = some c) :
    l[k]? = some c ∨ k = l.length ∧ c = a := by
  rw [List.getElem?_append] at h
  split at h
  · exact .inl h
  · obtain ⟨hk, hc⟩ := List.getElem?_eq_some_iff.mp h
    rw [List.length_singleton] at hk
    exact .inr ⟨by omega, by simpa using hc.symm⟩

theorem getElem?_set_cases {l : List α} {a c : α} {i k : Nat}
    (h : (l.set i a)[k]? = some c) : i = k ∧ c = a ∨ i ≠ k ∧ l[k]? = some c := by
  by_cases hik : i = k
  · subst hik
    have hi := (List.getElem?_eq_some_iff.mp h).1
    rw [List.length_set] at hi
    rw [List.getElem?_set_self hi] at h
    exact .inl ⟨rfl, (Option.some.inj h).symm⟩
  · rw [List.getElem?_set_ne hik] at h
    exact .inr ⟨hik, h⟩

theorem eq_of_last {P : α → Prop} {a b a' b' : List α} {c c' : α}
    (h : a ++ c :: b = a' ++ c' :: b') (hc : P c) (hc' : P c') (hb : ∀ f ∈ b, ¬ P f)
    (hb' : ∀ f ∈ b', ¬ P f) : c = c' := by
  rcases List.append_eq_append_iff.mp h with ⟨l, rfl, hl⟩ | ⟨l, rfl, hl⟩
  · cases l with
    | nil => exact (List.cons.inj hl).1
    | cons d l =>
      obtain ⟨-, rfl⟩ := List.cons.inj hl
      exact absurd hc' (hb c' (by simp))
  · cases l with
    | nil => exact (List.cons.inj hl).1.symm
    | cons d l =>
      obtain ⟨-, rfl⟩ := List.cons.inj hl
      exact absurd hc (hb' c (by simp))

theorem exists_snoc_of_length {l m : List α} (h : m = l ∨ ∃ a, m = l ++ [a])
    (hl : m.length = l.length + 1) : ∃ a, m = l ++ [a] := by
  rcases h with rfl | grown
  · exact absurd hl (Nat.ne_of_lt (Nat.lt_succ_self _))
  · exact grown

theorem countP_set (p : α → Bool) {l : List α} {i : Nat} {a b : α}
    (h : l[i]? = some b) :
    (l.set i a).countP p + (if p b then 1 else 0) = l.countP p + if p a then 1 else 0 := by
  obtain ⟨hi, rfl⟩ := List.getElem?_eq_some_iff.mp h
  have counted : (if p l[i] then 1 else 0) ≤ l.countP p := by
    split
    · exact List.countP_pos_iff.mpr ⟨_, List.getElem_mem hi, ‹_›⟩
    · exact Nat.zero_le _
  rw [List.countP_set hi]
  omega

theorem countP_eraseIdx (p : α → Bool) {l : List α} {i : Nat} {a : α}
    (h : l[i]? = some a) : l.countP p = (l.eraseIdx i).countP p + if p a then 1 else 0 := by
  obtain ⟨hi, rfl⟩ := List.getElem?_eq_some_iff.mp h
  rw [← (List.getElem_cons_eraseIdx_perm hi).countP_eq, List.countP_cons]

end DocumentPreview
