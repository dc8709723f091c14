import DocumentPreview.Proofs.Json.Extent
import Mathlib.Data.List.Forall2

namespace DocumentPreview.Json

section Texts

def membersText : List (Bytes × Bytes) → Bytes
  | [] => []
  | [(n, v)] => n ++ 0x3A :: v
  | (n, v) :: m :: r => n ++ 0x3A :: (v ++ 0x2C :: membersText (m :: r))

def objectText (ts : List (Bytes × Bytes)) : Bytes :=
  0x7B :: (membersText ts ++ [0x7D])

def Denotes (t : Bytes × Bytes) (m : String × Json) : Prop :=
  ofBytes? t.1 = some (.text m.1) ∧ ofBytes? t.2 = some m.2

theorem exists_number {bs : Bytes} {j : Json} {t : Bytes} (h : readNumber bs = some (j, t)) :
    ∃ n, j = .number n := by
  have magnitude {negative : Bool} {bs : Bytes} (h : readMagnitude negative bs = some (j, t)) :
      ∃ n, j = .number n := by
    obtain ⟨_, -, h⟩ := Option.bind_eq_some_iff.mp h
    obtain ⟨_, -, h⟩ := Option.bind_eq_some_iff.mp h
    obtain ⟨_, -, h⟩ := Option.bind_eq_some_iff.mp h
    exact ⟨_, (Prod.mk.inj (Option.some.inj h)).1.symm⟩
  cases bs with
  | nil => exact nomatch h
  | cons b bs =>
    rw [readNumber] at h
    split at h <;> exact magnitude h

theorem readWord_eq_some {word : String} {j j' : Json} {bs t : Bytes}
    (h : readWord word j bs = some (j', t)) : j' = j := by
  rw [readWord] at h
  split at h
  · exact (Prod.mk.inj (Option.some.inj h)).1.symm
  · cases h

theorem readString_of_readValue {fuel : Nat} {bs : Bytes} {s : Option String} {t : Bytes}
    (h : readValue fuel bs = some (.string s, t)) :
    ∃ r, skipSpace bs = 0x22 :: r ∧ readString r = some (s, t) := by
  cases fuel with
  | zero => cases h
  | succ fuel =>
    rw [readValue] at h
    cases first : skipSpace bs with
    | nil => rw [first] at h; cases h
    | cons b r =>
      simp only [first] at h
      split at h
      · next quote =>
        obtain ⟨⟨s', t'⟩, read, same⟩ := Option.map_eq_some_iff.mp h
        obtain ⟨rfl, rfl⟩ : s' = s ∧ t' = t := by simpa using same
        exact ⟨r, by rw [quote], read⟩
      -- No other first byte makes a string.
      split at h
      · split at h
        · cases h
        · split at h
          · simp at h
          · simp at h
      split at h
      · split at h
        · cases h
        · split at h
          · simp at h
          · simp at h
      split at h
      · cases readWord_eq_some h
      split at h
      · cases readWord_eq_some h
      split at h
      · cases readWord_eq_some h
      · obtain ⟨n, hn⟩ := exists_number h
        cases hn

variable {t : Bytes × Bytes} {m : String × Json} {ts : List (Bytes × Bytes)}
  {ms : List (String × Json)} {fuel : Nat}

theorem readMember_text (h : Denotes t m) (hf : 2 * t.2.length + 2 ≤ fuel) {r : Bytes}
    (hr : Ends r) : ∃ u s, skipSpace (t.1 ++ 0x3A :: (t.2 ++ r)) = 0x22 :: u ∧ Blank s ∧
      readMember fuel u = some ((some m.1, m.2), s ++ r) := by
  obtain ⟨name, value⟩ := h
  obtain ⟨p, s, hp, hs, takes_name⟩ := ofBytes?_eq_some name
  obtain ⟨q, s', hq, hs', takes_value⟩ := ofBytes?_eq_some value
  have colon (r : Bytes) : skipSpace (s ++ 0x3A :: r) = 0x3A :: r := by
    rw [skipSpace_blank hs, skipSpace_cons (by decide)]
  obtain ⟨u, first, read⟩ := readString_of_readValue
    (takes_name _ (Nat.le_refl _) (s ++ 0x3A :: (t.2 ++ r)) (ends_blank hs (ends_cons (by decide) _)))
  have read_value := takes_value fuel hf (s' ++ r) (ends_blank hs' hr)
  rw [← List.append_assoc, ← hp] at first
  rw [← List.append_assoc, ← hq] at read_value
  refine ⟨u, s', first, hs', ?_⟩
  rw [readMember, read]
  simp only [Option.bind_some, colon, if_true, read_value, Option.map_some]

theorem readMembers_membersText {t : Bytes × Bytes} (h : List.Forall₂ Denotes (t :: ts) ms)
    (hf : 2 * (membersText (t :: ts)).length + 1 ≤ fuel) (r : Bytes) :
    readMembers fuel (membersText (t :: ts) ++ 0x7D :: r) =
      some (ms.map fun m => (some m.1, m.2), r) := by
  induction ts generalizing t ms fuel with
  | nil =>
    obtain ⟨n, v⟩ := t
    cases h with
    | cons denotes h =>
      cases h
      simp only [membersText, List.length_append, List.length_cons] at hf
      obtain ⟨fuel, rfl⟩ := Nat.exists_eq_add_of_le' (Nat.le_trans (Nat.le_add_left 1 _) hf)
      have room : 2 * v.length + 2 ≤ fuel := by omega
      obtain ⟨u, s, first, blank, read⟩ :=
        readMember_text denotes room (ends_cons (b := 0x7D) (by decide) r)
      have brace : skipSpace (s ++ 0x7D :: r) = 0x7D :: r := by
        rw [skipSpace_blank blank, skipSpace_cons (by decide)]
      rw [membersText, List.append_assoc, List.cons_append, readMembers_succ, first]
      simp only [if_true, read, Option.bind_some, readRest, brace]
      rfl
  | cons t' ts ih =>
    obtain ⟨n, v⟩ := t
    cases h with
    | cons denotes h =>
      simp only [membersText, List.length_append, List.length_cons] at hf
      obtain ⟨fuel, rfl⟩ := Nat.exists_eq_add_of_le' (Nat.le_trans (Nat.le_add_left 1 _) hf)
      let others := membersText (t' :: ts) ++ 0x7D :: r
      have room : 2 * v.length + 2 ≤ fuel := by omega
      obtain ⟨u, s, first, blank, read⟩ :=
        readMember_text denotes room (ends_cons (b := 0x2C) (by decide) others)
      have comma : skipSpace (s ++ 0x2C :: others) = 0x2C :: others := by
        rw [skipSpace_blank blank, skipSpace_cons (by decide)]
      have text : membersText ((n, v) :: t' :: ts) ++ 0x7D :: r =
          n ++ 0x3A :: (v ++ 0x2C :: others) := by
        simp only [membersText, others, List.append_assoc, List.cons_append]
      rw [text, readMembers_succ, first]
      simp only [if_true, read, Option.bind_some, readRest, comma]
      rw [ih h (by omega)]
      rfl

theorem ofBytes?_objectText (h : List.Forall₂ Denotes ts ms) :
    ofBytes? (objectText ts) = some (.record ms) := by
  have read : readValue (2 * (objectText ts).length + 2) (objectText ts) = some (.record ms, []) := by
    cases ts with
    | nil =>
      cases h
      rfl
    | cons t ts =>
      have length : (objectText (t :: ts)).length = (membersText (t :: ts)).length + 2 := by
        simp [objectText]
      have room : 2 * (membersText (t :: ts)).length + 1 ≤
          2 * (objectText (t :: ts)).length + 1 := by omega
      have members := readMembers_membersText h room []
      cases first : skipSpace (membersText (t :: ts) ++ [0x7D]) with
      | nil =>
        have empty : skipSpace (membersText (t :: ts) ++ [0x7D]) = skipSpace [] := first
        rw [readMembers_skipSpace _ empty, readMembers_nil] at members
        cases members
      | cons b u =>
        have again : skipSpace (membersText (t :: ts) ++ [0x7D]) = skipSpace (b :: u) := by
          rw [first, skipSpace_cons (isSpace_head first)]
        rw [readMembers_skipSpace _ again] at members
        have inside : ¬ b = 0x7D := by
          rintro rfl
          rw [readMembers_succ, skipSpace_cons (by decide)] at members
          cases members
        have opened : readValue (2 * (objectText (t :: ts)).length + 2) (objectText (t :: ts)) =
            (readMembers (2 * (objectText (t :: ts)).length + 1) (b :: u)).map
              fun q => (.object q.1, q.2) := by
          generalize 2 * (objectText (t :: ts)).length = fuel
          rw [objectText, readValue, skipSpace_cons (by decide)]
          simp [first, inside]
        exact opened.trans (congrArg (Option.map _) members)
  rw [ofBytes?, read]
  rfl

end Texts

section Fields

def named (n : String) (ms : List (String × Json)) : List Json :=
  valuesOf n (ms.map fun m => (some m.1, m.2))

theorem named_nil (n : String) : named n [] = [] :=
  rfl

theorem named_cons (n : String) (m : String × Json) (ms : List (String × Json)) :
    named n (m :: ms) = if m.1 = n then m.2 :: named n ms else named n ms := by
  by_cases h : m.1 = n <;> simp [named, valuesOf, h]

theorem named_append (n : String) (ms ms' : List (String × Json)) :
    named n (ms ++ ms') = named n ms ++ named n ms' := by
  simp [named, valuesOf]

theorem named_of_not_mem {n : String} {ms : List (String × Json)} (h : ∀ m ∈ ms, m.1 ≠ n) :
    named n ms = [] := by
  induction ms with
  | nil => rfl
  | cons m ms ih =>
    rw [named_cons, if_neg (h m (.head _)), ih fun m hm => h m (.tail _ hm)]

theorem named_perm {n : String} {ms ms' : List (String × Json)} (h : ms.Perm ms') :
    (named n ms).Perm (named n ms') :=
  ((h.map _).filter _).map _

def HasFields (names : List String) (ms : List (String × Json)) (fields : List (Option Json)) :
    Prop :=
  names.map (named · ms) = fields.map Option.toList

def Widens (names : List String) (ms : List (String × Json)) (j : Json) : Prop :=
  ∃ own others, j = .record own ∧ ms.Perm (own ++ others) ∧ ∀ m ∈ others, m.1 ∉ names

theorem record_injective : Function.Injective record := by
  intro ms ms' h
  have pair : Function.Injective fun m : String × Json => (some m.1, m.2) := fun m m' same => by
    simpa [Prod.ext_iff] using same
  exact pair.list_map (Json.object.inj h)

variable {names : List String} {ms own : List (String × Json)} {fields : List (Option Json)}

theorem HasFields.exists_field (h : HasFields names ms fields) {n : String} (hn : n ∈ names) :
    ∃ f : Option Json, named n ms = f.toList := by
  have listed : named n ms ∈ fields.map Option.toList := h ▸ List.mem_map_of_mem hn
  obtain ⟨f, -, same⟩ := List.mem_map.mp listed
  exact ⟨f, same.symm⟩

theorem HasFields.widen (h : HasFields names own fields) (hw : Widens names ms (.record own)) :
    HasFields names ms fields := by
  obtain ⟨own', others, same, perm, apart⟩ := hw
  obtain rfl := record_injective same
  refine Eq.trans (List.map_congr_left fun n hn => ?_) h
  obtain ⟨f, hf⟩ := h.exists_field hn
  have among : (named n ms).Perm f.toList := by
    have nothing : named n others = [] := named_of_not_mem fun m hm same => apart m hm (same ▸ hn)
    have both := named_perm (n := n) perm
    rwa [named_append, nothing, List.append_nil, hf] at both
  rw [hf]
  cases f with
  | none => exact List.perm_nil.mp among
  | some j => exact List.perm_singleton.mp among

theorem HasFields.fields? (h : HasFields names ms fields) :
    (record ms).fields? names = some fields := by
  have readable : (ms.map fun m => (some m.1, m.2)).all (·.1.isSome) = true := by simp
  have single : names.all (fun n => (named n ms).length ≤ 1) = true := by
    refine List.all_eq_true.mpr fun n hn => ?_
    obtain ⟨f, hf⟩ := h.exists_field hn
    rw [hf]
    cases f <;> rfl
  have heads : names.map (fun n => (named n ms).head?) = fields := by
    have mapped := congrArg (List.map List.head?) h
    simpa [Function.comp_def] using mapped
  rw [record, Json.fields?, readable, Bool.true_and]
  exact (if_pos single).trans (congrArg some heads)

theorem member?_record {n : String} {f : Option Json} (h : named n ms = f.toList) :
    (record ms).member? n = f := by
  change (named n ms).getLast? = f
  rw [h]
  cases f <;> rfl

end Fields

end DocumentPreview.Json
