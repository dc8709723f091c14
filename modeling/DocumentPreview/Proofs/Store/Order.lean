import DocumentPreview.Proofs.Store.Steps

namespace DocumentPreview.MemoryStore

variable {s : MemoryStore} {jobs jobs' : List Job} {j : Job} {limit : Int}

def CreatedApart (s : MemoryStore) : Prop :=
  (s.rows.map (·.createdAt)).Nodup

instance (s : MemoryStore) : Decidable s.CreatedApart :=
  inferInstanceAs (Decidable (List.Nodup _))

theorem CreatedApart.eq {a b : Job} (h : s.CreatedApart) (ha : a ∈ s.rows) (hb : b ∈ s.rows)
    (hab : a.createdAt = b.createdAt) : a = b :=
  List.inj_on_of_nodup_map h ha hb hab

theorem CreatedApart.change {p : Job → Bool} {f : Job → Job} (h : s.CreatedApart)
    (hf : ∀ r, (f r).createdAt = r.createdAt) : (s.change p f).CreatedApart := by
  have same : (s.change p f).rows.map (·.createdAt) = s.rows.map (·.createdAt) := by
    simp only [MemoryStore.change, List.map_map]
    refine List.map_congr_left fun r _ => ?_
    by_cases hr : p r <;> simp [hr, hf]
  rw [CreatedApart, same]
  exact h

theorem pairwise_sorted {r : Instant → Instant → Prop} [DecidableRel r]
    (trans : ∀ {a b c}, r a b → r b c → r a c) (total : ∀ a b, r a b ∨ r b a) (jobs : List Job) :
    (jobs.mergeSort fun a b => r a.createdAt b.createdAt).Pairwise fun a b =>
      decide (r a.createdAt b.createdAt) := by
  refine List.pairwise_mergeSort (fun a b c hab hbc => ?_) (fun a b => ?_) jobs
  · exact decide_eq_true (trans (of_decide_eq_true hab) (of_decide_eq_true hbc))
  · simp only [Bool.or_eq_true, decide_eq_true_eq]
    exact total _ _

theorem oldestFirst_perm (h : s.CreatedApart) (hj : ∀ j ∈ jobs, j ∈ s.rows) (hp : jobs'.Perm jobs)
    (limit : Int) : oldestFirst jobs' limit = oldestFirst jobs limit := by
  have sorted : (jobs'.mergeSort fun a b => a.createdAt ≤ b.createdAt) =
      jobs.mergeSort fun a b => a.createdAt ≤ b.createdAt := by
    have oldest := pairwise_sorted (r := (· ≤ ·)) Instant.le_trans fun a b => Int.le_total _ _
    refine List.Perm.eq_of_pairwise (fun a b ha hb hab hba => ?_) (oldest jobs') (oldest jobs) ?_
    · have old := Instant.le_antisymm (of_decide_eq_true hab) (of_decide_eq_true hba)
      exact h.eq (hj a (hp.mem_iff.mp (List.mem_mergeSort.mp ha))) (hj b (List.mem_mergeSort.mp hb))
        old
    · exact (List.mergeSort_perm _ _).trans (hp.trans (List.mergeSort_perm _ _).symm)
  rw [oldestFirst, oldestFirst, sorted]

theorem pairwise_oldestFirst (jobs : List Job) (limit : Int) :
    (oldestFirst jobs limit).Pairwise (·.createdAt ≤ ·.createdAt) := by
  have oldest := pairwise_sorted (r := (· ≤ ·)) Instant.le_trans (fun a b => Int.le_total _ _) jobs
  exact (oldest.imp of_decide_eq_true).sublist (List.take_sublist _ _)

theorem oldestFirst_of_pairwise (h : jobs.Pairwise (·.createdAt ≤ ·.createdAt)) :
    oldestFirst jobs limit = jobs.take limit.toNat := by
  rw [oldestFirst, List.mergeSort_of_pairwise (h.imp decide_eq_true)]

theorem requeueDue_of_pairwise (h : s.rows.Pairwise (·.createdAt ≤ ·.createdAt)) (now : Instant)
    (limit : Int) : s.requeueDue now limit =
      requeueEach now ((s.rows.filter (·.isDue now)).take limit.toNat) s := by
  rw [requeueDue, oldestFirst_of_pairwise (h.filter _)]

theorem pending_of_pairwise (h : s.rows.Pairwise (·.createdAt ≤ ·.createdAt)) (limit : Int) :
    s.pending limit = (s.rows.filter (·.status = .pending)).take limit.toNat := by
  rw [pending, oldestFirst_of_pairwise (h.filter _)]

theorem mem_take_iff {n : Nat} (h : jobs.Pairwise (·.createdAt < ·.createdAt)) :
    j ∈ jobs.take n ↔ j ∈ jobs ∧ jobs.countP (·.createdAt < j.createdAt) < n := by
  induction jobs generalizing n with
  | nil => simp
  | cons k jobs ih =>
    obtain ⟨first, rest⟩ := List.pairwise_cons.mp h
    cases n with
    | zero => simp
    | succ n =>
      rw [List.take_succ_cons, List.mem_cons, List.mem_cons, List.countP_cons]
      by_cases hjk : j = k
      · subst hjk
        have none : jobs.countP (·.createdAt < j.createdAt) = 0 :=
          List.countP_eq_zero.mpr fun k hk =>
            mt of_decide_eq_true (Int.not_lt.mpr (Int.le_of_lt (first k hk)))
        have self : ¬ j.createdAt < j.createdAt := Int.lt_irrefl _
        simp [none, self]
      · rw [or_iff_right hjk, or_iff_right hjk, ih rest]
        refine and_congr_right fun hj => ?_
        rw [if_pos (decide_eq_true (first j hj))]
        omega

theorem pairwise_sorted_lt (h : s.CreatedApart) (p : Job → Bool) :
    ((s.rows.filter p).mergeSort fun a b => a.createdAt ≤ b.createdAt).Pairwise
      (·.createdAt < ·.createdAt) := by
  have perm := List.mergeSort_perm (s.rows.filter p) fun a b => decide (a.createdAt ≤ b.createdAt)
  have apart : (s.rows.filter p).Pairwise (·.createdAt ≠ ·.createdAt) :=
    (List.pairwise_map.mp h).filter p
  have oldest := pairwise_sorted (r := (· ≤ ·)) Instant.le_trans (fun a b => Int.le_total _ _)
    (s.rows.filter p)
  refine oldest.imp₂ (fun a b hab hne => ?_) ((perm.pairwise_iff Ne.symm).mpr apart)
  have old : a.createdAt ≤ b.createdAt := of_decide_eq_true hab
  exact Int.not_le.mp fun hba => hne (Instant.le_antisymm old hba)

theorem pairwise_oldestFirst_lt (h : s.CreatedApart) (p : Job → Bool) (limit : Int) :
    (oldestFirst (s.rows.filter p) limit).Pairwise (·.createdAt < ·.createdAt) :=
  (pairwise_sorted_lt h p).sublist (List.take_sublist _ _)

theorem mem_oldestFirst_iff_countP (h : s.CreatedApart) {p : Job → Bool} :
    j ∈ oldestFirst (s.rows.filter p) limit ↔
      (j ∈ s.rows ∧ p j) ∧ s.rows.countP (fun k => k.createdAt < j.createdAt && p k) < limit.toNat := by
  have perm := List.mergeSort_perm (s.rows.filter p) fun a b => decide (a.createdAt ≤ b.createdAt)
  rw [oldestFirst, mem_take_iff (pairwise_sorted_lt h p), perm.mem_iff, List.mem_filter,
    perm.countP_eq, List.countP_filter]

end DocumentPreview.MemoryStore
