import DocumentPreview.Proofs.Store.Steps

namespace DocumentPreview

def JobChange.attemptsAfter (n : Nat) : JobChange → Nat
  | .created | .reset => 0
  | .claimed => n + 1
  | .completed | .failed | .requeued | .reaped => n

def attemptsSpent (id : Uuid) (log : List (Uuid × JobChange)) : Nat :=
  ((log.filter (·.1 = id)).map (·.2)).foldl JobChange.attemptsAfter 0

theorem JobChange.attemptsAfter_idem {k : JobChange} (hk : k ≠ .claimed) (n : Nat) :
    (k.attemptsAfter n |> k.attemptsAfter) = k.attemptsAfter n := by
  cases k <;> simp_all [attemptsAfter]

theorem JobChange.foldl_attemptsAfter {k : JobChange} {ks : List JobChange} (hne : ks ≠ [])
    (hall : ∀ l ∈ ks, l = k) (hone : k = .claimed → ks = [k]) (n : Nat) :
    ks.foldl attemptsAfter n = k.attemptsAfter n := by
  by_cases hk : k = .claimed
  · rw [hone hk]
    rfl
  · clear hone
    induction ks generalizing n with
    | nil => exact absurd rfl hne
    | cons l ls ih =>
      obtain rfl := hall l (.head _)
      by_cases hls : ls = []
      · rw [hls]
        rfl
      · rw [List.foldl_cons, ih hls (fun m hm => hall m (.tail _ hm)), attemptsAfter_idem hk]

namespace Job

structure WithinBudget (j : Job) : Prop where
  nonneg : 0 ≤ j.attempts.toInt
  le_max : j.attempts.toInt ≤ j.maxAttempts.toInt
  pending : j.status = .pending → j.attempts.toInt < j.maxAttempts.toInt
  begun : j.status ≠ .pending → 1 ≤ j.attempts.toInt

variable {k : JobChange} {j j' : Job}

theorem withinBudget_fresh {id fileId : Uuid} {requestedBy : Option String} {maxAttempts : Int32}
    {clock : Instant} (hm : 0 < maxAttempts.toInt) :
    (fresh id fileId requestedBy maxAttempts clock).WithinBudget where
  nonneg := Int.le_refl _
  le_max := Int.le_of_lt hm
  pending := fun _ => hm
  begun := fun h => absurd rfl h

theorem WithinBudget.attempts_turned (h : j.WithinBudget) (ht : Turns k j j') {n : Nat}
    (hn : j.attempts.toInt = n) : j'.attempts.toInt = k.attemptsAfter n := by
  cases ht with
  | claimed _ now clock hs =>
    rw [toInt_attempts_claimed (hasAttemptsLeft_iff.mpr (h.pending hs)), hn]
    rfl
  | reset => rfl
  | completed | failed | requeued | reaped => exact hn

theorem WithinBudget.turned (h : j.WithinBudget) (ht : Turns k j j') : j'.WithinBudget := by
  cases ht with
  | claimed _ now clock hs =>
    have hlt := h.pending hs
    have hadd : (j.claimed now clock).attempts.toInt = j.attempts.toInt + 1 :=
      toInt_attempts_claimed (hasAttemptsLeft_iff.mpr hlt)
    have hmax : (j.claimed now clock).maxAttempts = j.maxAttempts := rfl
    have hnonneg := h.nonneg
    exact ⟨by omega, by rw [hadd, hmax]; omega, fun hp => (nomatch hp), fun _ => by omega⟩
  | completed _ _ _ hs | failed _ _ _ _ hs =>
    exact ⟨h.nonneg, h.le_max, fun hp => (nomatch hp), fun _ => h.begun (by rw [hs]; decide)⟩
  | reaped _ _ _ hs =>
    have hp : j.status ≠ .pending := by rw [(isStale_iff.mp hs).1]; decide
    exact ⟨h.nonneg, h.le_max, fun hp => (nomatch hp), fun _ => h.begun hp⟩
  | reset _ clock hs =>
    have hone := h.begun (by rw [hs]; decide)
    have hmax : 0 < j.maxAttempts.toInt := Int.lt_of_lt_of_le hone h.le_max
    exact ⟨Int.le_refl _, Int.le_of_lt hmax, fun _ => hmax, fun hp => absurd rfl hp⟩
  | requeued _ now hd =>
    exact ⟨h.nonneg, h.le_max, fun _ => hasAttemptsLeft_iff.mp (isDue_iff.mp hd).2.1,
      fun hp => absurd rfl hp⟩

end Job

namespace StoreOp

def Funded : StoreOp → Prop
  | .create _ _ maxAttempts => 1 ≤ maxAttempts.toInt
  | _ => True

theorem changes_eq_of_claimed {op : StoreOp} {r : op.Result} {id : Uuid}
    (h : (id, .claimed) ∈ op.changes r) : op.changes r = [(id, .claimed)] := by
  cases op with
  | claim =>
    cases r with
    | none => exact absurd h List.not_mem_nil
    | some j => exact congrArg (· :: []) (List.mem_singleton.mp h).symm
  | create | complete | recordFailure | reset | requeueDue | reapStale =>
    exact nomatch change?_of_mem_changes h
  | get | latest | pending | counts | ping => exact absurd h List.not_mem_nil

end StoreOp

theorem attemptsSpent_append_of_not_mem {id : Uuid} {log changes : List (Uuid × JobChange)}
    (h : ∀ k, (id, k) ∉ changes) : attemptsSpent id (log ++ changes) = attemptsSpent id log := by
  have hnone : changes.filter (·.1 = id) = [] := by
    rw [List.filter_eq_nil_iff]
    rintro ⟨i, k⟩ hik hid
    exact h k (of_decide_eq_true hid ▸ hik)
  simp [attemptsSpent, hnone]

theorem attemptsSpent_append_of_mem {id : Uuid} {log changes : List (Uuid × JobChange)}
    {k : JobChange} (hk : (id, k) ∈ changes) (hall : ∀ l, (id, l) ∈ changes → l = k)
    (hone : k = .claimed → changes = [(id, k)]) :
    attemptsSpent id (log ++ changes) = k.attemptsAfter (attemptsSpent id log) := by
  have hks : (changes.filter (·.1 = id)).map (·.2) ≠ [] :=
    List.ne_nil_of_mem (List.mem_map.mpr ⟨_, List.mem_filter.mpr ⟨hk, decide_eq_true rfl⟩, rfl⟩)
  have hl : ∀ l ∈ (changes.filter (·.1 = id)).map (·.2), l = k := by
    intro l hl
    obtain ⟨⟨i, l⟩, hil, rfl⟩ := List.mem_map.mp hl
    obtain ⟨hil, hid⟩ := List.mem_filter.mp hil
    exact hall l (of_decide_eq_true hid ▸ hil)
  rw [attemptsSpent, List.filter_append, List.map_append, List.foldl_append]
  exact JobChange.foldl_attemptsAfter hks hl (fun hc => by simp [hone hc]) _

namespace MemoryStore

variable {s : MemoryStore} {log : List (Uuid × JobChange)} {clock : Instant} {freshId id : Uuid}

inductive Logged : List (Uuid × JobChange) → MemoryStore → Prop
  | empty : Logged [] .empty
  | run {log : List (Uuid × JobChange)} {s : MemoryStore} (clock : Instant) (freshId : Uuid)
      (op : StoreOp) : Logged log s → op.Funded →
        Logged (log ++ op.changes (s.run clock freshId op).1) (s.run clock freshId op).2
  | reorder {log : List (Uuid × JobChange)} {s t : MemoryStore} : Logged log s →
      s.rows.Perm t.rows → Logged log t

def Kept (log : List (Uuid × JobChange)) (id : Uuid) (row : Option Job) : Prop :=
  ∀ j, row = some j → j.WithinBudget ∧ j.attempts.toInt = attemptsSpent id log

theorem Kept.step {changes : List (Uuid × JobChange)} {before after : Option Job}
    (h : Kept log id before) (hrow : RowStep clock changes id before after)
    (hone : (id, .claimed) ∈ changes → changes = [(id, .claimed)])
    (hnew : ∀ k, (id, k) ∈ changes → k ≠ .created) : Kept (log ++ changes) id after := by
  cases hrow with
  | same _ hn =>
    rw [Kept, attemptsSpent_append_of_not_mem hn]
    exact h
  | created _ _ _ hc => exact absurd rfl (hnew .created (hc ▸ List.mem_singleton_self _))
  | @turned k j j' hk hall ht =>
    obtain ⟨hb, hn⟩ := h j rfl
    rintro _ ⟨⟩
    rw [attemptsSpent_append_of_mem hk hall fun hc => hc ▸ hone (hc ▸ hk)]
    exact ⟨hb.turned ht, hb.attempts_turned ht hn⟩

theorem Kept.create {fileId : Uuid} {requestedBy : Option String} {maxAttempts : Int32}
    (hd : s.Distinct) (hm : 1 ≤ maxAttempts.toInt) (h : Kept log id (s.get? id)) :
    Kept (log ++ StoreOp.changes (.create fileId requestedBy maxAttempts)
        (s.create clock freshId fileId requestedBy maxAttempts).1) id
      ((s.create clock freshId fileId requestedBy maxAttempts).2.get? id) := by
  rcases s.create_cases clock freshId fileId requestedBy maxAttempts with ⟨j, -, he⟩ | ⟨-, he⟩
  · simpa only [he, StoreOp.changes, Bool.false_eq_true, if_false, List.append_nil] using h
  · simp only [he, StoreOp.changes, if_true]
    by_cases hid : id = freshId
    · subst hid
      have none_counted : attemptsSpent id (log ++ [(id, .created)]) = 0 :=
        attemptsSpent_append_of_mem (List.mem_singleton_self _)
          (fun l hl => (Prod.mk.inj (List.mem_singleton.mp hl)).2) (fun _ => rfl)
      intro j hj
      have hrow := get?_put_self (j := Job.fresh id fileId requestedBy maxAttempts clock) hd
      obtain rfl := Option.some.inj (hrow.symm.trans hj)
      exact ⟨Job.withinBudget_fresh hm, (congrArg Nat.cast none_counted).symm⟩
    · rw [Kept, get?_put_of_ne hd hid, attemptsSpent_append_of_not_mem]
      · exact h
      · intro k hk
        exact hid (Prod.mk.inj (List.mem_singleton.mp hk)).1

theorem Kept.run (hd : s.Distinct) {op : StoreOp} (hop : op.Funded)
    (h : Kept log id (s.get? id)) :
    Kept (log ++ op.changes (s.run clock freshId op).1) id
      ((s.run clock freshId op).2.get? id) := by
  by_cases hc : ∃ fileId requestedBy maxAttempts, op = .create fileId requestedBy maxAttempts
  · obtain ⟨fileId, requestedBy, maxAttempts, rfl⟩ := hc
    exact h.create hd hop
  · have hne : ∀ fileId requestedBy maxAttempts, op ≠ .create fileId requestedBy maxAttempts :=
      fun _ _ _ he => hc ⟨_, _, _, he⟩
    refine h.step (run_row_of_ne_create hd hne id) StoreOp.changes_eq_of_claimed ?_
    rintro k hk rfl
    have hkind := StoreOp.change?_of_mem_changes hk
    cases op with
    | create => exact hne _ _ _ rfl
    | _ => cases hkind

theorem Logged.distinct (h : Logged log s) : s.Distinct := by
  induction h with
  | empty => exact distinct_empty
  | run clock freshId op _ _ ih => exact ih.run op
  | reorder _ hp ih => exact ih.perm hp

theorem Logged.kept (h : Logged log s) (id : Uuid) : Kept log id (s.get? id) := by
  induction h with
  | empty => exact fun j hj => nomatch hj
  | run clock freshId op hs hop ih => exact ih.run hs.distinct hop
  | reorder hs hp ih =>
    rw [get?_perm hs.distinct hp]
    exact ih

structure Budgeted (log : List (Uuid × JobChange)) (s : MemoryStore) : Prop where
  within : ∀ j ∈ s.rows, j.WithinBudget
  attempts : ∀ j ∈ s.rows, j.attempts.toInt = attemptsSpent j.id log
  claims : ∀ j ∈ s.rows, attemptsSpent j.id log ≤ j.maxAttempts.toInt
  increment : ∀ j ∈ s.rows, j.status = .pending → ∀ now clock,
    (j.claimed now clock).attempts.toInt = j.attempts.toInt + 1
  renewal : ∀ j ∈ s.rows, j.attempts = j.maxAttempts → ∀ clock freshId op j',
    s.Unused freshId → (s.run clock freshId op).2.get? j.id = some j' → j'.status = .pending →
      op = .reset j.id

theorem eq_reset_of_mem_changes {op : StoreOp}
    (h : (id, .reset) ∈ op.changes (s.run clock freshId op).1) : op = .reset id := by
  have hkind := StoreOp.change?_of_mem_changes h
  cases op with
  | reset target =>
    obtain ⟨-, j, hj, rfl⟩ := StoreOp.mem_changedTo.mp h
    rcases s.reset_cases clock target with ⟨-, he⟩ | ⟨r, hr, -, -, he⟩
    · simp only [run, he] at hj
      exact absurd hj List.not_mem_nil
    · simp only [run, he] at hj
      rw [List.mem_singleton.mp hj, Job.id_restarted, (mem_of_get? hr).2]
  | _ => cases hkind

theorem renewed_by_reset {j j' : Job} {op : StoreOp} (hd : s.Distinct) (hu : s.Unused freshId)
    (hj : s.get? id = some j) (hb : j.WithinBudget) (hmax : j.attempts = j.maxAttempts)
    (hj' : (s.run clock freshId op).2.get? id = some j') (hp : j'.status = .pending) :
    op = .reset id := by
  have full : ¬ j.attempts.toInt < j.maxAttempts.toInt := by rw [hmax]; exact Int.lt_irrefl _
  have hrow : RowStep clock _ id _ _ := s.run_row hd hu op id
  rw [hj, hj'] at hrow
  cases hrow with
  | same => exact absurd (hb.pending hp) full
  | turned hk _ ht =>
    cases ht with
    | reset => exact eq_reset_of_mem_changes hk
    | requeued _ now hdue =>
      exact absurd (Job.hasAttemptsLeft_iff.mp (Job.isDue_iff.mp hdue).2.1) full
    | claimed | completed | failed | reaped => cases hp

theorem attempts_within_budget (h : Logged log s) : Budgeted log s := by
  have hd := h.distinct
  have kept : ∀ j ∈ s.rows, j.WithinBudget ∧ j.attempts.toInt = attemptsSpent j.id log :=
    fun j hj => h.kept j.id j (get?_self hd hj)
  refine ⟨fun j hj => (kept j hj).1, fun j hj => (kept j hj).2, ?_, ?_, ?_⟩
  · intro j hj
    rw [← (kept j hj).2]
    exact (kept j hj).1.le_max
  · intro j hj hs now clock
    exact Job.toInt_attempts_claimed (Job.hasAttemptsLeft_iff.mpr ((kept j hj).1.pending hs))
  · intro j hj hmax clock freshId op j' hu hj' hp
    exact renewed_by_reset hd hu (get?_self hd hj) (kept j hj).1 hmax hj' hp

theorem attempts_within_budget_second_claim :
    ∃ log s, Logged log s ∧ s.rows.map (fun j => (j.status, j.attempts)) = [(.processing, 2)] ∧
      attemptsSpent (.ofNat 1) log = 2 ∧ Budgeted log s := by
  have created := Logged.empty.run .epoch (.ofNat 1) (.create (.ofNat 9) none 2)
    (show (1 : Int) ≤ (2 : Int32).toInt by decide)
  have claimed := created.run .epoch (.ofNat 2) (.claim (.ofNat 1) .epoch) trivial
  have failed := claimed.run .epoch (.ofNat 2)
    (.recordFailure (.ofNat 1) "Conversion failed" (some .epoch)) trivial
  have requeued := failed.run .epoch (.ofNat 2) (.requeueDue .epoch 500) trivial
  have again := requeued.run .epoch (.ofNat 2) (.claim (.ofNat 1) .epoch) trivial
  exact ⟨_, _, again, by decide +kernel, by decide +kernel, attempts_within_budget again⟩

end MemoryStore

end DocumentPreview
