import DocumentPreview.Proofs.Service.Live
import DocumentPreview.Proofs.Service.Ownership

namespace DocumentPreview

theorem Job.Turns.wasInFlight {k : JobChange} {j j' : Job} (h : Turns k j j')
    (hk : k = .reaped ∨ k = .requeued) : j.isInFlight := by
  cases h with
  | requeued _ _ due => exact MemoryStore.isInFlight_of_isDue due
  | reaped _ _ _ stale =>
    refine MemoryStore.isInFlight_of_isActive (MemoryStore.isActive_iff.mpr (.inr ?_))
    exact (isStale_iff.mp stale).1
  | claimed | completed | failed | reset => rcases hk with hk | hk <;> cases hk

namespace MemoryStore

structure Foremost (s : MemoryStore) (j : Job) : Prop where
  distinct : s.Distinct
  row : j ∈ s.rows
  newest : ∀ r ∈ s.rows, r.fileId = j.fileId → r.id ≠ j.id → r.createdAt < j.createdAt
  alone : ∀ r ∈ s.rows, r.fileId = j.fileId → r.id ≠ j.id → ¬ r.isInFlight

namespace Foremost

variable {s t : MemoryStore} {j k : Job} {clock : Instant}

theorem get? (h : s.Foremost j) : s.get? j.id = some j :=
  get?_self h.distinct h.row

theorem latest? (h : s.Foremost j) : s.latest? j.fileId = some j := by
  obtain ⟨k, hk⟩ := exists_latest? h.row
  obtain ⟨hkr, hkf, newest⟩ := newest_of_latest? hk
  by_cases hid : k.id = j.id
  · rw [hk, h.distinct.eq hkr h.row hid]
  · exact absurd (newest j h.row hkf.symm) (Int.not_le.mpr (h.newest k hkr hkf hid))

theorem not_slotTaken (h : s.Foremost j) : ¬ s.slotTaken j.fileId j.id := by
  intro taken
  obtain ⟨r, hr, hne, hfile, active⟩ := slotTaken_iff.mp taken
  exact h.alone r hr hfile hne (isInFlight_of_isActive active)

theorem perm (h : s.Foremost j) (hp : s.rows.Perm t.rows) : t.Foremost j where
  distinct := h.distinct.perm hp
  row := hp.subset h.row
  newest := fun r hr => h.newest r (hp.symm.subset hr)
  alone := fun r hr => h.alone r (hp.symm.subset hr)

theorem succeed (h : s.Foremost j) (distinct : t.Distinct) (row : k ∈ t.rows) (hid : k.id = j.id)
    (hfile : k.fileId = j.fileId) (hcreated : k.createdAt = j.createdAt)
    (others : ∀ r ∈ t.rows, r.fileId = j.fileId → r.id ≠ j.id → r ∈ s.rows) : t.Foremost k where
  distinct := distinct
  row := row
  newest := fun r hr hf hne => by
    rw [hfile] at hf
    rw [hid] at hne
    exact hcreated ▸ h.newest r (others r hr hf hne) hf hne
  alone := fun r hr hf hne => by
    rw [hfile] at hf
    rw [hid] at hne
    exact h.alone r (others r hr hf hne) hf hne

theorem restarted (h : s.Foremost j) (clock : Instant) :
    (s.changeRow j.id (·.restarted clock)).Foremost (j.restarted clock) := by
  refine h.succeed (h.distinct.changeRow Job.id_restarted) ?_ rfl rfl rfl fun r hr _ hne => ?_
  · exact mem_changeRow.mpr ⟨j, h.row, if_pos rfl⟩
  · obtain ⟨q, hq, rfl⟩ := mem_changeRow.mp hr
    by_cases hid : q.id = j.id
    · rw [if_pos hid] at hne
      exact absurd hid hne
    · rwa [if_neg hid]

theorem swept {changes : List (Uuid × JobChange)} (h : s.Foremost j) (idle : j.status ≠ .processing)
    (distinct : t.Distinct) (rows : ∀ id, RowStep clock changes id (s.get? id) (t.get? id))
    (sweeps : ∀ id k, (id, k) ∈ changes → k = .reaped ∨ k = .requeued) :
    (j.id, .requeued) ∉ changes ∧ t.Foremost j ∨
      (j.id, .requeued) ∈ changes ∧ j.status = .failed ∧ ∃ now, t.Foremost (j.requeued now) := by
  have others : ∀ r ∈ t.rows, r.fileId = j.fileId → r.id ≠ j.id → r ∈ s.rows := by
    intro r hr hfile hne
    have after := get?_self distinct hr
    have step := rows r.id
    generalize hb : s.get? r.id = before, t.get? r.id = row at step after
    cases step with
    | same => exact (mem_of_get? (hb.trans after)).1
    | created _ _ _ hc =>
      rcases sweeps r.id .created (hc ▸ List.mem_singleton_self _) with hk | hk <;> cases hk
    | turned hk _ turns =>
      cases after
      obtain ⟨hq, hid⟩ := mem_of_get? hb
      have flying := turns.wasInFlight (sweeps _ _ hk)
      exact absurd flying (h.alone _ hq (turns.fileId.symm.trans hfile) (hid ▸ hne))
  have step := rows j.id
  rw [h.get?] at step
  generalize ha : t.get? j.id = after at step
  cases step with
  | same _ unchanged =>
    have row := (mem_of_get? ha).1
    exact .inl ⟨unchanged _, h.succeed distinct row rfl rfl rfl others⟩
  | turned hk only turns =>
    obtain ⟨row, hid⟩ := mem_of_get? ha
    cases turns with
    | requeued _ now due =>
      exact .inr ⟨hk, (Job.isDue_iff.mp due).1, now, h.succeed distinct row rfl rfl rfl others⟩
    | reaped _ _ _ stale => exact absurd (Job.isStale_iff.mp stale).1 idle
    | claimed | completed | failed | reset => rcases sweeps _ _ hk with hk | hk <;> cases hk

end Foremost

end MemoryStore

theorem ServiceCall.change?_of_mem_changes {op : StoreOp} {r : (store op).Reply} {id : Uuid}
    {k : JobChange} (h : (id, k) ∈ (store op).changes r) : op.change? = some k := by
  rcases r with e | r
  · exact absurd h List.not_mem_nil
  · exact StoreOp.change?_of_mem_changes h

theorem Sweep.PassCall.changes {c : ServiceCall} (h : PassCall c) {r : c.Reply} {id : Uuid}
    {k : JobChange} (hk : (id, k) ∈ c.changes r) : k = .reaped ∨ k = .requeued := by
  cases h with
  | clock | offer => exact absurd hk List.not_mem_nil
  | reapStale => exact .inl (Option.some.inj (ServiceCall.change?_of_mem_changes hk)).symm
  | requeueDue => exact .inr (Option.some.inj (ServiceCall.change?_of_mem_changes hk)).symm
  | pending => cases ServiceCall.change?_of_mem_changes hk

end DocumentPreview
