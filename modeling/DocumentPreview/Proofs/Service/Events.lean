import DocumentPreview.Proofs.Service.Interleaving

namespace DocumentPreview

namespace ServiceCall

def changes : (c : ServiceCall) → c.Reply → List (Uuid × JobChange)
  | .store op, .ok r => op.changes r
  | _, _ => []

def claims (c : ServiceCall) (r : c.Reply) : List Uuid :=
  ((c.changes r).filter (·.2 = .claimed)).map (·.1)

def settles? : ServiceCall → Option Uuid
  | .store (.complete id _) | .store (.recordFailure id _ _) => some id
  | _ => none

theorem mem_claims {c : ServiceCall} {r : c.Reply} {id : Uuid} :
    id ∈ c.claims r ↔ (id, .claimed) ∈ c.changes r := by
  simp [claims]

end ServiceCall

namespace Event

def changes (e : Event) : List (Uuid × JobChange) :=
  e.call.changes e.reply

def Claims (e : Event) (id : Uuid) : Prop :=
  (id, .claimed) ∈ e.changes

def Settles (e : Event) (id : Uuid) : Prop :=
  ∃ k, k.settles ∧ (id, k) ∈ e.changes

def Touches (e : Event) (id : Uuid) : Prop :=
  ∃ k, (id, k) ∈ e.changes

def Disturbs (e : Event) (id : Uuid) : Prop :=
  ∃ k ∈ [JobChange.reaped, .requeued, .reset, .claimed], (id, k) ∈ e.changes

theorem Disturbs.touches {e : Event} {id : Uuid} (h : e.Disturbs id) : e.Touches id := by
  obtain ⟨k, -, hk⟩ := h
  exact ⟨k, hk⟩

theorem Claims.disturbs {e : Event} {id : Uuid} (h : e.Claims id) : e.Disturbs id :=
  ⟨.claimed, by simp, h⟩

end Event

theorem StoreOp.eq_of_mem_changedTo_transition {s : MemoryStore} {id other : Uuid}
    {start : JobStatus} {f : Job → Job} {k l : JobChange} (hf : ∀ r, (f r).id = r.id)
    (h : (other, l) ∈ changedTo k (s.transition id start f).1.toList) : other = id := by
  obtain ⟨-, j, hj, rfl⟩ := mem_changedTo.mp h
  rcases s.transition_cases id start f with ⟨-, he⟩ | ⟨r, hr, -, he⟩
  · rw [he] at hj
    exact absurd hj List.not_mem_nil
  · rw [he] at hj
    rw [List.mem_singleton.mp hj, hf]
    exact (MemoryStore.mem_of_get? hr).2

namespace Shared

variable {s : Shared} {o : Outside}

theorem answer_distinct (h : s.store.Distinct) (c : ServiceCall) :
    (s.answer o c).2.store.Distinct := by
  cases c with
  | store op => exact h.run op
  | _ => exact h

theorem answer_row (h : s.store.Distinct) (hu : s.store.Unused o.freshId) (c : ServiceCall)
    (id : Uuid) :
    RowStep o.time (c.changes (s.answer o c).1) id (s.store.get? id)
      ((s.answer o c).2.store.get? id) := by
  cases c with
  | store op => exact s.store.run_row h hu op id
  | _ => exact .same _ fun _ hk => absurd hk List.not_mem_nil

theorem settles?_of_changes {c : ServiceCall} {id : Uuid} {k : JobChange} (hk : k.settles)
    (h : (id, k) ∈ c.changes (s.answer o c).1) : c.settles? = some id := by
  cases c with
  | store op =>
    have turn : op.change? = some k := StoreOp.change?_of_mem_changes h
    cases op with
    | complete => exact congrArg some (StoreOp.eq_of_mem_changedTo_transition Job.id_finished h).symm
    | recordFailure =>
      exact congrArg some (StoreOp.eq_of_mem_changedTo_transition Job.id_failedWith h).symm
    | _ => rcases hk with rfl | rfl <;> cases turn
  | _ => exact absurd h List.not_mem_nil

end Shared

end DocumentPreview
