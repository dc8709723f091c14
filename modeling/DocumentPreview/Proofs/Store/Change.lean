import DocumentPreview.Proofs.Store.Rows

namespace DocumentPreview

inductive JobChange where
  | created
  | claimed
  | completed
  | failed
  | reset
  | requeued
  | reaped
  deriving DecidableEq, Repr

def JobChange.target : JobChange → JobStatus
  | created | reset | requeued => .pending
  | claimed => .processing
  | completed => .completed
  | failed | reaped => .failed

theorem JobChange.target_eq_processing_iff {k : JobChange} :
    k.target = .processing ↔ k = .claimed := by
  cases k <;> simp [target]

def JobChange.settles (k : JobChange) : Prop :=
  k = .completed ∨ k = .failed

namespace StoreOp

def changedTo (k : JobChange) (jobs : List Job) : List (Uuid × JobChange) :=
  jobs.map fun j => (j.id, k)

def changes : (op : StoreOp) → op.Result → List (Uuid × JobChange)
  | .create .., r => if r.2 then [(r.1.id, .created)] else []
  | .claim .., r => changedTo .claimed r.toList
  | .complete .., r => changedTo .completed r.toList
  | .recordFailure .., r => changedTo .failed r.toList
  | .reset _, r => changedTo .reset r.toList
  | .requeueDue .., r => changedTo .requeued r
  | .reapStale .., r => changedTo .reaped r
  | .get _, _ | .latest _, _ | .pending _, _ | .counts, _ | .ping, _ => []

def change? : StoreOp → Option JobChange
  | .create .. => some .created
  | .claim .. => some .claimed
  | .complete .. => some .completed
  | .recordFailure .. => some .failed
  | .reset _ => some .reset
  | .requeueDue .. => some .requeued
  | .reapStale .. => some .reaped
  | .get _ | .latest _ | .pending _ | .counts | .ping => none

theorem mem_changedTo {k l : JobChange} {jobs : List Job} {id : Uuid} :
    (id, l) ∈ changedTo k jobs ↔ l = k ∧ ∃ j ∈ jobs, j.id = id := by
  simp only [changedTo, List.mem_map, Prod.mk.injEq]
  constructor
  · rintro ⟨j, hj, hid, rfl⟩
    exact ⟨rfl, j, hj, hid⟩
  · rintro ⟨rfl, j, hj, hid⟩
    exact ⟨j, hj, hid, rfl⟩

theorem change?_of_mem_changes {op : StoreOp} {r : op.Result} {id : Uuid} {k : JobChange}
    (h : (id, k) ∈ op.changes r) : op.change? = some k := by
  cases op with
  | create =>
    simp only [changes] at h
    split at h
    · rw [(Prod.mk.inj (List.mem_singleton.mp h)).2]
      rfl
    · exact absurd h List.not_mem_nil
  | claim | complete | recordFailure | reset | requeueDue | reapStale =>
    exact congrArg some (mem_changedTo.mp h).1.symm
  | get | latest | pending | counts | ping => exact absurd h List.not_mem_nil

end StoreOp

namespace Job

variable {now clock cutoff : Instant} {error : String} {next : Option Instant}

@[simp] theorem id_claimed (j : Job) : (j.claimed now clock).id = j.id := rfl
@[simp] theorem id_finished (j : Job) : (j.finished now clock).id = j.id := rfl
@[simp] theorem id_failedWith (j : Job) : (j.failedWith error next clock).id = j.id := rfl
@[simp] theorem id_restarted (j : Job) : (j.restarted clock).id = j.id := rfl
@[simp] theorem id_requeued (j : Job) : (j.requeued now).id = j.id := rfl
@[simp] theorem id_reaped (j : Job) : (j.reaped now clock).id = j.id := rfl

theorem isDue_iff {j : Job} :
    j.isDue now ↔ j.status = .failed ∧ j.hasAttemptsLeft ∧ ∃ t, j.nextRetryAt = some t ∧ t ≤ now := by
  simp [isDue, Option.any_eq_true, and_assoc]

theorem isStale_iff {j : Job} :
    j.isStale cutoff ↔ j.status = .processing ∧ ∃ t, j.startedAt = some t ∧ t < cutoff := by
  simp [isStale, Option.any_eq_true]

theorem hasAttemptsLeft_iff {j : Job} :
    j.hasAttemptsLeft ↔ j.attempts.toInt < j.maxAttempts.toInt := by
  rw [hasAttemptsLeft, decide_eq_true_iff, Int32.lt_iff_toInt_lt]

theorem toInt_attempts_claimed_of_lt {j : Job} (h : j.attempts.toInt < 0x7FFF_FFFF) :
    (j.claimed now clock).attempts.toInt = j.attempts.toInt + 1 := by
  have hmin := j.attempts.le_toInt
  have h1 : (1 : Int32).toInt = 1 := by decide
  rw [show (j.claimed now clock).attempts = j.attempts + 1 from rfl, Int32.toInt_add, h1]
  exact Int.bmod_eq_of_le (by omega) (by omega)

theorem toInt_attempts_claimed {j : Job} (h : j.hasAttemptsLeft) :
    (j.claimed now clock).attempts.toInt = j.attempts.toInt + 1 := by
  have hlt := hasAttemptsLeft_iff.mp h
  have hmax := j.maxAttempts.toInt_lt
  exact toInt_attempts_claimed_of_lt (by omega)

inductive Turns : JobChange → Job → Job → Prop
  | claimed (j : Job) (now clock : Instant) :
      j.status = .pending → Turns .claimed j (j.claimed now clock)
  | completed (j : Job) (now clock : Instant) :
      j.status = .processing → Turns .completed j (j.finished now clock)
  | failed (j : Job) (error : String) (nextRetryAt : Option Instant) (clock : Instant) :
      j.status = .processing → Turns .failed j (j.failedWith error nextRetryAt clock)
  | reset (j : Job) (clock : Instant) :
      j.status = .failed → Turns .reset j (j.restarted clock)
  | requeued (j : Job) (now : Instant) :
      j.isDue now → Turns .requeued j (j.requeued now)
  | reaped (j : Job) (cutoff now : Instant) :
      j.isStale cutoff → Turns .reaped j (j.reaped now now)

theorem Turns.target {k : JobChange} {j j' : Job} (h : Turns k j j') : j'.status = k.target := by
  cases h <;> rfl

theorem Turns.processing_of_settles {k : JobChange} {j j' : Job} (h : Turns k j j')
    (hk : k.settles) : j.status = .processing := by
  cases h <;> simp_all [JobChange.settles]

theorem Turns.fileId {k : JobChange} {j j' : Job} (h : Turns k j j') : j'.fileId = j.fileId := by
  cases h <;> rfl

theorem Turns.createdAt {k : JobChange} {j j' : Job} (h : Turns k j j') :
    j'.createdAt = j.createdAt := by
  cases h <;> rfl

end Job

inductive RowStep (clock : Instant) (changes : List (Uuid × JobChange)) (id : Uuid) :
    Option Job → Option Job → Prop
  | same (row : Option Job) : (∀ k, (id, k) ∉ changes) → RowStep clock changes id row row
  | created (fileId : Uuid) (requestedBy : Option String) (maxAttempts : Int32) :
      changes = [(id, .created)] →
        RowStep clock changes id none (some (Job.fresh id fileId requestedBy maxAttempts clock))
  | turned {k : JobChange} {j j' : Job} :
      (id, k) ∈ changes → (∀ l, (id, l) ∈ changes → l = k) → Job.Turns k j j' →
        RowStep clock changes id (some j) (some j')

namespace RowStep

variable {clock : Instant} {changes : List (Uuid × JobChange)} {id : Uuid} {before after : Option Job}

theorem eq_of_unchanged (h : RowStep clock changes id before after) (hn : ∀ k, (id, k) ∉ changes) :
    after = before := by
  cases h with
  | same => rfl
  | created _ _ _ hc => exact absurd (hc ▸ List.mem_singleton_self _) (hn .created)
  | turned hk _ _ => exact absurd hk (hn _)

theorem target (h : RowStep clock changes id before after) {k : JobChange} (hk : (id, k) ∈ changes) :
    ∃ j, after = some j ∧ j.status = k.target := by
  cases h with
  | same _ hn => exact absurd hk (hn k)
  | created _ _ _ hc =>
    rw [hc, List.mem_singleton, Prod.mk.injEq] at hk
    exact ⟨_, rfl, by rw [hk.2]; rfl⟩
  | turned _ hu ht => exact ⟨_, rfl, hu _ hk ▸ ht.target⟩

theorem processing_of_settles (h : RowStep clock changes id before after) {k : JobChange}
    (hk : (id, k) ∈ changes) (hs : k.settles) : ∃ j, before = some j ∧ j.status = .processing := by
  cases h with
  | same _ hn => exact absurd hk (hn k)
  | created _ _ _ hc =>
    rw [hc, List.mem_singleton, Prod.mk.injEq] at hk
    rcases hs with hs | hs <;> rw [hs] at hk <;> cases hk.2
  | turned _ hu ht => exact ⟨_, rfl, ht.processing_of_settles (hu _ hk ▸ hs)⟩

end RowStep

end DocumentPreview
