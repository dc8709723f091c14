import DocumentPreview.Proofs.Store.InFlight

namespace DocumentPreview

namespace Job

variable {j : Job} {m : Int32} {now clock : Instant}

structure Recoverable (m : Int32) (j : Job) : Prop where
  maxAttempts : j.maxAttempts = m
  nonneg : 0 ≤ j.attempts.toInt
  pending : j.status = .pending → j.hasAttemptsLeft
  processing : j.status = .processing → j.startedAt.isSome
  failed : j.status = .failed → j.hasAttemptsLeft → j.nextRetryAt.isSome

theorem recoverable_fresh {id fileId : Uuid} {requestedBy : Option String} (hm : 0 < m.toInt) :
    (fresh id fileId requestedBy m clock).Recoverable m where
  maxAttempts := rfl
  nonneg := Int.le_refl _
  pending := fun _ => hasAttemptsLeft_iff.mpr hm
  processing := fun h => nomatch h
  failed := fun h => nomatch h

namespace Recoverable

theorem claimed (h : j.Recoverable m) (hs : j.status = .pending) :
    (j.claimed now clock).Recoverable m where
  maxAttempts := h.maxAttempts
  nonneg := by
    rw [toInt_attempts_claimed (h.pending hs)]
    have := h.nonneg
    omega
  pending := fun h => nomatch h
  processing := fun _ => rfl
  failed := fun h => nomatch h

theorem finished (h : j.Recoverable m) : (j.finished now clock).Recoverable m where
  maxAttempts := h.maxAttempts
  nonneg := h.nonneg
  pending := fun h => nomatch h
  processing := fun h => nomatch h
  failed := fun h => nomatch h

theorem failedWith (h : j.Recoverable m) {error : String} {next : Option Instant}
    (hn : j.hasAttemptsLeft → next.isSome) : (j.failedWith error next clock).Recoverable m where
  maxAttempts := h.maxAttempts
  nonneg := h.nonneg
  pending := fun h => nomatch h
  processing := fun h => nomatch h
  failed := fun _ => hn

theorem restarted (h : j.Recoverable m) (hm : 0 < m.toInt) : (j.restarted clock).Recoverable m where
  maxAttempts := h.maxAttempts
  nonneg := Int.le_refl _
  pending := fun _ => hasAttemptsLeft_iff.mpr (h.maxAttempts ▸ hm)
  processing := fun h => nomatch h
  failed := fun h => nomatch h

theorem requeued (h : j.Recoverable m) (hd : j.isDue now) : (j.requeued clock).Recoverable m where
  maxAttempts := h.maxAttempts
  nonneg := h.nonneg
  pending := fun _ => (isDue_iff.mp hd).2.1
  processing := fun h => nomatch h
  failed := fun h => nomatch h

theorem reaped (h : j.Recoverable m) : (j.reaped now clock).Recoverable m where
  maxAttempts := h.maxAttempts
  nonneg := h.nonneg
  pending := fun h => nomatch h
  processing := fun h => nomatch h
  failed := fun _ hl => by
    have hj : j.hasAttemptsLeft := hl
    simp [Job.reaped, hj]

end Recoverable

end Job

namespace MemoryStore

variable {s : MemoryStore} {m : Int32} {clock now cutoff : Instant} {id freshId : Uuid} {j : Job}

def Newest (s : MemoryStore) (j : Job) : Prop :=
  ∀ k ∈ s.rows, k.fileId = j.fileId → k.createdAt ≤ j.createdAt

structure Orderly (m : Int32) (clock : Instant) (s : MemoryStore) : Prop where
  distinct : s.Distinct
  recoverable : ∀ j ∈ s.rows, j.Recoverable m
  newest : ∀ j ∈ s.rows, j.isInFlight → s.Newest j
  apart : ∀ j ∈ s.rows, ∀ k ∈ s.rows, j.createdAt = k.createdAt → j.id = k.id
  past : ∀ j ∈ s.rows, j.createdAt ≤ clock

theorem orderly_empty : empty.Orderly m clock where
  distinct := distinct_empty
  recoverable := fun _ hj => absurd hj List.not_mem_nil
  newest := fun _ hj => absurd hj List.not_mem_nil
  apart := fun _ hj => absurd hj List.not_mem_nil
  past := fun _ hj => absurd hj List.not_mem_nil

namespace Orderly

theorem later (h : s.Orderly m clock) (hc : clock ≤ now) : s.Orderly m now :=
  { h with past := fun j hj => Instant.le_trans (h.past j hj) hc }

theorem perm {t : MemoryStore} (h : s.Orderly m clock) (hp : s.rows.Perm t.rows) :
    t.Orderly m clock where
  distinct := h.distinct.perm hp
  recoverable := fun j hj => h.recoverable j (hp.mem_iff.mpr hj)
  newest := fun j hj hf k hk => h.newest j (hp.mem_iff.mpr hj) hf k (hp.mem_iff.mpr hk)
  apart := fun j hj k hk => h.apart j (hp.mem_iff.mpr hj) k (hp.mem_iff.mpr hk)
  past := fun j hj => h.past j (hp.mem_iff.mpr hj)

theorem oneInFlight (h : s.Orderly m clock) : s.OneEach Job.isInFlight := by
  intro a ha b hb hfa hfb hab
  have hle := h.newest a ha hfa b hb hab.symm
  have hge := h.newest b hb hfb a ha hab
  exact h.apart a ha b hb (Instant.le_antisymm hge hle)

theorem change {p : Job → Bool} {f : Job → Job} (h : s.Orderly m clock)
    (hf : ∀ r ∈ s.rows, p r →
      ((f r).id = r.id ∧ (f r).fileId = r.fileId ∧ (f r).createdAt = r.createdAt) ∧
      (f r).Recoverable m ∧ ((f r).isInFlight → s.Newest r)) :
    (s.change p f).Orderly m clock := by
  have back : ∀ a ∈ (s.change p f).rows, ∃ r ∈ s.rows,
      (a.id = r.id ∧ a.fileId = r.fileId ∧ a.createdAt = r.createdAt) ∧ a.Recoverable m ∧
      (a.isInFlight → s.Newest r) := by
    intro a ha
    obtain ⟨r, hr, rfl⟩ := mem_change.mp ha
    refine ⟨r, hr, ?_⟩
    split
    · exact hf r hr ‹_›
    · exact ⟨⟨rfl, rfl, rfl⟩, h.recoverable r hr, h.newest r hr⟩
  refine ⟨h.distinct.change fun r hr hp => (hf r hr hp).1.1, ?_, ?_, ?_, ?_⟩
  · intro a ha
    obtain ⟨_, _, _, hrec, _⟩ := back a ha
    exact hrec
  · intro a ha hfa b hb hab
    obtain ⟨r, hr, ⟨-, har, hac⟩, -, hn⟩ := back a ha
    obtain ⟨q, hq, ⟨-, hbq, hbc⟩, -, -⟩ := back b hb
    rw [hac, hbc]
    exact hn hfa q hq (hbq.symm.trans (hab.trans har))
  · intro a ha b hb hab
    obtain ⟨r, hr, ⟨hai, -, hac⟩, -⟩ := back a ha
    obtain ⟨q, hq, ⟨hbi, -, hbc⟩, -⟩ := back b hb
    rw [hai, hbi]
    exact h.apart r hr q hq (hac.symm.trans (hab.trans hbc))
  · intro a ha
    obtain ⟨r, hr, ⟨-, -, hac⟩, -⟩ := back a ha
    rw [hac]
    exact h.past r hr

theorem put (h : s.Orderly m clock) (hu : s.Unused j.id) (hr : j.Recoverable m)
    (hfree : ∀ r ∈ s.rows, r.fileId = j.fileId → ¬ r.isInFlight) (hc : clock ≤ j.createdAt)
    (hnew : ∀ r ∈ s.rows, r.createdAt ≠ j.createdAt) : (s.put j).Orderly m j.createdAt := by
  have old : ∀ r ∈ s.rows, r.createdAt ≤ j.createdAt := fun r hr =>
    Instant.le_trans (h.past r hr) hc
  refine ⟨h.distinct.put, ?_, ?_, ?_, ?_⟩ <;> simp only [mem_put_of_unused hu]
  · rintro a (ha | rfl)
    · exact h.recoverable a ha
    · exact hr
  · rintro a ha hfa b hb hab
    rcases (mem_put_of_unused hu).mp hb with hbs | rfl <;> rcases ha with ha | rfl
    · exact h.newest a ha hfa b hbs hab
    · exact old b hbs
    · exact absurd hfa (hfree a ha hab.symm)
    · exact Int.le_refl _
  · rintro a (ha | rfl) b (hb | rfl) hab
    · exact h.apart a ha b hb hab
    · exact absurd hab (hnew a ha)
    · exact absurd hab.symm (hnew b hb)
    · rfl
  · rintro a (ha | rfl)
    · exact old a ha
    · exact Int.le_refl _

end Orderly

end MemoryStore

end DocumentPreview
