import DocumentPreview.Proofs.Recovery.Sound
import DocumentPreview.Proofs.Service.Ownership

namespace DocumentPreview

open Program

namespace Job

def Settled (j : Job) : Prop :=
  j.status = .completed ∨ j.status = .failed ∧ j.maxAttempts ≤ j.attempts

instance (j : Job) : Decidable j.Settled :=
  inferInstanceAs (Decidable (_ ∨ _))

theorem not_hasAttemptsLeft_iff {j : Job} : ¬ j.hasAttemptsLeft ↔ j.maxAttempts ≤ j.attempts := by
  simp [hasAttemptsLeft]

theorem settled_of_failed {j : Job} (hs : j.status = .failed) (ha : ¬ j.hasAttemptsLeft) :
    j.Settled :=
  .inr ⟨hs, not_hasAttemptsLeft_iff.mp ha⟩

theorem Settled.not_pending {j : Job} (h : j.Settled) : j.status ≠ .pending := by
  rcases h with hc | ⟨hf, -⟩
  · simp [hc]
  · simp [hf]

theorem Settled.not_processing {j : Job} (h : j.Settled) : j.status ≠ .processing := by
  rcases h with hc | ⟨hf, -⟩
  · simp [hc]
  · simp [hf]

theorem Settled.not_hasAttemptsLeft {j : Job} (h : j.Settled) (hf : j.status = .failed) :
    ¬ j.hasAttemptsLeft := by
  rcases h with hc | ⟨-, ha⟩
  · rw [hf] at hc
    cases hc
  · exact not_hasAttemptsLeft_iff.mpr ha

end Job

namespace Shared

structure OnlyRow (id : Uuid) (s t : Shared) : Prop where
  ids : t.store.rows.map (·.id) = s.store.rows.map (·.id)
  others : ∀ i, i ≠ id → t.store.get? i = s.store.get? i
  queue : t.queue = s.queue
  clock : s.clock ≤ t.clock

theorem OnlyRow.refl (id : Uuid) (s : Shared) : s.OnlyRow id s :=
  ⟨rfl, fun _ _ => rfl, rfl, Int.le_refl _⟩

structure Within (cfg : PipelineSettings) (base : Shared) (id : Uuid) (s : Shared) : Prop where
  sound : s.Sound cfg
  frame : base.OnlyRow id s

structure Attempting (cfg : PipelineSettings) (base : Shared) (job : Job) (s : Shared) : Prop
    extends Within cfg base job.id s where
  row : s.store.get? job.id = some job
  processing : job.status = .processing

structure Attempted (cfg : PipelineSettings) (base : Shared) (job : Job) (s : Shared) : Prop
    extends Within cfg base job.id s where
  row : ∃ j, s.store.get? job.id = some j ∧ j.status ≠ .pending ∧
    (j.Settled ∨ j.attempts = job.attempts ∧ j.hasAttemptsLeft)

structure Processed (cfg : PipelineSettings) (base : Shared) (id : Uuid) (s : Shared) : Prop
    extends Within cfg base id s where
  waiting : ∀ j, base.store.get? id = some j → j.status = .pending →
    ∃ k, s.store.get? id = some k ∧ k.status ≠ .pending ∧
      (k.Settled ∨ k.attempts.toInt = j.attempts.toInt + 1 ∧ k.hasAttemptsLeft)
  other : ∀ j, base.store.get? id = some j → j.status ≠ .pending → s.store.get? id = some j

variable {cfg : PipelineSettings} {base s : Shared} {job : Job} {id : Uuid} {o : Outside}
  {c : ServiceCall}

theorem Processed.not_pending (h : Processed cfg base id s) (hb : base.store.Distinct) {k : Job}
    (hk : s.store.get? id = some k) : k.status ≠ .pending := by
  obtain ⟨hkr, rfl⟩ := MemoryStore.mem_of_get? hk
  obtain ⟨j, hjb⟩ := MemoryStore.exists_get?_of_ids hb h.frame.ids hkr
  by_cases hp : j.status = .pending
  · obtain ⟨l, hl, hlp, -⟩ := h.waiting j hjb hp
    exact Option.some.inj (hl.symm.trans hk) ▸ hlp
  · exact Option.some.inj ((h.other j hjb hp).symm.trans hk) ▸ hp

theorem Within.quiet (h : Within cfg base id s) (hc : c.Quiet) (ha : s.Allows o c) :
    Within cfg base id (s.answer o c).2 := by
  cases c with
  | clock =>
    obtain ⟨sound, ⟨ids, others, queue, clock⟩⟩ := h
    exact ⟨sound.later ha.1, ⟨ids, others, queue, Instant.le_trans clock ha.1⟩⟩
  | documents | within | count | timeAttempt => exact h
  | _ => exact hc.elim

theorem store_quiet (hc : c.Quiet) : (s.answer o c).2.store = s.store := by
  cases c with
  | clock | documents | within | count | timeAttempt => rfl
  | _ => exact hc.elim

theorem Attempting.quiet (h : Attempting cfg base job s) (hc : c.Quiet) (ha : s.Allows o c) :
    Attempting cfg base job (s.answer o c).2 where
  toWithin := h.toWithin.quiet hc ha
  row := by rw [store_quiet hc, h.row]
  processing := h.processing

theorem Attempted.quiet (h : Attempted cfg base job s) (hc : c.Quiet) (ha : s.Allows o c) :
    Attempted cfg base job (s.answer o c).2 where
  toWithin := h.toWithin.quiet hc ha
  row := by
    rw [store_quiet hc]
    exact h.row

theorem Attempting.abandoned (h : Attempting cfg base job s) (ha : job.hasAttemptsLeft) :
    Attempted cfg base job s where
  toWithin := h.toWithin
  row := ⟨job, h.row, by simp [h.processing], .inr ⟨rfl, ha⟩⟩

theorem OnlyRow.changeRow {f : Job → Job} {time : Instant} (h : base.OnlyRow id s)
    (hd : s.store.Distinct) (hf : ∀ j, (f j).id = j.id) (ht : s.clock ≤ time) :
    base.OnlyRow id { s with store := s.store.changeRow id f, clock := time } where
  ids := (MemoryStore.ids_change fun r _ _ => hf r).trans h.ids
  others := fun i hi => (MemoryStore.get?_changeRow_of_ne hd hf hi).trans (h.others i hi)
  queue := h.queue
  clock := Instant.le_trans h.clock ht

theorem Attempting.changeRow {f : Job → Job} {time : Instant} (h : Attempting cfg base job s)
    (hs : Sound cfg { s with store := s.store.changeRow job.id f, clock := time })
    (hf : ∀ j, (f j).id = j.id) (ht : s.clock ≤ time) (hn : (f job).status ≠ .pending)
    (ho : (f job).Settled ∨ (f job).attempts = job.attempts ∧ (f job).hasAttemptsLeft) :
    Attempted cfg base job { s with store := s.store.changeRow job.id f, clock := time } where
  sound := hs
  frame := h.frame.changeRow h.sound.orderly.distinct hf ht
  row := ⟨f job, MemoryStore.get?_changeRow_self h.sound.orderly.distinct hf h.row, hn, ho⟩

theorem Within.claim_refused {now : Instant} (h : Within cfg base id s)
    (hm : 0 < cfg.maxAttempts.toInt) (ha : s.Allows o (.store (.claim id now)))
    (he : s.store.transition id .pending (·.claimed now o.time) = (none, s.store)) :
    Within cfg base id { s with store := s.store, clock := o.time } where
  sound := by
    have sound := h.sound.answer hm ha trivial
    rwa [answer_store_eq (.claim id now) he] at sound
  frame := ⟨h.frame.ids, h.frame.others, h.frame.queue, Instant.le_trans h.frame.clock ha.1⟩

theorem Within.claimed {now : Instant} {j : Job} (h : Within cfg base j.id s)
    (hm : 0 < cfg.maxAttempts.toInt) (ha : s.Allows o (.store (.claim j.id now)))
    (hj : s.store.get? j.id = some j) (hp : j.status = .pending) :
    s.answer o (.store (.claim j.id now)) =
        (.ok (some (j.claimed now o.time)),
          { s with store := s.store.changeRow j.id (·.claimed now o.time), clock := o.time }) ∧
      Attempting cfg base (j.claimed now o.time)
        { s with store := s.store.changeRow j.id (·.claimed now o.time), clock := o.time } := by
  have answer : s.answer o (.store (.claim j.id now)) = (.ok (some (j.claimed now o.time)),
      { s with store := s.store.changeRow j.id (·.claimed now o.time), clock := o.time }) :=
    answer_store_eq (.claim j.id now) (MemoryStore.transition_of_get? hj hp)
  have sound := h.sound.answer hm ha trivial
  rw [answer] at sound
  have distinct := h.sound.orderly.distinct
  exact ⟨answer, ⟨sound, h.frame.changeRow distinct Job.id_claimed ha.1⟩,
    MemoryStore.get?_changeRow_self distinct Job.id_claimed hj, rfl⟩

theorem Attempting.answer_complete (h : Attempting cfg base job s) (now : Instant) :
    s.answer o (.store (.complete job.id now)) =
      (.ok (some (job.finished now o.time)),
        { s with store := s.store.changeRow job.id (·.finished now o.time), clock := o.time }) :=
  answer_store_eq (.complete job.id now) (MemoryStore.transition_of_get? h.row h.processing)

theorem Attempting.answer_recordFailure {error : String} {next : Option Instant}
    (h : Attempting cfg base job s) :
    s.answer o (.store (.recordFailure job.id error next)) =
      (.ok (some (job.failedWith error next o.time)),
        { s with
          store := s.store.changeRow job.id (·.failedWith error next o.time)
          clock := o.time }) :=
  answer_store_eq (.recordFailure job.id error next)
    (MemoryStore.transition_of_get? h.row h.processing)

end Shared

namespace Worker

open Shared

variable {cfg : PipelineSettings} {base s : Shared} {job : Job} {w : Worker}

abbrev Attempts (cfg : PipelineSettings) (base : Shared) (job : Job)
    (p : ServiceProgram (Option Job)) : Prop :=
  ∀ s, Attempting cfg base job s →
    p.Ensures (Within cfg base job.id) (fun _ => Attempted cfg base job) s

theorem Attempts.call {c : ServiceCall} {next : c.Reply → ServiceProgram (Option Job)}
    (hc : c.Quiet) (h : ∀ r, Attempts cfg base job (next r)) :
    Attempts cfg base job (.call c next) := by
  intro s hs o ha
  have hq := hs.quiet hc ha
  exact ⟨hq.toWithin, h _ _ hq⟩

theorem attempts_recordSuccess (hm : 0 < cfg.maxAttempts.toInt) :
    Attempts cfg base job (recordSuccess job) := by
  refine Attempts.call trivial fun now s hs o ha => ?_
  have sound := hs.sound.answer hm ha trivial
  rw [hs.answer_complete now] at sound ⊢
  have done := hs.changeRow sound Job.id_finished ha.1 (by simp [Job.finished]) (.inl (.inl rfl))
  refine ⟨done.toWithin, fun o ha => ?_⟩
  have counted := done.quiet (c := .count .jobsCompleted) trivial ha
  exact ⟨counted.toWithin, counted⟩

theorem attempts_recordFailureAt (hm : 0 < cfg.maxAttempts.toInt) (error : AttemptError)
    {next : Option Instant} (hn : job.hasAttemptsLeft → next.isSome) :
    Attempts cfg base job (recordFailureAt job error next) := by
  refine Attempts.call trivial fun _ s hs o ha => ?_
  have heeds : s.Heeds cfg.maxAttempts (.store (.recordFailure job.id error.message next)) := by
    intro j hj
    obtain rfl := Option.some.inj (hs.row.symm.trans hj)
    exact hn
  have sound := hs.sound.answer hm ha heeds
  rw [hs.answer_recordFailure] at sound ⊢
  have failed := hs.changeRow sound Job.id_failedWith ha.1 (by simp [Job.failedWith]) (by
    by_cases left : job.hasAttemptsLeft
    · exact .inr ⟨rfl, left⟩
    · exact .inl (Job.settled_of_failed rfl left))
  exact ⟨failed.toWithin, failed⟩

theorem attempts_recordFailure (hm : 0 < cfg.maxAttempts.toInt) (error : AttemptError) :
    Attempts cfg base job (w.recordFailure job error) := by
  unfold recordFailure
  split
  · rename_i left
    refine Attempts.call trivial fun now => ?_
    split
    · exact attempts_recordFailureAt hm error fun _ => rfl
    · exact fun s hs => hs.abandoned left
  · exact attempts_recordFailureAt hm error fun left => absurd left ‹_›

theorem attempts_finish (hm : 0 < cfg.maxAttempts.toInt) (outcome : Except AttemptError Unit) :
    Attempts cfg base job (w.finish job outcome) := by
  refine Attempts.call trivial fun _ => ?_
  cases outcome with
  | ok => exact attempts_recordSuccess hm
  | error e => exact attempts_recordFailure hm e

theorem attempts_attempt (hm : 0 < cfg.maxAttempts.toInt) :
    Attempts cfg base job (w.attempt job) :=
  attempt_closed (fun _ _ hc => Attempts.call hc.quiet) (attempts_finish hm)

theorem processed_of_attempted {j : Job} {now clock : Instant} {t : Shared} (hs : s.Sound cfg)
    (hj : s.store.get? j.id = some j) (hp : j.status = .pending)
    (h : Attempted cfg s (j.claimed now clock) t) : Processed cfg s j.id t where
  toWithin := h.toWithin
  waiting := by
    intro i hi _
    obtain rfl := Option.some.inj (hj.symm.trans hi)
    obtain ⟨k, hk, hkp, hks⟩ := h.row
    refine ⟨k, hk, hkp, hks.imp_right fun ⟨ha, hl⟩ => ⟨?_, hl⟩⟩
    rw [ha]
    have recoverable := hs.orderly.recoverable j (MemoryStore.mem_of_get? hj).1
    exact Job.toInt_attempts_claimed (recoverable.pending hp)
  other := by
    intro i hi hn
    obtain rfl := Option.some.inj (hj.symm.trans hi)
    exact absurd hp hn

theorem ensures_process (hm : 0 < cfg.maxAttempts.toInt) (hs : s.Sound cfg) (id : Uuid) :
    (w.process id).Ensures (Within cfg s id) (fun _ => Processed cfg s id) s := by
  intro o ha
  have read : Within cfg s id (s.answer o .clock).2 :=
    Within.quiet ⟨hs, .refl id s⟩ (c := .clock) trivial ha
  refine ⟨read, ?_⟩
  have same : (s.answer o .clock).2.store = s.store := rfl
  generalize (s.answer o .clock).2 = u at read same
  generalize (s.answer o .clock).1 = now
  intro o' ha'
  rcases u.store.transition_cases id .pending (·.claimed now o'.time) with
    ⟨hn, he⟩ | ⟨j, hj, hp, -⟩
  · have refused := read.claim_refused hm ha' he
    rw [same] at hn
    rw [answer_store_eq (.claim id now) he]
    exact ⟨refused, refused, fun j hj hp => absurd hp (hn j hj), fun j hj _ => same.symm ▸ hj⟩
  · obtain rfl := (MemoryStore.mem_of_get? hj).2
    obtain ⟨answer, attempting⟩ := read.claimed hm ha' hj hp
    rw [same] at hj
    rw [answer]
    exact ⟨attempting.toWithin, (attempts_attempt hm _ attempting).imp
      fun _ _ => processed_of_attempted hs hj hp⟩

end Worker

end DocumentPreview
