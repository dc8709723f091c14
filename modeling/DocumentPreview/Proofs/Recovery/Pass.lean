import DocumentPreview.Proofs.Recovery.Attempt

namespace DocumentPreview

open Program Shared

variable {cfg : PipelineSettings} {s t : Shared} {i : Uuid} {j : Job}

namespace Sweep

variable {staleAfter : Span}

inductive Passed (staleAfter : Span) (s : Shared) :
    Option (Except StoreError SweepReport) → Shared → Prop
  | cut {now : Instant} : s.clock ≤ now → now.shift? (-lease staleAfter) = none →
      Passed staleAfter s none { s with clock := now }
  | swept {now cutoff : Instant} {report : SweepReport} {t : Shared} :
      s.clock ≤ now → now ≤ t.clock → now.shift? (-lease staleAfter) = some cutoff →
        t.store = ((s.store.reapStale cutoff now).2.requeueDue now batch).2 →
          t.queue = s.queue.admitEach ((t.store.pending batch).map (·.id)) →
            Passed staleAfter s (some (.ok report)) t

theorem ensures_offerEach (hm : 0 < cfg.maxAttempts.toInt) {jobs : List Job} (hs : s.Sound cfg)
    (hj : jobs.map (·.id) ⊆ s.store.rows.map (·.id)) (report : SweepReport) :
    (offerEach jobs report).Ensures (Sound cfg)
      (fun r t => (∃ final, r = some (.ok final)) ∧
        t = { s with queue := s.queue.admitEach (jobs.map (·.id)) }) s := by
  induction jobs generalizing s report with
  | nil => exact ⟨⟨report, rfl⟩, rfl⟩
  | cons job jobs ih =>
    intro o ha
    obtain ⟨hid, htail⟩ := List.cons_subset.mp hj
    have sound := hs.answer hm ha (c := .offer job.id) hid
    refine ⟨sound, ?_⟩
    rw [List.map_cons, JobQueue.admitEach]
    rw [show s.answer o (.offer job.id) = ((s.queue.tryAdmit job.id).1,
      { s with queue := (s.queue.tryAdmit job.id).2 }) from rfl] at sound ⊢
    cases ht : (s.queue.tryAdmit job.id).1 with
    | full => exact ⟨⟨_, rfl⟩, by rw [if_pos rfl]⟩
    | closed => exact absurd ht (s.queue.tryAdmit_ne_closed job.id)
    | admitted | alreadyQueued =>
      rw [if_neg (by simp)]
      exact ih sound htail _

theorem ensures_offerPending (hm : 0 < cfg.maxAttempts.toInt) (hs : s.Sound cfg)
    (report : SweepReport) :
    (offerPending report).Ensures (Sound cfg)
      (fun r t => (∃ final, r = some (.ok final)) ∧ s.clock ≤ t.clock ∧ t.store = s.store ∧
        t.queue = s.queue.admitEach ((s.store.pending batch).map (·.id))) s := by
  intro o ha
  have sound := hs.answer hm ha (c := .store (.pending batch)) trivial
  have rows : (s.store.pending batch).map (·.id) ⊆ s.store.rows.map (·.id) := by
    refine List.map_subset _ fun j hj => ?_
    exact (List.mem_filter.mp (MemoryStore.mem_oldestFirst hj)).1
  refine ⟨sound, (ensures_offerEach hm sound rows report).imp ?_⟩
  rintro r t ⟨done, rfl⟩
  exact ⟨done, ha.1, rfl, rfl⟩

theorem ensures_requeue (hm : 0 < cfg.maxAttempts.toInt) (hs : s.Sound cfg) (now : Instant)
    (reaped : Nat) :
    (requeue now reaped).Ensures (Sound cfg)
      (fun r t => (∃ final, r = some (.ok final)) ∧ s.clock ≤ t.clock ∧
        t.store = (s.store.requeueDue now batch).2 ∧
        t.queue = s.queue.admitEach ((t.store.pending batch).map (·.id))) s := by
  intro o ha
  have sound := hs.answer hm ha (c := .store (.requeueDue now batch)) trivial
  refine ⟨sound, (ensures_offerPending hm sound _).imp ?_⟩
  rintro r t ⟨done, hc, hstore, hq⟩
  rw [← hstore] at hq
  exact ⟨done, Instant.le_trans ha.1 hc, hstore, hq⟩

theorem ensures_runOnce (hm : 0 < cfg.maxAttempts.toInt) (hs : s.Sound cfg) (staleAfter : Span) :
    (runOnce staleAfter).Ensures (Sound cfg) (Passed staleAfter s) s := by
  intro o ha
  have read := hs.answer hm ha (c := .clock) trivial
  refine ⟨read, ?_⟩
  rw [show s.answer o .clock = (o.time, { s with clock := o.time }) from rfl] at read ⊢
  dsimp only
  split
  · rename_i cutoff hcut
    intro o' ha'
    have sound := read.answer hm ha' (c := .store (.reapStale cutoff o.time)) trivial
    refine ⟨sound, (ensures_requeue hm sound o.time _).imp ?_⟩
    rintro r t ⟨⟨final, rfl⟩, hc, hstore, hq⟩
    exact .swept ha.1 (Instant.le_trans ha'.1 hc) hcut hstore hq
  · exact .cut ha.1 ‹_›

end Sweep

def Shared.Expired (s : Shared) (cfg : PipelineSettings) : Prop :=
  ∀ j ∈ s.store.rows,
    (j.status = .processing →
      ∀ b ∈ j.startedAt, b.nanos + Sweep.lease cfg.staleAfter < s.clock.nanos) ∧
    ∀ b ∈ j.nextRetryAt, b ≤ s.clock

instance (cfg : PipelineSettings) (s : Shared) : Decidable (s.Expired cfg) :=
  inferInstanceAs (Decidable (∀ j ∈ s.store.rows,
    (j.status = .processing →
      ∀ b ∈ j.startedAt, b.nanos + Sweep.lease cfg.staleAfter < s.clock.nanos) ∧
    ∀ b ∈ j.nextRetryAt, b ≤ s.clock))

theorem Job.not_isStale {cutoff : Instant} (h : j.status ≠ .processing) : ¬ j.isStale cutoff :=
  fun hs => h (isStale_iff.mp hs).1

theorem Job.not_isDue {now : Instant} (h : j.status ≠ .failed) : ¬ j.isDue now :=
  fun hd => h (isDue_iff.mp hd).1

theorem Job.swept {m : Int32} {now cutoff : Instant} (h : j.Recoverable m)
    (hl : j.status = .processing → j.isStale cutoff) (hd : ∀ b, j.nextRetryAt = some b → b ≤ now)
    {r k : Job} (hr : r = if j.isStale cutoff then j.reaped now now else j)
    (hk : k = if r.isDue now then r.requeued now else r) :
    (j.Settled → k = j) ∧ (k.Settled ∨ k.status = .pending ∧ k.attempts = j.attempts) := by
  cases hs : j.status with
  | pending =>
    rw [if_neg (not_isStale (by simp [hs]))] at hr
    subst hr
    rw [if_neg (not_isDue (by simp [hs]))] at hk
    subst hk
    exact ⟨fun _ => rfl, .inr ⟨hs, rfl⟩⟩
  | completed =>
    rw [if_neg (not_isStale (by simp [hs]))] at hr
    subst hr
    rw [if_neg (not_isDue (by simp [hs]))] at hk
    subst hk
    exact ⟨fun _ => rfl, .inl (.inl hs)⟩
  | processing =>
    rw [if_pos (hl hs)] at hr
    refine ⟨fun h => absurd hs h.not_processing, ?_⟩
    by_cases left : j.hasAttemptsLeft
    · have due : r.isDue now := by
        subst hr
        exact isDue_iff.mpr ⟨rfl, left, now, by simp [reaped, left], Int.le_refl _⟩
      rw [if_pos due] at hk
      subst hk hr
      exact .inr ⟨rfl, rfl⟩
    · have late : ¬ r.isDue now := by
        subst hr
        exact fun hd => left (isDue_iff.mp hd).2.1
      rw [if_neg late] at hk
      subst hk hr
      exact .inl (settled_of_failed rfl left)
  | failed =>
    rw [if_neg (not_isStale (by simp [hs]))] at hr
    subst hr
    by_cases left : r.hasAttemptsLeft
    · obtain ⟨b, hb⟩ := Option.isSome_iff_exists.mp (h.failed hs left)
      rw [if_pos (isDue_iff.mpr ⟨hs, left, b, hb, hd b hb⟩)] at hk
      subst hk
      exact ⟨fun h => absurd left (h.not_hasAttemptsLeft hs), .inr ⟨rfl, rfl⟩⟩
    · rw [if_neg fun hd => left (isDue_iff.mp hd).2.1] at hk
      subst hk
      exact ⟨fun _ => rfl, .inl (settled_of_failed hs left)⟩

theorem Shared.Expired.isStale {now cutoff : Instant} (h : s.Expired cfg) (hs : s.Sound cfg)
    (hnow : s.clock ≤ now) (hcut : now.shift? (-Sweep.lease cfg.staleAfter) = some cutoff)
    (hj : j ∈ s.store.rows) (hp : j.status = .processing) : j.isStale cutoff := by
  obtain ⟨b, hb⟩ := Option.isSome_iff_exists.mp ((hs.orderly.recoverable j hj).processing hp)
  have hover := (h j hj).1 hp b hb
  have hn : s.clock.nanos ≤ now.nanos := hnow
  have hc : cutoff.nanos = now.nanos + -Sweep.lease cfg.staleAfter := by
    simp only [Instant.shift?, Instant.ofNanos?] at hcut
    split at hcut
    · rw [← Option.some.inj hcut]
    · cases hcut
  refine Job.isStale_iff.mpr ⟨hp, b, hb, ?_⟩
  show b.nanos < cutoff.nanos
  omega

namespace Sweep.Passed

variable {staleAfter : Span} {r : Option (Except StoreError SweepReport)}

theorem ids (h : Passed staleAfter s r t) :
    t.store.rows.map (·.id) = s.store.rows.map (·.id) := by
  cases h with
  | cut => rfl
  | swept _ _ _ hstore =>
    rw [hstore]
    exact (MemoryStore.ids_requeueEach _).trans MemoryStore.ids_reapStale

theorem queued_of_pending (h : Passed staleAfter s r t) (hr : r.isSome) (hs : s.Sound cfg)
    (hb : s.store.rows.length ≤ 500) (hq : s.store.rows.length ≤ cfg.queueCapacity)
    (hj : j ∈ t.store.rows) (hp : j.status = .pending) : j.id ∈ t.queue.buffer := by
  have same := h.ids
  have length : t.store.rows.length ≤ batch.toNat := by
    rw [MemoryStore.length_of_ids same]
    exact hb
  cases h with
  | cut => cases hr
  | swept _ _ _ _ hqueue =>
    have offered : j.id ∈ (t.store.pending batch).map (·.id) :=
      List.mem_map_of_mem ((MemoryStore.mem_pending length).mpr ⟨hj, hp⟩)
    have jobs : (t.store.pending batch).map (·.id) ⊆ s.store.rows.map (·.id) := by
      rw [← same]
      exact List.map_subset _ fun k hk => ((MemoryStore.mem_pending length).mp hk).1
    have room : (s.store.rows.map (·.id)).length ≤ s.queue.capacity := by
      rw [List.length_map, hs.capacity]
      exact hq
    rw [hqueue]
    exact (JobQueue.mem_admitEach_of_room hs.faithful hs.queued jobs room).2 offered

theorem row_of_expired (h : Passed cfg.staleAfter s r t) (hr : r.isSome) (hs : s.Sound cfg)
    (he : s.Expired cfg) (hb : s.store.rows.length ≤ 500) (hj : s.store.get? i = some j) :
    ∃ k, t.store.get? i = some k ∧ (j.Settled → k = j) ∧
      (k.Settled ∨ k.status = .pending ∧ k.attempts = j.attempts) := by
  cases h with
  | cut => cases hr
  | @swept now cutoff _ _ hnow _ hcut hstore =>
    obtain ⟨hjr, -⟩ := MemoryStore.mem_of_get? hj
    have due : ∀ b, j.nextRetryAt = some b → b ≤ now := fun b hb =>
      Instant.le_trans ((he j hjr).2 b hb) hnow
    have stale := he.isStale hs hnow hcut hjr
    have swept := Job.swept (hs.orderly.recoverable j hjr) stale due rfl rfl
    have reaped : (s.store.reapStale cutoff now).2.Orderly cfg.maxAttempts s.clock :=
      hs.orderly.reapStale
    have length : (s.store.reapStale cutoff now).2.rows.length ≤ batch.toNat := by
      rw [MemoryStore.length_of_ids MemoryStore.ids_reapStale]
      exact hb
    rw [hstore, MemoryStore.get?_requeueDue reaped.distinct reaped.oneInFlight
      (Nat.le_trans (List.length_filter_le _ _) length),
      MemoryStore.get?_reapStale hs.orderly.distinct, hj, Option.map_some, Option.map_some]
    exact ⟨_, rfl, swept⟩

end Sweep.Passed

theorem Sweep.lease_nonneg (staleAfter : Span) : 0 ≤ lease staleAfter := by
  unfold lease Span.difference?
  split <;> simp

theorem Instant.isSome_shift?_of_le {a b : Instant} {n : Int} (hab : a ≤ b) (hn : 0 ≤ n)
    (h : (a.shift? (-n)).isSome) : (b.shift? (-n)).isSome := by
  have hle : a.nanos ≤ b.nanos := hab
  have hend := b.lt_end
  simp only [shift?, ofNanos?] at h ⊢
  split at h
  · rename_i inside
    rw [dif_pos (by omega)]
    rfl
  · cases h

theorem every_runOnce_not_creates (staleAfter : Span) :
    (Sweep.runOnce staleAfter).Every fun (c : ServiceCall) => ¬ c.Creates := by
  refine (Sweep.every_runOnce staleAfter).imp fun c hc => ?_
  cases hc <;> exact fun h => h

end DocumentPreview
