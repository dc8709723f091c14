import DocumentPreview.Proofs.Recovery.Rounds

namespace DocumentPreview

open Program Shared

theorem settled_after_rounds {cfg : PipelineSettings} {s : Shared} (h : Reached cfg s)
    (hm : 1 ≤ cfg.maxAttempts) (hb : s.store.rows.length ≤ 500)
    (hq : s.store.rows.length ≤ cfg.queueCapacity) :
    (∀ t, Rounds cfg (·.isSome) cfg.maxAttempts.toInt.toNat s t → ∀ j ∈ t.store.rows, j.Settled) ∧
    (∀ n t, Rounds cfg (·.isNone) n s t →
      ∀ j ∈ s.store.rows, j.id ∉ s.queue.buffer → j ∈ t.store.rows) ∧
    ∀ n u, Rounds cfg (fun _ => True) n s u → ∀ now, u.clock ≤ now →
      Expired { u with clock := now } cfg → (∃ r t, Round cfg now u r t) ∧
        ∀ r t, Round cfg now u r t →
          ((now.shift? (-Sweep.lease cfg.staleAfter)).isSome → r.isSome) ∧
          (r.isSome → (t.clock.shift? (-Sweep.lease cfg.staleAfter)).isSome) := by
  have hpos : 0 < cfg.maxAttempts.toInt := by
    have hle := Int32.le_iff_toInt_le.mp hm
    rw [show (1 : Int32).toInt = 1 by decide] at hle
    omega
  have sound := h.sound hpos
  have distinct := sound.orderly.distinct
  refine ⟨?_, ?_, ?_⟩
  · intro t hr k hk
    obtain ⟨last, ids⟩ := hr.keeps hpos sound
    obtain ⟨j, hj⟩ := MemoryStore.exists_get?_of_ids distinct ids hk
    obtain ⟨l, hl, -, hls⟩ := hr.row hpos sound hb hq hj
    obtain rfl : k = l :=
      Option.some.inj ((MemoryStore.get?_self last.orderly.distinct hk).symm.trans hl)
    -- Otherwise the job would have spent all its attempts and have one left.
    refine hls.resolve_right fun ⟨spent, left⟩ => ?_
    have below := Job.hasAttemptsLeft_iff.mp (left (.inr (by omega)))
    rw [(last.orderly.recoverable k hk).maxAttempts] at below
    have nonneg := (sound.orderly.recoverable j (MemoryStore.mem_of_get? hj).1).nonneg
    omega
  · intro n t hr j hj hn
    have row := hr.get?_of_not_queued hpos sound hn
    rw [MemoryStore.get?_self distinct hj] at row
    exact (MemoryStore.mem_of_get? row).1
  · intro n u hr now hnow he
    obtain ⟨last, -⟩ := hr.keeps hpos sound
    exact ⟨exists_round hpos last hnow he, fun _ _ hround => hround.isSome_iff_cutoff hpos last⟩

namespace SlowFile

def late : Instant :=
  { nanos := 1000 * 1_000_000_000 }

def after {α : Type} (s : Shared) (p : ServiceProgram α) (now : Instant) : Shared :=
  (p.run (fun c s => s.answer (.slow now (.ofNat 1)) c) s).2

theorem performs_after {α : Type} {p : ServiceProgram α}
    (h : p.Every fun (c : ServiceCall) => ¬ c.Creates) (s : Shared) (now : Instant)
    (hnow : s.clock ≤ now) : ∃ r, p.Performs s r (after s p now) :=
  ⟨_, performs_run (o := .slow now (.ofNat 1)) h hnow⟩

def twoAttempts (staleAfter : Span) : PipelineSettings :=
  { PipelineSettings.default with maxAttempts := 2, staleAfter := staleAfter }

def slowWorker : Worker :=
  ⟨.default, .ofSeconds 120⟩

def queuedOnce : Shared :=
  after ⟨.empty, ⟨100, [], []⟩, .epoch⟩ (Previews.enqueue 2 (.ofNat 9) none) .epoch

def delivered : Shared :=
  { queuedOnce with queue := ⟨100, [], []⟩ }

theorem performs_queuedOnce :
    ∃ r, (Previews.enqueue 2 (.ofNat 9) none).Performs ⟨.empty, ⟨100, [], []⟩, .epoch⟩ r
      queuedOnce := by
  have now : Instant.epoch ≤ Instant.epoch := Int.le_refl _
  have fresh : MemoryStore.empty.Admits .epoch (.ofNat 1) (.create (.ofNat 9) none 2) :=
    ⟨fun _ hj => absurd hj List.not_mem_nil, fun _ hj => absurd hj List.not_mem_nil⟩
  exact ⟨_, .slow .epoch (.ofNat 1), ⟨now, trivial⟩, .slow .epoch (.ofNat 1), ⟨now, fresh⟩,
    .slow .epoch (.ofNat 1), ⟨now, trivial⟩, .slow .epoch (.ofNat 1), ⟨now, trivial⟩, rfl, rfl⟩

theorem reached_queuedOnce (staleAfter : Span) : Reached (twoAttempts staleAfter) queuedOnce := by
  have start : Reached (twoAttempts staleAfter) ⟨.empty, ⟨100, [], []⟩, .epoch⟩ := .start _ rfl
  obtain ⟨r, hp⟩ := performs_queuedOnce
  exact start.ended (.enqueue (.ofNat 9) none) hp

theorem begun_delivered (staleAfter : Span) :
    Begun (twoAttempts staleAfter) queuedOnce (.work slowWorker (.ofNat 1)) delivered :=
  .work (q := ⟨100, [], []⟩) (by decide +kernel)

def failedOnce : Shared :=
  after delivered (slowWorker.process (.ofNat 1)) .epoch

theorem reached_failedOnce (staleAfter : Span) : Reached (twoAttempts staleAfter) failedOnce := by
  obtain ⟨r, hp⟩ := performs_after (every_process_not_creates slowWorker (.ofNat 1))
    delivered .epoch (Int.le_refl _)
  exact (reached_queuedOnce staleAfter).ended (begun_delivered staleAfter) hp

def sweptLate (staleAfter : Span) (s : Shared) : Shared :=
  after { s with clock := late } (Sweep.runOnce staleAfter) late

theorem performs_sweptLate (staleAfter : Span) (s : Shared) :
    ∃ r, (Sweep.runOnce staleAfter).Performs { s with clock := late } r (sweptLate staleAfter s) :=
  performs_after (every_runOnce_not_creates staleAfter) _ late (Int.le_refl _)

theorem round_sweptLate (staleAfter : Span) (s : Shared) (hnow : s.clock ≤ late)
    (he : Expired { s with clock := late } (twoAttempts staleAfter))
    (hd : (sweptLate staleAfter s).queue.dequeue? = none) :
    ∃ r, Round (twoAttempts staleAfter) late s r (sweptLate staleAfter s) := by
  obtain ⟨r, hp⟩ := performs_sweptLate staleAfter s
  exact ⟨r, .intro hnow he hp (.empty hd)⟩

theorem rounds_twoAttempts (staleAfter : Span) :
    (twoAttempts staleAfter).maxAttempts.toInt.toNat = 2 := by
  show (2 : Int32).toInt.toNat = 2
  decide

def claimedOnce : Shared :=
  { delivered with store := (delivered.store.run .epoch (.ofNat 1) (.claim (.ofNat 1) .epoch)).2 }

theorem reached_claimedOnce (staleAfter : Span) : Reached (twoAttempts staleAfter) claimedOnce := by
  refine (reached_queuedOnce staleAfter).crashed (begun_delivered staleAfter) ?_
  have now : Instant.epoch ≤ Instant.epoch := Int.le_refl _
  exact .inr ⟨.slow .epoch (.ofNat 1), ⟨now, trivial⟩,
    .inr ⟨.slow .epoch (.ofNat 1), ⟨now, trivial⟩, .inl rfl⟩⟩

def failedTwice : Shared :=
  after { sweptLate (.ofSeconds 900) claimedOnce with queue := ⟨100, [], []⟩ }
    (slowWorker.process (.ofNat 1)) late

theorem settled_after_crash :
    ∃ s t, Reached (twoAttempts (.ofSeconds 900)) s ∧
      1 ≤ (twoAttempts (.ofSeconds 900)).maxAttempts ∧ s.store.rows.length ≤ 500 ∧
      s.store.rows.length ≤ (twoAttempts (.ofSeconds 900)).queueCapacity ∧
      Rounds (twoAttempts (.ofSeconds 900)) (·.isSome) 2 s t ∧ ∀ j ∈ t.store.rows, j.Settled := by
  have reached := reached_claimedOnce (.ofSeconds 900)
  have claimedSound := reached.sound (by decide)
  obtain ⟨r, hp⟩ := performs_sweptLate (.ofSeconds 900) claimedOnce
  obtain ⟨_, hw⟩ := performs_after (every_process_not_creates slowWorker (.ofNat 1))
    { sweptLate (.ofSeconds 900) claimedOnce with queue := ⟨100, [], []⟩ } late (by decide +kernel)
  have first : Round (twoAttempts (.ofSeconds 900)) late claimedOnce r failedTwice :=
    .intro (by decide +kernel) (by decide +kernel) hp
      (.work (q := ⟨100, [], []⟩) (by decide +kernel) hw (.empty (by decide +kernel)))
  obtain ⟨r', second⟩ := round_sweptLate (.ofSeconds 900) failedTwice
    (by decide +kernel) (by decide +kernel) (by decide +kernel)
  obtain ⟨failedSound, -⟩ := first.keeps (by decide) claimedSound
  have rounds : Rounds (twoAttempts (.ofSeconds 900)) (·.isSome) 2 claimedOnce
      (sweptLate (.ofSeconds 900) failedTwice) :=
    .succ first ((first.isSome_iff_cutoff (by decide) claimedSound).1 (by decide +kernel))
      (.succ second ((second.isSome_iff_cutoff (by decide) failedSound).1 (by decide +kernel))
        (.zero _))
  have settled := settled_after_rounds reached (by decide) (by decide +kernel) (by decide +kernel)
  rw [rounds_twoAttempts] at settled
  exact ⟨claimedOnce, _, reached, by decide, by decide +kernel, by decide +kernel, rounds,
    settled.1 _ rounds⟩

theorem unsettled_after_rounds :
    ∃ cfg s t, Reached cfg s ∧ 1 ≤ cfg.maxAttempts ∧ s.store.rows.length ≤ 500 ∧
      s.store.rows.length ≤ cfg.queueCapacity ∧
      Rounds cfg (fun _ => True) cfg.maxAttempts.toInt.toNat s t ∧
      ∃ j ∈ t.store.rows, ¬ j.Settled := by
  obtain ⟨r, first⟩ := round_sweptLate (.ofSeconds (10 ^ 13)) failedOnce
    (by decide +kernel) (by decide +kernel) (by decide +kernel)
  obtain ⟨r', second⟩ := round_sweptLate (.ofSeconds (10 ^ 13))
    (sweptLate (.ofSeconds (10 ^ 13)) failedOnce)
    (by decide +kernel) (by decide +kernel) (by decide +kernel)
  refine ⟨twoAttempts (.ofSeconds (10 ^ 13)), failedOnce,
    sweptLate (.ofSeconds (10 ^ 13)) (sweptLate (.ofSeconds (10 ^ 13)) failedOnce),
    reached_failedOnce _, by decide, by decide +kernel, by decide +kernel, ?_, by decide +kernel⟩
  rw [rounds_twoAttempts]
  exact .succ first trivial (.succ second trivial (.zero _))

end SlowFile

end DocumentPreview
