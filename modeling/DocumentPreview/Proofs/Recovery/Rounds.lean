import DocumentPreview.Proofs.Recovery.Drain
import DocumentPreview.Proofs.Recovery.Reached

namespace DocumentPreview

open Program Shared

variable {cfg : PipelineSettings} {s t u : Shared} {i : Uuid} {j : Job}

inductive Round (cfg : PipelineSettings) (now : Instant) (s : Shared) :
    Option (Except StoreError SweepReport) → Shared → Prop
  | intro {u t : Shared} {r : Option (Except StoreError SweepReport)} : s.clock ≤ now →
      Expired { s with clock := now } cfg →
        (Sweep.runOnce cfg.staleAfter).Performs { s with clock := now } r u →
          Drained cfg u t → Round cfg now s r t

inductive Rounds (cfg : PipelineSettings) (ok : Option (Except StoreError SweepReport) → Prop) :
    Nat → Shared → Shared → Prop
  | zero (s : Shared) : Rounds cfg ok 0 s s
  | succ {n : Nat} {s u t : Shared} {now : Instant} {r : Option (Except StoreError SweepReport)} :
      Round cfg now s r u → ok r → Rounds cfg ok n u t → Rounds cfg ok (n + 1) s t

theorem Round.keeps {now : Instant} {r : Option (Except StoreError SweepReport)}
    (h : Round cfg now s r t) (hm : 0 < cfg.maxAttempts.toInt) (hs : s.Sound cfg) :
    t.Sound cfg ∧ t.store.rows.map (·.id) = s.store.rows.map (·.id) ∧ t.queue.buffer = [] := by
  cases h with
  | @intro u _ _ hnow he hp hd =>
    have start : Sound cfg { s with clock := now } := hs.later hnow
    have pass := Sweep.ensures_runOnce hm start cfg.staleAfter
    obtain ⟨sound, ids, -, buffer⟩ := hd.keeps hm (pass.begins start hp.begins)
    exact ⟨sound, ids.trans (pass.performs hp).ids, buffer⟩

theorem Round.row {now : Instant} {r : Option (Except StoreError SweepReport)}
    (h : Round cfg now s r t) (hr : r.isSome) (hm : 0 < cfg.maxAttempts.toInt) (hs : s.Sound cfg)
    (hb : s.store.rows.length ≤ 500) (hq : s.store.rows.length ≤ cfg.queueCapacity)
    (hj : s.store.get? i = some j) :
    ∃ k, t.store.get? i = some k ∧ (j.Settled → k = j) ∧
      (k.Settled ∨ k.attempts.toInt = j.attempts.toInt + 1 ∧ k.hasAttemptsLeft) := by
  cases h with
  | @intro u _ _ hnow he hp hd =>
    have start : Sound cfg { s with clock := now } := hs.later hnow
    have pass := Sweep.ensures_runOnce hm start cfg.staleAfter
    have sound := pass.begins start hp.begins
    have passed := pass.performs hp
    obtain ⟨k, hk, hjk, hks⟩ := passed.row_of_expired hr start he hb hj
    have queued : ∀ l ∈ u.store.rows, l.status = .pending → l.id ∈ u.queue.buffer :=
      fun l hl => passed.queued_of_pending hr start hb hq hl
    obtain ⟨l, hl, hkl, hls⟩ := hd.row hm sound queued hk
    refine ⟨l, hl, fun hset => ?_, ?_⟩
    · obtain rfl := hjk hset
      exact hkl hset.not_pending
    · rcases hks with hset | ⟨hp, ha⟩
      · obtain rfl := hkl hset.not_pending
        exact .inl hset
      · rw [← ha]
        exact hls hp

theorem Rounds.keeps {ok : Option (Except StoreError SweepReport) → Prop} {n : Nat}
    (h : Rounds cfg ok n s t) (hm : 0 < cfg.maxAttempts.toInt) (hs : s.Sound cfg) :
    t.Sound cfg ∧ t.store.rows.map (·.id) = s.store.rows.map (·.id) := by
  induction h with
  | zero => exact ⟨hs, rfl⟩
  | succ hr _ _ ih =>
    obtain ⟨sound, ids, -⟩ := hr.keeps hm hs
    obtain ⟨last, same⟩ := ih sound
    exact ⟨last, same.trans ids⟩

theorem Rounds.row {n : Nat} (h : Rounds cfg (·.isSome) n s t) (hm : 0 < cfg.maxAttempts.toInt)
    (hs : s.Sound cfg) (hb : s.store.rows.length ≤ 500)
    (hq : s.store.rows.length ≤ cfg.queueCapacity) (hj : s.store.get? i = some j) :
    ∃ k, t.store.get? i = some k ∧ (j.Settled → k = j) ∧
      (k.Settled ∨ j.attempts.toInt + n ≤ k.attempts.toInt ∧
        (j.hasAttemptsLeft ∨ 0 < n → k.hasAttemptsLeft)) := by
  -- On the rounds, each of which a job that is not settled pays for with an attempt.
  induction h generalizing j with
  | zero => exact ⟨j, hj, fun _ => rfl, .inr ⟨by simp, fun hl => hl.resolve_right (by simp)⟩⟩
  | @succ n s u t now r hr hok _ ih =>
    obtain ⟨k, hk, hjk, hks⟩ := hr.row hok hm hs hb hq hj
    obtain ⟨sound, ids, -⟩ := hr.keeps hm hs
    have length := MemoryStore.length_of_ids ids
    obtain ⟨l, hl, hkl, hls⟩ := ih sound (length ▸ hb) (length ▸ hq) hk
    refine ⟨l, hl, fun hset => ?_, ?_⟩
    · obtain rfl := hjk hset
      exact hkl hset
    · rcases hks with hset | ⟨ha, left⟩
      · obtain rfl := hkl hset
        exact .inl hset
      · refine hls.imp_right fun ⟨hle, hleft⟩ => ⟨?_, fun _ => hleft (.inl left)⟩
        push_cast
        omega

theorem Rounds.get?_of_not_queued {n : Nat} (h : Rounds cfg (·.isNone) n s t)
    (hm : 0 < cfg.maxAttempts.toInt) (hs : s.Sound cfg) (hi : i ∉ s.queue.buffer) :
    t.store.get? i = s.store.get? i := by
  induction h with
  | zero => rfl
  | succ hr hok _ ih =>
    obtain ⟨sound, -, buffer⟩ := hr.keeps hm hs
    have rest := ih sound (by simp [buffer])
    cases hr with
    | intro hnow _ hp hd =>
      have start := hs.later hnow
      cases (Sweep.ensures_runOnce hm start cfg.staleAfter).performs hp with
      | cut hnow' hcut =>
        exact rest.trans (hd.get?_of_not_queued hm (start.later hnow') hi)
      | swept => cases hok

theorem exists_round {now : Instant} (hm : 0 < cfg.maxAttempts.toInt) (hs : s.Sound cfg)
    (hnow : s.clock ≤ now) (he : Expired { s with clock := now } cfg) :
    ∃ r t, Round cfg now s r t := by
  have start := hs.later hnow
  obtain ⟨r, u, hp⟩ := exists_performs (every_runOnce_not_creates cfg.staleAfter)
    { s with clock := now }
  have sound := (Sweep.ensures_runOnce hm start cfg.staleAfter).begins start hp.begins
  obtain ⟨t, hd⟩ := exists_drained hm sound
  exact ⟨r, t, .intro hnow he hp hd⟩

theorem Round.isSome_iff_cutoff {now : Instant} {r : Option (Except StoreError SweepReport)}
    (h : Round cfg now s r t) (hm : 0 < cfg.maxAttempts.toInt) (hs : s.Sound cfg) :
    ((now.shift? (-Sweep.lease cfg.staleAfter)).isSome → r.isSome) ∧
      (r.isSome → (t.clock.shift? (-Sweep.lease cfg.staleAfter)).isSome) := by
  cases h with
  | intro hnow _ hp hd =>
    have start := hs.later hnow
    have nonneg := Sweep.lease_nonneg cfg.staleAfter
    have pass := Sweep.ensures_runOnce hm start cfg.staleAfter
    have sound := pass.begins start hp.begins
    cases pass.performs hp with
    | cut hread hcut =>
      refine ⟨fun hsome => ?_, fun hr => nomatch hr⟩
      have later := Instant.isSome_shift?_of_le hread nonneg hsome
      rw [hcut] at later
      cases later
    | swept hread hclock hcut =>
      obtain ⟨-, -, hle, -⟩ := hd.keeps hm sound
      refine ⟨fun _ => rfl, fun _ => ?_⟩
      exact Instant.isSome_shift?_of_le (Instant.le_trans hclock hle) nonneg (by rw [hcut]; rfl)

end DocumentPreview
