import DocumentPreview.Proofs.Recovery.Attempt
import DocumentPreview.Proofs.Queue.Admission

namespace DocumentPreview

open Program Shared

variable {cfg : PipelineSettings} {s t u : Shared} {i : Uuid} {j : Job}

inductive Drained (cfg : PipelineSettings) : Shared → Shared → Prop
  | empty {s : Shared} : s.queue.dequeue? = none → Drained cfg s s
  | work {s u t : Shared} {id : Uuid} {q : JobQueue} {r : Option (Option Job)} :
      s.queue.dequeue? = some (id, q) →
        (Worker.process ⟨cfg.retry, cfg.conversionTimeout⟩ id).Performs { s with queue := q } r u →
          Drained cfg u t → Drained cfg s t

theorem Drained.keeps (h : Drained cfg s t) (hm : 0 < cfg.maxAttempts.toInt) (hs : s.Sound cfg) :
    t.Sound cfg ∧ t.store.rows.map (·.id) = s.store.rows.map (·.id) ∧ s.clock ≤ t.clock ∧
      t.queue.buffer = [] := by
  induction h with
  | empty hd => exact ⟨hs, rfl, Int.le_refl _, JobQueue.dequeue?_eq_none_iff.mp hd⟩
  | work hd hp _ ih =>
    have step := (Worker.ensures_process hm (hs.dequeue hd) _).performs hp
    obtain ⟨sound, ids, clock, buffer⟩ := ih step.sound
    exact ⟨sound, ids.trans step.frame.ids, Instant.le_trans step.frame.clock clock, buffer⟩

theorem Drained.get?_of_not_queued (h : Drained cfg s t) (hm : 0 < cfg.maxAttempts.toInt)
    (hs : s.Sound cfg) (hi : i ∉ s.queue.buffer) : t.store.get? i = s.store.get? i := by
  induction h with
  | empty => rfl
  | work hd hp _ ih =>
    have step := (Worker.ensures_process hm (hs.dequeue hd) _).performs hp
    obtain ⟨hb, -, -⟩ := JobQueue.dequeue?_eq_some hd
    rw [hb, List.mem_cons, not_or] at hi
    have rest := ih step.sound (by rw [step.frame.queue]; exact hi.2)
    exact rest.trans (step.frame.others i hi.1)

theorem Drained.row (h : Drained cfg s t) (hm : 0 < cfg.maxAttempts.toInt) (hs : s.Sound cfg)
    (hq : ∀ j ∈ s.store.rows, j.status = .pending → j.id ∈ s.queue.buffer)
    (hj : s.store.get? i = some j) :
    ∃ k, t.store.get? i = some k ∧ (j.status ≠ .pending → k = j) ∧
      (j.status = .pending →
        k.Settled ∨ k.attempts.toInt = j.attempts.toInt + 1 ∧ k.hasAttemptsLeft) := by
  induction h generalizing j with
  | empty hd =>
    refine ⟨j, hj, fun _ => rfl, fun hp => ?_⟩
    have queued := hq j (MemoryStore.mem_of_get? hj).1 hp
    rw [JobQueue.dequeue?_eq_none_iff.mp hd] at queued
    exact absurd queued List.not_mem_nil
  | @work s u t id q r hd hp _ ih =>
    have step := (Worker.ensures_process hm (hs.dequeue hd) _).performs hp
    obtain ⟨hb, -, -⟩ := JobQueue.dequeue?_eq_some hd
    -- The job that was taken out is no longer pending, so the others are all that has to be queued.
    have queued : ∀ k ∈ u.store.rows, k.status = .pending → k.id ∈ u.queue.buffer := by
      intro k hk hkp
      have hku := MemoryStore.get?_self step.sound.orderly.distinct hk
      rw [step.frame.queue]
      by_cases hid : k.id = id
      · subst hid
        exact absurd hkp (step.not_pending hs.orderly.distinct hku)
      · rw [step.frame.others k.id hid] at hku
        have before := hq k (MemoryStore.mem_of_get? hku).1 hkp
        rw [hb] at before
        exact (List.mem_cons.mp before).resolve_left hid
    by_cases hid : i = id
    · subst hid
      by_cases hp : j.status = .pending
      · obtain ⟨k, hk, hkp, hks⟩ := step.waiting j hj hp
        obtain ⟨l, hl, hlk, -⟩ := ih step.sound queued hk
        obtain rfl := hlk hkp
        exact ⟨l, hl, fun hn => absurd hp hn, fun _ => hks⟩
      · obtain ⟨l, hl, hlj, -⟩ := ih step.sound queued (step.other j hj hp)
        exact ⟨l, hl, fun _ => hlj hp, fun h => absurd h hp⟩
    · exact ih step.sound queued ((step.frame.others i hid).trans hj)

theorem every_process_not_creates (w : Worker) (id : Uuid) :
    (w.process id).Every fun (c : ServiceCall) => ¬ c.Creates := by
  refine ⟨fun h => h, fun now => ⟨fun h => h, fun r => ?_⟩⟩
  rcases r with _ | _ | job
  · trivial
  · trivial
  · refine (w.every_attempt job).imp fun c hc => ?_
    cases hc <;> exact fun h => h

theorem exists_drained (hm : 0 < cfg.maxAttempts.toInt) (hs : s.Sound cfg) :
    ∃ t, Drained cfg s t := by
  generalize hb : s.queue.buffer = ids
  induction ids generalizing s with
  | nil => exact ⟨s, .empty (JobQueue.dequeue?_eq_none_iff.mpr hb)⟩
  | cons id ids ih =>
    cases hd : s.queue.dequeue? with
    | none =>
      rw [JobQueue.dequeue?_eq_none_iff, hb] at hd
      cases hd
    | some p =>
      obtain ⟨id', q⟩ := p
      obtain ⟨hbq, -, -⟩ := JobQueue.dequeue?_eq_some hd
      obtain ⟨r, u, hp⟩ := exists_performs
        (every_process_not_creates ⟨cfg.retry, cfg.conversionTimeout⟩ id') { s with queue := q }
      have step := (Worker.ensures_process hm (hs.dequeue hd) id').performs hp
      have rest : u.queue.buffer = ids := by
        rw [step.frame.queue]
        exact (List.cons.inj (hbq.symm.trans hb)).2
      obtain ⟨t, ht⟩ := ih step.sound rest
      exact ⟨t, .work hd hp ht⟩

end DocumentPreview
