import DocumentPreview.Proofs.Service.Retrying

namespace DocumentPreview

namespace Retry

variable {j : Job} {p p' : Phase} {i : Nat}

inductive Stands (j : Job) (p : Phase) (i calls : Nat) : Strand → Prop
  | retry (g : Stage) : p.Allows j i g → calls ≤ g.calls →
      Stands j p i calls ⟨.retry j.fileId, program j.fileId g⟩
  | sweep (staleAfter : Span) (rest : ServiceProgram (Except StoreError SweepReport)) :
      rest.Every Sweep.PassCall → Stands j p i calls ⟨.sweep staleAfter, rest⟩

theorem Stands.mono {k calls : Nat} {w : Strand} (h : Stands j p k calls w) (leads : p.Leads p')
    (other : ∀ clock, p' = .won k clock → p' = p) : Stands j p' k calls w := by
  cases h with
  | retry g allowed few => exact .retry g (allowed.mono leads other) few
  | sweep staleAfter rest every => exact .sweep staleAfter rest every

end Retry

namespace System

def Runs (t : System) (i : Nat) (a : Activity) : Prop :=
  ∃ rest, t.strands[i]? = some ⟨a, rest⟩

def IsRetry (t : System) (i : Nat) : Prop :=
  ∃ fileId, t.Runs i (.retry fileId)

def Retried (t : System) (i : Nat) (r : Except PreviewError EnqueueOutcome) : Prop :=
  ∃ fileId, t.strands[i]? = some ⟨.retry fileId, .done r⟩

def Requeued (t : System) (id : Uuid) : Prop :=
  ∃ e ∈ t.past, (id, .requeued) ∈ e.changes

def calls (t : System) (i : Nat) : Nat :=
  t.past.countP (·.strand = i)

theorem step_resume_cases {t : System} {i : Nat} {a : Activity} {rest : ServiceProgram a.Outcome}
    (hi : t.strands[i]? = some ⟨a, rest⟩) (o : Outside) :
    t.step (.resume i o) = t ∨ ∃ c next, rest = .call c next ∧ t.store.Unused o.freshId ∧
      t.step (.resume i o) = t.answered i o a c next := by
  rcases rest with res | _ | ⟨c, next⟩
  · exact .inl (by simp only [step, hi])
  · exact .inl (by simp only [step, hi])
  · by_cases hu : t.store.Unused o.freshId
    · exact .inr ⟨c, next, rfl, hu, by simp only [step, hi, if_pos hu]⟩
    · exact .inl (by simp only [step, hi, if_neg hu])

end System

namespace Retry

structure Joint (j : Job) (t : System) (p : Phase) : Prop where
  foremost : t.store.Foremost (p.job j)
  queue : t.shared.queue.Faithful
  stands : ∀ i w, t.strands[i]? = some w → Stands j p i (t.calls i) w
  past : ∀ e ∈ t.past, e.strand < t.strands.length
  requeued : t.Requeued j.id ↔ ∃ now, p = .requeued now
  winner : ∀ i clock, p = .won i clock → t.IsRetry i

variable {t : System}

theorem Joint.idle {s : Shared} (h : s.store.Foremost j) (hq : s.queue.Faithful) :
    Joint j (.idle s) .waiting where
  foremost := h
  queue := hq
  stands := fun _ _ hw => by simp [System.idle] at hw
  past := fun _ he => absurd he List.not_mem_nil
  requeued := ⟨fun ⟨_, he, _⟩ => absurd he List.not_mem_nil, fun ⟨_, hn⟩ => nomatch hn⟩
  winner := fun _ _ hw => nomatch hw

theorem Joint.start (h : Joint j t p) {a : Activity}
    (ha : Stands j p t.strands.length 0 ⟨a, a.program⟩) : Joint j (t.step (.start a)) p where
  foremost := h.foremost
  queue := h.queue
  stands := fun i w hw => by
    rcases getElem?_snoc hw with hw | ⟨rfl, rfl⟩
    · exact h.stands i w hw
    · have none : t.calls t.strands.length = 0 :=
        List.countP_eq_zero.mpr fun e he => by simpa using Nat.ne_of_lt (h.past e he)
      exact none.symm ▸ ha
  past := fun e he => Nat.lt_of_lt_of_le (h.past e he) (by simp [System.step])
  requeued := h.requeued
  winner := fun i clock hw => by
    obtain ⟨fileId, rest, hi⟩ := h.winner i clock hw
    refine ⟨fileId, rest, ?_⟩
    rw [← hi]
    exact List.getElem?_append_left (List.getElem?_eq_some_iff.mp hi).1

section Answered

variable {a : Activity} {o : Outside} {c : ServiceCall} {next : c.Reply → ServiceProgram a.Outcome}

theorem Joint.answered (h : Joint j t p) (hi : t.strands[i]? = some ⟨a, .call c next⟩)
    (adv : Advances j p p' (t.shared.answer o c).2)
    (stands : Stands j p' i (t.calls i + 1) ⟨a, next (t.shared.answer o c).1⟩)
    (requeued : (∃ now, p' = .requeued now) ↔
      (∃ now, p = .requeued now) ∨ (j.id, .requeued) ∈ c.changes (t.shared.answer o c).1)
    (winner : ∀ k clock, p' = .won k clock → p' = p ∨ k = i ∧ ∃ fileId, a = .retry fileId) :
    Joint j (t.answered i o a c next) p' := by
  have hlt := (List.getElem?_eq_some_iff.mp hi).1
  constructor
  case foremost => exact adv.foremost
  case queue => exact adv.queue
  case stands =>
    intro k w hw
    rcases getElem?_set_cases hw with ⟨rfl, rfl⟩ | ⟨hk, hw⟩
    · simpa [System.calls, System.answered] using stands
    · have before : Stands j p' k (t.calls k) w :=
        (h.stands k w hw).mono adv.leads fun clock hp =>
          (winner k clock hp).resolve_right fun hki => hk hki.1.symm
      simpa [System.calls, System.answered, hk] using before
  case past =>
    intro e he
    simp only [System.answered, List.length_set]
    rcases List.mem_append.mp he with he | he
    · exact h.past e he
    · rw [List.mem_singleton.mp he]
      exact hlt
  case requeued =>
    rw [requeued, ← h.requeued]
    simp [System.Requeued, System.answered, or_and_right, exists_or, Event.changes]
  case winner =>
    intro k clock hp
    by_cases hk : i = k
    · subst hk
      rcases winner i clock hp with same | ⟨-, fileId, rfl⟩
      · obtain ⟨fileId, rest, hr⟩ := h.winner i clock (same ▸ hp)
        cases hr.symm.trans hi
        exact ⟨fileId, _, List.getElem?_set_self hlt⟩
      · exact ⟨fileId, _, List.getElem?_set_self hlt⟩
    · obtain ⟨fileId, rest, hr⟩ := h.winner k clock
        ((winner k clock hp).resolve_right (fun hki => hk hki.1.symm) ▸ hp)
      exact ⟨fileId, rest, (List.getElem?_set_ne hk).trans hr⟩

end Answered

theorem Joint.not_won (h : Joint j t p) (clock : Instant) : p ≠ .won t.strands.length clock := by
  intro hw
  obtain ⟨fileId, rest, hi⟩ := h.winner _ clock hw
  exact absurd (List.getElem?_eq_some_iff.mp hi).1 (Nat.lt_irrefl _)

structure Steps (j : Job) (t : System) (p : Phase) (m : Move) (p' : Phase) : Prop where
  leads : p.Leads p'
  joint : Joint j (t.step m) p'
  changed : ∀ i o, m = .resume i o → t.IsRetry i →
    (t.step m).store = t.store ∧ (t.step m).shared.queue = t.shared.queue ∨
      ∃ clock, p' = .won i clock

theorem Steps.stay (h : Joint j t p) {m : Move} (hs : t.step m = t) : Steps j t p m p where
  leads := fun _ => rfl
  joint := hs.symm ▸ h
  changed := fun _ _ _ _ => .inl (by rw [hs]; exact ⟨rfl, rfl⟩)

theorem Joint.resume_retry {o : Outside} {g : Stage} (hf : j.status = .failed) (h : Joint j t p)
    (hi : t.strands[i]? = some ⟨.retry j.fileId, program j.fileId g⟩) (allowed : p.Allows j i g)
    (few : t.calls i ≤ g.calls) : ∃ p', Steps j t p (.resume i o) p' := by
  rcases System.step_resume_cases hi o with stays | ⟨c, next, hc, -, step⟩
  · exact ⟨p, .stay h stays⟩
  obtain ⟨g', hnext, turns⟩ := turns_answered (s := t.shared) (o := o) hc
  obtain ⟨p', adv, allowed', changed⟩ := turns.advances hf h.foremost h.queue allowed
  rw [hc] at hi
  refine ⟨p', adv.leads, ?_, fun k o' hm _ => ?_⟩
  · rw [step]
    refine h.answered hi adv ?_ ?_ ?_
    · rw [hnext]
      exact .retry g' allowed' (Nat.lt_of_le_of_lt few turns.calls_lt)
    · have silent := not_requeued hc (t.shared.answer o c).1 j.id
      rcases changed with ⟨rfl, -⟩ | ⟨clock, rfl⟩
      · simp [silent]
      · have unswept : ¬ ∃ now, p = .requeued now := by
          rintro ⟨now, rfl⟩
          cases adv.leads (by simp)
        simp [silent, unswept]
    · intro k clock hk
      rcases changed with ⟨same, -⟩ | ⟨clock', hw⟩
      · exact .inl same
      · cases hw.symm.trans hk
        exact .inr ⟨rfl, j.fileId, rfl⟩
  · rw [step]
    cases hm
    exact changed.imp_left And.right

theorem Joint.resume_sweep {o : Outside} {staleAfter : Span}
    {rest : ServiceProgram (Except StoreError SweepReport)} (hf : j.status = .failed)
    (h : Joint j t p) (hi : t.strands[i]? = some ⟨.sweep staleAfter, rest⟩)
    (every : rest.Every Sweep.PassCall) : ∃ p', Steps j t p (.resume i o) p' := by
  rcases System.step_resume_cases hi o with stays | ⟨c, next, rfl, hu, step⟩
  · exact ⟨p, .stay h stays⟩
  obtain ⟨p', adv, changed⟩ := advances_of_pass h.foremost hf h.queue hu every.1
  refine ⟨p', adv.leads, ?_, fun k o' hm hr => ?_⟩
  · rw [step]
    refine h.answered hi adv (.sweep staleAfter _ (every.2 _)) ?_ ?_
    · rcases changed with ⟨rfl, unchanged⟩ | ⟨swept, changed⟩
      · simp [unchanged]
      · simp [swept, changed]
    · intro k clock hk
      rcases changed with ⟨same, -⟩ | ⟨⟨now, hw⟩, -⟩
      · exact .inl same
      · cases hw.symm.trans hk
  · cases hm
    obtain ⟨fileId, rest, hr⟩ := hr
    cases hr.symm.trans hi

end Retry

def Move.RetriesOrSweeps (fileId : Uuid) : Move → Prop
  | .start (.retry f) => f = fileId
  | .start (.sweep _) | .resume .. | .reorder _ => True
  | .start _ => False

namespace Retry

theorem Joint.step (hf : j.status = .failed) (h : Joint j t p) {m : Move}
    (hm : m.RetriesOrSweeps j.fileId) : ∃ p', Steps j t p m p' := by
  cases m with
  | start a =>
    refine ⟨p, fun _ => rfl, ?_, fun _ _ hs => nomatch hs⟩
    cases a with
    | retry fileId =>
      obtain rfl : fileId = j.fileId := hm
      exact h.start (.retry .asked (.loser h.not_won trivial fun _ hb => hb) (Nat.le_refl 0))
    | sweep staleAfter => exact h.start (.sweep staleAfter _ (Sweep.every_runOnce staleAfter))
    | work | enqueue => exact hm.elim
  | reorder rows =>
    refine ⟨p, fun _ => rfl, ?_, fun _ _ hs => nomatch hs⟩
    simp only [System.step]
    split
    · exact ⟨h.foremost.perm (List.Perm.symm ‹_›), h.queue, h.stands, h.past, h.requeued, h.winner⟩
    · exact h
  | resume i o =>
    rcases hi : t.strands[i]? with _ | w
    · exact ⟨p, .stay h (by simp only [System.step, hi])⟩
    · cases h.stands i w hi with
      | retry g allowed few => exact h.resume_retry hf hi allowed few
      | sweep staleAfter rest every => exact h.resume_sweep hf hi every

theorem Joint.run (hf : j.status = .failed) (h : Joint j t p) {ms : List Move}
    (hm : ∀ m ∈ ms, m.RetriesOrSweeps j.fileId) : ∃ p', p.Leads p' ∧ Joint j (t.run ms) p' := by
  induction ms generalizing t p with
  | nil => exact ⟨p, fun _ => rfl, h⟩
  | cons m ms ih =>
    obtain ⟨p', steps⟩ := h.step hf (hm m List.mem_cons_self)
    obtain ⟨p'', leads, joint⟩ := ih steps.joint fun m' hm' => hm m' (List.mem_cons_of_mem m hm')
    refine ⟨p'', fun hp => ?_, joint⟩
    have same := steps.leads hp
    exact (leads (same ▸ hp)).trans same

theorem Joint.exists_stage (h : Joint j t p) {fileId : Uuid}
    {rest : ServiceProgram (Except PreviewError EnqueueOutcome)}
    (hi : t.strands[i]? = some ⟨.retry fileId, rest⟩) :
    ∃ g, rest = program j.fileId g ∧ p.Allows j i g ∧ t.calls i ≤ g.calls := by
  cases h.stands i _ hi with
  | retry g allowed few => exact ⟨g, rfl, allowed, few⟩

theorem Joint.retried (h : Joint j t p) {res : Except PreviewError EnqueueOutcome}
    (hr : t.Retried i res) : p.Allows j i (.ended res) := by
  obtain ⟨fileId, hi⟩ := hr
  obtain ⟨g, hg, allowed, -⟩ := h.exists_stage hi
  cases g with
  | ended => cases hg; exact allowed
  | _ => cases hg

theorem Joint.ends (h : Joint j t p) (hi : t.IsRetry i) : (∃ r, t.Retried i r) ∨
    t.calls i < 4 ∧ ∃ a c next, t.strands[i]? = some ⟨a, .call c next⟩ := by
  obtain ⟨fileId, rest, hi⟩ := hi
  obtain ⟨g, rfl, -, few⟩ := h.exists_stage hi
  cases g with
  | ended res => exact .inl ⟨res, fileId, hi⟩
  | _ => exact .inr ⟨Nat.lt_of_le_of_lt few (by simp [Stage.calls]), _, _, _, hi⟩

end Retry

structure OneWinner (j : Job) (t : System) : Prop where
  results : ∀ i r, t.Retried i r → (∃ out, r = .ok out) ∨ r = .error (.notRetryable .pending)
  winner : ∀ i k a b, t.Retried i (.ok a) → t.Retried k (.ok b) → i = k
  pending : ∀ i r, t.Retried i r → ∃ k, t.store.get? j.id = some k ∧ k.status = .pending
  queued : t.shared.queue.buffer.count j.id ≤ 1
  won : ¬ t.Requeued j.id → (∃ i, t.IsRetry i) → (∀ i, t.IsRetry i → ∃ r, t.Retried i r) →
    ∃ i out, t.Retried i (.ok out) ∧ t.store.get? j.id = some out.job ∧
      out.job.status = .pending ∧ out.job.attempts = 0 ∧ out.job.lastError = none
  beaten : t.Requeued j.id → (∀ i out, ¬ t.Retried i (.ok out)) ∧
    ∃ k, t.store.get? j.id = some k ∧ k.status = .pending ∧ k.attempts = j.attempts ∧
      k.lastError = j.lastError
  ends : ∀ i, t.IsRetry i → (∃ r, t.Retried i r) ∨
    t.calls i < 4 ∧ ∃ a c next, t.strands[i]? = some ⟨a, .call c next⟩

def System.Spares (s : System) (ms : List Move) (i : Nat) : Prop :=
  ∀ ps o qs, ms = ps ++ .resume i o :: qs →
    ((s.run ps).step (.resume i o)).store = (s.run ps).store ∧
      ((s.run ps).step (.resume i o)).shared.queue = (s.run ps).shared.queue

namespace Retry

theorem Joint.won_of_ok (h : Joint j t p) {out : EnqueueOutcome} (hr : t.Retried i (.ok out)) :
    ∃ clock, p = .won i clock := by
  cases h.retried hr with
  | winner hp => exact ⟨_, hp⟩
  | loser hp loses => cases loses

theorem Joint.row (h : Joint j t p) : t.store.get? j.id = some (p.job j) := by
  rw [← Phase.id_job j p]
  exact h.foremost.get?

theorem Joint.oneWinner (h : Joint j t p) : OneWinner j t := by
  constructor
  case results =>
    intro i r hr
    cases h.retried hr with
    | winner hp wins =>
      obtain ⟨full, rfl⟩ := wins
      exact .inl ⟨_, rfl⟩
    | loser hp loses => exact .inr loses
  case winner =>
    intro i k a b ha hb
    obtain ⟨clock, hp⟩ := h.won_of_ok ha
    obtain ⟨clock', hp'⟩ := h.won_of_ok hb
    cases hp.symm.trans hp'
    rfl
  case pending =>
    intro i r hr
    refine ⟨_, h.row, Phase.status_job ?_⟩
    cases h.retried hr with
    | winner hp => exact hp ▸ nofun
    | loser hp loses unbeaten => exact fun hw => unbeaten hw trivial
  case queued => exact List.nodup_iff_count_le_one.mp h.queue.nodup j.id
  case won =>
    rintro unswept ⟨k, hk⟩ ended
    cases hp : p with
    | waiting =>
      obtain ⟨r, hr⟩ := ended k hk
      cases h.retried hr with
      | winner hw => cases hp.symm.trans hw
      | loser _ _ unbeaten => exact absurd trivial (unbeaten hp)
    | requeued now => exact absurd (h.requeued.mpr ⟨now, hp⟩) unswept
    | won i clock =>
      obtain ⟨r, hr⟩ := ended i (h.winner i clock hp)
      cases h.retried hr with
      | winner hw wins =>
        obtain ⟨full, rfl⟩ := wins
        cases hp.symm.trans hw
        have row := h.row
        rw [hp] at row
        exact ⟨i, _, hr, row, rfl, rfl, rfl⟩
      | loser hn => exact absurd hp (hn clock)
  case beaten =>
    intro swept
    obtain ⟨now, hp⟩ := h.requeued.mp swept
    constructor
    · intro i out hr
      obtain ⟨clock, hw⟩ := h.won_of_ok hr
      cases hp.symm.trans hw
    · have row := h.row
      rw [hp] at row
      exact ⟨_, row, rfl, rfl, rfl⟩
  case ends => exact fun i => h.ends

end Retry

namespace System

variable {s t : System} {i : Nat} {a : Activity}

theorem Leads.runs (h : s.Leads t) (hi : s.Runs i a) : t.Runs i a := by
  obtain ⟨rest, hi⟩ := hi
  have hlt := (List.getElem?_eq_some_iff.mp hi).1
  cases h with
  | stay | reorder => exact ⟨rest, hi⟩
  | start => exact ⟨rest, (List.getElem?_append_left hlt).trans hi⟩
  | @answered k _ _ _ _ hk =>
    by_cases hki : k = i
    · subst hki
      cases hk.symm.trans hi
      exact ⟨_, List.getElem?_set_self hlt⟩
    · exact ⟨rest, (List.getElem?_set_ne hki).trans hi⟩

theorem run_runs (ms : List Move) (hi : s.Runs i a) : (s.run ms).Runs i a :=
  run_invariant hi (fun _ _ hs leads => leads.runs hs) ms

end System

namespace Retry

theorem Joint.spares (hf : j.status = .failed) (h : Joint j t p) {ms : List Move}
    (hm : ∀ m ∈ ms, m.RetriesOrSweeps j.fileId) {e : PreviewError}
    (hr : (t.run ms).Retried i (.error e)) : t.Spares ms i := by
  rintro ps o qs rfl
  obtain ⟨first, hm⟩ := List.forall_mem_append.mp hm
  obtain ⟨here, rest⟩ := List.forall_mem_cons.mp hm
  obtain ⟨p₁, -, joint₁⟩ := h.run hf first
  obtain ⟨p₂, steps⟩ := joint₁.step hf here
  obtain ⟨p₃, leads, joint₃⟩ := steps.joint.run hf rest
  have split : t.run (ps ++ .resume i o :: qs) = ((t.run ps).step (.resume i o)).run qs := by
    simp [System.run]
  rw [split] at hr
  rcases hw : (t.run ps).strands[i]? with _ | ⟨a, r⟩
  · have stays : (t.run ps).step (.resume i o) = t.run ps := by simp only [System.step, hw]
    rw [stays]
    exact ⟨rfl, rfl⟩
  have isRetry : (t.run ps).IsRetry i := by
    obtain ⟨fileId, hend⟩ := hr
    obtain ⟨last, hlast⟩ := System.run_runs (.resume i o :: qs) ⟨r, hw⟩
    cases hend.symm.trans hlast
    exact ⟨fileId, r, hw⟩
  refine (steps.changed i o rfl isRetry).resolve_right ?_
  rintro ⟨clock, rfl⟩
  obtain rfl := leads (by simp)
  cases joint₃.retried hr with
  | winner _ wins =>
    obtain ⟨full, he⟩ := wins
    cases he
  | loser hn => exact hn clock rfl

end Retry

theorem one_retry_wins {j : Job} {s : Shared} (hj : s.store.Foremost j) (hf : j.status = .failed)
    (hq : s.queue.Faithful) {ms : List Move} (hm : ∀ m ∈ ms, m.RetriesOrSweeps j.fileId) :
    OneWinner j ((System.idle s).run ms) ∧
      ∀ i e, ((System.idle s).run ms).Retried i (.error e) → (System.idle s).Spares ms i := by
  have joint := Retry.Joint.idle hj hq
  obtain ⟨p, -, joint'⟩ := joint.run hf hm
  exact ⟨joint'.oneWinner, fun i e hr => joint.spares hf hm hr⟩

def dueAgain : Job :=
  { Job.fresh (.ofNat 1) (.ofNat 9) none 3 .epoch with
    status := .failed, attempts := 1, lastError := some "", nextRetryAt := some .epoch }

def afterFailure : Shared :=
  ⟨⟨[dueAgain]⟩, ⟨1, [], []⟩, .epoch⟩

theorem foremost_dueAgain : afterFailure.store.Foremost dueAgain where
  distinct := by
    unfold MemoryStore.Distinct
    decide
  row := List.mem_singleton_self _
  newest := fun _ hr _ hne => absurd (congrArg Job.id (List.mem_singleton.mp hr)) hne
  alone := fun _ hr _ hne => absurd (congrArg Job.id (List.mem_singleton.mp hr)) hne

def twoRetries : List Move :=
  [.start (.retry (.ofNat 9)), .start (.retry (.ofNat 9)), .start (.sweep (.ofSeconds 900))]

def retriedFirst : List Move :=
  twoRetries ++ System.resumed 1 0 1000 (.ofNat 2) ++ System.resumed 2 1 1000 (.ofNat 2) ++
    System.resumed 5 2 1000 (.ofNat 2) ++ System.resumed 2 0 1000 (.ofNat 2) ++
    System.resumed 1 1 1000 (.ofNat 2)

def sweptFirst : List Move :=
  twoRetries ++ System.resumed 1 0 1000 (.ofNat 2) ++ System.resumed 5 2 1000 (.ofNat 2) ++
    System.resumed 2 0 1000 (.ofNat 2) ++ System.resumed 1 1 1000 (.ofNat 2)

def System.returned? (t : System) (i : Nat) : Option (Except PreviewError EnqueueOutcome) :=
  match t.strands[i]? with
  | some ⟨.retry _, .done r⟩ => some r
  | _ => none

theorem System.retried_of_returned? {t : System} {i : Nat} {r : Except PreviewError EnqueueOutcome}
    (h : t.returned? i = some r) : t.Retried i r := by
  unfold returned? at h
  split at h
  · rename_i fileId res hi
    cases h
    exact ⟨fileId, hi⟩
  · cases h

theorem one_retry_wins_dueAgain :
    afterFailure.store.Foremost dueAgain ∧ dueAgain.status = .failed ∧
      afterFailure.queue.Faithful ∧
    (∃ out, ((System.idle afterFailure).run retriedFirst).Retried 1 (.ok out) ∧
      out.job.attempts = 0 ∧
      ((System.idle afterFailure).run retriedFirst).Retried 0 (.error (.notRetryable .pending)) ∧
      (System.idle afterFailure).Spares retriedFirst 0) ∧
    (∀ i out, ¬ ((System.idle afterFailure).run sweptFirst).Retried i (.ok out)) ∧
    ∃ k, ((System.idle afterFailure).run sweptFirst).store.get? (.ofNat 1) = some k ∧
      k.status = .pending ∧ k.attempts = 1 := by
  have moves : ∀ ms ∈ [retriedFirst, sweptFirst], ∀ m ∈ ms, m.RetriesOrSweeps (.ofNat 9) := by
    simp [retriedFirst, sweptFirst, twoRetries, System.resumed, Move.RetriesOrSweeps]
  have faithful : afterFailure.queue.Faithful := JobQueue.faithful_new
  refine ⟨foremost_dueAgain, rfl, faithful, ?_, ?_⟩
  · have lost : ((System.idle afterFailure).run retriedFirst).returned? 0 =
      some (.error (.notRetryable .pending)) := by decide +kernel
    let later := (Instant.ofUnixSeconds? 1000).getD .epoch
    have won : ((System.idle afterFailure).run retriedFirst).returned? 1 =
      some (.ok ⟨dueAgain.restarted later, false, false⟩) := by decide +kernel
    obtain ⟨-, spares⟩ := one_retry_wins foremost_dueAgain rfl faithful (moves _ (.head _))
    have refused := System.retried_of_returned? lost
    exact ⟨_, System.retried_of_returned? won, rfl, refused, spares 0 _ refused⟩
  · have swept : ((System.idle afterFailure).run sweptFirst).Requeued dueAgain.id := by
      unfold System.Requeued
      decide +kernel
    obtain ⟨one, -⟩ := one_retry_wins foremost_dueAgain rfl faithful (moves _ (.tail _ (.head _)))
    obtain ⟨none, k, row, pending, attempts, -⟩ := one.beaten swept
    exact ⟨none, k, row, pending, attempts⟩

end DocumentPreview
