import DocumentPreview.Proofs.Queue.Admission
import DocumentPreview.Proofs.Service.Foremost

namespace DocumentPreview

open MemoryStore

namespace Retry

inductive Stage where
  | asked
  | found (j : Job)
  | beaten (j : Job)
  | won (j : Job)
  | refused (j : Job)
  | ended (res : Except PreviewError EnqueueOutcome)

def program (fileId : Uuid) : Stage → ServiceProgram (Except PreviewError EnqueueOutcome)
  | .asked => Previews.retry fileId
  | .found j => Previews.reset j
  | .beaten j => Previews.refuseRetry j
  | .won j => Previews.offer j false
  | .refused j => .call (.count .queueFull) fun _ => .done (.ok ⟨j, false, true⟩)
  | .ended res => .done res

def Stage.calls : Stage → Nat
  | .asked => 0
  | .found _ => 1
  | .beaten _ | .won _ => 2
  | .refused _ => 3
  | .ended _ => 4

inductive Turns (fileId : Uuid) (o : Outside) (s : Shared) : Stage → Stage → Shared → Prop
  | missing : s.store.latest? fileId = none →
      Turns fileId o s .asked (.ended (.error (.noJob fileId))) { s with clock := o.time }
  | found {j : Job} : s.store.latest? fileId = some j → j.status = .failed →
      Turns fileId o s .asked (.found j) { s with clock := o.time }
  | unfit {j : Job} : s.store.latest? fileId = some j → j.status ≠ .failed →
      Turns fileId o s .asked (.ended (.error (.notRetryable j.status))) { s with clock := o.time }
  | won {j k : Job} : s.store.get? j.id = some k → k.status = .failed →
      Turns fileId o s (.found j) (.won (k.restarted o.time))
        { s with store := s.store.changeRow j.id (·.restarted o.time), clock := o.time }
  | beaten {j : Job} :
      (∀ k, s.store.get? j.id = some k → s.store.slotTaken k.fileId j.id ∨ k.status ≠ .failed) →
      Turns fileId o s (.found j) (.beaten j) { s with clock := o.time }
  | told {j k : Job} : s.store.get? j.id = some k →
      Turns fileId o s (.beaten j) (.ended (.error (.notRetryable k.status)))
        { s with clock := o.time }
  | gone {j : Job} : s.store.get? j.id = none →
      Turns fileId o s (.beaten j) (.ended (.error (.notRetryable j.status)))
        { s with clock := o.time }
  | offered (j : Job) :
      Turns fileId o s (.won j) (.ended (.ok ⟨j, false, false⟩))
        { s with queue := (s.queue.tryAdmit j.id).2 }
  | refused (j : Job) :
      Turns fileId o s (.won j) (.refused j) { s with queue := (s.queue.tryAdmit j.id).2 }
  | ended (j : Job) : Turns fileId o s (.refused j) (.ended (.ok ⟨j, false, true⟩)) s

variable {fileId : Uuid} {o : Outside} {s t : Shared} {g g' : Stage} {c : ServiceCall}
  {next : c.Reply → ServiceProgram (Except PreviewError EnqueueOutcome)}

theorem Turns.calls_lt (h : Turns fileId o s g g' t) : g.calls < g'.calls := by
  cases h <;> simp [Stage.calls]

theorem turns_answered (h : program fileId g = .call c next) :
    ∃ g', next (s.answer o c).1 = program fileId g' ∧ Turns fileId o s g g' (s.answer o c).2 := by
  cases g with
  | asked =>
    cases h
    have latest : s.answer o (.store (.latest fileId)) =
      (.ok (s.store.latest? fileId), { s with clock := o.time }) := rfl
    rw [latest]
    cases hl : s.store.latest? fileId with
    | none => exact ⟨_, rfl, .missing hl⟩
    | some j =>
      by_cases hf : j.status = .failed
      · exact ⟨.found j, if_pos hf, .found hl hf⟩
      · exact ⟨.ended (.error (.notRetryable j.status)), if_neg hf, .unfit hl hf⟩
  | found j =>
    cases h
    rcases s.store.reset_cases o.time j.id with ⟨hn, he⟩ | ⟨k, hk, hf, -, he⟩
    · rw [Shared.answer_store_eq (.reset j.id) he]
      exact ⟨.beaten j, rfl, .beaten hn⟩
    · rw [Shared.answer_store_eq (.reset j.id) he]
      exact ⟨.won (k.restarted o.time), rfl, .won hk hf⟩
  | beaten j =>
    cases h
    have got : s.answer o (.store (.get j.id)) =
      (.ok (s.store.get? j.id), { s with clock := o.time }) := rfl
    rw [got]
    cases hg : s.store.get? j.id with
    | none => exact ⟨.ended (.error (.notRetryable j.status)), rfl, .gone hg⟩
    | some k => exact ⟨.ended (.error (.notRetryable k.status)), rfl, .told hg⟩
  | won j =>
    cases h
    have offered : s.answer o (.offer j.id) =
      ((s.queue.tryAdmit j.id).1, { s with queue := (s.queue.tryAdmit j.id).2 }) := rfl
    rw [offered]
    cases ha : (s.queue.tryAdmit j.id).1 with
    | full => exact ⟨.refused j, rfl, .refused j⟩
    | closed => exact absurd ha (s.queue.tryAdmit_ne_closed j.id)
    | admitted | alreadyQueued => exact ⟨.ended (.ok ⟨j, false, false⟩), rfl, .offered j⟩
  | refused j =>
    cases h
    exact ⟨.ended (.ok ⟨j, false, true⟩), rfl, .ended j⟩
  | ended res => cases h

theorem not_requeued (h : program fileId g = .call c next) (r : c.Reply) (id : Uuid) :
    (id, .requeued) ∉ c.changes r := by
  intro hk
  cases g with
  | asked | found | beaten =>
    cases h
    cases ServiceCall.change?_of_mem_changes hk
  | won | refused =>
    cases h
    exact absurd hk List.not_mem_nil
  | ended => cases h

def Stage.Wins (j : Job) : Stage → Prop
  | .won k | .refused k => k = j
  | .ended res => ∃ full, res = .ok ⟨j, false, full⟩
  | .asked | .found _ | .beaten _ => False

def Stage.Loses (id : Uuid) : Stage → Prop
  | .asked => True
  | .found j | .beaten j => j.id = id
  | .ended res => res = .error (.notRetryable .pending)
  | .won _ | .refused _ => False

def Stage.Beaten : Stage → Prop
  | .beaten _ | .ended _ => True
  | _ => False

inductive Phase where
  | waiting
  | requeued (now : Instant)
  | won (i : Nat) (clock : Instant)

namespace Phase

def job (j : Job) : Phase → Job
  | waiting => j
  | requeued now => j.requeued now
  | won _ clock => j.restarted clock

inductive Allows (j : Job) (i : Nat) (p : Phase) (g : Stage) : Prop
  | winner {clock : Instant} : p = .won i clock → g.Wins (j.restarted clock) → Allows j i p g
  | loser : (∀ clock, p ≠ .won i clock) → g.Loses j.id → (p = .waiting → ¬ g.Beaten) →
      Allows j i p g

variable {j : Job} {p p' : Phase} {i k : Nat}

@[simp] theorem id_job (j : Job) (p : Phase) : (p.job j).id = j.id := by
  cases p <;> rfl

@[simp] theorem fileId_job (j : Job) (p : Phase) : (p.job j).fileId = j.fileId := by
  cases p <;> rfl

theorem status_job (hp : p ≠ .waiting) : (p.job j).status = .pending := by
  cases p with
  | waiting => exact absurd rfl hp
  | requeued | won => rfl

def Leads (p p' : Phase) : Prop :=
  p ≠ .waiting → p' = p

theorem Allows.mono (h : p.Allows j k g) (leads : p.Leads p')
    (other : ∀ clock, p' = .won k clock → p' = p) : p'.Allows j k g := by
  cases h with
  | winner hp wins =>
    have same : p' = p := leads (hp ▸ nofun)
    exact .winner (same.trans hp) wins
  | loser hp loses unbeaten =>
    refine .loser (fun clock hw => hp clock ((other clock hw).symm.trans hw)) loses fun hw => ?_
    by_cases hpw : p = .waiting
    · exact unbeaten hpw
    · exact absurd ((leads hpw).symm.trans hw) hpw

end Phase

structure Advances (j : Job) (p p' : Phase) (t : Shared) : Prop where
  leads : p.Leads p'
  foremost : t.store.Foremost (p'.job j)
  queue : t.queue.Faithful

variable {j : Job} {p p' : Phase} {i : Nat}

theorem Advances.same (h : s.store.Foremost (p.job j)) (hq : s.queue.Faithful)
    (store : t.store = s.store) (queue : t.queue = s.queue) : Advances j p p t where
  leads := fun _ => rfl
  foremost := store ▸ h
  queue := queue ▸ hq

theorem Turns.advances (hf : j.status = .failed) (h : s.store.Foremost (p.job j))
    (hq : s.queue.Faithful) (hg : p.Allows j i g) (ht : Turns j.fileId o s g g' t) :
    ∃ p', Advances j p p' t ∧ p'.Allows j i g' ∧
      (p' = p ∧ t.store = s.store ∧ t.queue = s.queue ∨ ∃ clock, p' = .won i clock) := by
  have latest : s.store.latest? j.fileId = some (p.job j) := by
    rw [← Phase.fileId_job j p]
    exact h.latest?
  have row {id : Uuid} (hid : id = j.id) : s.store.get? id = some (p.job j) := by
    rw [hid, ← Phase.id_job j p]
    exact h.get?
  have same : Advances j p p { s with clock := o.time } := .same h hq rfl rfl
  have admitted (id : Uuid) : Advances j p p { s with queue := (s.queue.tryAdmit id).2 } :=
    ⟨fun _ => rfl, h, hq.tryAdmit id⟩
  have told (hp : ∀ clock, p ≠ .won i clock) (hw : p ≠ .waiting) :
      p.Allows j i (.ended (.error (.notRetryable (p.job j).status))) :=
    .loser hp (by rw [Phase.status_job hw]; rfl) fun hn => absurd hn hw
  cases hg with
  | winner hp wins =>
    cases ht with
    | offered k =>
      obtain rfl : k = _ := wins
      exact ⟨p, admitted _, .winner hp ⟨false, rfl⟩, .inr ⟨_, hp⟩⟩
    | refused k => exact ⟨p, admitted _, .winner hp wins, .inr ⟨_, hp⟩⟩
    | ended k =>
      obtain rfl : k = _ := wins
      exact ⟨p, .same h hq rfl rfl, .winner hp ⟨true, rfl⟩, .inr ⟨_, hp⟩⟩
    | missing | found | unfit | won | beaten | told | gone => exact wins.elim
  | loser hp loses unbeaten =>
    cases ht with
    | missing hn => cases hn.symm.trans latest
    | found hl =>
      cases hl.symm.trans latest
      exact ⟨p, same, .loser hp (Phase.id_job j p) fun _ hb => hb, .inl ⟨rfl, rfl, rfl⟩⟩
    | unfit hl hne =>
      cases hl.symm.trans latest
      refine ⟨p, same, told hp fun hw => hne ?_, .inl ⟨rfl, rfl, rfl⟩⟩
      rw [hw]
      exact hf
    | won hk failed =>
      cases hk.symm.trans (row loses)
      obtain rfl : p = .waiting := by
        by_contra hw
        rw [Phase.status_job hw] at failed
        cases failed
      have hid : _ = j.id := loses
      refine ⟨.won i o.time, ⟨fun hw => absurd rfl hw, ?_, hq⟩, .winner rfl rfl, .inr ⟨_, rfl⟩⟩
      rw [hid]
      exact h.restarted o.time
    | beaten hn =>
      refine ⟨p, same, .loser hp loses fun hw => ?_, .inl ⟨rfl, rfl, rfl⟩⟩
      subst hw
      have hid : _ = j.id := loses
      rcases hn j (row hid) with taken | hne
      · rw [hid] at taken
        exact absurd taken h.not_slotTaken
      · exact absurd hf hne
    | told hk =>
      cases hk.symm.trans (row loses)
      exact ⟨p, same, told hp fun hw => unbeaten hw trivial, .inl ⟨rfl, rfl, rfl⟩⟩
    | gone hn => cases hn.symm.trans (row loses)
    | offered | refused | ended => exact loses.elim

theorem advances_of_pass (h : s.store.Foremost (p.job j)) (hf : j.status = .failed)
    (hq : s.queue.Faithful) (hu : s.store.Unused o.freshId) (hc : Sweep.PassCall c) :
    ∃ p', Advances j p p' (s.answer o c).2 ∧
      (p' = p ∧ (j.id, .requeued) ∉ c.changes (s.answer o c).1 ∨
        (∃ now, p' = .requeued now) ∧ (j.id, .requeued) ∈ c.changes (s.answer o c).1) := by
  have idle : (p.job j).status ≠ .processing := by
    by_cases hp : p = .waiting
    · rw [hp]
      exact fun hs => nomatch hf.symm.trans hs
    · rw [Phase.status_job hp]
      exact nofun
  have queue : (s.answer o c).2.queue.Faithful := by
    cases hc with
    | offer id => exact hq.tryAdmit id
    | clock | reapStale | requeueDue | pending => exact hq
  rcases h.swept idle (Shared.answer_distinct h.distinct c)
      (Shared.answer_row h.distinct hu c) fun id k => hc.changes with
    ⟨unchanged, foremost⟩ | ⟨changed, failed, now, foremost⟩
  · rw [Phase.id_job] at unchanged
    exact ⟨p, ⟨fun _ => rfl, foremost, queue⟩, .inl ⟨rfl, unchanged⟩⟩
  · rw [Phase.id_job] at changed
    obtain rfl : p = .waiting := by
      by_contra hp
      rw [Phase.status_job hp] at failed
      cases failed
    exact ⟨.requeued now, ⟨fun hw => absurd rfl hw, foremost, queue⟩, .inr ⟨⟨now, rfl⟩, changed⟩⟩

end Retry

end DocumentPreview
