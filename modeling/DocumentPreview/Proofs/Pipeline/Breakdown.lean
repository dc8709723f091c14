import DocumentPreview.Proofs.Pipeline.Loops
import DocumentPreview.Proofs.Service.Conforming

namespace DocumentPreview

open Program

variable {α : Type} {Q : Instant → Prop} {p : ServiceProgram α}

def AbortsOnlyAt (Q : Instant → Prop) (p : ServiceProgram α) : Prop :=
  ∀ last : Option Instant, p.Concludes (fun _ _ => True)
    (fun _ (c : ServiceCall) (r : c.Reply) => c.reading? r)
    (fun last a => a.isSome ∨ ∃ now, last = some now ∧ Q now) last

namespace AbortsOnlyAt

theorem done (a : α) : AbortsOnlyAt Q (.done a) :=
  fun _ => .inl rfl

theorem call {c : ServiceCall} {next : c.Reply → ServiceProgram α}
    (h : ∀ r, AbortsOnlyAt Q (next r)) : AbortsOnlyAt Q (.call c next) :=
  fun _ => ⟨trivial, fun r => h r _⟩

theorem call_clock {next : Instant → ServiceProgram α}
    (h : ∀ now, next now = .abort ∧ Q now ∨ AbortsOnlyAt Q (next now)) :
    AbortsOnlyAt Q (.call .clock next) := by
  refine fun _ => ⟨trivial, fun now => ?_⟩
  rcases h now with ⟨aborts, hq⟩ | goesOn
  · rw [aborts]
    exact .inr ⟨now, rfl, hq⟩
  · exact goesOn _

end AbortsOnlyAt

theorem abortsOnlyAt_purgeNonces : AbortsOnlyAt Q purgeNonces :=
  .call fun _ => .call fun _ => .done _

namespace Sweep

theorem abortsOnlyAt_offerPending (report : SweepReport) :
    AbortsOnlyAt Q (offerPending report) := by
  refine .call fun r => ?_
  cases r with
  | ok jobs => exact offerEach_closed (fun _ _ rest => .call rest) (fun _ => .done _) jobs report
  | error e => exact .done _

theorem abortsOnlyAt_requeue (now : Instant) (reaped : Nat) :
    AbortsOnlyAt Q (requeue now reaped) := by
  refine .call fun r => ?_
  cases r <;> exact abortsOnlyAt_offerPending _

theorem abortsOnlyAt_reap (cutoff now : Instant) : AbortsOnlyAt Q (reap cutoff now) := by
  refine .call fun r => ?_
  cases r with
  | ok reaped => exact abortsOnlyAt_requeue now _
  | error e => exact .done _

theorem abortsOnlyAt_runOnce (staleAfter : Span) :
    AbortsOnlyAt (fun now => now.shift? (-lease staleAfter) = none) (runOnce staleAfter) := by
  refine .call_clock fun now => ?_
  cases h : now.shift? (-lease staleAfter) with
  | none => exact .inl ⟨rfl, rfl⟩
  | some cutoff => exact .inr (abortsOnlyAt_reap cutoff now)

end Sweep

namespace Worker

variable (w : Worker)

def Unrepresentable (retry : RetrySchedule) (now : Instant) : Prop :=
  ∃ attempts, retry.nextRetryAt? attempts now = none

theorem abortsOnlyAt_current (id : Uuid) : AbortsOnlyAt Q (current id) := by
  refine .call fun r => ?_
  cases r <;> exact .done _

theorem abortsOnlyAt_recordSuccess (job : Job) : AbortsOnlyAt Q (recordSuccess job) := by
  refine .call fun now => .call fun r => ?_
  rcases r with _ | _ | done
  · exact .done _
  · exact abortsOnlyAt_current job.id
  · exact .call fun _ => .done _

theorem abortsOnlyAt_recordFailureAt (job : Job) (error : AttemptError) (next : Option Instant) :
    AbortsOnlyAt Q (recordFailureAt job error next) := by
  refine .call fun _ => .call fun r => ?_
  rcases r with _ | _ | failed
  · exact .done _
  · exact abortsOnlyAt_current job.id
  · exact .done _

theorem abortsOnlyAt_recordFailure (job : Job) (error : AttemptError) :
    AbortsOnlyAt (Unrepresentable w.retry) (w.recordFailure job error) := by
  unfold recordFailure
  split
  · refine .call_clock fun now => ?_
    cases h : w.retry.nextRetryAt? job.attempts now with
    | none => exact .inl ⟨rfl, job.attempts, h⟩
    | some next => exact .inr (abortsOnlyAt_recordFailureAt job error _)
  · exact abortsOnlyAt_recordFailureAt job error none

theorem abortsOnlyAt_process (id : Uuid) :
    AbortsOnlyAt (Unrepresentable w.retry) (w.process id) := by
  refine .call fun now => .call fun r => ?_
  rcases r with _ | _ | job
  · exact .done _
  · exact .done _
  · refine attempt_closed (fun _ _ _ rest => .call rest) fun outcome => .call fun _ => ?_
    cases outcome with
    | ok => exact abortsOnlyAt_recordSuccess job
    | error e => exact w.abortsOnlyAt_recordFailure job e

end Worker

namespace Simulation

variable {w : World}

def Course.Lasts (Q : Instant → Prop) : Course Bool → Prop
  | .ended alive w => alive = true ∨ Q w.now
  | .waiting _ _ next => ∀ w, Lasts Q (next w)
  | .stuck _ => True

theorem Course.Lasts.of_breaks {c : Course Bool} (h : c.Lasts Q) (hb : c.breaks = true) :
    Q c.world.now := by
  cases c with
  | ended alive w =>
    rcases h with rfl | h
    · cases hb
    · exact h
  | waiting | stuck => cases hb

theorem lasts_bind {β : Type} {c : Course β} {f : β → World → Course Bool}
    (hf : ∀ a w, (f a w).Lasts Q) : (c.bind f).Lasts Q := by
  induction c with
  | ended a w => exact hf a w
  | waiting delay w next ih => exact ih
  | stuck w => trivial

theorem map_bind {β γ : Type} (c : Course α) (f : α → World → Course β) (g : β → γ) :
    (c.bind f).map g = c.bind fun a w => (f a w).map g := by
  induction c with
  | ended | stuck => rfl
  | waiting delay w next ih => exact congrArg (Course.waiting delay w) (funext ih)

theorem lasts_bind_answer {c : ServiceCall} {f : c.Reply → World → Course Bool}
    (hf : ∀ r v, (∀ now, c.reading? r = some now → v.now = now) → (f r v).Lasts Q) :
    ((w.answer c).bind f).Lasts Q := by
  cases c with
  | clock => exact hf w.now w fun now hnow => Option.some.inj hnow
  | _ => exact lasts_bind fun r v => hf r v fun _ hnow => nomatch hnow

theorem lasts_follow_of_concludes {last : Option Instant}
    (h : p.Concludes (fun _ _ => True) (fun _ (c : ServiceCall) (r : c.Reply) => c.reading? r)
      (fun last a => a.isSome ∨ ∃ now, last = some now ∧ Q now) last)
    (hl : ∀ now, last = some now → w.now = now) :
    ((w.follow p).map Option.isSome).Lasts Q := by
  induction p generalizing last w with
  | done a => exact .inl rfl
  | abort =>
    rcases h with h | ⟨now, hnow, hq⟩
    · cases h
    · exact .inr (hl now hnow ▸ hq)
  | call c next ih =>
    rw [World.follow, map_bind]
    exact lasts_bind_answer fun r v hv => ih r (h.2 r) hv

theorem lasts_follow (h : AbortsOnlyAt Q p) (w : World) :
    ((w.follow p).map Option.isSome).Lasts Q :=
  lasts_follow_of_concludes (h none) fun _ hnow => nomatch hnow

namespace Background

variable {settings : PipelineSettings} {b : Background} {task : Task} {turn : Turn} {t : Ticker}
  {c : Course Bool}

def Fatal (settings : PipelineSettings) : Task → Instant → Prop
  | .worker => Worker.Unrepresentable settings.retry
  | .sweep _ => fun now => now.shift? (-Sweep.lease settings.staleAfter) = none
  | .cleanup _ => fun _ => False

def Unticking : Task → Prop
  | .worker => False
  | .sweep t | .cleanup t => t.period = 0

def Endures (settings : PipelineSettings) (task : Task) : Turn → Prop
  | .begin => True
  | .called => task = .worker
  | .resume next => ∀ w, (next w).Lasts (Fatal settings task)

structure Steady (settings : PipelineSettings) (b : Background) : Prop where
  ready : ∀ e ∈ b.ready, Endures settings e.1 e.2
  sleeping : ∀ e ∈ b.sleeping, Endures settings e.2.1 e.2.2

theorem steady_new (settings : PipelineSettings) (now : Nat) :
    (new settings now).Steady settings where
  ready e he := by
    simp only [new, List.mem_append, List.mem_replicate, List.mem_cons, List.not_mem_nil] at he
    rcases he with ⟨-, rfl⟩ | rfl | rfl | he
    · trivial
    · trivial
    · trivial
    · exact he.elim
  sleeping := nofun

namespace Steady

theorem callFirst (h : b.Steady settings) : b.callFirst.Steady settings where
  ready e he := by
    rcases List.mem_append.mp he with he | he
    · exact h.ready e he
    · obtain rfl := List.mem_singleton.mp he
      exact rfl
  sleeping := h.sleeping

theorem callIfWork (h : b.Steady settings) (w : World) : (b.callIfWork w).Steady settings := by
  unfold Background.callIfWork
  split
  · exact h.callFirst
  · exact h

theorem leaveLine (h : b.Steady settings) : b.leaveLine.Steady settings := by
  have left : ({ b with idle := b.idle - 1, firstCalled := false } : Background).Steady settings :=
    ⟨h.ready, h.sleeping⟩
  unfold Background.leaveLine
  dsimp only
  split
  · exact left
  · exact left.callFirst

theorem sleep (h : b.Steady settings) {due : Nat} (he : Endures settings task turn) :
    (b.sleep due task turn).Steady settings where
  ready := h.ready
  sleeping e hm := by
    rcases List.mem_append.mp hm with hm | hm
    · exact h.sleeping e hm
    · obtain rfl := List.mem_singleton.mp hm
      exact he

theorem again (h : b.Steady settings) (now : Nat) (task : Task) :
    (b.again now task).Steady settings := by
  rcases b.again_cases now task with he | ⟨due, he⟩
  · rw [he]
    exact ⟨List.forall_mem_cons.mpr ⟨trivial, h.ready⟩, h.sleeping⟩
  · exact he ▸ h.sleep trivial

theorem settle (h : b.Steady settings) (hc : c.Lasts (Fatal settings task)) :
    (b.settle task c).1.Steady settings := by
  cases c with
  | ended alive v =>
    cases alive with
    | true => exact h.again _ _
    | false => exact h
  | waiting delay v next =>
    have endures : Endures settings task (.resume next) := hc
    exact h.sleep endures
  | stuck v => exact h

theorem take (h : b.Steady settings) (i : Nat) :
    ({ b with ready := b.ready.eraseIdx i } : Background).Steady settings :=
  ⟨fun e he => h.ready e (List.mem_of_mem_eraseIdx he), h.sleeping⟩

theorem wake (h : b.Steady settings) (now : Nat) : (b.wake now).Steady settings where
  ready e he := by
    rcases List.mem_append.mp he with he | he
    · exact h.ready e he
    · obtain ⟨s, hs, rfl⟩ := List.mem_map.mp he
      exact h.sleeping s (List.mem_filter.mp hs).1
  sleeping e he := h.sleeping e (List.mem_filter.mp he).1

end Steady

theorem lasts_workOn (settings : PipelineSettings) (id : Uuid) (w : World) :
    (workOn settings id w).Lasts (Fatal settings .worker) :=
  lasts_follow (Worker.abortsOnlyAt_process ⟨settings.retry, settings.conversionTimeout⟩ id) w

def Act.Endures (settings : PipelineSettings) (task : Task) : Act → Prop
  | rests b => b.Steady settings
  | stops => Unticking task
  | works b _ _ => b.Steady settings ∧ task = .worker
  | goesOn later c => c.Lasts (Fatal settings later) ∧ Fatal settings later = Fatal settings task

theorem act_endures (hs : b.Steady settings) (h : Endures settings task turn) (w : World) :
    (b.act settings w task turn).Endures settings task := by
  cases turn with
  | resume next => exact ⟨h w, rfl⟩
  | called =>
    simp only [act]
    cases w.dequeue? with
    | some taken => exact ⟨hs.leaveLine, h⟩
    | none => exact ⟨hs.ready, hs.sleeping⟩
  | begin =>
    cases task with
    | worker =>
      simp only [act]
      split
      · cases w.dequeue? with
        | some taken => exact ⟨hs, rfl⟩
        | none => exact ⟨hs.ready, hs.sleeping⟩
      · exact ⟨hs.ready, hs.sleeping⟩
    | sweep t =>
      simp only [act]
      split
      · assumption
      · exact ⟨lasts_follow (Sweep.abortsOnlyAt_runOnce settings.staleAfter) w, rfl⟩
    | cleanup t =>
      simp only [act]
      split
      · assumption
      · exact ⟨lasts_follow abortsOnlyAt_purgeNonces w, rfl⟩

theorem Steady.outcome {a : Act} (hs : b.Steady settings) (h : a.Endures settings task) (w : World) :
    (a.outcome settings b w).1.Steady settings := by
  cases a with
  | rests b' => exact h
  | stops => exact hs
  | works b' id v => exact h.1.settle (lasts_workOn settings id v)
  | goesOn later c => exact hs.settle h.1

theorem Act.Endures.of_breaks {a : Act} (h : a.Endures settings task) (hb : a.breaks settings = true)
    (b : Background) (w : World) :
    Unticking task ∨ Fatal settings task (a.outcome settings b w).2.now := by
  cases a with
  | rests => cases hb
  | stops => exact .inl h
  | works b' id v =>
    obtain ⟨-, rfl⟩ := h
    rw [outcome, settle_world]
    exact .inr ((lasts_workOn settings id v).of_breaks hb)
  | goesOn later c =>
    rw [outcome, settle_world, ← h.2]
    exact .inr (h.1.of_breaks hb)

theorem breaks_sweep_iff : (b.act settings w (.sweep t) .begin).breaks settings = true ↔
    t.period = 0 ∨ w.now.shift? (-Sweep.lease settings.staleAfter) = none := by
  by_cases ht : t.period = 0
  · simp [act, ht, Act.breaks]
  · have goes : b.act settings w (.sweep t) .begin = .goesOn (.sweep (t.tick w.elapsed))
        ((w.follow (Sweep.runOnce settings.staleAfter)).map Option.isSome) := if_neg ht
    have clock : w.answer .clock = .ended w.now w := rfl
    rw [goes, Act.breaks]
    simp only [Sweep.runOnce, World.follow, clock, Course.bind, ht, false_or]
    cases w.now.shift? (-Sweep.lease settings.staleAfter) with
    | none => exact iff_of_true rfl rfl
    | some cutoff =>
      have lasts := lasts_follow (Q := fun _ => False) (Sweep.abortsOnlyAt_reap cutoff w.now) w
      exact iff_of_false lasts.of_breaks (Option.some_ne_none cutoff)

theorem breaks_cleanup_iff :
    (b.act settings w (.cleanup t) .begin).breaks settings = true ↔ t.period = 0 := by
  by_cases ht : t.period = 0
  · simp [act, ht, Act.breaks]
  · have goes : b.act settings w (.cleanup t) .begin = .goesOn (.cleanup (t.tick w.elapsed))
        ((w.follow purgeNonces).map Option.isSome) := if_neg ht
    have lasts := lasts_follow (Q := fun _ => False) abortsOnlyAt_purgeNonces w
    rw [goes, Act.breaks]
    exact iff_of_false lasts.of_breaks ht

end Background

end Simulation

end DocumentPreview
