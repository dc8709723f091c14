import DocumentPreview.Proofs.Pipeline.Courses
import DocumentPreview.Proofs.Sequence

namespace DocumentPreview.Simulation

namespace Turn

def Lawful : Turn → Prop
  | resume next => ∀ w, (next w).LeadsOn w ∧ (next w).Ends
  | _ => True

def isCalled : Turn → Bool
  | called => true
  | _ => false

@[simp] theorem isCalled_begin : begin.isCalled = false := rfl

@[simp] theorem isCalled_called : called.isCalled = true := rfl

@[simp] theorem isCalled_resume (next : World → Course Bool) : (resume next).isCalled = false := rfl

end Turn

namespace Course

variable {α β : Type} {w : World} {c : Course α}

theorem LeadsOn.map (h : c.LeadsOn w) (f : α → β) : (c.map f).LeadsOn w :=
  h.bind fun _ v => .refl v

theorem Ends.map (h : c.Ends) (f : α → β) : (c.map f).Ends :=
  h.bind fun _ _ => trivial

def breaks : Course Bool → Bool
  | ended alive _ => !alive
  | _ => false

end Course

theorem answered_process (w : Worker) (id : Uuid) : (w.process id).Every World.Answered := by
  refine ⟨trivial, fun now => ⟨trivial, fun r => ?_⟩⟩
  rcases r with _ | _ | job
  · trivial
  · trivial
  · refine (w.every_attempt job).imp fun c h => ?_
    cases h <;> trivial

theorem answered_runOnce (staleAfter : Span) : (Sweep.runOnce staleAfter).Every World.Answered := by
  refine (Sweep.every_runOnce staleAfter).imp fun c h => ?_
  cases h <;> trivial

theorem answered_purgeNonces : purgeNonces.Every World.Answered :=
  ⟨trivial, fun _ => ⟨trivial, fun _ => trivial⟩⟩

namespace Background

variable {settings : PipelineSettings} {b : Background} {w v : World} {task : Task} {turn : Turn}
  {c : Course Bool} {id : Uuid}

def loops (b : Background) : Nat :=
  b.idle + b.ready.countP (!·.2.isCalled) + b.sleeping.length

structure Kept (calls : Nat) (b : Background) : Prop where
  called : b.ready.countP (·.2.isCalled) + calls = if b.firstCalled then 1 else 0
  line : b.firstCalled → b.idle ≠ 0
  ready : ∀ e ∈ b.ready, e.2.Lawful
  sleeping : ∀ e ∈ b.sleeping, e.2.2.Lawful ∧ e.2.2.isCalled = false

theorem kept_new (settings : PipelineSettings) (now : Nat) : (new settings now).Kept 0 where
  called := by simp [new]
  line := nofun
  ready e he := by
    simp only [new, List.mem_append, List.mem_replicate, List.mem_cons, List.not_mem_nil] at he
    rcases he with ⟨-, rfl⟩ | rfl | rfl | he
    · trivial
    · trivial
    · trivial
    · exact he.elim
  sleeping := nofun

theorem loops_new (settings : PipelineSettings) (now : Nat) :
    (new settings now).loops = settings.workerCount + 2 := by
  simp [new, loops, List.countP_replicate]

theorem Kept.callFirst (h : b.Kept 0) (hb : b.firstCalled = false) (hi : b.idle ≠ 0) :
    b.callFirst.Kept 0 where
  called := by
    have none_called := h.called
    rw [hb] at none_called
    simpa [Background.callFirst] using none_called
  line _ := hi
  ready e he := by
    rcases List.mem_append.mp he with he | he
    · exact h.ready e he
    · obtain rfl := List.mem_singleton.mp he
      trivial
  sleeping := h.sleeping

theorem loops_callFirst (b : Background) : b.callFirst.loops = b.loops := by
  simp [callFirst, loops]

theorem Kept.callIfWork (h : b.Kept 0) (w : World) : (b.callIfWork w).Kept 0 := by
  unfold Background.callIfWork
  split
  · rename_i work
    exact h.callFirst (by simpa using work.2.1) work.1
  · exact h

theorem loops_callIfWork (b : Background) (w : World) : (b.callIfWork w).loops = b.loops := by
  unfold callIfWork
  split
  · exact b.loops_callFirst
  · rfl

theorem Kept.leaveLine (h : b.Kept 1) : b.leaveLine.Kept 0 := by
  have left : ({ b with idle := b.idle - 1, firstCalled := false } : Background).Kept 0 := by
    refine ⟨?_, nofun, h.ready, h.sleeping⟩
    have called := h.called
    split at called
    · simpa using called
    · omega
  unfold Background.leaveLine
  dsimp only
  split
  · exact left
  · exact left.callFirst rfl ‹_›

theorem Kept.idle_ne_zero (h : b.Kept 1) : b.idle ≠ 0 := by
  refine h.line ?_
  by_contra hb
  have called := h.called
  rw [if_neg hb] at called
  omega

theorem loops_leaveLine (h : b.Kept 1) : b.leaveLine.loops + 1 = b.loops := by
  have idle := h.idle_ne_zero
  unfold leaveLine
  dsimp only
  split
  · simp only [loops] at *
    omega
  · rw [loops_callFirst]
    simp only [loops]
    omega

theorem Kept.standInLine (h : b.Kept 0) : b.standInLine.Kept 0 :=
  ⟨h.called, fun _ => Nat.succ_ne_zero _, h.ready, h.sleeping⟩

theorem loops_standInLine (b : Background) : b.standInLine.loops = b.loops + 1 := by
  simp only [standInLine, loops]
  omega

theorem Kept.sleep (h : b.Kept 0) {due : Nat} (hl : turn.Lawful) (hc : turn.isCalled = false) :
    (b.sleep due task turn).Kept 0 where
  called := h.called
  line := h.line
  ready := h.ready
  sleeping e he := by
    rcases List.mem_append.mp he with he | he
    · exact h.sleeping e he
    · obtain rfl := List.mem_singleton.mp he
      exact ⟨hl, hc⟩

theorem loops_sleep (b : Background) (due : Nat) (task : Task) (turn : Turn) :
    (b.sleep due task turn).loops = b.loops + 1 := by
  simp [sleep, loops, Nat.add_assoc]

theorem again_cases (b : Background) (now : Nat) (task : Task) :
    b.again now task = { b with ready := (task, .begin) :: b.ready } ∨
      ∃ due, b.again now task = b.sleep due task .begin := by
  cases task with
  | worker => exact .inl rfl
  | sweep t | cleanup t =>
    unfold again
    dsimp only
    split
    · exact .inl rfl
    · exact .inr ⟨_, rfl⟩

theorem Kept.again (h : b.Kept 0) (now : Nat) (task : Task) : (b.again now task).Kept 0 := by
  rcases b.again_cases now task with he | ⟨due, he⟩
  · rw [he]
    refine ⟨h.called, h.line, fun e hm => ?_, h.sleeping⟩
    rcases List.mem_cons.mp hm with rfl | hm
    · trivial
    · exact h.ready e hm
  · exact he ▸ h.sleep trivial rfl

theorem loops_again (b : Background) (now : Nat) (task : Task) :
    (b.again now task).loops = b.loops + 1 := by
  rcases b.again_cases now task with he | ⟨due, he⟩
  · rw [he]
    simp [loops]
    omega
  · rw [he, loops_sleep]

theorem Kept.settle (h : b.Kept 0) (task : Task) (hl : c.LeadsOn w) (he : c.Ends) :
    (b.settle task c).1.Kept 0 := by
  cases c with
  | ended alive v =>
    cases alive with
    | true => exact h.again _ _
    | false => exact h
  | waiting delay v next => exact h.sleep (fun u => ⟨hl.2 u, he u⟩) rfl
  | stuck v => exact he.elim

theorem loops_settle (b : Background) (task : Task) (he : c.Ends) :
    (b.settle task c).1.loops + (if c.breaks then 1 else 0) = b.loops + 1 := by
  cases c with
  | ended alive v =>
    cases alive with
    | true => exact b.loops_again _ _
    | false => rfl
  | waiting delay v next => exact b.loops_sleep _ _ _
  | stuck v => exact he.elim

theorem settle_world (b : Background) (task : Task) (c : Course Bool) :
    (b.settle task c).2 = c.world := by
  cases c <;> rfl

theorem workOn_leadsOn (settings : PipelineSettings) (id : Uuid) (w : World) :
    (workOn settings id w).LeadsOn w :=
  (World.follow_leadsOn _ w).map _

theorem workOn_ends (settings : PipelineSettings) (id : Uuid) (w : World) :
    (workOn settings id w).Ends :=
  (World.follow_ends (answered_process _ id) w).map _

inductive Act where
  | rests (b : Background)
  | stops
  | works (b : Background) (id : Uuid) (w : World)
  | goesOn (task : Task) (c : Course Bool)

def act (settings : PipelineSettings) (b : Background) (w : World) (task : Task) : Turn → Act
  | .resume next => .goesOn task (next w)
  | .called =>
    match w.dequeue? with
    | some (id, w) => .works b.leaveLine id w
    | none => .rests { b with firstCalled := false }
  | .begin =>
    match task with
    | .worker =>
      if b.idle = 0 then
        match w.dequeue? with
        | some (id, w) => .works b id w
        | none => .rests b.standInLine
      else .rests b.standInLine
    | .sweep t =>
      if t.period = 0 then .stops
      else
        .goesOn (.sweep (t.tick w.elapsed))
          ((w.follow (Sweep.runOnce settings.staleAfter)).map Option.isSome)
    | .cleanup t =>
      if t.period = 0 then .stops
      else .goesOn (.cleanup (t.tick w.elapsed)) ((w.follow purgeNonces).map Option.isSome)

namespace Act

def outcome (settings : PipelineSettings) (b : Background) (w : World) : Act → Background × World
  | rests b => (b, w)
  | stops => (b, w)
  | works b id w => b.settle .worker (workOn settings id w)
  | goesOn task c => b.settle task c

def breaks (settings : PipelineSettings) : Act → Bool
  | rests _ => false
  | stops => true
  | works _ id w => (workOn settings id w).breaks
  | goesOn _ c => c.breaks

def delivery? : Act → Option (Uuid × World)
  | works _ id w => some (id, w)
  | _ => none

end Act

theorem run_eq_outcome (settings : PipelineSettings) (b : Background) (w : World) (task : Task)
    (turn : Turn) :
    run settings b w task turn = (act settings b w task turn).outcome settings b w := by
  cases turn with
  | resume next => rfl
  | called =>
    simp only [run, act]
    cases w.dequeue? <;> rfl
  | begin =>
    cases task with
    | worker =>
      simp only [run, act]
      split
      · cases w.dequeue? <;> rfl
      · rfl
    | sweep t | cleanup t =>
      simp only [run, act]
      split <;> rfl

inductive Turns (settings : PipelineSettings) (b : Background) (w : World) : Turn → Act → Prop
  | rests {turn : Turn} {b' : Background} : b'.Kept 0 →
      b'.loops = b.loops + (if turn.isCalled then 0 else 1) → Turns settings b w turn (.rests b')
  | stops {turn : Turn} : turn.isCalled = false → Turns settings b w turn .stops
  | works {turn : Turn} {b' : Background} {id : Uuid} {v : World} : b'.Kept 0 →
      b'.loops + 1 = b.loops + (if turn.isCalled then 0 else 1) → w.dequeue? = some (id, v) →
        Turns settings b w turn (.works b' id v)
  | goesOn {turn : Turn} {task : Task} {c : Course Bool} : turn.isCalled = false → c.LeadsOn w →
      c.Ends → Turns settings b w turn (.goesOn task c)

theorem act_turns (hk : b.Kept (if turn.isCalled then 1 else 0)) (hl : turn.Lawful) :
    Turns settings b w turn (act settings b w task turn) := by
  cases turn with
  | resume next => exact .goesOn rfl (hl w).1 (hl w).2
  | called =>
    simp only [act]
    cases hq : w.dequeue? with
    | some taken => exact .works hk.leaveLine (loops_leaveLine hk) hq
    | none =>
      refine .rests ⟨?_, nofun, hk.ready, hk.sleeping⟩ rfl
      have called := hk.called
      simp only [Turn.isCalled_called, if_true] at called
      split at called
      · simpa using called
      · omega
  | begin =>
    have rested : Turns settings b w .begin (.rests b.standInLine) :=
      .rests hk.standInLine b.loops_standInLine
    cases task with
    | worker =>
      simp only [act]
      split
      · cases hq : w.dequeue? with
        | some taken => exact .works hk rfl hq
        | none => exact rested
      · exact rested
    | sweep t =>
      simp only [act]
      split
      · exact .stops rfl
      · exact .goesOn rfl ((w.follow_leadsOn _).map _)
          ((World.follow_ends (answered_runOnce _) w).map _)
    | cleanup t =>
      simp only [act]
      split
      · exact .stops rfl
      · exact .goesOn rfl ((w.follow_leadsOn _).map _)
          ((World.follow_ends answered_purgeNonces w).map _)

theorem Kept.outcome {a : Act} (hk : b.Kept (if turn.isCalled then 1 else 0))
    (h : Turns settings b w turn a) : (a.outcome settings b w).1.Kept 0 := by
  have own (hc : turn.isCalled = false) : b.Kept 0 := by simpa [hc] using hk
  cases h with
  | rests h => exact h
  | stops hc => exact own hc
  | works h => exact h.settle _ (workOn_leadsOn ..) (workOn_ends ..)
  | goesOn hc hl he => exact (own hc).settle _ hl he

theorem Turns.loops {a : Act} (h : Turns settings b w turn a) :
    (a.outcome settings b w).1.loops + (if a.breaks settings then 1 else 0) =
      b.loops + if turn.isCalled then 0 else 1 := by
  cases h with
  | rests _ he => exact he
  | stops hc => simp [Act.outcome, Act.breaks, hc]
  | works _ he => exact (loops_settle _ _ (workOn_ends ..)).trans he
  | goesOn hc _ he =>
    rw [hc]
    exact loops_settle b _ he

theorem buffer_of_dequeue? (h : w.dequeue? = some (id, v)) :
    w.queue.buffer = id :: v.queue.buffer ∧ v.faults = w.faults ∧ v.store = w.store := by
  obtain ⟨⟨id', queue⟩, hq, same⟩ := Option.map_eq_some_iff.mp h
  obtain ⟨rfl, rfl⟩ := Prod.mk.inj same
  unfold JobQueue.dequeue? at hq
  split at hq
  · cases hq
  · rename_i rest hbuffer
    obtain ⟨rfl, rfl⟩ := Prod.mk.inj (Option.some.inj hq)
    exact ⟨hbuffer, rfl, rfl⟩

def Act.origin (w : World) (a : Act) : World :=
  (a.delivery?.map (·.2)).getD w

theorem Turns.leadsTo {a : Act} (h : Turns settings b w turn a) :
    (a.origin w).LeadsTo (a.outcome settings b w).2 := by
  cases h with
  | rests | stops => exact .refl w
  | works =>
    rw [Act.outcome, settle_world]
    exact (workOn_leadsOn ..).world
  | goesOn _ hl =>
    rw [Act.outcome, settle_world]
    exact hl.world

theorem Turns.buffer {a : Act} (h : Turns settings b w turn a) :
    w.queue.buffer = (a.delivery?.map (·.1)).toList ++ (a.origin w).queue.buffer := by
  cases h with
  | works _ _ hq => exact (buffer_of_dequeue? hq).1
  | _ => rfl

theorem Turns.faults {a : Act} (h : Turns settings b w turn a) :
    (a.origin w).faults = w.faults := by
  cases h with
  | works _ _ hq => exact (buffer_of_dequeue? hq).2.1
  | _ => rfl

def claimed (settings : PipelineSettings) (id : Uuid) (w : World) : Course Bool :=
  let (r, w) := w.runStore (.claim id w.now)
  (w.follow (match r with
    | some job => Worker.attempt ⟨settings.retry, settings.conversionTimeout⟩ job
    | none => .done none)).map Option.isSome

theorem workOn_eq_claimed (h : w.Faultless) (settings : PipelineSettings) (id : Uuid) :
    workOn settings id w = claimed settings id w := by
  have clock : w.answer .clock = .ended w.now w := rfl
  have claim := h.answer_store (.claim id w.now)
  simp only [workOn, claimed, Worker.process, World.follow, clock, Course.bind, claim]
  cases (w.runStore (.claim id w.now)).1 <;> rfl

theorem Kept.take {i : Nat} (h : b.Kept 0) (hi : b.ready[i]? = some (task, turn)) :
    ({ b with ready := b.ready.eraseIdx i } : Background).Kept
      (if turn.isCalled then 1 else 0) where
  called := by
    have counted := countP_eraseIdx (·.2.isCalled) hi
    have called := h.called
    simp only at counted ⊢
    omega
  line := h.line
  ready e he := h.ready e (List.mem_of_mem_eraseIdx he)
  sleeping := h.sleeping

theorem loops_take {i : Nat} (hi : b.ready[i]? = some (task, turn)) :
    b.loops = ({ b with ready := b.ready.eraseIdx i } : Background).loops +
      if turn.isCalled then 0 else 1 := by
  have counted := countP_eraseIdx (!·.2.isCalled) hi
  simp only [loops]
  cases hc : turn.isCalled <;> simp [hc] at counted ⊢ <;> omega

theorem Kept.wake (h : b.Kept 0) (now : Nat) : (b.wake now).Kept 0 where
  called := by
    have woken : ((b.sleeping.filter (·.1 ≤ now)).map (·.2)).countP (·.2.isCalled) = 0 := by
      refine List.countP_eq_zero.mpr fun e he => ?_
      obtain ⟨s, hs, rfl⟩ := List.mem_map.mp he
      simp [(h.sleeping s (List.mem_filter.mp hs).1).2]
    have ready : (b.wake now).ready.countP (·.2.isCalled) = b.ready.countP (·.2.isCalled) := by
      rw [Background.wake, List.countP_append, woken, Nat.add_zero]
    exact ready ▸ h.called
  line := h.line
  ready e he := by
    rcases List.mem_append.mp he with he | he
    · exact h.ready e he
    · obtain ⟨s, hs, rfl⟩ := List.mem_map.mp he
      exact (h.sleeping s (List.mem_filter.mp hs).1).1
  sleeping e he := h.sleeping e (List.mem_filter.mp he).1

theorem loops_wake (h : b.Kept 0) (now : Nat) : (b.wake now).loops = b.loops := by
  have woken : ((b.sleeping.filter (·.1 ≤ now)).map (·.2)).countP (!·.2.isCalled) =
      (b.sleeping.filter (·.1 ≤ now)).length := by
    rw [List.countP_map, List.countP_eq_length]
    intro s hs
    simp [(h.sleeping s (List.mem_filter.mp hs).1).2]
  have split : (b.sleeping.filter (·.1 ≤ now)).length + (b.sleeping.filter (now < ·.1)).length =
      b.sleeping.length := by
    have late : b.sleeping.filter (now < ·.1) =
        b.sleeping.filter fun s => !decide (s.1 ≤ now) :=
      List.filter_congr fun s _ => by simp only [← decide_not, Nat.not_le]
    rw [late, ← List.length_eq_length_filter_add]
  simp only [loops, wake, List.countP_append, woken]
  omega

end Background

end DocumentPreview.Simulation
