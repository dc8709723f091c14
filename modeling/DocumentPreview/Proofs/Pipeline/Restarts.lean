import DocumentPreview.Proofs.Access.Visit
import DocumentPreview.Proofs.Pipeline.Breakdown
import DocumentPreview.Simulation.Basic

namespace DocumentPreview.Simulation

variable {α : Type}

inductive Arises : (World → Course (Option α)) → Prop
  | begins (p : ServiceProgram α) : Arises (World.follow p)
  | goesOn {next later : World → Course (Option α)} {delay : Nat} {w v : World} : Arises next →
      next w = .waiting delay v later → Arises later

theorem Arises.leadsOn {next : World → Course (Option α)} (h : Arises next) (w : World) :
    (next w).LeadsOn w := by
  induction h generalizing w with
  | begins p => exact World.follow_leadsOn p w
  | @goesOn next later delay u v _ hw ih => exact ((hw ▸ ih u : Course.LeadsOn u (.waiting ..)).2 w)

inductive Happening where
  | start
  | shutdown
  | turn (i : Nat)
  | look
  | wake (now : Nat)
  | serve {α : Type} (next : World → Course (Option α)) (h : Arises next)
  | arrange (faults : List (Target × Fault)) (scripts : List (String × Conversion))
      (h : ∀ f ∈ faults, ∀ method, f.1 ≠ .store method)
  | addFile (file : FileRecord) (content : Option Bytes)

namespace Happening

def runs (before : Bool) : Happening → Bool
  | start => true
  | shutdown => false
  | _ => before

def Serves : Happening → Prop
  | serve .. => True
  | _ => False

end Happening

def running (hs : List Happening) : Bool :=
  hs.foldl Happening.runs false

def loops (s : Simulation) : Nat :=
  match s.pipeline with
  | some b => b.loops
  | none => 0

def gained (w v : World) : List Uuid :=
  v.queue.buffer.drop w.queue.buffer.length

theorem buffer_eq_gained {w v : World} (h : w.LeadsTo v) :
    v.queue.buffer = w.queue.buffer ++ gained w v := by
  obtain ⟨more, he⟩ := h.buffer
  rw [gained, ← he, List.drop_left]

structure Account where
  sim : Simulation
  broken : Nat
  admitted : List Uuid
  delivered : List (Uuid × World)

namespace Account

def opened (s : Simulation) : Account :=
  ⟨s, 0, s.world.queue.buffer, []⟩

def turned (l : Account) (b : Background) (task : Task) (turn : Turn) : Account :=
  let act := b.act l.sim.settings l.sim.world task turn
  let left := b.run l.sim.settings l.sim.world task turn
  { sim := { l.sim with world := left.2, pipeline := some left.1 }
    broken := l.broken + if act.breaks l.sim.settings then 1 else 0
    admitted := l.admitted ++ gained (act.origin l.sim.world) left.2
    delivered := l.delivered ++ act.delivery?.toList }

def happen (l : Account) : Happening → Account
  | .start => { l with sim := l.sim.start, broken := if l.sim.isRunning then l.broken else 0 }
  | .shutdown => { l with sim := l.sim.shutdown }
  | .turn i =>
    match l.sim.pipeline with
    | some b =>
      match b.ready[i]? with
      | some (task, turn) => l.turned { b with ready := b.ready.eraseIdx i } task turn
      | none => l
    | none => l
  | .look =>
    { l with sim := { l.sim with pipeline := l.sim.pipeline.map (·.callIfWork l.sim.world) } }
  | .wake now =>
    { l with
      sim :=
        { l.sim with
          world := { l.sim.world with elapsed := now }
          pipeline := l.sim.pipeline.map (·.wake now) } }
  | .serve next _ =>
    { l with
      sim := { l.sim with world := (next l.sim.world).world }
      admitted := l.admitted ++ gained l.sim.world (next l.sim.world).world }
  | .arrange faults scripts _ =>
    { l with sim := { l.sim with world := { l.sim.world with faults, scripts } } }
  | .addFile file content =>
    { l with sim := { l.sim with world := l.sim.world.addFile file content } }

def happens (l : Account) (hs : List Happening) : Account :=
  hs.foldl happen l

structure Agrees (settings : PipelineSettings) (l : Account) : Prop where
  same : l.sim.settings = settings
  kept : ∀ b, l.sim.pipeline = some b → b.Kept 0
  loops : ∀ b, l.sim.pipeline = some b → b.loops + l.broken = settings.workerCount + 2
  steady : ∀ b, l.sim.pipeline = some b → b.Steady settings
  faultless : l.sim.world.Faultless
  queue : l.delivered.map (·.1) ++ l.sim.world.queue.buffer = l.admitted
  delivered : ∀ d ∈ l.delivered, d.2.Faultless

variable {settings : PipelineSettings} {l : Account}

theorem agrees_opened {s : Simulation} (stopped : s.pipeline = none) (h : s.world.Faultless) :
    (opened s).Agrees s.settings where
  same := rfl
  kept _ hb := nomatch stopped.symm.trans hb
  loops _ hb := nomatch stopped.symm.trans hb
  steady _ hb := nomatch stopped.symm.trans hb
  faultless := h
  queue := rfl
  delivered _ hd := absurd hd List.not_mem_nil

theorem Agrees.turned (h : l.Agrees settings) {b : Background} {task : Task} {turn : Turn}
    (hk : b.Kept (if turn.isCalled then 1 else 0)) (hl : turn.Lawful)
    (loops : b.loops + (if turn.isCalled then 0 else 1) + l.broken = settings.workerCount + 2)
    (hs : b.Steady settings) (he : Background.Endures settings task turn) :
    (l.turned b task turn).Agrees settings := by
  obtain rfl := h.same
  have endures := Background.act_endures hs he l.sim.world
  have turns : Background.Turns l.sim.settings b l.sim.world turn
      (b.act l.sim.settings l.sim.world task turn) := Background.act_turns hk hl
  unfold Account.turned
  rw [Background.run_eq_outcome]
  generalize b.act l.sim.settings l.sim.world task turn = act at turns endures
  have leads := turns.leadsTo
  have origin : (act.origin l.sim.world).Faultless := fun f hf => h.faultless f (turns.faults ▸ hf)
  refine ⟨rfl, fun b' hb => ?_, fun b' hb => ?_, fun b' hb => ?_, origin.leads leads, ?_,
    fun d hd => ?_⟩
  · exact Option.some.inj hb ▸ hk.outcome turns
  · obtain rfl := Option.some.inj hb
    have after := turns.loops
    dsimp only
    omega
  · exact Option.some.inj hb ▸ hs.outcome endures l.sim.world
  · have before := h.queue
    rw [turns.buffer] at before
    dsimp only
    rw [buffer_eq_gained leads, ← before, List.map_append]
    cases act.delivery? <;> simp
  · rcases List.mem_append.mp hd with hd | hd
    · exact h.delivered d hd
    · have taken : act.delivery? = some d := by simpa using hd
      simpa [Background.Act.origin, taken] using origin

theorem Agrees.served (h : l.Agrees settings) {w : World} (hw : l.sim.world.LeadsTo w) :
    ({ l with
      sim := { l.sim with world := w }
      admitted := l.admitted ++ gained l.sim.world w } : Account).Agrees settings := by
  refine ⟨h.same, h.kept, h.loops, h.steady, h.faultless.leads hw, ?_, h.delivered⟩
  rw [buffer_eq_gained hw, ← List.append_assoc, h.queue]

theorem happen_start_of_running (h : l.sim.isRunning) : l.happen .start = l := by
  obtain ⟨b, hp⟩ := Option.isSome_iff_exists.mp h
  simp [happen, Simulation.start, Simulation.isRunning, hp]

theorem happen_start_of_stopped (h : l.sim.pipeline = none) :
    l.happen .start = { l with
      sim := { l.sim with pipeline := some (.new l.sim.settings l.sim.world.elapsed) }
      broken := 0 } := by
  simp [happen, Simulation.start, Simulation.isRunning, h]

theorem happen_shutdown_of_stopped (h : l.sim.pipeline = none) : l.happen .shutdown = l := by
  simp [happen, Simulation.shutdown, ← h]

theorem Agrees.happen (h : l.Agrees settings) (e : Happening) : (l.happen e).Agrees settings := by
  cases e with
  | start =>
    cases hp : l.sim.pipeline with
    | some b =>
      rw [happen_start_of_running (by simp [Simulation.isRunning, hp])]
      exact h
    | none =>
      rw [happen_start_of_stopped hp]
      refine ⟨h.same, fun b hb => ?_, fun b hb => ?_, fun b hb => ?_, h.faultless, h.queue,
        h.delivered⟩
      · exact Option.some.inj hb ▸ Background.kept_new ..
      · obtain rfl := Option.some.inj hb
        exact h.same ▸ Background.loops_new ..
      · obtain rfl := Option.some.inj hb
        exact h.same ▸ Background.steady_new ..
  | shutdown =>
    exact ⟨h.same, fun _ hb => (nomatch hb), fun _ hb => (nomatch hb), fun _ hb => (nomatch hb),
      h.faultless, h.queue, h.delivered⟩
  | turn i =>
    simp only [Account.happen]
    split
    · rename_i b hb
      split
      · rename_i task turn hi
        have loops := h.loops b hb
        rw [Background.loops_take hi] at loops
        have chosen := List.mem_of_getElem? hi
        exact h.turned ((h.kept b hb).take hi) ((h.kept b hb).ready _ chosen) loops
          ((h.steady b hb).take i) ((h.steady b hb).ready _ chosen)
      · exact h
    · exact h
  | look =>
    refine ⟨h.same, fun b hb => ?_, fun b hb => ?_, fun b hb => ?_, h.faultless, h.queue,
      h.delivered⟩
    all_goals obtain ⟨b, hp, rfl⟩ := Option.map_eq_some_iff.mp hb
    · exact (h.kept b hp).callIfWork _
    · rw [Background.loops_callIfWork]
      exact h.loops b hp
    · exact (h.steady b hp).callIfWork _
  | wake now =>
    refine ⟨h.same, fun b hb => ?_, fun b hb => ?_, fun b hb => ?_, h.faultless, h.queue,
      h.delivered⟩
    all_goals obtain ⟨b, hp, rfl⟩ := Option.map_eq_some_iff.mp hb
    · exact (h.kept b hp).wake now
    · rw [Background.loops_wake (h.kept b hp)]
      exact h.loops b hp
    · exact (h.steady b hp).wake now
  | serve next arises => exact h.served (arises.leadsOn _).world
  | arrange faults scripts bounded =>
    exact ⟨h.same, h.kept, h.loops, h.steady, bounded, h.queue, h.delivered⟩
  | addFile file content =>
    exact ⟨h.same, h.kept, h.loops, h.steady, h.faultless, h.queue, h.delivered⟩

theorem Agrees.happens (h : l.Agrees settings) (hs : List Happening) :
    (l.happens hs).Agrees settings := by
  induction hs generalizing l with
  | nil => exact h
  | cons e hs ih => exact ih (h.happen e)

theorem isRunning_happen (l : Account) (e : Happening) :
    (l.happen e).sim.isRunning = e.runs l.sim.isRunning := by
  cases e with
  | start =>
    cases hp : l.sim.pipeline <;>
      simp [happen, Happening.runs, Simulation.start, Simulation.isRunning, hp]
  | turn i =>
    simp only [happen, Happening.runs]
    split
    · rename_i b hb
      split
      · simp [turned, Simulation.isRunning, hb]
      · rfl
    · rfl
  | look | wake => simp [happen, Happening.runs, Simulation.isRunning]
  | shutdown | serve | arrange | addFile => rfl

theorem isRunning_happens (l : Account) (hs : List Happening) :
    (l.happens hs).sim.isRunning = hs.foldl Happening.runs l.sim.isRunning := by
  induction hs generalizing l with
  | nil => rfl
  | cons e hs ih => exact (ih _).trans (by rw [isRunning_happen]; rfl)

theorem pipeline_of_stopped (h : l.sim.isRunning = false) : l.sim.pipeline = none := by
  simpa [Simulation.isRunning] using h

theorem store_happen_of_stopped (hr : l.sim.isRunning = false) {e : Happening} (he : ¬ e.Serves) :
    (l.happen e).sim.world.store = l.sim.world.store := by
  have stopped := pipeline_of_stopped hr
  cases e with
  | start | turn => simp [happen, Simulation.start, stopped]
  | serve => exact absurd trivial he
  | shutdown | look | wake | arrange | addFile => rfl

structure Breakdowns (settings : PipelineSettings) (l : Account) : Prop where
  only : ∀ e, l.broken < (l.happen e).broken → ∃ i b task turn, e = .turn i ∧
    l.sim.pipeline = some b ∧ b.ready[i]? = some (task, turn) ∧
    (Background.Unticking task ∨ Background.Fatal settings task (l.happen e).sim.world.now)
  sweep : ∀ i b t, l.sim.pipeline = some b → b.ready[i]? = some (.sweep t, .begin) →
    ((l.happen (.turn i)).broken = l.broken + 1 ↔
      t.period = 0 ∨ l.sim.world.now.shift? (-Sweep.lease settings.staleAfter) = none)
  cleanup : ∀ i b t, l.sim.pipeline = some b → b.ready[i]? = some (.cleanup t, .begin) →
    ((l.happen (.turn i)).broken = l.broken + 1 ↔ t.period = 0)

theorem happen_turn {i : Nat} {b : Background} {task : Task} {turn : Turn}
    (hb : l.sim.pipeline = some b) (hi : b.ready[i]? = some (task, turn)) :
    l.happen (.turn i) = l.turned { b with ready := b.ready.eraseIdx i } task turn := by
  simp only [happen, hb, hi]

theorem broken_turned_iff {b : Background} {task : Task} {turn : Turn} :
    (l.turned b task turn).broken = l.broken + 1 ↔
      (b.act l.sim.settings l.sim.world task turn).breaks l.sim.settings = true := by
  simp [turned]

theorem breaks_of_lt {b : Background} {task : Task} {turn : Turn}
    (more : l.broken < (l.turned b task turn).broken) :
    (b.act l.sim.settings l.sim.world task turn).breaks l.sim.settings = true := by
  by_contra lasts
  simp [turned, lasts] at more

theorem Agrees.breakdowns (h : l.Agrees settings) : l.Breakdowns settings := by
  obtain rfl := h.same
  constructor
  case only =>
    intro e more
    cases e with
    | turn i =>
      cases hb : l.sim.pipeline with
      | none => simp [Account.happen, hb] at more
      | some b =>
        cases hi : b.ready[i]? with
        | none => simp [Account.happen, hb, hi] at more
        | some entry =>
          obtain ⟨task, turn⟩ := entry
          have steady := (h.steady b hb).take i
          have endures := (h.steady b hb).ready _ (List.mem_of_getElem? hi)
          refine ⟨i, b, task, turn, rfl, rfl, hi, ?_⟩
          rw [happen_turn hb hi] at more ⊢
          rw [Account.turned, Background.run_eq_outcome]
          exact (Background.act_endures steady endures _).of_breaks (breaks_of_lt more) _ _
    | start =>
      unfold Account.happen at more
      dsimp only at more
      split at more <;> omega
    | shutdown | look | wake | serve | arrange | addFile => exact absurd more (Nat.lt_irrefl _)
  case sweep =>
    intro i b t hb hi
    rw [happen_turn hb hi, broken_turned_iff]
    exact Background.breaks_sweep_iff
  case cleanup =>
    intro i b t hb hi
    rw [happen_turn hb hi, broken_turned_iff]
    exact Background.breaks_cleanup_iff

theorem restarts_lose_nothing {s : Simulation} (stopped : s.pipeline = none)
    (faultless : s.world.Faultless) (hs : List Happening) :
    let l := (opened s).happens hs
    l.sim.isRunning = running hs ∧
    (running hs = true → loops l.sim + l.broken = s.settings.workerCount + 2 ∧
      l.Breakdowns s.settings ∧ l.happen .start = l) ∧
    (running hs = false → loops l.sim = 0 ∧ l.happen .shutdown = l ∧
      loops (l.happen .start).sim = s.settings.workerCount + 2 ∧
      ∀ e : Happening, ¬ e.Serves → (l.happen e).sim.world.store = l.sim.world.store) ∧
    l.delivered.map (·.1) ++ l.sim.world.queue.buffer = l.admitted ∧
    ∀ d ∈ l.delivered, Background.workOn s.settings d.1 d.2 =
      Background.claimed s.settings d.1 d.2 := by
  intro l
  have agrees : l.Agrees s.settings := (agrees_opened stopped faultless).happens hs
  have runs : l.sim.isRunning = running hs := by
    rw [running, isRunning_happens, show (opened s).sim.isRunning = false by
      simp [opened, Simulation.isRunning, stopped]]
  refine ⟨runs, fun h => ?_, fun h => ?_, agrees.queue, fun d hd => ?_⟩
  · obtain ⟨b, hb⟩ := Option.isSome_iff_exists.mp (runs.trans h)
    refine ⟨?_, agrees.breakdowns, happen_start_of_running (runs.trans h)⟩
    rw [Simulation.loops, hb]
    exact agrees.loops b hb
  · have none_left := pipeline_of_stopped (runs.trans h)
    refine ⟨?_, happen_shutdown_of_stopped none_left, ?_, fun e he => ?_⟩
    · rw [Simulation.loops, none_left]
    · rw [happen_start_of_stopped none_left, ← agrees.same]
      exact Background.loops_new ..
    · exact store_happen_of_stopped (runs.trans h) he
  · exact Background.workOn_eq_claimed (agrees.delivered d hd) s.settings d.1

def unstarted (settings : PipelineSettings) : Simulation where
  world :=
    { started := .epoch, elapsed := 0, supply := 0, store := .empty, catalog := .empty,
      objects := .empty, nonces := .empty, queue := ⟨settings.queueCapacity, [], []⟩,
      metrics := .empty, replayReachable := false, faults := [], scripts := [], conversions := [] }
  settings := settings
  issuer := .zeroKey
  replayTracked := true
  pipeline := none

def endless : PipelineSettings :=
  { PipelineSettings.default with staleAfter := .ofSeconds 10_000_000_000_000 }

theorem not_loops_eq : ¬ ∀ (s : Simulation) (hs : List Happening), s.pipeline = none →
    s.world.Faultless →
      loops ((opened s).happens (hs ++ [.start])).sim = s.settings.workerCount + 2 := by
  intro h
  have all := h (unstarted endless) [.start, .turn 4] rfl nofun
  exact absurd all (by decide +kernel)

def restartedAtWork : List Happening :=
  [.addFile ⟨.ofNat 9, "a.docx", "uploads/9", none⟩ (some [1]), .start, .start, .turn 0,
    .serve (World.follow (Previews.enqueue 3 (.ofNat 9) none)) (.begins _), .look, .turn 5,
    .shutdown, .shutdown, .start]

theorem restarts_lose_nothing_at_work :
    let s := unstarted .default
    let l := (opened s).happens restartedAtWork
    s.pipeline = none ∧ s.world.Faultless ∧ running restartedAtWork = true ∧
      loops l.sim + l.broken = 6 ∧ l.delivered.map (·.1) ++ l.sim.world.queue.buffer = l.admitted ∧
      l.admitted = [Uuid.numbered 1] := by
  have kept := restarts_lose_nothing (s := unstarted .default) rfl nofun restartedAtWork
  exact ⟨rfl, nofun, rfl, (kept.2.1 rfl).1, kept.2.2.2.1, by decide +kernel⟩

end Account

end DocumentPreview.Simulation
