import DocumentPreview.Pipeline.Attempt
import DocumentPreview.Pipeline.Sweep
import DocumentPreview.Config.Settings
import DocumentPreview.Simulation.World

namespace DocumentPreview.Simulation

structure Ticker where
  period : Nat
  due : Nat
  deriving DecidableEq, Repr

def Ticker.tolerance : Nat :=
  5

def Ticker.tick (t : Ticker) (now : Nat) : Ticker :=
  { t with due := (if t.due + tolerance < now then now else t.due) + t.period }

inductive Task where
  | worker
  | sweep (ticker : Ticker)
  | cleanup (ticker : Ticker)

inductive Turn where
  | begin
  | called
  | resume (next : World → Course Bool)

structure Background where
  ready : List (Task × Turn)
  sleeping : List (Nat × Task × Turn)
  idle : Nat
  firstCalled : Bool

namespace Background

def new (settings : PipelineSettings) (now : Nat) : Background where
  ready :=
    List.replicate settings.workerCount (.worker, .begin)
      ++ [(.sweep ⟨settings.sweepInterval.millis, now⟩, .begin),
          (.cleanup ⟨settings.replayCleanupInterval.millis, now⟩, .begin)]
  sleeping := []
  idle := 0
  firstCalled := false

def standInLine (b : Background) : Background :=
  { b with idle := b.idle + 1 }

def callFirst (b : Background) : Background :=
  { b with ready := b.ready ++ [(.worker, .called)], firstCalled := true }

def leaveLine (b : Background) : Background :=
  let rest := { b with idle := b.idle - 1, firstCalled := false }
  if rest.idle = 0 then rest else rest.callFirst

def sleep (b : Background) (due : Nat) (task : Task) (turn : Turn) : Background :=
  { b with sleeping := b.sleeping ++ [(due, task, turn)] }

def again (b : Background) (now : Nat) (task : Task) : Background :=
  let runNext := { b with ready := (task, .begin) :: b.ready }
  match task with
  | .worker => runNext
  | .sweep t | .cleanup t => if t.due ≤ now then runNext else b.sleep t.due task .begin

def settle (b : Background) (task : Task) : Course Bool → Background × World
  | .ended alive w => (if alive then b.again w.elapsed task else b, w)
  | .waiting delay w next => (b.sleep (w.elapsed + delay) task (.resume next), w)
  | .stuck w => (b, w)

def workOn (settings : PipelineSettings) (id : Uuid) (w : World) : Course Bool :=
  (w.follow (Worker.process ⟨settings.retry, settings.conversionTimeout⟩ id)).map Option.isSome

def run (settings : PipelineSettings) (b : Background) (w : World) (task : Task) :
    Turn → Background × World
  | .resume next => b.settle task (next w)
  | .called =>
    match w.dequeue? with
    | some (id, w) => b.leaveLine.settle .worker (workOn settings id w)
    | none => ({ b with firstCalled := false }, w)
  | .begin =>
    match task with
    | .worker =>
      if b.idle = 0 then
        match w.dequeue? with
        | some (id, w) => b.settle .worker (workOn settings id w)
        | none => (b.standInLine, w)
      else (b.standInLine, w)
    | .sweep t =>
      if t.period = 0 then (b, w)
      else
        b.settle (.sweep (t.tick w.elapsed))
          ((w.follow (Sweep.runOnce settings.staleAfter)).map Option.isSome)
    | .cleanup t =>
      if t.period = 0 then (b, w)
      else b.settle (.cleanup (t.tick w.elapsed)) ((w.follow purgeNonces).map Option.isSome)

def callIfWork (b : Background) (w : World) : Background :=
  if b.idle ≠ 0 ∧ !b.firstCalled ∧ w.queue.depth ≠ 0 then b.callFirst else b

def nextDue? (b : Background) : Option Nat :=
  (b.sleeping.map (·.1)).min?

def wake (b : Background) (now : Nat) : Background :=
  { b with
    ready := b.ready ++ (b.sleeping.filter (·.1 ≤ now)).map (·.2),
    sleeping := b.sleeping.filter (now < ·.1) }

def runUntil (settings : PipelineSettings) (limit : Nat) (inclusive : Bool) :
    (steps : Nat) → Background → World → Background × World
  | 0, b, w => (b, w)
  | steps + 1, b, w =>
    let b := b.callIfWork w
    match b.ready with
    | (task, turn) :: ready =>
      let (b, w) := run settings { b with ready := ready } w task turn
      runUntil settings limit inclusive steps b w
    | [] =>
      match b.nextDue? with
      | some due =>
        if due < limit ∨ (inclusive ∧ due = limit) then
          runUntil settings limit inclusive steps (b.wake due) { w with elapsed := due }
        else (b.wake limit, { w with elapsed := limit })
      | none => (b, { w with elapsed := limit })

end Background

end DocumentPreview.Simulation
