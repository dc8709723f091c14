import DocumentPreview.Http.Router
import DocumentPreview.Simulation.Background

namespace DocumentPreview

structure Simulation where
  world : Simulation.World
  settings : PipelineSettings
  issuer : TokenIssuer
  replayTracked : Bool
  pipeline : Option Simulation.Background

namespace Simulation

def new? (started : Instant) (settings : PipelineSettings) (issuer : TokenIssuer)
    (replayTracked : Bool) : Option Simulation :=
  (JobQueue.new? settings.queueCapacity).map fun queue =>
    { world :=
        { started := started, elapsed := 0, supply := 0, store := .empty, catalog := .empty,
          objects := .empty, nonces := .empty, queue := queue, metrics := .empty,
          replayReachable := false, faults := [], scripts := [], conversions := [] }
      settings := settings
      issuer := issuer
      replayTracked := replayTracked
      pipeline := none }

def maxTurns : Nat :=
  1_000_000_000

def pass (s : Simulation) (delay : Nat) (inclusive : Bool) : Simulation :=
  let limit := s.world.elapsed + delay
  match s.pipeline with
  | none => { s with world := { s.world with elapsed := limit } }
  | some b =>
    let (b, w) := b.runUntil s.settings limit inclusive maxTurns s.world
    { s with world := w, pipeline := some b }

def elapse (s : Simulation) (delay : Nat) : Simulation :=
  if delay = 0 then s else s.pass delay true

def await {α : Type} : Course α → Simulation → Option α × Simulation
  | .ended a w, s => (some a, { s with world := w })
  | .waiting delay w next, s =>
    let s := pass { s with world := w } delay false
    await (next s.world) s
  | .stuck w, s => (none, { s with world := w })

def perform {α : Type} (s : Simulation) (p : ServiceProgram α) : Option α × Simulation :=
  let (r, s) := await (s.world.follow p) s
  (r.join, s)

def isRunning (s : Simulation) : Bool :=
  s.pipeline.isSome

def start (s : Simulation) : Simulation :=
  match s.pipeline with
  | some _ => s
  | none => { s with pipeline := some (.new s.settings s.world.elapsed) }

def shutdown (s : Simulation) : Simulation :=
  { s with pipeline := none }

def worker (s : Simulation) : Worker :=
  ⟨s.settings.retry, s.settings.conversionTimeout⟩

def takeNext? (s : Simulation) : Option (Uuid × Simulation) :=
  if s.pipeline.any (·.idle ≠ 0) then none
  else s.world.dequeue?.map fun (id, w) => (id, { s with world := w })

def site (s : Simulation) : Http.Site where
  issuer := s.issuer
  maxAttempts := s.settings.maxAttempts
  retryAfter := max 1 s.settings.sweepInterval.seconds
  replayTracked := s.replayTracked

def storeCall (op : StoreOp) : ServiceProgram (Except StoreError op.Result) :=
  .call (.store op) .done

end Simulation

end DocumentPreview
