import DocumentPreview.Http.Message
import DocumentPreview.Pipeline.Call

namespace DocumentPreview.Http.Health

def version : String :=
  "0.1.0"

structure Probe where
  latency : Option Nat
  deriving DecidableEq, Repr

namespace Probe

def isOk (p : Probe) : Bool :=
  p.latency.isSome

def toJson (p : Probe) : Json :=
  .record
    [("status", .text (if p.isOk then "ok" else "error")),
     ("latency_ms", .ofOption (fun n => .int (n : Nat)) p.latency)]

def ended (started now : Instant) (ok : Bool) : Probe :=
  ⟨if ok then some ((now.nanos - started.nanos) / 1_000_000).toNat else none⟩

end Probe

structure Report where
  database : Probe
  replay : Option Probe
  depth : Nat
  capacity : Nat
  jobs : Option StatusCounts
  deriving DecidableEq, Repr

def countsJson (c : StatusCounts) : Json :=
  .record
    [("pending", .int c.pending), ("processing", .int c.processing),
     ("completed", .int c.completed), ("failed", .int c.failed)]

namespace Report

def isOk (r : Report) : Bool :=
  r.database.isOk && r.replay.all Probe.isOk

def toJson (r : Report) : Json :=
  .record
    ([("status", .text (if r.isOk then "ok" else "degraded")), ("version", .text version),
      ("checks", .record (("database", r.database.toJson)
        :: r.replay.toList.map fun p => ("redis", p.toJson))),
      ("queue", .record [("depth", .int r.depth), ("capacity", .int r.capacity)])]
      ++ r.jobs.toList.map fun c => ("jobs", countsJson c))

def response (r : Report) : Response :=
  .json (if r.isOk then 200 else 503) [] r.toJson

end Report

def report (database : Probe) (replay : Option Probe) (jobs : Option StatusCounts) :
    ServiceProgram Response :=
  .call .queueLoad fun load => .done (Report.response ⟨database, replay, load.1, load.2, jobs⟩)

def countJobs (database : Probe) (replay : Option Probe) : ServiceProgram Response :=
  if database.isOk then
    .call (.store .counts) fun
      | .ok counts => report database replay (some counts)
      | .error _ => report database replay none
  else report database replay none

def probeReplay (replayTracked : Bool) (database : Probe) : ServiceProgram Response :=
  if replayTracked then
    .call .clock fun started =>
    .call .probeReplay fun ok =>
    .call .clock fun now => countJobs database (some (.ended started now ok))
  else countJobs database none

def check (replayTracked : Bool) : ServiceProgram Response :=
  .call .clock fun started =>
  .call (.store .ping) fun answer =>
  .call .clock fun now => probeReplay replayTracked (.ended started now answer.toOption.isSome)

end DocumentPreview.Http.Health
