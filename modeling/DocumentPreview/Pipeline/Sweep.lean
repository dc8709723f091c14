import DocumentPreview.Pipeline.Call

namespace DocumentPreview

structure SweepReport where
  reaped : Nat
  requeued : Nat
  admitted : Nat
  deferred : Nat
  deriving DecidableEq, Repr

namespace Sweep

def batch : Int :=
  500

def lease (staleAfter : Span) : Int :=
  staleAfter.difference?.getD (86400 * 1_000_000_000)

def offerEach : List Job → SweepReport → ServiceProgram (Except StoreError SweepReport)
  | [], report => .done (.ok report)
  | job :: jobs, report =>
    .call (.offer job.id) fun
      | .admitted => offerEach jobs { report with admitted := report.admitted + 1 }
      | .alreadyQueued => offerEach jobs report
      | .full => .done (.ok { report with deferred := report.deferred + 1 })
      | .closed => .done (.ok report)

theorem offerEach_closed {P : ServiceProgram (Except StoreError SweepReport) → Prop}
    (offers : ∀ id next, (∀ r, P (next r)) → P (.call (.offer id) next))
    (ends : ∀ report, P (.done (.ok report))) (jobs : List Job) (report : SweepReport) :
    P (offerEach jobs report) := by
  induction jobs generalizing report with
  | nil => exact ends report
  | cons job jobs ih =>
    refine offers job.id _ fun r => ?_
    cases r with
    | admitted => exact ih _
    | alreadyQueued => exact ih _
    | full | closed => exact ends _

def offerPending (report : SweepReport) : ServiceProgram (Except StoreError SweepReport) :=
  .call (.store (.pending batch)) fun
    | .ok jobs => offerEach jobs report
    | .error e => .done (.error e)

def requeue (now : Instant) (reaped : Nat) : ServiceProgram (Except StoreError SweepReport) :=
  .call (.store (.requeueDue now batch)) fun
    | .ok requeued => offerPending ⟨reaped, requeued.length, 0, 0⟩
    | .error _ => offerPending ⟨reaped, 0, 0, 0⟩

def reap (cutoff now : Instant) : ServiceProgram (Except StoreError SweepReport) :=
  .call (.store (.reapStale cutoff now)) fun
    | .ok reaped => requeue now reaped.length
    | .error e => .done (.error e)

def runOnce (staleAfter : Span) : ServiceProgram (Except StoreError SweepReport) :=
  .call .clock fun now =>
  match now.shift? (-lease staleAfter) with
  | some cutoff => reap cutoff now
  | none => .abort

end Sweep

def purgeNonces : ServiceProgram (Except Redis.Error Nat) :=
  .call .clock fun now => .call (.purge now) .done

end DocumentPreview
