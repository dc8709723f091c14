import DocumentPreview.RetrySchedule

namespace DocumentPreview

structure PipelineSettings where
  queueCapacity : Nat
  workerCount : Nat
  maxAttempts : Int32
  retry : RetrySchedule
  conversionTimeout : Span
  sweepInterval : Span
  replayCleanupInterval : Span
  staleAfter : Span
  deriving DecidableEq, Repr

def PipelineSettings.default : PipelineSettings where
  queueCapacity := 100
  workerCount := 4
  maxAttempts := 3
  retry := RetrySchedule.default
  conversionTimeout := Span.ofSeconds 120
  sweepInterval := Span.ofSeconds 15
  replayCleanupInterval := Span.ofSeconds 60
  staleAfter := Span.ofSeconds 900

end DocumentPreview
