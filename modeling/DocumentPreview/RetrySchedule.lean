import DocumentPreview.Time.Instant

namespace DocumentPreview

structure RetrySchedule where
  delays : List Span
  deriving DecidableEq, Repr

namespace RetrySchedule

def ofSeconds (ns : List Nat) : RetrySchedule :=
  ⟨ns.map Span.ofSeconds⟩

def default : RetrySchedule :=
  ofSeconds [30, 120, 600]

def delayAfter (r : RetrySchedule) (attempts : Int32) : Span :=
  match r.delays[(max attempts.toInt 1 - 1).toNat]? with
  | some d => d
  | none => r.delays.getLast?.getD Span.zero

def nextRetryAt? (r : RetrySchedule) (attempts : Int32) (now : Instant) : Option Instant :=
  now.shift? ((r.delayAfter attempts).difference?.getD 0)

def describe (r : RetrySchedule) : String :=
  "RetryPolicy \x7b delays: [" ++ ", ".intercalate (r.delays.map Span.text) ++ "] \x7d"

end RetrySchedule

end DocumentPreview
