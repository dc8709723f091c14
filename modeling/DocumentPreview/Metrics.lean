import DocumentPreview.Text.Numeral

namespace DocumentPreview

inductive DenialReason where
  | expired
  | tampered
  | malformed
  | fileMismatch
  | replayed
  | replayStore
  | artifact
  | badRequest
  deriving DecidableEq, Repr

def DenialReason.name : DenialReason → String
  | expired => "expired"
  | tampered => "tampered"
  | malformed => "malformed"
  | fileMismatch => "file_mismatch"
  | replayed => "replayed"
  | replayStore => "replay_store"
  | artifact => "artifact"
  | badRequest => "bad_request"

inductive Counter where
  | jobsEnqueued
  | jobsCompleted
  | jobsFailed (terminal : Bool)
  | queueFull
  | tokensIssued
  | proxyDenied (reason : DenialReason)
  deriving DecidableEq, Repr

structure MetricFamily where
  name : String
  purpose : String
  kind : String
  deriving DecidableEq, Repr

namespace Counter

def family : Counter → MetricFamily
  | jobsEnqueued =>
    ⟨"preview_jobs_enqueued_total", "Preview jobs created by convert requests", "counter"⟩
  | jobsCompleted =>
    ⟨"preview_jobs_completed_total", "Preview jobs that produced an artifact", "counter"⟩
  | jobsFailed _ => ⟨"preview_jobs_failed_total", "Failed conversion attempts", "counter"⟩
  | queueFull =>
    ⟨"preview_queue_full_total", "Jobs deferred to the retry sweep because the queue was full",
      "counter"⟩
  | tokensIssued => ⟨"preview_tokens_issued_total", "Preview access tokens minted", "counter"⟩
  | proxyDenied _ =>
    ⟨"preview_proxy_denied_total", "Preview proxy requests refused, by reason", "counter"⟩

def label? : Counter → Option (String × String)
  | jobsFailed terminal => some ("terminal", if terminal then "true" else "false")
  | proxyDenied reason => some ("reason", reason.name)
  | _ => none

end Counter

structure Metrics where
  counters : List (Counter × Nat)
  attemptsTimed : Nat
  queueDepth : Option Nat
  deriving DecidableEq, Repr

namespace Metrics

def empty : Metrics :=
  ⟨[], 0, none⟩

def value (m : Metrics) (c : Counter) : Nat :=
  (m.counters.lookup c).getD 0

def count (m : Metrics) (c : Counter) : Metrics :=
  { m with counters := (c, m.value c + 1) :: m.counters.filter (·.1 ≠ c) }

def timeAttempt (m : Metrics) : Metrics :=
  { m with attemptsTimed := m.attemptsTimed + 1 }

def setQueueDepth (m : Metrics) (depth : Nat) : Metrics :=
  { m with queueDepth := some depth }

def depthFamily : MetricFamily :=
  ⟨"preview_queue_depth", "Job ids currently waiting in the in-process queue", "gauge"⟩

def attemptFamily : MetricFamily :=
  ⟨"preview_conversion_seconds", "Duration of a single conversion attempt", "summary"⟩

def familyLines (f : MetricFamily) : List String :=
  ["# HELP " ++ f.name ++ " " ++ f.purpose, "# TYPE " ++ f.name ++ " " ++ f.kind]

def valueLine (name : String) (label? : Option (String × String)) (n : Nat) : String :=
  let label := match label? with
    | none => ""
    | some (k, v) => "\x7b" ++ k ++ "=\"" ++ v ++ "\"\x7d"
  name ++ label ++ " " ++ String.ofList (Text.decimal n)

def families (m : Metrics) : List (MetricFamily × List String) :=
  let counted := (m.counters.map (·.1.family)).eraseDups.map fun f =>
    (f, (m.counters.filter (·.1.family = f)).map fun c => valueLine f.name c.1.label? c.2)
  let timed :=
    if m.attemptsTimed = 0 then []
    else [(attemptFamily, [valueLine (attemptFamily.name ++ "_count") none m.attemptsTimed])]
  let depth := match m.queueDepth with
    | none => []
    | some d => [(depthFamily, [valueLine depthFamily.name none d])]
  counted ++ timed ++ depth

def lines (m : Metrics) : List String :=
  (m.families.flatMap fun f => familyLines f.1 ++ f.2).mergeSort fun a b => a ≤ b

def page (m : Metrics) : String :=
  String.join (m.families.map fun f => "\n".intercalate (familyLines f.1 ++ f.2) ++ "\n\n")

end Metrics

end DocumentPreview
