import DocumentPreview.Config.Environment
import DocumentPreview.Config.Field
import DocumentPreview.Config.Settings

namespace DocumentPreview

open Config

inductive ConfigRule where
  | tooShort (least : Nat)
  | tooLow (least : Nat)
  | tooHigh (greatest : Nat)
  deriving DecidableEq, Repr

def ConfigRule.message : ConfigRule → String
  | .tooShort n => s!"length is lower than {n}"
  | .tooLow n => s!"lower than {n}"
  | .tooHigh n => s!"greater than {n}"

structure ConfigViolation where
  path : String
  rule : ConfigRule
  deriving DecidableEq, Repr

inductive ConfigError where
  | duplicate (field : Field)
  | unreadable (fault : ValueError) (key : String)
  | missing (field : Field)
  | violations (all : List ConfigViolation)
  | leaseTooShort (stale timeout : Nat)
  deriving DecidableEq, Repr

namespace ConfigError

def isUnreadable : ConfigError → Bool
  | duplicate _ | unreadable _ _ | missing _ => true
  | violations _ | leaseTooShort _ _ => false

def reason : ConfigError → String
  | duplicate f => "duplicate field `" ++ f.name ++ "`"
  | unreadable e v =>
    e.cause.message ++ " while parsing value '" ++ e.text ++ "' provided by " ++ v
  | missing f => "missing value for field " ++ f.name
  | violations vs => String.join (vs.map fun v => v.path ++ ": " ++ v.rule.message ++ "\n")
  | leaseTooShort stale timeout =>
    s!"stale_processing_secs ({stale}) must exceed conversion_timeout_secs ({timeout})"

def message (e : ConfigError) : String :=
  (if e.isUnreadable then "Failed to read environment: " else "Invalid configuration: ") ++ e.reason

end ConfigError

structure AppConfig where
  bindAddr : String
  databaseUrl : String
  redisUrl : Option String
  converterUrl : String
  r2Bucket : String
  r2AccessKey : String
  r2SecretKey : String
  r2Endpoint : String
  previewTokenSecret : String
  queueCapacity : Nat
  workerCount : Nat
  maxAttempts : Int32
  retryDelaysSecs : List Nat
  conversionTimeoutSecs : Nat
  sweepIntervalSecs : Nat
  replayCleanupIntervalSecs : Nat
  staleProcessingSecs : Nat
  deriving DecidableEq, Repr

namespace Config

abbrev Draft : Type :=
  (f : Field) → Option f.Value

def Draft.empty : Draft :=
  fun _ => none

def Draft.set (d : Draft) (f : Field) (v : f.Value) : Draft :=
  fun g => if h : g = f then some (h ▸ v) else d g

def Draft.take (d : Draft) (key value : String) : Except ConfigError Draft :=
  match Field.ofVariable? key with
  | none => .ok d
  | some f =>
    if (d f).isSome then .error (.duplicate f)
    else match f.kind.read value with
      | .ok v => .ok (d.set f v)
      | .error e => .error (.unreadable e key)

def Draft.ofEnvironment (e : Environment) : Except ConfigError Draft :=
  e.bindings.foldlM (fun d v => d.take v.1 v.2) Draft.empty

def require {α : Type} (f : Field) : Option α → Except ConfigError α
  | some a => .ok a
  | none => .error (.missing f)

def Draft.complete (d : Draft) : Except ConfigError AppConfig := do
  let databaseUrl ← require .databaseUrl (d .databaseUrl)
  let converterUrl ← require .converterUrl (d .converterUrl)
  let r2Bucket ← require .r2Bucket (d .r2Bucket)
  let r2AccessKey ← require .r2AccessKey (d .r2AccessKey)
  let r2SecretKey ← require .r2SecretKey (d .r2SecretKey)
  let r2Endpoint ← require .r2Endpoint (d .r2Endpoint)
  let previewTokenSecret ← require .previewTokenSecret (d .previewTokenSecret)
  return {
    bindAddr := (d .bindAddr).getD "0.0.0.0:3000"
    databaseUrl := databaseUrl
    redisUrl := d .redisUrl
    converterUrl := converterUrl
    r2Bucket := r2Bucket
    r2AccessKey := r2AccessKey
    r2SecretKey := r2SecretKey
    r2Endpoint := r2Endpoint
    previewTokenSecret := previewTokenSecret
    queueCapacity := (d .queueCapacity).getD (100 : Nat)
    workerCount := (d .workerCount).getD (4 : Nat)
    maxAttempts := (d .maxAttempts).getD (3 : Int32)
    retryDelaysSecs := (d .retryDelaysSecs).getD ([30, 120, 600] : List Nat)
    conversionTimeoutSecs := (d .conversionTimeoutSecs).getD (120 : Nat)
    sweepIntervalSecs := (d .sweepIntervalSecs).getD (15 : Nat)
    replayCleanupIntervalSecs := (d .replayCleanupIntervalSecs).getD (60 : Nat)
    staleProcessingSecs := (d .staleProcessingSecs).getD (900 : Nat) }

end Config

namespace AppConfig

def notEmpty (f : Field) (s : String) : List ConfigViolation :=
  if s.isEmpty then [⟨f.name, .tooShort 1⟩] else []

def atLeast (f : Field) (least n : Nat) : List ConfigViolation :=
  if n < least then [⟨f.name, .tooLow least⟩] else []

def within (f : Field) (least greatest : Nat) (n : Int) : List ConfigViolation :=
  if n < least then [⟨f.name, .tooLow least⟩]
  else if greatest < n then [⟨f.name, .tooHigh greatest⟩]
  else []

def delayViolations (delays : List Nat) : List ConfigViolation :=
  if delays.isEmpty then [⟨Field.retryDelaysSecs.name, .tooShort 1⟩]
  else (delays.zipIdx.filter fun d => 86400 < d.1).map fun d =>
    ⟨Field.retryDelaysSecs.name ++ s!"[{d.2}]", .tooHigh 86400⟩

def violations (c : AppConfig) : List ConfigViolation :=
  notEmpty .bindAddr c.bindAddr
    ++ atLeast .conversionTimeoutSecs 1 c.conversionTimeoutSecs
    ++ notEmpty .converterUrl c.converterUrl
    ++ notEmpty .databaseUrl c.databaseUrl
    ++ within .maxAttempts 1 50 c.maxAttempts.toInt
    ++ notEmpty .previewTokenSecret c.previewTokenSecret
    ++ within .queueCapacity 1 100000 c.queueCapacity
    ++ notEmpty .r2AccessKey c.r2AccessKey
    ++ notEmpty .r2Bucket c.r2Bucket
    ++ notEmpty .r2Endpoint c.r2Endpoint
    ++ notEmpty .r2SecretKey c.r2SecretKey
    ++ atLeast .replayCleanupIntervalSecs 1 c.replayCleanupIntervalSecs
    ++ delayViolations c.retryDelaysSecs
    ++ atLeast .staleProcessingSecs 1 c.staleProcessingSecs
    ++ atLeast .sweepIntervalSecs 1 c.sweepIntervalSecs
    ++ within .workerCount 1 64 c.workerCount

def check (c : AppConfig) : Except ConfigError Unit :=
  if !c.violations.isEmpty then .error (.violations c.violations)
  else if c.staleProcessingSecs ≤ c.conversionTimeoutSecs then
    .error (.leaseTooShort c.staleProcessingSecs c.conversionTimeoutSecs)
  else .ok ()

def ofEnvironment (e : Environment) : Except ConfigError AppConfig := do
  let c ← (← Draft.ofEnvironment e).complete
  c.check
  return c

def pipelineSettings (c : AppConfig) : PipelineSettings where
  queueCapacity := c.queueCapacity
  workerCount := c.workerCount
  maxAttempts := c.maxAttempts
  retry := RetrySchedule.ofSeconds c.retryDelaysSecs
  conversionTimeout := Span.ofSeconds c.conversionTimeoutSecs
  sweepInterval := Span.ofSeconds c.sweepIntervalSecs
  replayCleanupInterval := Span.ofSeconds c.replayCleanupIntervalSecs
  staleAfter := Span.ofSeconds c.staleProcessingSecs

end AppConfig

end DocumentPreview
