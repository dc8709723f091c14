import DocumentPreview.Pipeline.Call
import DocumentPreview.RetrySchedule

namespace DocumentPreview

inductive AttemptError where
  | fileMissing (fileId : Uuid)
  | catalog (cause : CatalogError)
  | storage (cause : StorageError)
  | conversion (cause : ConversionError)
  | timedOut (limit : Span)
  deriving DecidableEq, Repr

def AttemptError.message : AttemptError → String
  | .fileMissing id => "File " ++ id.text ++ " no longer exists"
  | .catalog cause => cause.message
  | .storage cause => "Storage error: " ++ cause.message
  | .conversion cause => "Conversion failed: " ++ cause.message
  | .timedOut limit => "Attempt timed out after " ++ limit.text

structure Worker where
  retry : RetrySchedule
  timeLimit : Span
  deriving DecidableEq, Repr

namespace Worker

def current (id : Uuid) : ServiceProgram (Option Job) :=
  .call (.store (.get id)) fun
    | .ok job => .done job
    | .error _ => .done none

def recordSuccess (job : Job) : ServiceProgram (Option Job) :=
  .call .clock fun now =>
  .call (.store (.complete job.id now)) fun
    | .ok (some done) => .call (.count .jobsCompleted) fun _ => .done (some done)
    | .ok none => current job.id
    | .error _ => .done none

def recordFailureAt (job : Job) (error : AttemptError) (nextRetryAt : Option Instant) :
    ServiceProgram (Option Job) :=
  .call (.count (.jobsFailed nextRetryAt.isNone)) fun _ =>
  .call (.store (.recordFailure job.id error.message nextRetryAt)) fun
    | .ok (some failed) => .done (some failed)
    | .ok none => current job.id
    | .error _ => .done none

def recordFailure (w : Worker) (job : Job) (error : AttemptError) : ServiceProgram (Option Job) :=
  if job.hasAttemptsLeft then
    .call .clock fun now =>
    match w.retry.nextRetryAt? job.attempts now with
    | some t => recordFailureAt job error (some t)
    | none => .abort
  else recordFailureAt job error none

def finish (w : Worker) (job : Job) (outcome : Except AttemptError Unit) :
    ServiceProgram (Option Job) :=
  .call .timeAttempt fun _ =>
  match outcome with
  | .ok () => recordSuccess job
  | .error e => w.recordFailure job e

def await (w : Worker) (job : Job) (deadline : Int) (c : DocumentCall)
    (next : c.Reply → ServiceProgram (Option Job)) : ServiceProgram (Option Job) :=
  .call (.within deadline c) fun
    | some r => next r
    | none => w.finish job (.error (.timedOut w.timeLimit))

def upload (w : Worker) (job : Job) (deadline : Int) (preview : Bytes) :
    ServiceProgram (Option Job) :=
  w.await job deadline (.upload (artifactKey job.fileId) preview previewContentType) fun
    | .ok () => w.finish job (.ok ())
    | .error e => w.finish job (.error (.storage e))

def convert (w : Worker) (job : Job) (deadline : Int) (name : String) (source : Bytes) :
    ServiceProgram (Option Job) :=
  w.await job deadline (.convert name source) fun
    | .ok preview => w.upload job deadline preview
    | .error e => w.finish job (.error (.conversion e))

def download (w : Worker) (job : Job) (deadline : Int) (file : FileRecord) :
    ServiceProgram (Option Job) :=
  w.await job deadline (.download file.storageKey) fun
    | .ok source => w.convert job deadline file.name source
    | .error e => w.finish job (.error (.storage e))

def find (w : Worker) (job : Job) (deadline : Int) : ServiceProgram (Option Job) :=
  w.await job deadline (.find job.fileId) fun
    | .ok (some file) => w.download job deadline file
    | .ok none => w.finish job (.error (.fileMissing job.fileId))
    | .error e => w.finish job (.error (.catalog e))

def attempt (w : Worker) (job : Job) : ServiceProgram (Option Job) :=
  .call .clock fun started => w.find job (started.nanos + w.timeLimit.nanos)

def process (w : Worker) (id : Uuid) : ServiceProgram (Option Job) :=
  .call .clock fun now =>
  .call (.store (.claim id now)) fun
    | .ok (some job) => w.attempt job
    | _ => .done none

end Worker

end DocumentPreview
