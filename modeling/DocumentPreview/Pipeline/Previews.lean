import DocumentPreview.Pipeline.Call
import DocumentPreview.Token.Issuer

namespace DocumentPreview

inductive PreviewError where
  | fileNotFound (fileId : Uuid)
  | noJob (fileId : Uuid)
  | notRetryable (status : JobStatus)
  | notReady (status : Option JobStatus)
  | store (cause : StoreError)
  | catalog (cause : CatalogError)
  deriving DecidableEq, Repr

def PreviewError.message : PreviewError → String
  | .fileNotFound id => "File " ++ id.text ++ " not found"
  | .noJob id => "No preview job for file " ++ id.text
  | .notRetryable status => "Only failed jobs can be retried (job is " ++ status.name ++ ")"
  | .notReady _ => "Preview is not ready"
  | .store cause => "Job store error: " ++ cause.message
  | .catalog cause => cause.message

inductive AccessDenied where
  | token (cause : TokenError)
  | fileMismatch
  | replayed
  | replayStore (cause : Redis.Error)
  | artifact (cause : StorageError)
  deriving DecidableEq, Repr

namespace AccessDenied

def message : AccessDenied → String
  | token cause => "invalid token: " ++ cause.message
  | fileMismatch => "token was issued for a different file"
  | replayed => "token already used"
  | replayStore cause => "replay store unavailable: " ++ cause.message
  | artifact cause => "artifact unavailable: " ++ cause.message

def reason : AccessDenied → DenialReason
  | token .expired => .expired
  | token .tampered => .tampered
  | token _ => .malformed
  | fileMismatch => .fileMismatch
  | replayed => .replayed
  | replayStore _ => .replayStore
  | artifact _ => .artifact

end AccessDenied

structure EnqueueOutcome where
  job : Job
  created : Bool
  queueFull : Bool
  deriving DecidableEq, Repr

namespace Previews

def offer (job : Job) (created : Bool) : ServiceProgram (Except PreviewError EnqueueOutcome) :=
  .call (.offer job.id) fun
    | .full => .call (.count .queueFull) fun _ => .done (.ok ⟨job, created, true⟩)
    | .closed => .done (.ok ⟨job, created, true⟩)
    | .admitted | .alreadyQueued => .done (.ok ⟨job, created, false⟩)

def create (maxAttempts : Int32) (fileId : Uuid) (requestedBy : Option String) :
    ServiceProgram (Except PreviewError EnqueueOutcome) :=
  .call (.store (.create fileId requestedBy maxAttempts)) fun
    | .ok (job, true) => .call (.count .jobsEnqueued) fun _ => offer job true
    | .ok (job, false) => .done (.ok ⟨job, false, false⟩)
    | .error e => .done (.error (.store e))

def enqueue (maxAttempts : Int32) (fileId : Uuid) (requestedBy : Option String) :
    ServiceProgram (Except PreviewError EnqueueOutcome) :=
  .call (.documents (.find fileId)) fun
    | .ok (some _) => create maxAttempts fileId requestedBy
    | .ok none => .done (.error (.fileNotFound fileId))
    | .error e => .done (.error (.catalog e))

def status (fileId : Uuid) : ServiceProgram (Except PreviewError (Option Job)) :=
  .call (.store (.latest fileId)) fun
    | .ok job => .done (.ok job)
    | .error e => .done (.error (.store e))

def refuseRetry (latest : Job) : ServiceProgram (Except PreviewError EnqueueOutcome) :=
  .call (.store (.get latest.id)) fun
    | .ok (some job) => .done (.error (.notRetryable job.status))
    | .ok none => .done (.error (.notRetryable latest.status))
    | .error e => .done (.error (.store e))

def reset (latest : Job) : ServiceProgram (Except PreviewError EnqueueOutcome) :=
  .call (.store (.reset latest.id)) fun
    | .ok (some job) => offer job false
    | .ok none => refuseRetry latest
    | .error e => .done (.error (.store e))

def retry (fileId : Uuid) : ServiceProgram (Except PreviewError EnqueueOutcome) :=
  .call (.store (.latest fileId)) fun
    | .ok (some latest) =>
      if latest.status = .failed then reset latest
      else .done (.error (.notRetryable latest.status))
    | .ok none => .done (.error (.noJob fileId))
    | .error e => .done (.error (.store e))

def mint (issuer : TokenIssuer) (fileId : Uuid) :
    ServiceProgram (Except PreviewError MintedToken) :=
  .call .clock fun now =>
  if (now.shift? TokenIssuer.lifetime.nanos).isNone then .abort
  else
    .call .freshId fun nonce =>
    match issuer.mint? fileId nonce now with
    | some minted => .call (.count .tokensIssued) fun _ => .done (.ok minted)
    | none => .abort

def issueToken (issuer : TokenIssuer) (fileId : Uuid) :
    ServiceProgram (Except PreviewError MintedToken) :=
  .call (.store (.latest fileId)) fun
    | .ok latest =>
      if latest.map (·.status) = some .completed then mint issuer fileId
      else .done (.error (.notReady (latest.map (·.status))))
    | .error e => .done (.error (.store e))

def fetch (fileId : Uuid) : ServiceProgram (Except AccessDenied StoredObject) :=
  .call (.documents (.download (artifactKey fileId))) fun
    | .ok bytes => .done (.ok ⟨bytes, previewContentType⟩)
    | .error e => .done (.error (.artifact e))

def redeem (fileId : Uuid) (claims : TokenClaims) :
    ServiceProgram (Except AccessDenied StoredObject) :=
  .call (.consume claims.nonce claims.expiry) fun
    | .ok true => fetch fileId
    | .ok false => .done (.error .replayed)
    | .error e => .done (.error (.replayStore e))

def openPreview (issuer : TokenIssuer) (fileId : Uuid) (token : String) :
    ServiceProgram (Except AccessDenied StoredObject) :=
  .call .clock fun now =>
  match issuer.validate token now with
  | .error e => .done (.error (.token e))
  | .ok claims =>
    if claims.fileId = fileId then redeem fileId claims else .done (.error .fileMismatch)

end Previews

end DocumentPreview
