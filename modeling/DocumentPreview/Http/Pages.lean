import DocumentPreview.Http.Message
import DocumentPreview.Job.Codec
import DocumentPreview.Pipeline.Previews
import DocumentPreview.PreviewQuery
import DocumentPreview.Text.Blank

namespace DocumentPreview.Http

structure Site where
  issuer : TokenIssuer
  maxAttempts : Int32
  retryAfter : Nat
  replayTracked : Bool

namespace Site

def statusOf : PreviewError → Nat
  | .fileNotFound _ | .noJob _ => 404
  | .notRetryable _ | .notReady _ => 409
  | .store _ | .catalog _ => 500

def refusal (e : PreviewError) : Response :=
  .error (statusOf e) (if statusOf e = 500 then "internal error" else e.message)

def outcome (site : Site) (status : Nat) (o : EnqueueOutcome) : Response :=
  let retryAfter := String.ofList (Text.decimal site.retryAfter)
  .json status (if o.queueFull then [("retry-after", retryAfter)] else [])
    (JobResponse.ofJob o.job o.queueFull).toJson

def requesterHeader : String :=
  "x-user-id"

def maxRequesterBytes : Nat :=
  256

def isHeaderText (c : Char) : Bool :=
  c = '\t' || (' ' ≤ c && c ≤ '~')

def requester? (r : Request) : Option String :=
  (r.header? requesterHeader).bind fun value =>
    let name := Text.trim value.toList
    if value.toList.all isHeaderText ∧ name ≠ [] ∧ name.length ≤ maxRequesterBytes then
      some (String.ofList name)
    else none

def answered {α : Type} (page : α → Response) : Except PreviewError α → Response
  | .ok a => page a
  | .error e => refusal e

def enqueue (site : Site) (fileId : Uuid) (r : Request) : ServiceProgram Response :=
  (Previews.enqueue site.maxAttempts fileId (requester? r)).map
    (answered fun o => site.outcome (if o.created then 202 else 200) o)

def status (fileId : Uuid) : ServiceProgram Response :=
  (Previews.status fileId).map
    (answered fun
      | some job => .json 200 [] (JobResponse.ofJob job false).toJson
      | none => refusal (.noJob fileId))

def retry (site : Site) (fileId : Uuid) : ServiceProgram Response :=
  (Previews.retry fileId).map (answered (site.outcome 202))

def previewPath : String :=
  "/api/v1/preview"

def link (fileId : Uuid) (token : String) : String :=
  previewPath ++ "?file_id=" ++ fileId.text ++ "&token=" ++ token

def tokenPage (fileId : Uuid) (m : MintedToken) : Response :=
  .json 200 []
    (.record
      [("token", .text m.token), ("expires_at", m.claims.expiry.toJson),
       ("url", .text (link fileId m.token))])

def token (site : Site) (fileId : Uuid) : ServiceProgram Response :=
  (Previews.issueToken site.issuer fileId).map (answered (tokenPage fileId))

def unauthorized : Response :=
  .json 401 [("cache-control", "no-store")] (.record [("error", .text "unauthorized")])

def deny (reason : DenialReason) : ServiceProgram Response :=
  .call (.count (.proxyDenied reason)) fun _ => .done unauthorized

def served (o : StoredObject) : Response :=
  .sized 200
    [("content-type", o.contentType), ("cache-control", "no-store"),
     ("content-disposition", "inline"), ("x-content-type-options", "nosniff")]
    o.bytes

def preview (site : Site) (query : String) : ServiceProgram Response :=
  match PreviewQuery.ofString? query with
  | none => deny .badRequest
  | some q =>
    if q.violation?.isSome then deny .badRequest
    else
      (Previews.openPreview site.issuer q.fileId q.token).bind fun
        | .ok o => .done (served o)
        | .error e => deny e.reason

end Site

end DocumentPreview.Http
