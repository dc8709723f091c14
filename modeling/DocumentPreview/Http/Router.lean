import DocumentPreview.Http.Health
import DocumentPreview.Http.Pages

namespace DocumentPreview.Http

inductive Route where
  | health
  | metrics
  | preview
  | filePreview (segment : List Char)
  | retry (segment : List Char)
  | token (segment : List Char)
  deriving DecidableEq, Repr

namespace Route

def ofPath? (path : List Char) : Option Route :=
  match (Text.splitOn '/' path).map String.ofList with
  | ["", "health"] => some .health
  | ["", "metrics"] => some .metrics
  | ["", "api", "v1", "preview"] => some .preview
  | ["", "api", "v1", "files", id, "preview"] => some (.filePreview id.toList)
  | ["", "api", "v1", "files", id, "preview", "retry"] => some (.retry id.toList)
  | ["", "api", "v1", "files", id, "preview", "token"] => some (.token id.toList)
  | _ => none

def methods : Route → List String
  | health | metrics | preview => ["GET", "HEAD"]
  | filePreview _ => ["POST", "GET", "HEAD"]
  | retry _ | token _ => ["POST"]

end Route

def readFileId (segment : List Char) : Except Response Uuid :=
  match Utf8.decode? (Percent.decode (Utf8.encode segment)) with
  | none => .error (.badRequest "Invalid UTF-8 in `file_id`")
  | some text =>
    match Uuid.parse (String.ofList text) with
    | .ok id => .ok id
    | .error e =>
      .error (.badRequest ("Cannot parse `file_id` with value `" ++ String.ofList text
        ++ "`: UUID parsing failed: " ++ e.message))

namespace Site

def onFile (segment : List Char) (page : Uuid → ServiceProgram Response) :
    ServiceProgram Response :=
  match readFileId segment with
  | .ok id => page id
  | .error r => .done r

def metrics : ServiceProgram Response :=
  .call .metricsPage fun text =>
    .done (.sized 200 [("content-type", "text/plain; version=0.0.4")] (Utf8.ofString text))

def page (site : Site) (r : Request) : Route → ServiceProgram Response
  | .health => Health.check site.replayTracked
  | .metrics => metrics
  | .preview => site.preview r.query
  | .filePreview id =>
    onFile id fun fileId => if r.method = "POST" then site.enqueue fileId r else status fileId
  | .retry id => onFile id site.retry
  | .token id => onFile id site.token

def respond (site : Site) (r : Request) : ServiceProgram Response :=
  match Route.ofPath? r.path with
  | none => .done .notFound
  | some route =>
    if r.method ∈ route.methods then
      (site.page r route).map fun response =>
        if r.method = "HEAD" then response.withoutBody else response
    else .done (.methodNotAllowed (",".intercalate route.methods))

end Site

end DocumentPreview.Http
