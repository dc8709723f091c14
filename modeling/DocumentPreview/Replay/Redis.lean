import DocumentPreview.Text.Form
import DocumentPreview.Text.Url
import DocumentPreview.Time.Instant

namespace DocumentPreview.Redis

inductive ErrorKind where
  | invalidClientConfig
  | typeError
  | responseError
  | execAbort
  | busyLoading
  | noScript
  | moved
  | ask
  | tryAgain
  | clusterDown
  | crossSlot
  | masterDown
  | readOnly
  | notBusy
  deriving DecidableEq, Repr

def ErrorKind.name : ErrorKind → String
  | invalidClientConfig => "InvalidClientConfig"
  | typeError => "TypeError"
  | responseError => "ResponseError"
  | execAbort => "ExecAbortError"
  | busyLoading => "BusyLoadingError"
  | noScript => "NoScriptError"
  | moved => "Moved"
  | ask => "Ask"
  | tryAgain => "TryAgain"
  | clusterDown => "ClusterDown"
  | crossSlot => "CrossSlot"
  | masterDown => "MasterDown"
  | readOnly => "ReadOnly"
  | notBusy => "NotBusy"

inductive Error where
  | failed (what : String) (kind : ErrorKind) (detail : Option String)
  | custom (code : String) (detail : Option String)
  deriving DecidableEq, Repr

def Error.client (what : String) : Error :=
  .failed what .invalidClientConfig none

def Error.mismatch (detail : String) : Error :=
  .failed "Response was of incompatible type" .typeError (some detail)

def Error.signalled (kind : ErrorKind) (detail : Option String) : Error :=
  .failed "An error was signalled by the server " kind detail

def Error.reason : Error → String
  | .failed what kind detail => what ++ "- " ++ kind.name ++ (detail.elim "" (": " ++ ·))
  | .custom code detail => code ++ ": " ++ detail.getD "Unknown extension error encountered"

def Error.message (e : Error) : String :=
  "Redis error: " ++ e.reason

def isNumber (cs : List Char) : Bool :=
  match Text.readSigned 0x8000_0000_0000_0000 cs with
  | .ok _ => true
  | .error _ => false

def trimSlashes (cs : List Char) : List Char :=
  ((cs.dropWhile (· = '/')).reverse.dropWhile (· = '/')).reverse

def checkDatabase (number : Option (List Char)) : Except Error Unit :=
  match number with
  | none => .ok ()
  | some cs => if isNumber cs then .ok () else .error (.client "Invalid database number")

def protocols : List String :=
  ["2", "resp2", "3", "resp3"]

def checkProtocol (parameters : List (String × String)) : Except Error Unit :=
  match parameters.reverse.lookup "protocol" with
  | none => .ok ()
  | some v =>
    if protocols.contains v then .ok ()
    else .error (.failed "Invalid protocol version" .invalidClientConfig (some v))

def checkText (what : String) (cs : List Char) : Except Error Unit :=
  match Utf8.decode? (Percent.decode (Utf8.encode cs)) with
  | some _ => .ok ()
  | none => .error (.client (what ++ " is not valid UTF-8 string"))

def checkSocket (url : Url) : Except Error Unit := do
  let parameters := Form.pairs (url.query.getD [])
  if url.path.head? ≠ some '/' ∨ (url.host ≠ [] ∧ url.host ≠ "localhost".toList) then
    throw (.client "Missing path")
  checkDatabase ((parameters.reverse.lookup "db").map String.toList)
  checkProtocol parameters

def checkHost (url : Url) : Except Error Unit := do
  if url.host.isEmpty then throw (.client "Missing hostname")
  if url.scheme = "rediss" then
    throw (.client "can't connect with TLS, the feature is not enabled")
  let path := trimSlashes url.path
  checkDatabase (if path.isEmpty then none else some path)
  checkText "Username" url.username
  checkText "Password" (url.password.getD [])
  checkProtocol (Form.pairs (url.query.getD []))

def checkAddress (text : String) : Except Error Unit :=
  match Url.parse text with
  | .error _ => .error (.client "Redis URL did not parse")
  | .ok url =>
    if url.scheme = "unix" ∨ url.scheme = "redis+unix" then checkSocket url
    else if url.scheme = "redis" ∨ url.scheme = "rediss" then checkHost url
    else .error (.client "Redis URL did not parse")

def keyStart : String :=
  "preview:nonce:"

def forgetAt (expiry : Instant) : Int :=
  max expiry.unixSeconds 0 + 1

def consumeCommand (nonce : String) (expiry : Instant) : List String :=
  ["SET", keyStart ++ nonce, "1", "NX", "EXAT", String.ofList (Text.integer (forgetAt expiry))]

def pingCommand : List String :=
  ["PING"]

def purged : Nat :=
  0

inductive Reply where
  | absent
  | value
  | error (code : String) (detail : Option String)
  deriving DecidableEq, Repr

def Reply.ofText (text : String) : Reply :=
  let line := text.toList.takeWhile (· ≠ '\r')
  match line with
  | '-' :: r =>
    match Text.splitFirst? ' ' r with
    | some (code, detail) => .error (String.ofList code) (some (String.ofList detail))
    | none => .error (String.ofList r) none
  | _ =>
    if line = ['$', '-', '1'] ∨ line = ['*', '-', '1'] ∨ line = ['_'] then .absent else .value

def knownCodes : List (String × ErrorKind) :=
  [("ERR", .responseError), ("EXECABORT", .execAbort), ("LOADING", .busyLoading),
   ("NOSCRIPT", .noScript), ("MOVED", .moved), ("ASK", .ask), ("TRYAGAIN", .tryAgain),
   ("CLUSTERDOWN", .clusterDown), ("CROSSSLOT", .crossSlot), ("MASTERDOWN", .masterDown),
   ("READONLY", .readOnly), ("NOTBUSY", .notBusy)]

def serverError (code : String) (detail : Option String) : Error :=
  match knownCodes.lookup code with
  | some kind => .signalled kind detail
  | none => .custom code detail

def consumed : Reply → Except Error Bool
  | .absent => .ok false
  | .value => .ok true
  | .error code detail => .error (serverError code detail)

def healthy : Reply → Except Error Unit
  | .absent => .error (.mismatch "\"Response type not string compatible.\" (response was nil)")
  | .value => .ok ()
  | .error code detail => .error (serverError code detail)

end DocumentPreview.Redis
