import DocumentPreview.Config.Basic
import DocumentPreview.Database.Address
import DocumentPreview.Replay.Redis
import DocumentPreview.Token.Issuer

namespace DocumentPreview

inductive ListenError where
  | noPort
  | invalidPort
  deriving DecidableEq, Repr

def ListenError.message : ListenError → String
  | .noPort => "invalid socket address"
  | .invalidPort => "invalid port value"

inductive StartupError where
  | config (cause : ConfigError)
  | database (cause : DatabaseError)
  | token (cause : TokenError)
  | replay (cause : Redis.Error)
  | listen (cause : ListenError)
  deriving DecidableEq, Repr

def StartupError.message : StartupError → String
  | .config cause => cause.message
  | .database cause => cause.message
  | .token cause => cause.message
  | .replay cause => cause.message
  | .listen cause => cause.message

namespace Startup

abbrev Steps :=
  ExceptT StartupError (StateM (List String))

def say (line : String) : Steps Unit :=
  modify (· ++ [line])

def require {ε α : Type} (cause : ε → StartupError) : Except ε α → Steps α
  | .ok a => pure a
  | .error e => throw (cause e)

def checkListenAddress (address : String) : Except ListenError Unit :=
  match Text.splitLast? ':' address.toList with
  | none => .error .noPort
  | some (_, port) =>
    match Text.readUnsigned 65535 port with
    | .ok _ => .ok ()
    | .error _ => .error .invalidPort

def trackNonces (redisUrl : Option String) : Steps Unit :=
  match redisUrl with
  | some url => do
    say "Tracking token nonces in Redis"
    require .replay (Redis.checkAddress url)
  | none => say "Tracking token nonces in process memory"

def start (env : Environment) (migrations : Except DatabaseError Unit) : Steps Unit := do
  let config ← require .config (AppConfig.ofEnvironment env)
  say "Initializing preview-service"
  say "Connecting to PostgreSQL database"
  require .database (DatabaseAddress.connect config.databaseUrl)
  say "Running database migrations"
  require .database migrations
  say "Initializing R2 storage client"
  say "Conversion client ready"
  let _ ← require .token (TokenIssuer.ofBase64 config.previewTokenSecret)
  trackNonces config.redisUrl
  say "Preview pipeline started"
  require .listen (checkListenAddress config.bindAddr)
  say ("Server listening on " ++ config.bindAddr)

def stop : Steps Unit := do
  say "Shutdown signal received"
  say "HTTP server stopped, draining pipeline"
  say "Preview pipeline stopped"

def interrupted (env : Environment) (migrations : Except DatabaseError Unit) :
    Except StartupError Unit × List String :=
  (do start env migrations; stop : Steps Unit).run.run []

def levelName : String :=
  "RUST_LOG"

def silentLevels : List String :=
  ["", "off", "0", "error", "1", "warn", "2"]

def isShown (env : Environment) : Bool :=
  match env.get? levelName with
  | some level => !silentLevels.contains (String.ofList (Text.lower level.toList))
  | none => true

def shownLog (env : Environment) (log : List String) : List String :=
  if isShown env then log else []

end Startup

end DocumentPreview
