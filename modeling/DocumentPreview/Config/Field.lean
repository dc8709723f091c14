import DocumentPreview.Text.Integer
import DocumentPreview.Text.Split

namespace DocumentPreview.Config

inductive Kind where
  | text
  | natural
  | integer
  | naturals
  deriving DecidableEq, Repr

def Kind.Value : Kind → Type
  | .text => String
  | .natural => Nat
  | .integer => Int32
  | .naturals => List Nat

structure ValueError where
  cause : Text.IntegerError
  text : String
  deriving DecidableEq, Repr

def naming (text : List Char) {α : Type} : Except Text.IntegerError α → Except ValueError α
  | .ok a => .ok a
  | .error e => .error ⟨e, String.ofList text⟩

def readNatural (cs : List Char) : Except Text.IntegerError Nat :=
  Text.readUnsigned 0xFFFF_FFFF_FFFF_FFFF cs

def readNaturals (cs : List Char) : Except ValueError (List Nat) :=
  if cs.isEmpty then .ok []
  else (Text.splitOn ',' cs).mapM fun item => naming item (readNatural item)

def Kind.read : (k : Kind) → String → Except ValueError k.Value
  | .text, s => .ok s
  | .natural, s => naming s.toList (readNatural s.toList)
  | .integer, s => (naming s.toList (Text.readSigned 0x8000_0000 s.toList)).map Int32.ofInt
  | .naturals, s => readNaturals s.toList

inductive Field where
  | bindAddr
  | databaseUrl
  | redisUrl
  | converterUrl
  | r2Bucket
  | r2AccessKey
  | r2SecretKey
  | r2Endpoint
  | previewTokenSecret
  | queueCapacity
  | workerCount
  | maxAttempts
  | retryDelaysSecs
  | conversionTimeoutSecs
  | sweepIntervalSecs
  | replayCleanupIntervalSecs
  | staleProcessingSecs
  deriving DecidableEq, Repr

namespace Field

def all : List Field :=
  [bindAddr, databaseUrl, redisUrl, converterUrl, r2Bucket, r2AccessKey, r2SecretKey, r2Endpoint,
   previewTokenSecret, queueCapacity, workerCount, maxAttempts, retryDelaysSecs,
   conversionTimeoutSecs, sweepIntervalSecs, replayCleanupIntervalSecs, staleProcessingSecs]

def name : Field → String
  | bindAddr => "bind_addr"
  | databaseUrl => "database_url"
  | redisUrl => "redis_url"
  | converterUrl => "converter_url"
  | r2Bucket => "r2_bucket"
  | r2AccessKey => "r2_access_key"
  | r2SecretKey => "r2_secret_key"
  | r2Endpoint => "r2_endpoint"
  | previewTokenSecret => "preview_token_secret"
  | queueCapacity => "queue_capacity"
  | workerCount => "worker_count"
  | maxAttempts => "max_attempts"
  | retryDelaysSecs => "retry_delays_secs"
  | conversionTimeoutSecs => "conversion_timeout_secs"
  | sweepIntervalSecs => "sweep_interval_secs"
  | replayCleanupIntervalSecs => "replay_cleanup_interval_secs"
  | staleProcessingSecs => "stale_processing_secs"

def kind : Field → Kind
  | queueCapacity | workerCount | conversionTimeoutSecs | sweepIntervalSecs
  | replayCleanupIntervalSecs | staleProcessingSecs => .natural
  | maxAttempts => .integer
  | retryDelaysSecs => .naturals
  | _ => .text

abbrev Value (f : Field) : Type :=
  f.kind.Value

def lowerChar (c : Char) : Char :=
  if c = '\u212A' then 'k' else c.toLower

def ofVariable? (key : String) : Option Field :=
  let lowered := key.toList.map lowerChar
  all.find? fun f => f.name.toList = lowered

end Field

end DocumentPreview.Config
