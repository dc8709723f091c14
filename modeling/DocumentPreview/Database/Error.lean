import DocumentPreview.Text.Quoted
import DocumentPreview.Text.Url
import DocumentPreview.Text.Utf8

namespace DocumentPreview

inductive AddressFault where
  | url (cause : Url.ParseError)
  | encoding (cause : Utf8.Fault)
  | number (cause : Text.IntegerError)
  | sslMode (value : String)
  deriving DecidableEq, Repr

inductive DatabaseError where
  | server (message : String)
  | poolClosed
  | unexpectedNull (column : String)
  | configuration (cause : AddressFault)
  | tlsRefused
  | migrating (cause : DatabaseError)
  | migration (version : Nat) (cause : DatabaseError)
  deriving DecidableEq, Repr

def configurationMessage (reason : String) : String :=
  "error with configuration: " ++ reason

def AddressFault.message : AddressFault → String
  | .url cause => cause.message
  | .encoding cause => cause.message
  | .number cause => cause.message
  | .sslMode value =>
    configurationMessage
      ("unknown value " ++ String.ofList (Text.quoted value.toList) ++ " for `ssl_mode`")

def DatabaseError.message : DatabaseError → String
  | .server m => "error returned from database: " ++ m
  | .poolClosed => "attempted to acquire a connection on a closed pool"
  | .unexpectedNull column =>
    "error occurred while decoding column \"" ++ column
      ++ "\": unexpected null; try decoding as an `Option`"
  | .configuration cause => configurationMessage cause.message
  | .tlsRefused =>
    "error occurred while attempting to establish a TLS connection: server does not support TLS"
  | .migrating cause => "while executing migrations: " ++ cause.message
  | .migration version cause => s!"while executing migration {version}: " ++ cause.message

end DocumentPreview
