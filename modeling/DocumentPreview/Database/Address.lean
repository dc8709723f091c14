import DocumentPreview.Database.Error
import DocumentPreview.Text.Form

namespace DocumentPreview.DatabaseAddress

inductive SslMode where
  | optional
  | required
  deriving DecidableEq, Repr

def SslMode.ofText? (value : String) : Option SslMode :=
  let lowered := String.ofList (Text.lower value.toList)
  if ["disable", "allow", "prefer"].contains lowered then some .optional
  else if ["require", "verify-ca", "verify-full"].contains lowered then some .required
  else none

def decodePart (cs : List Char) : Except AddressFault Bytes :=
  let bytes := Percent.decode (Utf8.encode cs)
  match Utf8.fault? 0 none bytes with
  | none => .ok bytes
  | some fault => .error (.encoding fault)

def checkHost (host : List Char) : Except AddressFault Unit :=
  if (Percent.decode (Utf8.encode host)).head? = some 0x2F then (decodePart host).map fun _ => ()
  else .ok ()

def naming {α : Type} : Except Text.IntegerError α → Except AddressFault Unit
  | .ok _ => .ok ()
  | .error e => .error (.number e)

def readParameter (mode : SslMode) (p : String × String) : Except AddressFault SslMode :=
  if p.1 = "sslmode" ∨ p.1 = "ssl-mode" then
    match SslMode.ofText? p.2 with
    | some m => .ok m
    | none => .error (.sslMode p.2)
  else if p.1 = "statement-cache-capacity" then do
    naming (Text.readUnsigned 0xFFFF_FFFF_FFFF_FFFF p.2.toList)
    return mode
  else if p.1 = "port" then do
    naming (Text.readUnsigned 65535 p.2.toList)
    return mode
  else .ok mode

def read (text : String) : Except AddressFault SslMode :=
  match Url.parse text with
  | .error e => .error (.url e)
  | .ok url => do
    checkHost url.host
    let _ ← decodePart url.username
    let _ ← decodePart (url.password.getD [])
    let _ ← decodePart (url.path.dropWhile (· = '/'))
    (Form.pairs (url.query.getD [])).foldlM readParameter .optional

def connect (text : String) : Except DatabaseError Unit :=
  match read text with
  | .error fault => .error (.configuration fault)
  | .ok .required => .error .tlsRefused
  | .ok .optional => .ok ()

end DocumentPreview.DatabaseAddress
