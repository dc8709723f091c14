import DocumentPreview.Crypto.Hmac
import DocumentPreview.Text.Base64
import DocumentPreview.Text.Blank
import DocumentPreview.Text.Split
import DocumentPreview.Token.Claims

namespace DocumentPreview

inductive TokenError where
  | malformed
  | tampered
  | expired
  | invalidSecret
  deriving DecidableEq, Repr

def TokenError.message : TokenError → String
  | .malformed => "Token is malformed"
  | .tampered => "Token signature mismatch"
  | .expired => "Token has expired"
  | .invalidSecret => "Token signing key must be base64 and at least 32 bytes"

structure TokenIssuer where
  key : Bytes
  long_enough : 32 ≤ key.length

structure MintedToken where
  token : String
  claims : TokenClaims
  deriving DecidableEq, Repr

namespace TokenIssuer

def lifetime : Span :=
  Span.ofSeconds 900

def ofKey (key : Bytes) : Except TokenError TokenIssuer :=
  if h : 32 ≤ key.length then .ok ⟨key, h⟩ else .error .invalidSecret

def ofBase64 (text : String) : Except TokenError TokenIssuer :=
  match Base64.standard.decode? (Text.trim text.toList) with
  | some key => ofKey key
  | none => .error .invalidSecret

def describe : String :=
  "TokenIssuer \x7b key: \"<redacted>\", lifetime: TimeDelta \x7b secs: 900, nanos: 0 \x7d \x7d"

def assemble (payload signature : Bytes) : List Char :=
  Base64.urlSafe.encode payload ++ '.' :: Base64.urlSafe.encode signature

def sign (issuer : TokenIssuer) (payload : Bytes) : List Char :=
  assemble payload (Hmac.sign issuer.key payload)

def mint? (issuer : TokenIssuer) (fileId nonce : Uuid) (now : Instant) : Option MintedToken :=
  (now.shift? lifetime.nanos).map fun ends =>
    let claims : TokenClaims := ⟨fileId, Int64.ofInt ends.unixSeconds, nonce.simple⟩
    ⟨String.ofList (issuer.sign claims.payload), claims⟩

def parts? (token : List Char) : Option (Bytes × Bytes) := do
  let (payload, signature) ← Text.splitFirst? '.' token
  let payload ← Base64.urlSafe.decode? payload
  let signature ← Base64.urlSafe.decode? signature
  return (payload, signature)

def validate (issuer : TokenIssuer) (token : String) (now : Instant) :
    Except TokenError TokenClaims :=
  match parts? token.toList with
  | none => .error .malformed
  | some (payload, signature) =>
    if Hmac.sign issuer.key payload ≠ signature then .error .tampered
    else match TokenClaims.ofPayload? payload with
      | none => .error .malformed
      | some claims => if claims.expiry ≤ now then .error .expired else .ok claims

end TokenIssuer

end DocumentPreview
