import DocumentPreview.Json.Reader
import DocumentPreview.Json.Writer
import DocumentPreview.Time.Rfc3339
import DocumentPreview.Uuid

namespace DocumentPreview

structure TokenClaims where
  fileId : Uuid
  expiresAt : Int64
  nonce : String
  deriving DecidableEq, Repr

namespace TokenClaims

def expiry (c : TokenClaims) : Instant :=
  (Instant.ofUnixSeconds? c.expiresAt.toInt).getD Instant.least

def fieldNames : List String :=
  ["file_id", "expires_at", "nonce"]

def toJson (c : TokenClaims) : Json :=
  .record
    [("file_id", c.fileId.toJson), ("expires_at", .int c.expiresAt.toInt), ("nonce", .text c.nonce)]

def ofFields? : List (Option Json) → Option TokenClaims
  | [fileId, expiresAt, nonce] => do
    return {
      fileId := ← Json.required? Uuid.ofJson? fileId
      expiresAt := ← Json.required? Json.int64? expiresAt
      nonce := ← Json.required? Json.text? nonce }
  | _ => none

def ofJson? (j : Json) : Option TokenClaims :=
  (j.fields? fieldNames).bind ofFields?

def payload (c : TokenClaims) : Bytes :=
  c.toJson.toBytes

def ofPayload? (bs : Bytes) : Option TokenClaims :=
  (Json.ofBytes? bs).bind ofJson?

end TokenClaims

end DocumentPreview
