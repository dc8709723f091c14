import DocumentPreview.Text.Truncation
import DocumentPreview.Text.Utf8

namespace DocumentPreview

inductive ConversionError where
  | http (cause : String)
  | status (code : Nat) (body : String)
  | emptyOutput
  deriving DecidableEq, Repr

def ConversionError.message : ConversionError → String
  | .http cause => "HTTP request failed: " ++ cause
  | .status code body => s!"Conversion service returned {code}: " ++ body
  | .emptyOutput => "Conversion service returned an empty document"

namespace Conversion

def endpoint (baseUrl : String) : String :=
  String.ofList (baseUrl.toList.reverse.dropWhile (· = '/')).reverse ++ "/forms/libreoffice/convert"

def quotedName (name : String) : List Char :=
  name.toList.flatMap fun c =>
    if c = '\\' ∨ c = '"' ∨ c = '\r' ∨ c = '\n' then ['\\', c] else [c]

def partHeader (boundary filename : String) : String :=
  "--" ++ boundary ++ "\r\nContent-Disposition: form-data; name=\"files\"; filename=\""
    ++ String.ofList (quotedName filename) ++ "\""

structure Reply where
  status : Nat
  body : Bytes
  deriving DecidableEq, Repr

def Reply.text (reply : Reply) : String :=
  String.ofList (Utf8.decodeLossy reply.body)

def maxErrorBody : Nat :=
  512

def excerpt (text : String) : String :=
  Text.shorten maxErrorBody text

def result (reply : Reply) : Except ConversionError Bytes :=
  if 200 ≤ reply.status ∧ reply.status < 300 then
    if reply.body.isEmpty then .error .emptyOutput else .ok reply.body
  else .error (.status reply.status (excerpt reply.text))

structure Response where
  status : Nat
  body : Except String Bytes

def Response.result (response : Response) : Except ConversionError Bytes :=
  match response.body with
  | .ok body => Conversion.result ⟨response.status, body⟩
  | .error cause =>
    if 200 ≤ response.status ∧ response.status < 300 then .error (.http cause)
    else Conversion.result ⟨response.status, []⟩

def convert (sent : Except String Response) : Except ConversionError Bytes :=
  match sent with
  | .ok response => response.result
  | .error cause => .error (.http cause)

end Conversion

end DocumentPreview
