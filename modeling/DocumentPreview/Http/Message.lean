import DocumentPreview.Json.Writer
import DocumentPreview.Text.Numeral
import DocumentPreview.Text.Split

namespace DocumentPreview.Http

structure Request where
  method : String
  target : String
  headers : List (String × String)
  deriving DecidableEq, Repr

namespace Request

def header? (r : Request) (name : String) : Option String :=
  (r.headers.find? fun h => Text.lower h.1.toList = name.toList).map (·.2)

def withoutFragment (r : Request) : List Char :=
  r.target.toList.takeWhile (· ≠ '#')

def path (r : Request) : List Char :=
  r.withoutFragment.takeWhile (· ≠ '?')

def query (r : Request) : String :=
  String.ofList ((r.withoutFragment.dropWhile (· ≠ '?')).drop 1)

end Request

structure Response where
  status : Nat
  headers : List (String × String)
  body : Bytes
  deriving DecidableEq, Repr

namespace Response

def sized (status : Nat) (headers : List (String × String)) (body : Bytes) : Response :=
  ⟨status, headers ++ [("content-length", String.ofList (Text.decimal body.length))], body⟩

def json (status : Nat) (headers : List (String × String)) (body : Json) : Response :=
  sized status (("content-type", "application/json") :: headers) body.toBytes

def error (status : Nat) (message : String) : Response :=
  json status [] (.record [("error", .text message)])

def badRequest (reason : String) : Response :=
  sized 400 [("content-type", "text/plain; charset=utf-8")]
    (Utf8.ofString ("Invalid URL: " ++ reason))

def notFound : Response :=
  ⟨404, [], []⟩

def methodNotAllowed (allowed : String) : Response :=
  sized 405 [("allow", allowed)] []

def withoutBody (r : Response) : Response :=
  { r with body := [] }

def sortedHeaders (r : Response) : List (String × String) :=
  r.headers.mergeSort fun a b => a.1 ≤ b.1

end Response

end DocumentPreview.Http
