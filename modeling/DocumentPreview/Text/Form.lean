import DocumentPreview.Text.Percent
import DocumentPreview.Text.Split

namespace DocumentPreview.Form

def decodePart (cs : List Char) : String :=
  String.ofList (Utf8.decodeLossy
    (Percent.decode (Utf8.encode (cs.map fun c => if c = '+' then ' ' else c))))

def pair (piece : List Char) : String × String :=
  match Text.splitFirst? '=' piece with
  | some (name, value) => (decodePart name, decodePart value)
  | none => (decodePart piece, "")

def pairs (query : List Char) : List (String × String) :=
  ((Text.splitOn '&' query).filter (!·.isEmpty)).map pair

def single? (name : String) (ps : List (String × String)) : Option String :=
  match ps.filter (·.1 = name) with
  | [p] => some p.2
  | _ => none

end DocumentPreview.Form
