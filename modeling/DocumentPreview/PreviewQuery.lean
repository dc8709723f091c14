import DocumentPreview.Text.Form
import DocumentPreview.Uuid

namespace DocumentPreview

structure PreviewQuery where
  fileId : Uuid
  token : String
  deriving DecidableEq, Repr

namespace PreviewQuery

def maxTokenBytes : Nat :=
  1024

def ofString? (query : String) : Option PreviewQuery := do
  let ps := Form.pairs (query.toList.takeWhile (· ≠ '#'))
  let file ← Form.single? "file_id" ps
  let token ← Form.single? "token" ps
  let fileId ← Uuid.ofString? file
  return ⟨fileId, token⟩

inductive Violation where
  | tokenTooShort
  | tokenTooLong
  deriving DecidableEq, Repr

def Violation.message : Violation → String
  | .tokenTooShort => "token: length is lower than 1\n"
  | .tokenTooLong => "token: length is greater than 1024\n"

def violation? (q : PreviewQuery) : Option Violation :=
  let n := Utf8.size q.token.toList
  if n < 1 then some .tokenTooShort
  else if maxTokenBytes < n then some .tokenTooLong
  else none

end PreviewQuery

end DocumentPreview
