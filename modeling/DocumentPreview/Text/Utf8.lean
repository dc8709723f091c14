namespace DocumentPreview

abbrev Bytes := List UInt8

namespace Utf8

def encode (cs : List Char) : Bytes :=
  cs.flatMap String.utf8EncodeChar

def ofString (s : String) : Bytes :=
  encode s.toList

structure Pending where
  due : Nat
  payload : Nat
  low : Nat
  high : Nat
  deriving DecidableEq, Repr

def Pending.ofLead? (b : Nat) : Option Pending :=
  if b < 0xC2 then none
  else if b < 0xE0 then some ⟨1, b - 0xC0, 0x80, 0xBF⟩
  else if b < 0xF0 then
    some ⟨2, b - 0xE0, if b = 0xE0 then 0xA0 else 0x80, if b = 0xED then 0x9F else 0xBF⟩
  else if b < 0xF5 then
    some ⟨3, b - 0xF0, if b = 0xF0 then 0x90 else 0x80, if b = 0xF4 then 0x8F else 0xBF⟩
  else none

def beginPiece (b : UInt8) : Option (Option Char) × Option Pending :=
  if b.toNat < 0x80 then (some (some (Char.ofNat b.toNat)), none)
  else match Pending.ofLead? b.toNat with
    | none => (some none, none)
    | some p => (none, some p)

def pieces : Option Pending → Bytes → List (Option Char)
  | none, [] => []
  | some _, [] => [none]
  | none, b :: r => (beginPiece b).1.toList ++ pieces (beginPiece b).2 r
  | some p, b :: r =>
    if p.low ≤ b.toNat ∧ b.toNat ≤ p.high then
      let payload := p.payload * 64 + (b.toNat - 0x80)
      if p.due ≤ 1 then some (Char.ofNat payload) :: pieces none r
      else pieces (some ⟨p.due - 1, payload, 0x80, 0xBF⟩) r
    else none :: ((beginPiece b).1.toList ++ pieces (beginPiece b).2 r)

def allSome : List (Option Char) → Option (List Char)
  | [] => some []
  | none :: _ => none
  | some c :: r => (allSome r).map (c :: ·)

def decode? (bs : Bytes) : Option (List Char) :=
  allSome (pieces none bs)

def toString? (bs : Bytes) : Option String :=
  (decode? bs).map String.ofList

inductive Fault where
  | invalid (length index : Nat)
  | incomplete (index : Nat)
  deriving DecidableEq, Repr

def Fault.message : Fault → String
  | .invalid length index => s!"invalid utf-8 sequence of {length} bytes from index {index}"
  | .incomplete index => s!"incomplete utf-8 byte sequence from index {index}"

def fault? : Nat → Option (Pending × Nat) → Bytes → Option Fault
  | _, none, [] => none
  | i, some (_, n), [] => some (.incomplete (i - n))
  | i, none, b :: r =>
    if b.toNat < 0x80 then fault? (i + 1) none r
    else match Pending.ofLead? b.toNat with
      | none => some (.invalid 1 i)
      | some p => fault? (i + 1) (some (p, 1)) r
  | i, some (p, n), b :: r =>
    if p.low ≤ b.toNat ∧ b.toNat ≤ p.high then
      if p.due ≤ 1 then fault? (i + 1) none r
      else fault? (i + 1) (some (⟨p.due - 1, p.payload, 0x80, 0xBF⟩, n + 1)) r
    else some (.invalid n (i - n))

def replacement : Char := '\uFFFD'

def decodeLossy (bs : Bytes) : List Char :=
  (pieces none bs).map (·.getD replacement)

def charSize (c : Char) : Nat :=
  (String.utf8EncodeChar c).length

def size (cs : List Char) : Nat :=
  (encode cs).length

end Utf8

end DocumentPreview
