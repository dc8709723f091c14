import DocumentPreview.Text.Numeral
import DocumentPreview.Text.Split
import DocumentPreview.Json.Basic

namespace DocumentPreview

structure Uuid where
  bits : BitVec 128
  deriving DecidableEq, Hashable, Repr

namespace Uuid

def toNat (u : Uuid) : Nat :=
  u.bits.toNat

def ofNat (n : Nat) : Uuid :=
  ⟨BitVec.ofNat 128 n⟩

instance : Inhabited Uuid :=
  ⟨ofNat 0⟩

def numbered (n : Nat) : Uuid :=
  ofNat (0x00000000000040008000000000000000 + n % 0x1_0000_0000_0000)

def digits (u : Uuid) : List Char :=
  Text.fixedDigits 16 32 u.toNat

def simple (u : Uuid) : String :=
  String.ofList u.digits

def hyphenated (u : Uuid) : List Char :=
  let d := u.digits
  d.take 8 ++ '-' :: ((d.drop 8).take 4 ++ '-' :: ((d.drop 12).take 4 ++ '-' ::
    ((d.drop 16).take 4 ++ '-' :: d.drop 20)))

def text (u : Uuid) : String :=
  String.ofList u.hyphenated

instance : ToString Uuid :=
  ⟨text⟩

inductive ParseError where
  | length (found : Nat)
  | character (c : Char) (index : Nat)
  | groupCount (found : Nat)
  | groupLength (group expected found : Nat)
  deriving DecidableEq, Repr

def ParseError.message : ParseError → String
  | .length n => s!"invalid length: found {n}"
  | .character c i => "invalid character: found `" ++ String.singleton c ++ s!"` at {i}"
  | .groupCount n => s!"invalid group count: expected 5, found {n}"
  | .groupLength g e n => s!"invalid group length in group {g}: expected {e}, found {n}"

def hexadecimal? (cs : List Char) : Option Nat :=
  (cs.mapM Text.hexDigit?).map (Text.ofDigits 16)

def groupLengths : List Nat :=
  [8, 4, 4, 4, 12]

def ofGroups? (body : List Char) : Option Uuid :=
  let groups := Text.splitOn '-' body
  if groups.map List.length = groupLengths then (hexadecimal? groups.flatten).map ofNat else none

def ofDigits? (body : List Char) : Option Uuid :=
  if body.length = 32 then (hexadecimal? body).map ofNat else none

structure Parts where
  wrapped : Bool
  start : Nat
  body : List Char

def Parts.of (cs : List Char) : Parts :=
  match cs with
  | '{' :: r =>
    if r.getLast? = some '}' then ⟨true, 1, r.dropLast⟩ else ⟨false, 0, cs⟩
  | _ => match Text.afterAnyCase? "urn:uuid:".toList cs with
    | some r => ⟨true, 9, r⟩
    | none => ⟨false, 0, cs⟩

def strayCharacter? (hyphenAllowed : Bool) : Nat → List Char → Option (Char × Nat)
  | _, [] => none
  | i, c :: r =>
    if (Text.hexDigit? c).isSome || (hyphenAllowed && c = '-') then
      strayCharacter? hyphenAllowed (i + Utf8.charSize c) r
    else some (c, i)

def unevenGroup? : Nat → List Nat → List Nat → Option ParseError
  | g, e :: es, n :: ns => if n = e then unevenGroup? (g + 1) es ns else some (.groupLength g e n)
  | _, _, _ => none

def diagnose (cs : List Char) : ParseError :=
  let size := Utf8.size cs
  if size = 0 ∨ 45 < size then .length size
  else
    let parts := Parts.of cs
    match strayCharacter? (size ≠ 32) parts.start parts.body with
    | some (c, i) => .character c i
    | none =>
      let groups := (Text.splitOn '-' parts.body).map List.length
      if groups.length = 1 ∧ ¬ parts.wrapped ∧ size ≠ 36 then .length size
      else if groups.length ≠ 5 then .groupCount groups.length
      else (unevenGroup? 0 [8, 4, 4, 4] groups).getD (.groupLength 4 12 (size - 24))

def ofChars? (cs : List Char) : Option Uuid :=
  let parts := Parts.of cs
  match ofGroups? parts.body with
  | some u => some u
  | none => if parts.wrapped then none else ofDigits? cs

def parse (s : String) : Except ParseError Uuid :=
  match ofChars? s.toList with
  | some u => .ok u
  | none => .error (diagnose s.toList)

def ofString? (s : String) : Option Uuid :=
  ofChars? s.toList

def toJson (u : Uuid) : Json :=
  .text u.text

def ofJson? (j : Json) : Option Uuid :=
  j.text?.bind ofString?

end Uuid

end DocumentPreview
