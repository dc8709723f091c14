import DocumentPreview.Json.Basic
import DocumentPreview.Text.Numeral

namespace DocumentPreview.Json

def isSpace (b : UInt8) : Bool :=
  b = 0x20 || b = 0x09 || b = 0x0A || b = 0x0D

def skipSpace (bs : Bytes) : Bytes :=
  bs.dropWhile isSpace

inductive Piece where
  | byte (b : UInt8)
  | escaped (unit : Nat)
  deriving DecidableEq, Repr

def shortEscape? (b : UInt8) : Option UInt8 :=
  if b = 0x22 ∨ b = 0x5C ∨ b = 0x2F then some b
  else if b = 0x62 then some 0x08
  else if b = 0x66 then some 0x0C
  else if b = 0x6E then some 0x0A
  else if b = 0x72 then some 0x0D
  else if b = 0x74 then some 0x09
  else none

def hexValue? (b : UInt8) : Option Nat :=
  Text.hexDigit? (Char.ofNat b.toNat)

def hexUnit? (a b c d : UInt8) : Option Nat :=
  match hexValue? a, hexValue? b, hexValue? c, hexValue? d with
  | some a, some b, some c, some d => some (Text.ofDigits 16 [a, b, c, d])
  | _, _, _, _ => none

def readPieces : Bytes → Option (List Piece × Bytes)
  | [] => none
  | b :: r =>
    if b = 0x22 then some ([], r)
    else if b = 0x5C then
      match r with
      | [] => none
      | e :: r' =>
        if e = 0x75 then
          match r' with
          | a :: b :: c :: d :: r'' =>
            match hexUnit? a b c d, readPieces r'' with
            | some u, some (ps, t) => some (.escaped u :: ps, t)
            | _, _ => none
          | _ => none
        else
          match shortEscape? e, readPieces r' with
          | some c, some (ps, t) => some (.byte c :: ps, t)
          | _, _ => none
    else if b < 0x20 then none
    else (readPieces r).map fun (ps, t) => (.byte b :: ps, t)

def isHighSurrogate (u : Nat) : Bool :=
  0xD800 ≤ u && u < 0xDC00

def isLowSurrogate (u : Nat) : Bool :=
  0xDC00 ≤ u && u < 0xE000

def piecesBytes? : List Piece → Option Bytes
  | [] => some []
  | .byte b :: r => (piecesBytes? r).map (b :: ·)
  | .escaped u :: r =>
    if isLowSurrogate u then none
    else if isHighSurrogate u then
      match r with
      | .escaped v :: r' =>
        if isLowSurrogate v then
          (piecesBytes? r').map
            (String.utf8EncodeChar (Char.ofNat (0x10000 + (u - 0xD800) * 0x400 + (v - 0xDC00))) ++ ·)
        else none
      | _ => none
    else (piecesBytes? r).map (String.utf8EncodeChar (Char.ofNat u) ++ ·)

def piecesText? (ps : List Piece) : Option String :=
  (piecesBytes? ps).bind Utf8.toString?

def readString (bs : Bytes) : Option (Option String × Bytes) :=
  (readPieces bs).map fun (ps, t) => (piecesText? ps, t)

def byteDigit? (b : UInt8) : Option Nat :=
  Text.decimalDigit? (Char.ofNat b.toNat)

def readDigits : Bytes → List Nat × Bytes
  | [] => ([], [])
  | b :: r =>
    match byteDigit? b with
    | some d => (d :: (readDigits r).1, (readDigits r).2)
    | none => ([], b :: r)

def readWhole (bs : Bytes) : Option (Nat × Bytes) :=
  match readDigits bs with
  | ([], _) => none
  | (0 :: _ :: _, _) => none
  | (ds, r) => some (Text.ofDigits 10 ds, r)

def readFraction : Bytes → Option (List Nat × Bytes)
  | [] => some ([], [])
  | b :: r =>
    if b = 0x2E then
      match readDigits r with
      | ([], _) => none
      | (ds, t) => some (ds, t)
    else some ([], b :: r)

def readSign : Bytes → Bool × Bytes
  | [] => (false, [])
  | b :: r => if b = 0x2D then (true, r) else if b = 0x2B then (false, r) else (false, b :: r)

def readExponent : Bytes → Option (Option Int × Bytes)
  | [] => some (none, [])
  | b :: r =>
    if b = 0x65 ∨ b = 0x45 then
      match readDigits (readSign r).2 with
      | ([], _) => none
      | (ds, t) =>
        let n : Int := Text.ofDigits 10 ds
        some (some (if (readSign r).1 then -n else n), t)
    else some (none, b :: r)

def readMagnitude (negative : Bool) (bs : Bytes) : Option (Json × Bytes) := do
  let (whole, r) ← readWhole bs
  let (fraction, r) ← readFraction r
  let (exponent, r) ← readExponent r
  return (.number ⟨negative, whole, fraction, exponent⟩, r)

def readNumber : Bytes → Option (Json × Bytes)
  | [] => none
  | b :: r => if b = 0x2D then readMagnitude true r else readMagnitude false (b :: r)

def readWord (word : String) (j : Json) (bs : Bytes) : Option (Json × Bytes) :=
  let w := Utf8.ofString word
  if w.isPrefixOf bs then some (j, bs.drop w.length) else none

mutual

def readValue : Nat → Bytes → Option (Json × Bytes)
  | 0, _ => none
  | fuel + 1, bs =>
    match skipSpace bs with
    | [] => none
    | b :: r =>
      if b = 0x22 then (readString r).map fun (s, t) => (.string s, t)
      else if b = 0x5B then
        match skipSpace r with
        | [] => none
        | c :: t =>
          if c = 0x5D then some (.array [], t)
          else (readItems fuel (c :: t)).map fun (js, t) => (.array js, t)
      else if b = 0x7B then
        match skipSpace r with
        | [] => none
        | c :: t =>
          if c = 0x7D then some (.object [], t)
          else (readMembers fuel (c :: t)).map fun (ms, t) => (.object ms, t)
      else if b = 0x74 then readWord "true" (.bool true) (b :: r)
      else if b = 0x66 then readWord "false" (.bool false) (b :: r)
      else if b = 0x6E then readWord "null" .null (b :: r)
      else readNumber (b :: r)

def readItems : Nat → Bytes → Option (List Json × Bytes)
  | 0, _ => none
  | fuel + 1, bs =>
    match readValue fuel bs with
    | none => none
    | some (j, r) =>
      match skipSpace r with
      | [] => none
      | b :: t =>
        if b = 0x2C then (readItems fuel t).map fun (js, t) => (j :: js, t)
        else if b = 0x5D then some ([j], t)
        else none

def readMembers : Nat → Bytes → Option (List (Option String × Json) × Bytes)
  | 0, _ => none
  | fuel + 1, bs =>
    match skipSpace bs with
    | [] => none
    | q :: r =>
      if q = 0x22 then
        match readString r with
        | none => none
        | some (name, r) =>
          match skipSpace r with
          | [] => none
          | colon :: r =>
            if colon = 0x3A then
              match readValue fuel r with
              | none => none
              | some (j, r) =>
                match skipSpace r with
                | [] => none
                | b :: t =>
                  if b = 0x2C then (readMembers fuel t).map fun (ms, t) => ((name, j) :: ms, t)
                  else if b = 0x7D then some ([(name, j)], t)
                  else none
            else none
      else none

end

def ofBytes? (bs : Bytes) : Option Json :=
  match readValue (2 * bs.length + 2) bs with
  | some (j, r) => if (skipSpace r).isEmpty then some j else none
  | none => none

def ofString? (s : String) : Option Json :=
  ofBytes? (Utf8.ofString s)

end DocumentPreview.Json
