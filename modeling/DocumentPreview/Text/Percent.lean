import DocumentPreview.Text.Numeral
import DocumentPreview.Text.Utf8

namespace DocumentPreview.Percent

def escape (b : UInt8) : List Char :=
  ['%', (Text.digitChar (b.toNat / 16)).toUpper, (Text.digitChar (b.toNat % 16)).toUpper]

def encode (plain : Char → Bool) (bs : Bytes) : List Char :=
  bs.flatMap fun b =>
    let c := Char.ofNat b.toNat
    if b < 0x80 && plain c then [c] else escape b

def decode : Bytes → Bytes
  | [] => []
  | [a] => [a]
  | [a, b] => [a, b]
  | p :: a :: b :: r =>
    if p = 0x25 then
      match Text.hexDigit? (Char.ofNat a.toNat), Text.hexDigit? (Char.ofNat b.toNat) with
      | some x, some y => UInt8.ofNat (16 * x + y) :: decode r
      | _, _ => p :: decode (a :: b :: r)
    else p :: decode (a :: b :: r)

end DocumentPreview.Percent
