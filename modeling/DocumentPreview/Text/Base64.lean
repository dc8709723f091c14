import DocumentPreview.Text.Utf8

namespace DocumentPreview.Base64

structure Alphabet where
  symbols : List Char
  padded : Bool

def standard : Alphabet :=
  ⟨"ABCDEFGHIJKLMNOPQRSTUVWXYZabcdefghijklmnopqrstuvwxyz0123456789+/".toList, true⟩

def urlSafe : Alphabet :=
  ⟨"ABCDEFGHIJKLMNOPQRSTUVWXYZabcdefghijklmnopqrstuvwxyz0123456789-_".toList, false⟩

namespace Alphabet

def symbol (a : Alphabet) (n : Nat) : Char :=
  a.symbols.getD (n % 64) 'A'

def value? (a : Alphabet) (c : Char) : Option Nat :=
  a.symbols.idxOf? c

def pad (a : Alphabet) (n : Nat) : List Char :=
  if a.padded then List.replicate n '=' else []

def encode (a : Alphabet) : Bytes → List Char
  | [] => []
  | [x] => [a.symbol (x.toNat / 4), a.symbol (x.toNat % 4 * 16)] ++ a.pad 2
  | [x, y] =>
    [a.symbol (x.toNat / 4), a.symbol (x.toNat % 4 * 16 + y.toNat / 16), a.symbol (y.toNat % 16 * 4)]
      ++ a.pad 1
  | x :: y :: z :: r =>
    a.symbol (x.toNat / 4) :: a.symbol (x.toNat % 4 * 16 + y.toNat / 16)
      :: a.symbol (y.toNat % 16 * 4 + z.toNat / 64) :: a.symbol (z.toNat % 64) :: a.encode r

def one? (a : Alphabet) (p q : Char) : Option Bytes := do
  let p ← a.value? p
  let q ← a.value? q
  if q % 16 = 0 then some [UInt8.ofNat (p * 4 + q / 16)] else none

def two? (a : Alphabet) (p q r : Char) : Option Bytes := do
  let p ← a.value? p
  let q ← a.value? q
  let r ← a.value? r
  if r % 4 = 0 then some [UInt8.ofNat (p * 4 + q / 16), UInt8.ofNat (q % 16 * 16 + r / 4)] else none

def three? (a : Alphabet) (p q r s : Char) : Option Bytes := do
  let p ← a.value? p
  let q ← a.value? q
  let r ← a.value? r
  let s ← a.value? s
  some [UInt8.ofNat (p * 4 + q / 16), UInt8.ofNat (q % 16 * 16 + r / 4), UInt8.ofNat (r % 4 * 64 + s)]

def last? (a : Alphabet) (p q r s : Char) : Option Bytes :=
  if a.padded ∧ s = '=' then (if r = '=' then a.one? p q else a.two? p q r) else a.three? p q r s

def decode? (a : Alphabet) : List Char → Option Bytes
  | [] => some []
  | [_] => none
  | [p, q] => if a.padded then none else a.one? p q
  | [p, q, r] => if a.padded then none else a.two? p q r
  | [p, q, r, s] => a.last? p q r s
  | p :: q :: r :: s :: t :: u => do
    let group ← a.three? p q r s
    let rest ← a.decode? (t :: u)
    some (group ++ rest)

end Alphabet

end DocumentPreview.Base64
