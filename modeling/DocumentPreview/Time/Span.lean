import DocumentPreview.Text.Numeral

namespace DocumentPreview

structure Span where
  nanos : Nat
  deriving DecidableEq, Repr

namespace Span

def zero : Span :=
  ⟨0⟩

def ofSeconds (n : Nat) : Span :=
  ⟨n * 1_000_000_000⟩

def ofMillis (n : Nat) : Span :=
  ⟨n * 1_000_000⟩

def seconds (s : Span) : Nat :=
  s.nanos / 1_000_000_000

def millis (s : Span) : Nat :=
  s.nanos / 1_000_000

def difference? (s : Span) : Option Int :=
  if s.nanos ≤ 0x7FFF_FFFF_FFFF_FFFF * 1_000_000 then some s.nanos else none

def dropTrailingZeros (cs : List Char) : List Char :=
  (cs.reverse.dropWhile (· = '0')).reverse

def decimalQuotient (n places : Nat) : List Char :=
  let fraction := dropTrailingZeros (Text.fixedDigits 10 places (n % Nat.pow 10 places))
  Text.decimal (n / Nat.pow 10 places) ++ (if fraction.isEmpty then [] else '.' :: fraction)

def text (s : Span) : String :=
  if 1_000_000_000 ≤ s.nanos then String.ofList (decimalQuotient s.nanos 9) ++ "s"
  else if 1_000_000 ≤ s.nanos then String.ofList (decimalQuotient s.nanos 6) ++ "ms"
  else if 1000 ≤ s.nanos then String.ofList (decimalQuotient s.nanos 3) ++ "µs"
  else String.ofList (Text.decimal s.nanos) ++ "ns"

end Span

end DocumentPreview
