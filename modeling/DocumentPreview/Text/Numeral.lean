namespace DocumentPreview.Text

def digitChar (d : Nat) : Char :=
  "0123456789abcdef".toList.getD d '0'

def decimalDigit? (c : Char) : Option Nat :=
  if '0' ≤ c ∧ c ≤ '9' then some (c.toNat - '0'.toNat) else none

def hexDigit? (c : Char) : Option Nat :=
  if '0' ≤ c ∧ c ≤ '9' then some (c.toNat - '0'.toNat)
  else if 'a' ≤ c ∧ c ≤ 'f' then some (c.toNat - 'a'.toNat + 10)
  else if 'A' ≤ c ∧ c ≤ 'F' then some (c.toNat - 'A'.toNat + 10)
  else none

def isDigit (c : Char) : Bool :=
  (decimalDigit? c).isSome

def fixedDigits (base : Nat) : Nat → Nat → List Char
  | 0, _ => []
  | width + 1, n => fixedDigits base width (n / base) ++ [digitChar (n % base)]

def decimalWidth (n : Nat) : Nat :=
  if n < 10 then 1 else decimalWidth (n / 10) + 1
termination_by n

def decimal (n : Nat) : List Char :=
  fixedDigits 10 (decimalWidth n) n

def decimalPadded (width n : Nat) : List Char :=
  fixedDigits 10 (max width (decimalWidth n)) n

def integer (i : Int) : List Char :=
  if i < 0 then '-' :: decimal i.natAbs else decimal i.natAbs

def ofDigits (base : Nat) (ds : List Nat) : Nat :=
  ds.foldl (fun n d => n * base + d) 0

def decimalDigits? (cs : List Char) : Option (List Nat) :=
  cs.mapM decimalDigit?

def natural? (cs : List Char) : Option Nat :=
  if cs.isEmpty then none else (decimalDigits? cs).map (ofDigits 10)

end DocumentPreview.Text
