import DocumentPreview.Text.Numeral

namespace DocumentPreview.Text

inductive IntegerError where
  | empty
  | invalidDigit
  | tooLarge
  | tooSmall
  deriving DecidableEq, Repr

def IntegerError.message : IntegerError → String
  | .empty => "cannot parse integer from empty string"
  | .invalidDigit => "invalid digit found in string"
  | .tooLarge => "number too large to fit in target type"
  | .tooSmall => "number too small to fit in target type"

def readMagnitude (limit : Nat) (overflow : IntegerError) : Nat → List Char → Except IntegerError Nat
  | n, [] => .ok n
  | n, c :: r =>
    match decimalDigit? c with
    | none => .error .invalidDigit
    | some d =>
      if limit < n * 10 + d then .error overflow else readMagnitude limit overflow (n * 10 + d) r

def readUnsigned (limit : Nat) (cs : List Char) : Except IntegerError Nat :=
  match cs with
  | [] => .error .empty
  | ['+'] => .error .invalidDigit
  | '+' :: r => readMagnitude limit .tooLarge 0 r
  | _ => readMagnitude limit .tooLarge 0 cs

def readSigned (bound : Nat) (cs : List Char) : Except IntegerError Int :=
  match cs with
  | [] => .error .empty
  | ['+'] => .error .invalidDigit
  | ['-'] => .error .invalidDigit
  | '+' :: r => (readMagnitude (bound - 1) .tooLarge 0 r).map fun n => (n : Int)
  | '-' :: r => (readMagnitude bound .tooSmall 0 r).map fun n => -(n : Int)
  | _ => (readMagnitude (bound - 1) .tooLarge 0 cs).map fun n => (n : Int)

end DocumentPreview.Text
