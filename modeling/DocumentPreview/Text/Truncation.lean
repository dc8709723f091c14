namespace DocumentPreview.Text

abbrev AtBoundary (text : String) (i : Nat) : Prop :=
  String.Pos.Raw.IsValid text ⟨i⟩

def lastBoundary (text : String) : Nat → Nat
  | 0 => 0
  | i + 1 => if AtBoundary text (i + 1) then i + 1 else lastBoundary text i

def truncate? (text : String) (i : Nat) : Option String :=
  if h : AtBoundary text i then some (text.sliceTo ⟨⟨i⟩, h⟩).copy
  else if text.utf8ByteSize < i then some text
  else none

def shorten? (limit : Nat) (text : String) : Option String :=
  if limit < text.utf8ByteSize then truncate? text (lastBoundary text limit) else some text

theorem atBoundary_zero (text : String) : AtBoundary text 0 :=
  String.Pos.Raw.isValid_zero

theorem atBoundary_lastBoundary (text : String) (limit : Nat) :
    AtBoundary text (lastBoundary text limit) := by
  induction limit with
  | zero => exact atBoundary_zero text
  | succ i ih =>
    rw [lastBoundary]
    split
    case isTrue here => exact here
    case isFalse => exact ih

theorem isSome_shorten? (limit : Nat) (text : String) : (shorten? limit text).isSome := by
  rw [shorten?, truncate?, dif_pos (atBoundary_lastBoundary text limit)]
  split <;> rfl

def shorten (limit : Nat) (text : String) : String :=
  (shorten? limit text).get (isSome_shorten? limit text)

end DocumentPreview.Text
