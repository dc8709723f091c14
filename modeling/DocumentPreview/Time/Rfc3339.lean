import DocumentPreview.Json.Basic
import DocumentPreview.Text.Blank
import DocumentPreview.Text.Numeral
import DocumentPreview.Text.Split
import DocumentPreview.Time.Instant

namespace DocumentPreview.Instant

def yearText (year : Int) : List Char :=
  if 0 ≤ year ∧ year ≤ 9999 then Text.fixedDigits 10 4 year.natAbs
  else if year < 0 then '-' :: Text.decimalPadded 4 year.natAbs
  else '+' :: Text.decimalPadded 4 year.natAbs

def fractionText (nanos : Nat) : List Char :=
  if nanos = 0 then []
  else if nanos % 1_000_000 = 0 then '.' :: Text.fixedDigits 10 3 (nanos / 1_000_000)
  else if nanos % 1000 = 0 then '.' :: Text.fixedDigits 10 6 (nanos / 1000)
  else '.' :: Text.fixedDigits 10 9 nanos

def date (t : Instant) : Date :=
  Date.ofDays (t.unixSeconds / 86400)

def secondOfDay (t : Instant) : Nat :=
  (t.unixSeconds % 86400).toNat

def subsecond (t : Instant) : Nat :=
  (t.nanos % 1_000_000_000).toNat

def two (n : Nat) : List Char :=
  Text.fixedDigits 10 2 n

def chars (t : Instant) : List Char :=
  let d := t.date
  let s := t.secondOfDay
  yearText d.year ++ '-' :: (two d.month ++ '-' :: (two d.day ++ 'T' :: (two (s / 3600) ++ ':' ::
    (two (s / 60 % 60) ++ ':' :: (two (s % 60) ++ fractionText t.subsecond ++ ['Z'])))))

def text (t : Instant) : String :=
  String.ofList t.chars

def takeDigits : Nat → List Char → List Nat × List Char
  | 0, cs => ([], cs)
  | _ + 1, [] => ([], [])
  | limit + 1, c :: r =>
    match Text.decimalDigit? c with
    | some d => (d :: (takeDigits limit r).1, (takeDigits limit r).2)
    | none => ([], c :: r)

def readNumber? (limit : Nat) (cs : List Char) : Option (Nat × List Char) :=
  match takeDigits limit (Text.trimStart cs) with
  | ([], _) => none
  | (ds, r) => some (Text.ofDigits 10 ds, r)

def readYear? (cs : List Char) : Option (Int × List Char) :=
  match Text.trimStart cs with
  | '-' :: r => (takeYear r).map fun (n, r) => (-(n : Int), r)
  | '+' :: r => (takeYear r).map fun (n, r) => ((n : Int), r)
  | r => (readNumber? 4 r).map fun (n, r) => ((n : Int), r)
where
  takeYear (r : List Char) : Option (Nat × List Char) :=
    match takeDigits r.length r with
    | ([], _) => none
    | (ds, r) => some (Text.ofDigits 10 ds, r)

def readSeparator? (sep : Char) (cs : List Char) : Option (List Char) :=
  match Text.trimStart cs with
  | [] => none
  | c :: r => if c = sep then some r else none

def readFraction? : List Char → Option (Nat × List Char)
  | '.' :: r =>
    match takeDigits 9 r with
    | ([], _) => none
    | (ds, r) =>
      some (Text.ofDigits 10 ds * Nat.pow 10 (9 - ds.length), r.dropWhile Text.isDigit)
  | r => some (0, r)

def twoDigits? : List Char → Option (Nat × List Char)
  | a :: b :: r =>
    match Text.decimalDigit? a, Text.decimalDigit? b with
    | some x, some y => some (10 * x + y, r)
    | _, _ => none
  | _ => none

def readOffset? (cs : List Char) : Option (Int × List Char) :=
  match Text.afterAnyCase? ['u', 't', 'c'] cs with
  | some r => some (0, r)
  | none =>
    match cs with
    | [] => none
    | sign :: r =>
      if sign = 'Z' ∨ sign = 'z' then some (0, r)
      else if sign = '+' ∨ sign = '-' ∨ sign = '\u2212' then do
        let (hours, r) ← twoDigits? r
        let (minutes, r) ← twoDigits? (r.dropWhile fun c => c = ':' || Text.isBlank c)
        if 60 ≤ minutes ∨ 24 ≤ hours then none
        else
          let seconds : Int := hours * 3600 + minutes * 60
          some (if sign = '+' then seconds else -seconds, r)
      else none

def ofParts? (d : Date) (hour minute second nanos : Nat) (offset : Int) : Option Instant :=
  if d.IsValid ∧ hour < 24 ∧ minute < 60 ∧ second < 60 then
    ofNanos? ((d.toDays * 86400 + (hour * 3600 + minute * 60 + second : Nat) - offset) * 1_000_000_000 + nanos)
  else none

def ofChars? (cs : List Char) : Option Instant := do
  let (year, r) ← readYear? cs
  let r ← readSeparator? '-' r
  let (month, r) ← readNumber? 2 r
  let r ← readSeparator? '-' r
  let (day, r) ← readNumber? 2 r
  let (mark, r) ← r.head?.map fun c => (c, r.tail)
  if mark ≠ 'T' ∧ mark ≠ 't' ∧ mark ≠ ' ' then none
  let (hour, r) ← readNumber? 2 r
  let r ← readSeparator? ':' r
  let (minute, r) ← readNumber? 2 r
  let r ← readSeparator? ':' r
  let (second, r) ← readNumber? 2 r
  let (nanos, r) ← readFraction? r
  let (offset, r) ← readOffset? (Text.trimStart r)
  if (Text.trimStart r).isEmpty then ofParts? ⟨year, month, day⟩ hour minute second nanos offset
  else none

def ofString? (s : String) : Option Instant :=
  ofChars? s.toList

def toJson (t : Instant) : Json :=
  .text t.text

def ofJson? (j : Json) : Option Instant :=
  j.text?.bind ofString?

end DocumentPreview.Instant
