import DocumentPreview.Proofs.Text.Numerals
import DocumentPreview.Proofs.Time.Calendar
import DocumentPreview.Time.Rfc3339

namespace DocumentPreview.Instant

def Stops (r : List Char) : Prop :=
  ∀ c ∈ r.head?, Text.decimalDigit? c = none

theorem takeDigits_of_stops (limit : Nat) {r : List Char} (hr : Stops r) :
    takeDigits limit r = ([], r) := by
  cases limit with
  | zero => rfl
  | succ limit =>
    cases r with
    | nil => rfl
    | cons c r => rw [takeDigits, hr c rfl]

theorem takeDigits_digits {ds : List Nat} {limit : Nat} {r : List Char} (hd : ∀ d ∈ ds, d < 10)
    (hl : ds.length ≤ limit) (hr : Stops r) :
    takeDigits limit (ds.map Text.digitChar ++ r) = (ds, r) := by
  induction ds generalizing limit with
  | nil => exact takeDigits_of_stops limit hr
  | cons d ds ih =>
    obtain ⟨limit, rfl⟩ := Nat.exists_eq_succ_of_ne_zero (Nat.ne_of_gt (Nat.zero_lt_of_lt hl))
    have rest := ih (fun e he => hd e (.tail _ he)) (Nat.le_of_succ_le_succ hl)
    rw [List.map_cons, List.cons_append, takeDigits,
      Text.decimalDigit?_digitChar d (hd d (.head _))]
    simp only [rest]

theorem digitChar_plain : ∀ d < 10, Text.isBlank (Text.digitChar d) = false ∧
    Text.digitChar d ≠ '-' ∧ Text.digitChar d ≠ '+' := by
  decide

theorem trimStart_digits {ds : List Nat} (hd : ∀ d ∈ ds, d < 10) (hne : ds ≠ [])
    (r : List Char) :
    Text.trimStart (ds.map Text.digitChar ++ r) = ds.map Text.digitChar ++ r := by
  cases ds with
  | nil => exact absurd rfl hne
  | cons d ds =>
    exact List.dropWhile_cons_of_neg (by simp [(digitChar_plain d (hd d (.head _))).1])

theorem readNumber?_digits {ds : List Nat} {limit : Nat} {r : List Char} (hd : ∀ d ∈ ds, d < 10)
    (hne : ds ≠ []) (hl : ds.length ≤ limit) (hr : Stops r) :
    readNumber? limit (ds.map Text.digitChar ++ r) = some (Text.ofDigits 10 ds, r) := by
  rw [readNumber?, trimStart_digits hd hne, takeDigits_digits hd hl hr]
  cases ds with
  | nil => exact absurd rfl hne
  | cons d ds => rfl

theorem exists_digits {width n : Nat} (hn : n < 10 ^ width) :
    ∃ ds, Text.fixedDigits 10 width n = ds.map Text.digitChar ∧ (∀ d ∈ ds, d < 10) ∧
      ds.length = width ∧ Text.ofDigits 10 ds = n :=
  ⟨_, Text.fixedDigits_eq 10 width n, fun _ => Text.lt_of_mem_digitsOf (by decide),
    Text.length_digitsOf 10 width n, by rw [Text.ofDigits_digitsOf, Nat.mod_eq_of_lt hn]⟩

theorem readNumber?_fixedDigits {width n : Nat} {r : List Char} (hw : 0 < width)
    (hn : n < 10 ^ width) (hr : Stops r) :
    readNumber? width (Text.fixedDigits 10 width n ++ r) = some (n, r) := by
  obtain ⟨ds, text, digits, length, value⟩ := exists_digits hn
  have nonempty : ds ≠ [] := List.ne_nil_of_length_pos (by omega)
  rw [text, readNumber?_digits digits nonempty (Nat.le_of_eq length) hr, value]

theorem takeYear_decimalPadded (n : Nat) {r : List Char} (hr : Stops r) :
    readYear?.takeYear (Text.decimalPadded 4 n ++ r) = some (n, r) := by
  have wide : n < 10 ^ max 4 (Text.decimalWidth n) :=
    Nat.lt_of_lt_of_le (Text.lt_pow_decimalWidth n)
      (Nat.pow_le_pow_right (by decide) (Nat.le_max_right _ _))
  obtain ⟨ds, text, digits, length, value⟩ := exists_digits wide
  rw [Text.decimalPadded, text, readYear?.takeYear, takeDigits_digits digits (by simp) hr]
  cases ds with
  | nil =>
    rw [List.length_nil] at length
    omega
  | cons d ds => exact congrArg (fun n => some (n, r)) value

theorem readYear?_of_digit {d : Nat} (hd : d < 10) (r : List Char) :
    readYear? (Text.digitChar d :: r) =
      (readNumber? 4 (Text.digitChar d :: r)).map fun (n, r) => ((n : Int), r) := by
  obtain ⟨plain, minus, plus⟩ := digitChar_plain d hd
  have start : Text.trimStart (Text.digitChar d :: r) = Text.digitChar d :: r :=
    List.dropWhile_cons_of_neg (by simp [plain])
  rw [readYear?, start]
  simp [minus, plus]

theorem readYear?_yearText (year : Int) {r : List Char} (hr : Stops r) :
    readYear? (yearText year ++ r) = some (year, r) := by
  rw [yearText]
  split
  · have short : year.natAbs < 10 ^ 4 := by omega
    have number := readNumber?_fixedDigits (by decide) short hr
    obtain ⟨ds, text, digits, length, -⟩ := exists_digits short
    have whole : ((year.natAbs : Nat) : Int) = year := by omega
    rw [text] at number ⊢
    cases ds with
    | nil => exact absurd length (by decide)
    | cons d ds =>
      rw [List.map_cons, List.cons_append] at number ⊢
      rw [readYear?_of_digit (digits d (.head _)), number]
      simp only [Option.map_some, whole]
  · split
    · have start : Text.trimStart ('-' :: Text.decimalPadded 4 year.natAbs ++ r) =
          '-' :: (Text.decimalPadded 4 year.natAbs ++ r) := rfl
      have whole : -((year.natAbs : Nat) : Int) = year := by omega
      rw [readYear?, start]
      simp only [takeYear_decimalPadded _ hr, Option.map_some, whole]
    · have start : Text.trimStart ('+' :: Text.decimalPadded 4 year.natAbs ++ r) =
          '+' :: (Text.decimalPadded 4 year.natAbs ++ r) := rfl
      have whole : ((year.natAbs : Nat) : Int) = year := by omega
      rw [readYear?, start]
      simp only [takeYear_decimalPadded _ hr, Option.map_some, whole]

theorem stops_zulu : Stops ['Z'] := by
  simp [Stops]
  decide

theorem readFraction?_fixedDigits {width n : Nat} (hw : 0 < width) (hw' : width ≤ 9)
    (hn : n < 10 ^ width) :
    readFraction? ('.' :: Text.fixedDigits 10 width n ++ ['Z']) =
      some (n * 10 ^ (9 - width), ['Z']) := by
  obtain ⟨ds, text, digits, rfl, value⟩ := exists_digits hn
  rw [text, List.cons_append, readFraction?, takeDigits_digits digits hw' stops_zulu]
  cases ds with
  | nil => exact absurd hw (Nat.lt_irrefl 0)
  | cons d ds =>
    have rest : ['Z'].dropWhile Text.isDigit = ['Z'] := rfl
    simp only [rest, value]
    rfl

theorem readFraction?_fractionText {n : Nat} (hn : n < 1_000_000_000) :
    readFraction? (fractionText n ++ ['Z']) = some (n, ['Z']) := by
  rw [fractionText]
  split
  · next zero => rw [zero]; rfl
  split
  · have whole : n / 1_000_000 * 10 ^ (9 - 3) = n := by omega
    rw [readFraction?_fixedDigits (by decide) (by decide) (by omega), whole]
  split
  · have whole : n / 1000 * 10 ^ (9 - 6) = n := by omega
    rw [readFraction?_fixedDigits (by decide) (by decide) (by omega), whole]
  · rw [readFraction?_fixedDigits (by decide) (by decide) (by omega), Nat.sub_self, Nat.pow_zero,
      Nat.mul_one]

theorem stops_fraction (n : Nat) : Stops (fractionText n ++ ['Z']) := by
  have point : Text.decimalDigit? '.' = none := rfl
  rw [fractionText]
  split_ifs <;> simp [Stops, point]
  exact stops_zulu _ rfl

theorem ofNanos?_nanos (t : Instant) : ofNanos? t.nanos = some t := by
  rw [ofNanos?, dif_pos ⟨t.least_le, t.lt_end⟩]

variable (t : Instant)

theorem ofParts?_parts : ofParts? t.date (t.secondOfDay / 3600) (t.secondOfDay / 60 % 60)
    (t.secondOfDay % 60) t.subsecond 0 = some t := by
  have second : t.secondOfDay < 86400 := by
    rw [secondOfDay]
    omega
  have whole : (t.date.toDays * 86400 + (t.secondOfDay / 3600 * 3600 + t.secondOfDay / 60 % 60 * 60 +
      t.secondOfDay % 60 : Nat) - 0) * 1_000_000_000 + t.subsecond = t.nanos := by
    rw [date, Date.toDays_ofDays]
    simp only [secondOfDay, subsecond, unixSeconds]
    omega
  rw [ofParts?, if_pos ⟨Date.isValid_ofDays _, by omega, by omega, by omega⟩, whole,
    ofNanos?_nanos]

theorem ofChars?_chars : ofChars? t.chars = some t := by
  have dash (r : List Char) : Stops ('-' :: r) := by simp [Stops]; rfl
  have mark (r : List Char) : Stops ('T' :: r) := by simp [Stops]; rfl
  have colon (r : List Char) : Stops (':' :: r) := by simp [Stops]; rfl
  have dashed (r : List Char) : readSeparator? '-' ('-' :: r) = some r := rfl
  have timed (r : List Char) : readSeparator? ':' (':' :: r) = some r := rfl
  have zulu : readOffset? (Text.trimStart ['Z']) = some (0, []) := rfl
  obtain ⟨-, monthLe, -, dayLe⟩ : t.date.IsValid := Date.isValid_ofDays _
  have below : t.secondOfDay < 86400 := by
    rw [secondOfDay]
    omega
  have month : t.date.month < 10 ^ 2 := by omega
  have day : t.date.day < 10 ^ 2 :=
    Nat.lt_of_le_of_lt dayLe (by rw [Date.daysIn]; split_ifs <;> decide)
  have hour : t.secondOfDay / 3600 < 10 ^ 2 := by omega
  have minute : t.secondOfDay / 60 % 60 < 10 ^ 2 := by omega
  have second : t.secondOfDay % 60 < 10 ^ 2 := by omega
  have fraction : t.subsecond < 1_000_000_000 := by
    rw [subsecond]
    omega
  rw [chars, List.append_assoc]
  refine Option.bind_eq_some_iff.mpr ⟨_, readYear?_yearText _ (dash _), ?_⟩
  refine Option.bind_eq_some_iff.mpr ⟨_, dashed _, ?_⟩
  refine Option.bind_eq_some_iff.mpr ⟨_, readNumber?_fixedDigits (by decide) month (dash _), ?_⟩
  refine Option.bind_eq_some_iff.mpr ⟨_, dashed _, ?_⟩
  refine Option.bind_eq_some_iff.mpr ⟨_, readNumber?_fixedDigits (by decide) day (mark _), ?_⟩
  refine Option.bind_eq_some_iff.mpr ⟨_, rfl, ?_⟩
  refine Option.bind_eq_some_iff.mpr ⟨_, readNumber?_fixedDigits (by decide) hour (colon _), ?_⟩
  refine Option.bind_eq_some_iff.mpr ⟨_, timed _, ?_⟩
  refine Option.bind_eq_some_iff.mpr ⟨_, readNumber?_fixedDigits (by decide) minute (colon _), ?_⟩
  refine Option.bind_eq_some_iff.mpr ⟨_, timed _, ?_⟩
  refine Option.bind_eq_some_iff.mpr ⟨_, readNumber?_fixedDigits (by decide) second (stops_fraction _), ?_⟩
  refine Option.bind_eq_some_iff.mpr ⟨_, readFraction?_fractionText fraction, ?_⟩
  refine Option.bind_eq_some_iff.mpr ⟨_, zulu, ?_⟩
  exact ofParts?_parts t

theorem ofJson?_toJson : ofJson? t.toJson = some t := by
  rw [ofJson?, toJson, text]
  simp [Json.text, Json.text?, ofString?, ofChars?_chars]

end DocumentPreview.Instant
