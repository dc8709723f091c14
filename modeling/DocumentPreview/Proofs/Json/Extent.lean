import DocumentPreview.Proofs.Json.RoundTrip

namespace DocumentPreview.Json

def TakesBefore {α : Type} (ends : Bytes → Prop) (read : Bytes → Option (α × Bytes)) : Prop :=
  ∀ ⦃bs : Bytes⦄ ⦃a : α⦄ ⦃t : Bytes⦄, read bs = some (a, t) →
    ∃ p, bs = p ++ t ∧ ∀ r, ends r → read (p ++ r) = some (a, r)

theorem TakesBefore.cons {α : Type} {ends : Bytes → Prop} {read : Bytes → Option (α × Bytes)}
    (h : TakesBefore ends read) (hn : ends []) (hz : read [] = none) {b : UInt8} {bs : Bytes}
    {a : α} {t : Bytes} (hr : read (b :: bs) = some (a, t)) :
    ∃ p, bs = p ++ t ∧ ∀ r, ends r → read (b :: (p ++ r)) = some (a, r) := by
  obtain ⟨p, whole, takes⟩ := h hr
  cases p with
  | nil => exact nomatch hz.symm.trans (takes [] hn)
  | cons c p =>
    obtain ⟨rfl, rfl⟩ := List.cons.inj whole
    exact ⟨p, rfl, takes⟩

theorem TakesBefore.mono {α : Type} {ends ends' : Bytes → Prop}
    {read : Bytes → Option (α × Bytes)} (h : TakesBefore ends read) (he : ∀ r, ends' r → ends r) :
    TakesBefore ends' read := by
  intro bs a t hr
  obtain ⟨p, whole, takes⟩ := h hr
  exact ⟨p, whole, fun r hr => takes r (he r hr)⟩

def Anything (_ : Bytes) : Prop :=
  True

section Literals

theorem readPieces_takes : TakesBefore Anything readPieces := by
  have ahead (front : Bytes) (piece : Piece) {r t : Bytes} {ps : List Piece}
      (ih : ∀ ⦃ps t⦄, readPieces r = some (ps, t) →
        ∃ p, r = p ++ t ∧ ∀ r', Anything r' → readPieces (p ++ r') = some (ps, r'))
      (one : ∀ r, readPieces (front ++ r) = (readPieces r).map fun q => (piece :: q.1, q.2))
      (h : readPieces (front ++ r) = some (ps, t)) :
      ∃ p, front ++ r = p ++ t ∧ ∀ r', Anything r' → readPieces (p ++ r') = some (ps, r') := by
    rw [one, Option.map_eq_some_iff] at h
    obtain ⟨⟨qs, t'⟩, read, same⟩ := h
    obtain ⟨rfl, rfl⟩ := Prod.mk.inj same
    obtain ⟨p, rfl, takes⟩ := ih read
    exact ⟨front ++ p, (List.append_assoc ..).symm, fun r' hr => by
      rw [List.append_assoc, one, takes r' hr]
      rfl⟩
  intro bs
  induction bs using readPieces.induct with
  | case1 => exact fun _ _ h => nomatch h
  | case2 r =>
    intro ps t h
    rw [readPieces_quote] at h
    obtain ⟨rfl, rfl⟩ : [] = ps ∧ r = t := by simpa using h
    exact ⟨[0x22], rfl, fun r _ => readPieces_quote r⟩
  | case4 a b c d r u _ _ _ unit _ ih =>
    exact fun ps t h => ahead [0x5C, 0x75, a, b, c, d] (.escaped u) ih (readPieces_unit unit) h
  | case7 e r other c _ _ _ short _ ih =>
    exact fun ps t h => ahead [0x5C, e] (.byte c) ih (readPieces_short other short) h
  | case10 b r quote escape control ih =>
    have plain : ∀ c ∈ [b], Plain c := by simp only [List.mem_singleton, forall_eq]; exact ⟨quote, escape, control⟩
    exact fun ps t h => ahead [b] (.byte b) ih (readPieces_plain plain) h
  | case3 | case5 | case6 | case8 | case9 =>
    intro ps t h
    rw [readPieces.eq_def] at h
    simp_all

theorem readString_takes : TakesBefore Anything readString := by
  intro bs s t h
  obtain ⟨⟨ps, t⟩, read, same⟩ := Option.map_eq_some_iff.mp h
  obtain ⟨rfl, rfl⟩ := Prod.mk.inj same
  obtain ⟨p, rfl, takes⟩ := readPieces_takes read
  exact ⟨p, rfl, fun r hr => by rw [readString, takes r hr]; rfl⟩

theorem readWord_takes (word : String) (j : Json) : TakesBefore Anything (readWord word j) := by
  intro bs j' t h
  rw [readWord] at h
  split at h
  · next front =>
    obtain ⟨rest, rfl⟩ := List.isPrefixOf_iff_prefix.mp front
    obtain ⟨rfl, rfl⟩ : j = j' ∧ rest = t := by simpa using h
    refine ⟨_, rfl, fun r _ => ?_⟩
    have again : (Utf8.ofString word).isPrefixOf (Utf8.ofString word ++ r) = true :=
      List.isPrefixOf_iff_prefix.mpr (List.prefix_append _ _)
    rw [readWord, if_pos again, List.drop_left]
  · exact nomatch h

end Literals

section Numbers

theorem readDigits_takes (bs : Bytes) : ∃ p, bs = p ++ (readDigits bs).2 ∧
    ∀ r, NoDigit r → readDigits (p ++ r) = ((readDigits bs).1, r) := by
  induction bs with
  | nil => exact ⟨[], rfl, fun r hr => readDigits_of_noDigit hr⟩
  | cons b bs ih =>
    cases hb : byteDigit? b with
    | none =>
      have untaken : readDigits (b :: bs) = ([], b :: bs) := by rw [readDigits, hb]
      rw [untaken]
      exact ⟨[], rfl, fun r hr => readDigits_of_noDigit hr⟩
    | some d =>
      obtain ⟨p, whole, takes⟩ := ih
      have taken (r : Bytes) : readDigits (b :: r) = (d :: (readDigits r).1, (readDigits r).2) := by
        rw [readDigits, hb]
      rw [taken]
      exact ⟨b :: p, congrArg (b :: ·) whole, fun r hr => by rw [List.cons_append, taken, takes r hr]⟩

theorem ofDigits_takes {α : Type} {of : List Nat → Option α} {read : Bytes → Option (α × Bytes)}
    (h : ∀ bs, read bs = (of (readDigits bs).1).map fun a => (a, (readDigits bs).2)) :
    TakesBefore NoDigit read := by
  intro bs a t taken
  rw [h, Option.map_eq_some_iff] at taken
  obtain ⟨a, made, same⟩ := taken
  obtain ⟨rfl, rfl⟩ := Prod.mk.inj same
  obtain ⟨p, whole, takes⟩ := readDigits_takes bs
  refine ⟨p, whole, fun r hr => ?_⟩
  rw [h, takes r hr, made]
  rfl

def wholeOf? : List Nat → Option Nat
  | [] => none
  | 0 :: _ :: _ => none
  | ds => some (Text.ofDigits 10 ds)

theorem readWhole_takes : TakesBefore NoDigit readWhole := by
  refine ofDigits_takes (show ∀ bs, readWhole bs =
    (wholeOf? (readDigits bs).1).map fun n => (n, (readDigits bs).2) from fun bs => ?_)
  rw [readWhole]
  split <;> simp_all [wholeOf?]

def someDigits? : List Nat → Option (List Nat)
  | [] => none
  | ds => some ds

def readSomeDigits (bs : Bytes) : Option (List Nat × Bytes) :=
  (someDigits? (readDigits bs).1).map fun ds => (ds, (readDigits bs).2)

theorem readSomeDigits_takes : TakesBefore NoDigit readSomeDigits :=
  ofDigits_takes fun _ => rfl

theorem readFraction_point (r : Bytes) : readFraction (0x2E :: r) = readSomeDigits r := by
  rw [readFraction, if_pos rfl, readSomeDigits]
  rcases readDigits r with ⟨_ | ⟨d, ds⟩, t⟩ <;> rfl

def EndsFraction (r : Bytes) : Prop :=
  ∀ b ∈ r.head?, byteDigit? b = none ∧ b ≠ 0x2E

theorem readFraction_of_ends {r : Bytes} (hr : ∀ b ∈ r.head?, b ≠ 0x2E) :
    readFraction r = some ([], r) := by
  cases r with
  | nil => rfl
  | cons b r => rw [readFraction, if_neg (hr b rfl)]

theorem readFraction_takes {bs : Bytes} {ds : List Nat} {t : Bytes}
    (h : readFraction bs = some (ds, t)) : ∃ p, bs = p ++ t ∧
      ∀ r, EndsFraction r → readFraction (p ++ r) = some (ds, r) ∧ NoDigit (p ++ r) := by
  by_cases point : ∃ r, bs = 0x2E :: r
  · obtain ⟨r, rfl⟩ := point
    rw [readFraction_point] at h
    obtain ⟨p, rfl, takes⟩ := readSomeDigits_takes h
    refine ⟨0x2E :: p, rfl, fun r hr => ⟨?_, ?_⟩⟩
    · rw [List.cons_append, readFraction_point, takes r fun b hb => (hr b hb).1]
    · intro b hb
      obtain rfl : (0x2E : UInt8) = b := Option.some.inj hb
      decide
  · have untaken : readFraction bs = some ([], bs) := by
      refine readFraction_of_ends fun b hb hp => point ?_
      exact ⟨bs.tail, by rw [← hp]; exact (List.cons_head?_tail hb).symm⟩
    obtain ⟨rfl, rfl⟩ : [] = ds ∧ bs = t := by simpa [untaken] using h
    exact ⟨[], rfl, fun r hr => ⟨readFraction_of_ends fun b hb => (hr b hb).2, fun b hb => (hr b hb).1⟩⟩

def readSigned (bs : Bytes) : Option (Int × Bytes) :=
  (readSomeDigits (readSign bs).2).map fun q =>
    (if (readSign bs).1 then -(Text.ofDigits 10 q.1 : Int) else Text.ofDigits 10 q.1, q.2)

theorem readSign_of_sign {b : UInt8} (h : b = 0x2D ∨ b = 0x2B) (r : Bytes) :
    readSign (b :: r) = (decide (b = 0x2D), r) := by
  rcases h with rfl | rfl <;> rfl

theorem readSign_of_other {b : UInt8} (h : ¬ (b = 0x2D ∨ b = 0x2B)) (r : Bytes) :
    readSign (b :: r) = (false, b :: r) := by
  rw [readSign, if_neg fun hb => h (.inl hb), if_neg fun hb => h (.inr hb)]

theorem readSigned_takes : TakesBefore NoDigit readSigned := by
  intro bs n t h
  obtain ⟨⟨ds, t⟩, read, same⟩ := Option.map_eq_some_iff.mp h
  obtain ⟨rfl, rfl⟩ := Prod.mk.inj same
  cases bs with
  | nil => exact nomatch read
  | cons b bs =>
    by_cases sign : b = 0x2D ∨ b = 0x2B
    · rw [readSign_of_sign sign] at read ⊢
      obtain ⟨p, rfl, takes⟩ := readSomeDigits_takes read
      refine ⟨b :: p, rfl, fun r hr => ?_⟩
      rw [List.cons_append, readSigned, readSign_of_sign sign, takes r hr]
      rfl
    · rw [readSign_of_other sign] at read ⊢
      obtain ⟨p, rfl, takes⟩ := readSomeDigits_takes.cons (fun _ hb => nomatch hb) rfl read
      refine ⟨b :: p, rfl, fun r hr => ?_⟩
      rw [List.cons_append, readSigned, readSign_of_other sign, takes r hr]
      rfl

theorem readExponent_mark {b : UInt8} (h : b = 0x65 ∨ b = 0x45) (r : Bytes) :
    readExponent (b :: r) = (readSigned r).map fun q => (some q.1, q.2) := by
  rw [readExponent, if_pos h, readSigned, readSomeDigits]
  rcases readDigits (readSign r).2 with ⟨_ | ⟨d, ds⟩, t⟩ <;> rfl

theorem readExponent_takes {bs : Bytes} {e : Option Int} {t : Bytes}
    (h : readExponent bs = some (e, t)) : ∃ p, bs = p ++ t ∧
      ∀ r, Ends r → readExponent (p ++ r) = some (e, r) ∧ EndsFraction (p ++ r) := by
  by_cases mark : ∃ b r, bs = b :: r ∧ (b = 0x65 ∨ b = 0x45)
  · obtain ⟨b, r, rfl, hb⟩ := mark
    rw [readExponent_mark hb, Option.map_eq_some_iff] at h
    obtain ⟨⟨n, t⟩, read, same⟩ := h
    obtain ⟨rfl, rfl⟩ := Prod.mk.inj same
    obtain ⟨p, rfl, takes⟩ := readSigned_takes read
    refine ⟨b :: p, rfl, fun r hr => ⟨?_, ?_⟩⟩
    · rw [List.cons_append, readExponent_mark hb, takes r fun c hc => (hr c hc).1]
      rfl
    · intro c hc
      obtain rfl : b = c := Option.some.inj hc
      rcases hb with rfl | rfl <;> decide
  · have untaken : readExponent bs = some (none, bs) := by
      cases bs with
      | nil => rfl
      | cons b r => rw [readExponent, if_neg fun hb => mark ⟨b, r, rfl, hb⟩]
    obtain ⟨rfl, rfl⟩ : none = e ∧ bs = t := by simpa [untaken] using h
    exact ⟨[], rfl, fun r hr => ⟨readExponent_of_ends hr, fun b hb => ⟨(hr b hb).1, (hr b hb).2.1⟩⟩⟩

theorem readMagnitude_takes (negative : Bool) : TakesBefore Ends (readMagnitude negative) := by
  intro bs j t h
  obtain ⟨⟨whole, r₁⟩, read₁, h⟩ := Option.bind_eq_some_iff.mp h
  obtain ⟨⟨fraction, r₂⟩, read₂, h⟩ := Option.bind_eq_some_iff.mp h
  obtain ⟨⟨exponent, r₃⟩, read₃, h⟩ := Option.bind_eq_some_iff.mp h
  obtain ⟨rfl, rfl⟩ := Prod.mk.inj (Option.some.inj h)
  obtain ⟨p₁, rfl, takes₁⟩ := readWhole_takes read₁
  obtain ⟨p₂, rfl, takes₂⟩ := readFraction_takes read₂
  obtain ⟨p₃, rfl, takes₃⟩ := readExponent_takes read₃
  refine ⟨p₁ ++ (p₂ ++ p₃), by simp only [List.append_assoc], fun r hr => ?_⟩
  obtain ⟨third, end₃⟩ := takes₃ r hr
  obtain ⟨second, end₂⟩ := takes₂ _ end₃
  have first := takes₁ _ end₂
  simp only [List.append_assoc]
  refine Option.bind_eq_some_iff.mpr ⟨_, first, ?_⟩
  refine Option.bind_eq_some_iff.mpr ⟨_, second, ?_⟩
  exact Option.bind_eq_some_iff.mpr ⟨_, third, rfl⟩

theorem readNumber_takes : TakesBefore Ends readNumber := by
  intro bs j t h
  cases bs with
  | nil => exact nomatch h
  | cons b bs =>
    rw [readNumber] at h
    split at h
    · next minus =>
      obtain ⟨p, rfl, takes⟩ := readMagnitude_takes true h
      exact ⟨b :: p, rfl, fun r hr => by rw [List.cons_append, readNumber, if_pos minus, takes r hr]⟩
    · next plain =>
      obtain ⟨p, rfl, takes⟩ := (readMagnitude_takes false).cons ends_nil rfl h
      exact ⟨b :: p, rfl, fun r hr => by rw [List.cons_append, readNumber, if_neg plain, takes r hr]⟩

end Numbers

section Values

def Blank (s : Bytes) : Prop :=
  ∀ c ∈ s, isSpace c = true

theorem skipSpace_blank {s : Bytes} (hs : Blank s) (r : Bytes) : skipSpace (s ++ r) = skipSpace r :=
  List.dropWhile_append_of_pos hs

theorem exists_blank (bs : Bytes) : ∃ s, Blank s ∧ bs = s ++ skipSpace bs :=
  ⟨bs.takeWhile isSpace, List.all_eq_true.mp List.all_takeWhile, List.takeWhile_append_dropWhile.symm⟩

theorem isSpace_head {bs : Bytes} {b : UInt8} {t : Bytes} (h : skipSpace bs = b :: t) :
    isSpace b = false := by
  have := List.head?_dropWhile_not isSpace bs
  rw [skipSpace] at h
  rw [h] at this
  simpa using this

theorem skipSpace_eq_cons {bs : Bytes} {b : UInt8} {t : Bytes} (h : skipSpace bs = b :: t) :
    ∃ s, Blank s ∧ bs = s ++ b :: t ∧ ∀ r, skipSpace (s ++ b :: r) = b :: r := by
  obtain ⟨s, hs, whole⟩ := exists_blank bs
  exact ⟨s, hs, h ▸ whole, fun r => by rw [skipSpace_blank hs, skipSpace_cons (isSpace_head h)]⟩

theorem ends_blank {s : Bytes} (hs : Blank s) {r : Bytes} (hr : Ends r) : Ends (s ++ r) := by
  have space : ∀ b, isSpace b = true → byteDigit? b = none ∧ b ≠ 0x2E ∧ b ≠ 0x65 ∧ b ≠ 0x45 := by
    intro b hb
    simp only [isSpace, Bool.or_eq_true, decide_eq_true_eq] at hb
    rcases hb with ((rfl | rfl) | rfl) | rfl <;> decide
  cases s with
  | nil => exact hr
  | cons b s => exact ends_cons (space b (hs b (.head _))) (s ++ r)

theorem readValue_skipSpace (fuel : Nat) {bs cs : Bytes} (h : skipSpace bs = skipSpace cs) :
    readValue fuel bs = readValue fuel cs := by
  cases fuel with
  | zero => rfl
  | succ fuel => rw [readValue, readValue, h]

theorem readMembers_skipSpace (fuel : Nat) {bs cs : Bytes} (h : skipSpace bs = skipSpace cs) :
    readMembers fuel bs = readMembers fuel cs := by
  cases fuel with
  | zero => rfl
  | succ fuel => rw [readMembers, readMembers, h]

theorem readValue_nil (fuel : Nat) : readValue fuel [] = none := by
  cases fuel <;> rfl

theorem readItems_nil (fuel : Nat) : readItems fuel [] = none := by
  cases fuel with
  | zero => rfl
  | succ fuel => rw [readItems, readValue_nil]

theorem readMembers_nil (fuel : Nat) : readMembers fuel [] = none := by
  cases fuel <;> rfl

def TakesFrom {α : Type} (ends : Bytes → Prop) (read : Nat → Bytes → Option (α × Bytes))
    (fuel : Nat) : Prop :=
  ∀ ⦃bs : Bytes⦄ ⦃a : α⦄ ⦃t : Bytes⦄, read fuel bs = some (a, t) →
    ∃ p, bs = p ++ t ∧ ∀ more ≥ fuel, ∀ r, ends r → read more (p ++ r) = some (a, r)

theorem TakesFrom.cons {α : Type} {ends : Bytes → Prop} {read : Nat → Bytes → Option (α × Bytes)}
    {fuel : Nat} (h : TakesFrom ends read fuel) (hn : ends []) (hz : read fuel [] = none)
    {b : UInt8} {bs : Bytes} {a : α} {t : Bytes} (hr : read fuel (b :: bs) = some (a, t)) :
    ∃ p, bs = p ++ t ∧ ∀ more ≥ fuel, ∀ r, ends r → read more (b :: (p ++ r)) = some (a, r) := by
  obtain ⟨p, whole, takes⟩ := h hr
  cases p with
  | nil => exact nomatch hz.symm.trans (takes fuel (Nat.le_refl _) [] hn)
  | cons c p =>
    obtain ⟨rfl, rfl⟩ := List.cons.inj whole
    exact ⟨p, rfl, takes⟩

theorem exists_head {fuel : Nat} {bs : Bytes} {j : Json} {t : Bytes}
    (h : readValue fuel bs = some (j, t)) : ∃ s b r, Blank s ∧ bs = s ++ b :: r ∧
      isSpace b = false ∧ readValue fuel (b :: r) = some (j, t) := by
  cases first : skipSpace bs with
  | nil =>
    have none_read : readValue fuel bs = readValue fuel [] := readValue_skipSpace fuel first
    rw [none_read, readValue_nil] at h
    exact nomatch h
  | cons b r =>
    obtain ⟨s, hs, rfl, -⟩ := skipSpace_eq_cons first
    rw [readValue_skipSpace fuel (skipSpace_blank hs _)] at h
    exact ⟨s, b, r, hs, rfl, isSpace_head first, h⟩

theorem TakesFrom.bracketed {α : Type} {read : Nat → Bytes → Option (α × Bytes)} {fuel : Nat}
    (h : TakesFrom Anything read fuel) (hz : read fuel [] = none) {closing : UInt8} {empty : Json}
    {of : α → Json} (value : Nat → Bytes → Option (Json × Bytes))
    (branch : ∀ fuel r, value fuel r = match skipSpace r with
      | [] => none
      | c :: t =>
        if c = closing then some (empty, t) else (read fuel (c :: t)).map fun q => (of q.1, q.2)) :
    TakesFrom Anything value fuel := by
  intro bs j t hr
  rw [branch] at hr
  cases first : skipSpace bs with
  | nil => rw [first] at hr; exact nomatch hr
  | cons c r =>
    obtain ⟨s, -, rfl, again⟩ := skipSpace_eq_cons first
    simp only [first] at hr
    split at hr
    · next closed =>
      obtain ⟨rfl, rfl⟩ := Prod.mk.inj (Option.some.inj hr)
      refine ⟨s ++ [c], by simp, fun more _ r _ => ?_⟩
      rw [branch, List.append_assoc, List.singleton_append, again]
      simp only [closed, if_true]
    · next more_items =>
      obtain ⟨⟨a, t⟩, taken, same⟩ := Option.map_eq_some_iff.mp hr
      obtain ⟨rfl, rfl⟩ := Prod.mk.inj same
      obtain ⟨p, rfl, takes⟩ := h.cons trivial hz taken
      refine ⟨s ++ c :: p, by simp, fun more hm r hr => ?_⟩
      rw [branch, List.append_assoc, List.cons_append, again]
      simp only [more_items, if_false, takes more hm r hr, Option.map_some]

variable {fuel : Nat}

theorem readValue_takes_succ (items : TakesFrom Anything readItems fuel)
    (members : TakesFrom Anything readMembers fuel) : TakesFrom Ends readValue (fuel + 1) := by
  intro bs j t h
  obtain ⟨s, b, r, hs, rfl, space, h⟩ := exists_head h
  suffices rest : ∃ p, r = p ++ t ∧ ∀ more ≥ fuel, ∀ r, Ends r →
      readValue (more + 1) (b :: (p ++ r)) = some (j, r) by
    obtain ⟨p, rfl, takes⟩ := rest
    refine ⟨s ++ b :: p, by simp, fun more hm r hr => ?_⟩
    obtain ⟨more, rfl⟩ := Nat.exists_eq_add_of_le' (Nat.le_trans (Nat.le_add_left 1 fuel) hm)
    rw [List.append_assoc, readValue_skipSpace _ (skipSpace_blank hs _)]
    exact takes more (Nat.le_of_succ_le_succ hm) r hr
  have direct {read : Bytes → Option (Json × Bytes)} (takes : TakesBefore Ends read)
      (hz : read [] = none) (branch : ∀ fuel r, readValue (fuel + 1) (b :: r) = read (b :: r)) :
      ∃ p, r = p ++ t ∧ ∀ more ≥ fuel, ∀ r, Ends r →
        readValue (more + 1) (b :: (p ++ r)) = some (j, r) := by
    rw [branch] at h
    obtain ⟨p, rfl, takes⟩ := takes.cons ends_nil hz h
    exact ⟨p, rfl, fun more _ r hr => by rw [branch, takes r hr]⟩
  have word (w : String) (j : Json) : TakesBefore Ends (readWord w j) :=
    (readWord_takes w j).mono fun _ _ => trivial
  by_cases quote : b = 0x22
  · subst quote
    have branch (fuel : Nat) (r : Bytes) : readValue (fuel + 1) (0x22 :: r) =
      (readString r).map fun q => (.string q.1, q.2) := rfl
    rw [branch, Option.map_eq_some_iff] at h
    obtain ⟨⟨s, t⟩, read, same⟩ := h
    obtain ⟨rfl, rfl⟩ := Prod.mk.inj same
    obtain ⟨p, rfl, takes⟩ := readString_takes read
    exact ⟨p, rfl, fun _ _ r _ => by rw [branch, takes r trivial]; rfl⟩
  by_cases bracket : b = 0x5B
  · subst bracket
    obtain ⟨p, rfl, takes⟩ := items.bracketed (readItems_nil fuel)
      (fun fuel r => readValue (fuel + 1) (0x5B :: r)) (fun _ _ => rfl) h
    exact ⟨p, rfl, fun more hm r _ => takes more hm r trivial⟩
  by_cases brace : b = 0x7B
  · subst brace
    obtain ⟨p, rfl, takes⟩ := members.bracketed (readMembers_nil fuel)
      (fun fuel r => readValue (fuel + 1) (0x7B :: r)) (fun _ _ => rfl) h
    exact ⟨p, rfl, fun more hm r _ => takes more hm r trivial⟩
  by_cases isTrue : b = 0x74
  · exact direct (word "true" (.bool true)) (by decide) (by rintro _ _; subst isTrue; rfl)
  by_cases isFalse : b = 0x66
  · exact direct (word "false" (.bool false)) (by decide) (by rintro _ _; subst isFalse; rfl)
  by_cases isNull : b = 0x6E
  · exact direct (word "null" .null) (by decide) (by rintro _ _; subst isNull; rfl)
  · refine direct readNumber_takes rfl fun fuel r => ?_
    rw [readValue, skipSpace_cons space]
    simp only [quote, bracket, brace, isTrue, isFalse, isNull, if_false]

def readRest {α : Type} (closing : UInt8) (next : Bytes → Option (List α × Bytes)) (a : α)
    (bs : Bytes) : Option (List α × Bytes) :=
  match skipSpace bs with
  | [] => none
  | b :: t =>
    if b = 0x2C then (next t).map fun q => (a :: q.1, q.2)
    else if b = closing then some ([a], t)
    else none

theorem readItems_succ (fuel : Nat) (bs : Bytes) : readItems (fuel + 1) bs =
    (readValue fuel bs).bind fun q => readRest 0x5D (readItems fuel) q.1 q.2 := by
  rw [readItems]
  cases readValue fuel bs <;> rfl

def readMember (fuel : Nat) (bs : Bytes) : Option ((Option String × Json) × Bytes) :=
  (readString bs).bind fun name =>
    match skipSpace name.2 with
    | [] => none
    | colon :: r =>
      if colon = 0x3A then (readValue fuel r).map fun q => ((name.1, q.1), q.2) else none

theorem readMembers_succ (fuel : Nat) (bs : Bytes) : readMembers (fuel + 1) bs =
    match skipSpace bs with
    | [] => none
    | q :: r =>
      if q = 0x22 then
        (readMember fuel r).bind fun m => readRest 0x7D (readMembers fuel) m.1 m.2
      else none := by
  rw [readMembers]
  cases skipSpace bs with
  | nil => rfl
  | cons q r =>
    simp only [readMember]
    split
    · cases readString r with
      | none => rfl
      | some name =>
        simp only [Option.bind_some]
        cases skipSpace name.2 with
        | nil => rfl
        | cons colon r =>
          simp only
          split
          · cases readValue fuel r <;> rfl
          · rfl
    · rfl

theorem readRest_takes {α : Type} {next : Nat → Bytes → Option (List α × Bytes)}
    (h : TakesFrom Anything next fuel) {closing : UInt8} (hc : closing = 0x5D ∨ closing = 0x7D)
    {a : α} {bs : Bytes} {as : List α} {t : Bytes}
    (hr : readRest closing (next fuel) a bs = some (as, t)) :
    ∃ p, bs = p ++ t ∧ ∀ more ≥ fuel, ∀ r,
      readRest closing (next more) a (p ++ r) = some (as, r) ∧ Ends (p ++ r) := by
  cases after : skipSpace bs with
  | nil => simp [readRest, after] at hr
  | cons b u =>
    obtain ⟨s, hs, rfl, again⟩ := skipSpace_eq_cons after
    simp only [readRest, after] at hr
    by_cases comma : b = 0x2C
    · subst comma
      obtain ⟨⟨others, t⟩, read, same⟩ := Option.map_eq_some_iff.mp hr
      obtain ⟨rfl, rfl⟩ := Prod.mk.inj same
      obtain ⟨p, rfl, takes⟩ := h read
      refine ⟨s ++ 0x2C :: p, by simp, fun more hm r => ?_⟩
      rw [List.append_assoc, List.cons_append]
      refine ⟨?_, ends_blank hs (ends_cons (by decide) _)⟩
      simp only [readRest, again, if_true, takes more hm r trivial, Option.map_some]
    · rw [if_neg comma] at hr
      split at hr
      · next closed =>
        subst closed
        obtain ⟨rfl, rfl⟩ := Prod.mk.inj (Option.some.inj hr)
        refine ⟨s ++ [b], by simp, fun more _ r => ?_⟩
        rw [List.append_assoc, List.singleton_append]
        refine ⟨?_, ends_blank hs (ends_cons (by rcases hc with rfl | rfl <;> decide) _)⟩
        simp only [readRest, again, comma, if_false, if_true]
      · exact nomatch hr

theorem readItems_takes_succ (value : TakesFrom Ends readValue fuel)
    (items : TakesFrom Anything readItems fuel) : TakesFrom Anything readItems (fuel + 1) := by
  intro bs js t h
  rw [readItems_succ] at h
  obtain ⟨⟨j, rest⟩, first, following⟩ := Option.bind_eq_some_iff.mp h
  obtain ⟨p, rfl, takes⟩ := value first
  obtain ⟨q, rfl, takes_rest⟩ := readRest_takes items (.inl rfl) following
  refine ⟨p ++ q, (List.append_assoc ..).symm, fun more hm r _ => ?_⟩
  obtain ⟨more, rfl⟩ := Nat.exists_eq_add_of_le' (Nat.le_trans (Nat.le_add_left 1 fuel) hm)
  obtain ⟨others, ends⟩ := takes_rest more (Nat.le_of_succ_le_succ hm) r
  rw [readItems_succ, List.append_assoc, takes more (Nat.le_of_succ_le_succ hm) _ ends]
  exact others

theorem readMember_takes (value : TakesFrom Ends readValue fuel) :
    TakesFrom Ends readMember fuel := by
  intro bs m t h
  obtain ⟨⟨name, rest⟩, read, following⟩ := Option.bind_eq_some_iff.mp h
  obtain ⟨p, rfl, takes⟩ := readString_takes read
  cases after : skipSpace rest with
  | nil => simp [after] at following
  | cons colon u =>
    obtain ⟨s, -, rfl, again⟩ := skipSpace_eq_cons after
    simp only [after] at following
    split at following
    · next isColon =>
      subst isColon
      obtain ⟨⟨j, t⟩, read, same⟩ := Option.map_eq_some_iff.mp following
      obtain ⟨rfl, rfl⟩ := Prod.mk.inj same
      obtain ⟨q, rfl, takes_value⟩ := value read
      refine ⟨p ++ (s ++ 0x3A :: q), by simp, fun more hm r hr => ?_⟩
      simp only [List.append_assoc, List.cons_append]
      rw [readMember, takes _ trivial]
      simp only [Option.bind_some, again, if_true, takes_value more hm r hr,
        Option.map_some]
    · cases following

theorem readMembers_takes_succ (value : TakesFrom Ends readValue fuel)
    (members : TakesFrom Anything readMembers fuel) :
    TakesFrom Anything readMembers (fuel + 1) := by
  intro bs ms t h
  rw [readMembers_succ] at h
  cases first : skipSpace bs with
  | nil => simp [first] at h
  | cons b u =>
    obtain ⟨s, -, rfl, again⟩ := skipSpace_eq_cons first
    simp only [first] at h
    split at h
    · next quote =>
      subst quote
      obtain ⟨⟨m, rest⟩, read, following⟩ := Option.bind_eq_some_iff.mp h
      obtain ⟨p, rfl, takes⟩ := readMember_takes value read
      obtain ⟨q, rfl, takes_rest⟩ := readRest_takes members (.inr rfl) following
      refine ⟨s ++ 0x22 :: (p ++ q), by simp, fun more hm r _ => ?_⟩
      obtain ⟨more, rfl⟩ := Nat.exists_eq_add_of_le' (Nat.le_trans (Nat.le_add_left 1 fuel) hm)
      obtain ⟨others, ends⟩ := takes_rest more (Nat.le_of_succ_le_succ hm) r
      have one := takes more (Nat.le_of_succ_le_succ hm) _ ends
      rw [readMembers_succ]
      simp only [List.append_assoc, List.cons_append, again, if_true, one, Option.bind_some, others]
    · exact nomatch h

theorem takesFrom (fuel : Nat) : TakesFrom Ends readValue fuel ∧
    TakesFrom Anything readItems fuel ∧ TakesFrom Anything readMembers fuel := by
  induction fuel with
  | zero => exact ⟨(fun _ _ _ h => nomatch h), (fun _ _ _ h => nomatch h), fun _ _ _ h => nomatch h⟩
  | succ fuel ih =>
    obtain ⟨value, items, members⟩ := ih
    exact ⟨readValue_takes_succ items members, readItems_takes_succ value items,
      readMembers_takes_succ value members⟩

theorem readValue_takes (fuel : Nat) : TakesFrom Ends readValue fuel :=
  (takesFrom fuel).1

theorem ofBytes?_eq_some {bs : Bytes} {j : Json} (h : ofBytes? bs = some j) :
    ∃ p s, bs = p ++ s ∧ Blank s ∧
      ∀ fuel ≥ 2 * bs.length + 2, ∀ r, Ends r → readValue fuel (p ++ r) = some (j, r) := by
  rw [ofBytes?] at h
  cases read : readValue (2 * bs.length + 2) bs with
  | none => rw [read] at h; cases h
  | some q =>
    obtain ⟨j', t⟩ := q
    simp only [read] at h
    split at h
    · next blank =>
      obtain rfl := Option.some.inj h
      obtain ⟨p, whole, takes⟩ := readValue_takes _ read
      obtain ⟨s, hs, rest⟩ := exists_blank t
      rw [List.isEmpty_iff.mp blank, List.append_nil] at rest
      exact ⟨p, t, whole, rest ▸ hs, takes⟩
    · cases h

end Values

end DocumentPreview.Json
