import DocumentPreview.Proofs.Json.Literals

namespace DocumentPreview.Json

inductive Readable : Json → Prop
  | null : Readable .null
  | bool (b : Bool) : Readable (.bool b)
  | number {n : JsonNumber} (h : ∀ d ∈ n.fraction, d < 10) : Readable (.number n)
  | string (s : Option String) : Readable (.string s)
  | array {items : List Json} (h : ∀ j ∈ items, Readable j) : Readable (.array items)
  | object {members : List (Option String × Json)} (h : ∀ m ∈ members, Readable m.2) :
      Readable (.object members)

section Numbers

def digitByte (d : Nat) : UInt8 :=
  UInt8.ofNat (Text.digitChar d).toNat

theorem byteDigit?_digitByte : ∀ d < 10, byteDigit? (digitByte d) = some d := by
  decide

theorem encode_digits {ds : List Nat} (h : ∀ d ∈ ds, d < 10) :
    Utf8.encode (ds.map Text.digitChar) = ds.map digitByte := by
  induction ds with
  | nil => rfl
  | cons d ds ih =>
    have hd : d < 10 := h d (.head _)
    rw [List.map_cons, Utf8.encode_cons, utf8EncodeChar_digitChar d (by omega),
      ih fun e he => h e (.tail _ he)]
    rfl

def NoDigit (r : Bytes) : Prop :=
  ∀ b ∈ r.head?, byteDigit? b = none

def Ends (r : Bytes) : Prop :=
  ∀ b ∈ r.head?, byteDigit? b = none ∧ b ≠ 0x2E ∧ b ≠ 0x65 ∧ b ≠ 0x45

theorem ends_nil : Ends [] := by
  simp [Ends]

theorem ends_cons {b : UInt8} (h : byteDigit? b = none ∧ b ≠ 0x2E ∧ b ≠ 0x65 ∧ b ≠ 0x45)
    (r : Bytes) : Ends (b :: r) := by
  intro c hc
  obtain rfl : b = c := by simpa using hc
  exact h

theorem readDigits_of_noDigit {r : Bytes} (h : NoDigit r) : readDigits r = ([], r) := by
  cases r with
  | nil => rfl
  | cons b r => rw [readDigits, h b rfl]

theorem readDigits_digits {ds : List Nat} (h : ∀ d ∈ ds, d < 10) {r : Bytes} (hr : NoDigit r) :
    readDigits (Utf8.encode (ds.map Text.digitChar) ++ r) = (ds, r) := by
  rw [encode_digits h]
  induction ds with
  | nil => exact readDigits_of_noDigit hr
  | cons d ds ih =>
    rw [List.map_cons, List.cons_append, readDigits, byteDigit?_digitByte d (h d (.head _)),
      ih fun e he => h e (.tail _ he)]

theorem readDigits_decimal (n : Nat) {r : Bytes} (hr : NoDigit r) :
    readDigits (Utf8.encode (Text.decimal n) ++ r) = (Text.decimalDigits n, r) := by
  rw [Text.decimal_eq]
  exact readDigits_digits (fun _ => Text.lt_ten_of_mem_decimalDigits) hr

theorem readWhole_decimal (n : Nat) {r : Bytes} (hr : NoDigit r) :
    readWhole (Utf8.encode (Text.decimal n) ++ r) = some (n, r) := by
  have value := Text.ofDigits_decimalDigits n
  rw [readWhole, readDigits_decimal n hr]
  match hds : Text.decimalDigits n with
  | [] => exact absurd hds (Text.decimalDigits_ne_nil n)
  | 0 :: d :: ds => exact nomatch Text.decimalDigits_head n hds
  | [0] =>
    rw [hds] at value
    exact congrArg (fun m => some (m, r)) value
  | (d + 1) :: ds =>
    rw [hds] at value
    exact congrArg (fun m => some (m, r)) value

theorem encode_decimal (n : Nat) :
    ∃ d < 10, ∃ t, Utf8.encode (Text.decimal n) = digitByte d :: t := by
  rw [Text.decimal_eq, encode_digits fun _ => Text.lt_ten_of_mem_decimalDigits]
  match hds : Text.decimalDigits n with
  | [] => exact absurd hds (Text.decimalDigits_ne_nil n)
  | d :: ds =>
    have hd : d ∈ Text.decimalDigits n := by rw [hds]; exact .head _
    exact ⟨d, Text.lt_ten_of_mem_decimalDigits hd, ds.map digitByte, rfl⟩

theorem readSign_decimal (n : Nat) (r : Bytes) :
    readSign (Utf8.encode (Text.decimal n) ++ r) =
      (false, Utf8.encode (Text.decimal n) ++ r) := by
  have unsigned : ∀ d < 10, digitByte d ≠ 0x2D ∧ digitByte d ≠ 0x2B := by decide
  obtain ⟨d, hd, t, ht⟩ := encode_decimal n
  rw [ht, List.cons_append, readSign, if_neg (unsigned d hd).1, if_neg (unsigned d hd).2]

theorem readSign_integer (e : Int) (r : Bytes) :
    readSign (Utf8.encode (Text.integer e) ++ r) =
      (decide (e < 0), Utf8.encode (Text.decimal e.natAbs) ++ r) := by
  by_cases he : e < 0
  · rw [Text.integer, if_pos he, decide_eq_true he]
    rfl
  · rw [Text.integer, if_neg he, decide_eq_false he]
    exact readSign_decimal e.natAbs r

theorem readExponent_integer (e : Int) {r : Bytes} (hr : NoDigit r) :
    readExponent (Utf8.encode ('e' :: Text.integer e) ++ r) = some (some e, r) := by
  have value := Text.ofDigits_decimalDigits e.natAbs
  change readExponent (0x65 :: (Utf8.encode (Text.integer e) ++ r)) = some (some e, r)
  rw [readExponent, if_pos (.inl rfl), readSign_integer, readDigits_decimal e.natAbs hr]
  match hds : Text.decimalDigits e.natAbs with
  | [] => exact absurd hds (Text.decimalDigits_ne_nil e.natAbs)
  | d :: ds =>
    rw [hds] at value
    simp only [value, decide_eq_true_eq, Option.some.injEq, Prod.mk.injEq, and_true]
    split_ifs <;> omega

theorem readExponent_of_ends {r : Bytes} (hr : Ends r) : readExponent r = some (none, r) := by
  cases r with
  | nil => rfl
  | cons b r =>
    obtain ⟨-, -, he, hE⟩ := hr b rfl
    rw [readExponent, if_neg (by simp [he, hE])]

def exponentText : Option Int → List Char
  | none => []
  | some e => 'e' :: Text.integer e

def fractionText (ds : List Nat) : List Char :=
  if ds.isEmpty then [] else '.' :: ds.map Text.digitChar

theorem readExponent_exponentText (e : Option Int) {r : Bytes} (hr : Ends r) :
    readExponent (Utf8.encode (exponentText e) ++ r) = some (e, r) := by
  cases e with
  | none => exact readExponent_of_ends hr
  | some e => exact readExponent_integer e fun b hb => (hr b hb).1

theorem exponentText_head (e : Option Int) {r : Bytes} (hr : Ends r) :
    ∀ b ∈ (Utf8.encode (exponentText e) ++ r).head?, byteDigit? b = none ∧ b ≠ 0x2E := by
  intro b hb
  cases e with
  | none => exact ⟨(hr b hb).1, (hr b hb).2.1⟩
  | some e =>
    obtain rfl : (0x65 : UInt8) = b := Option.some.inj hb
    decide

theorem readFraction_fractionText {ds : List Nat} (h : ∀ d ∈ ds, d < 10) {r : Bytes}
    (hr : ∀ b ∈ r.head?, byteDigit? b = none ∧ b ≠ 0x2E) :
    readFraction (Utf8.encode (fractionText ds) ++ r) = some (ds, r) := by
  cases ds with
  | nil =>
    change readFraction r = some ([], r)
    cases r with
    | nil => rfl
    | cons b r => rw [readFraction, if_neg (hr b rfl).2]
  | cons d ds =>
    change readFraction (0x2E :: (Utf8.encode ((d :: ds).map Text.digitChar) ++ r)) = _
    rw [readFraction, if_pos rfl, readDigits_digits h fun b hb => (hr b hb).1]

theorem fractionText_head (ds : List Nat) {r : Bytes} (hr : NoDigit r) :
    NoDigit (Utf8.encode (fractionText ds) ++ r) := by
  cases ds with
  | nil => exact hr
  | cons d ds =>
    intro b hb
    obtain rfl : (0x2E : UInt8) = b := Option.some.inj hb
    decide

theorem renderNumber_eq (n : JsonNumber) :
    renderNumber n = (if n.negative then ['-'] else []) ++ (Text.decimal n.whole ++
      (fractionText n.fraction ++ exponentText n.exponent)) := by
  obtain ⟨negative, whole, fraction, exponent⟩ := n
  cases exponent <;> simp only [renderNumber, fractionText, exponentText, List.append_assoc]

theorem readMagnitude_magnitude (n : JsonNumber) (h : ∀ d ∈ n.fraction, d < 10) {r : Bytes}
    (hr : Ends r) :
    readMagnitude n.negative (Utf8.encode (Text.decimal n.whole ++
      (fractionText n.fraction ++ exponentText n.exponent)) ++ r) = some (.number n, r) := by
  have head := exponentText_head n.exponent hr
  rw [Utf8.encode_append, Utf8.encode_append, List.append_assoc, List.append_assoc, readMagnitude,
    readWhole_decimal _ (fractionText_head _ fun b hb => (head b hb).1)]
  simp only [Option.bind_eq_bind, Option.bind_some, readFraction_fractionText h head,
    readExponent_exponentText _ hr]
  rfl

def NumberHead (b : UInt8) : Prop :=
  b = 0x2D ∨ ∃ d < 10, b = digitByte d

theorem encode_renderNumber (n : JsonNumber) :
    ∃ b t, Utf8.encode (renderNumber n) = b :: t ∧ NumberHead b := by
  rw [renderNumber_eq]
  cases n.negative with
  | true => exact ⟨0x2D, _, rfl, .inl rfl⟩
  | false =>
    obtain ⟨d, hd, t, ht⟩ := encode_decimal n.whole
    refine ⟨digitByte d, t ++ Utf8.encode (fractionText n.fraction ++ exponentText n.exponent), ?_,
      .inr ⟨d, hd, rfl⟩⟩
    rw [if_neg Bool.false_ne_true, List.nil_append, Utf8.encode_append, ht, List.cons_append]

theorem readNumber_decimal (n : Nat) (r : Bytes) :
    readNumber (Utf8.encode (Text.decimal n) ++ r) =
      readMagnitude false (Utf8.encode (Text.decimal n) ++ r) := by
  have unsigned : ∀ d < 10, digitByte d ≠ 0x2D := by decide
  obtain ⟨d, hd, t, ht⟩ := encode_decimal n
  rw [ht, List.cons_append, readNumber, if_neg (unsigned d hd)]

theorem readNumber_renderNumber (n : JsonNumber) (h : ∀ d ∈ n.fraction, d < 10) {r : Bytes}
    (hr : Ends r) :
    readNumber (Utf8.encode (renderNumber n) ++ r) = some (.number n, r) := by
  have read := readMagnitude_magnitude n h hr
  rw [renderNumber_eq]
  cases hn : n.negative with
  | true =>
    rw [hn] at read
    exact read
  | false =>
    rw [hn, Utf8.encode_append, List.append_assoc] at read
    rw [if_neg Bool.false_ne_true, List.nil_append, Utf8.encode_append, List.append_assoc,
      readNumber_decimal, read]

end Numbers

section Values

theorem skipSpace_cons {b : UInt8} (h : isSpace b = false) (r : Bytes) :
    skipSpace (b :: r) = b :: r := by
  simp [skipSpace, List.dropWhile, h]

theorem NumberHead.other {b : UInt8} (h : NumberHead b) :
    isSpace b = false ∧ b ≠ 0x22 ∧ b ≠ 0x5B ∧ b ≠ 0x5D ∧ b ≠ 0x7B ∧ b ≠ 0x74 ∧ b ≠ 0x66 ∧
      b ≠ 0x6E := by
  have digits : ∀ d < 10, isSpace (digitByte d) = false ∧ digitByte d ≠ 0x22 ∧
      digitByte d ≠ 0x5B ∧ digitByte d ≠ 0x5D ∧ digitByte d ≠ 0x7B ∧ digitByte d ≠ 0x74 ∧
      digitByte d ≠ 0x66 ∧ digitByte d ≠ 0x6E := by
    decide
  rcases h with rfl | ⟨d, hd, rfl⟩
  · decide
  · exact digits d hd

theorem readValue_of_numberHead {b : UInt8} (h : NumberHead b) (fuel : Nat) (r : Bytes) :
    readValue (fuel + 1) (b :: r) = readNumber (b :: r) := by
  obtain ⟨space, h1, h2, -, h3, h4, h5, h6⟩ := h.other
  rw [readValue, skipSpace_cons space]
  simp only [h1, h2, h3, h4, h5, h6, if_false]

theorem readValue_string (fuel : Nat) (s : Option String) (r : Bytes) :
    readValue (fuel + 1) (Utf8.encode (renderString s) ++ r) = some (.string s, r) := by
  obtain ⟨t, ht, read⟩ := readString_renderString s r
  rw [ht, readValue, skipSpace_cons (by decide)]
  simp only [if_true, read]
  rfl

theorem encode_render (j : Json) :
    ∃ b t, Utf8.encode j.render = b :: t ∧ isSpace b = false ∧ b ≠ 0x5D := by
  match j with
  | .null | .bool true | .bool false | .string none | .string (some _) | .array _ | .object _ =>
    exact ⟨_, _, rfl, by decide, by decide⟩
  | .number n =>
    obtain ⟨b, t, ht, head⟩ := encode_renderNumber n
    exact ⟨b, t, ht, head.other.1, head.other.2.2.2.1⟩

theorem encode_renderMembers (m : Option String × Json) (ms : List (Option String × Json)) :
    ∃ t, Utf8.encode (renderMembers (m :: ms)) = 0x22 :: t := by
  obtain ⟨n, j⟩ := m
  obtain ⟨t, ht⟩ : ∃ t, Utf8.encode (renderString n) = 0x22 :: t := by
    obtain ⟨t, ht, -⟩ := readString_renderString n []
    exact ⟨t, by rw [← ht, List.append_nil]⟩
  cases ms with
  | nil => exact ⟨_, by rw [renderMembers, Utf8.encode_append, ht]; rfl⟩
  | cons m ms => exact ⟨_, by rw [renderMembers, Utf8.encode_append, ht]; rfl⟩

theorem length_render_pos (j : Json) : 0 < (Utf8.encode j.render).length := by
  obtain ⟨b, t, h, -⟩ := encode_render j
  simp [h]

theorem encode_array (items : List Json) (r : Bytes) :
    Utf8.encode (render (.array items)) ++ r =
      0x5B :: (Utf8.encode (renderItems items) ++ 0x5D :: r) := by
  rw [render, List.cons_append, Utf8.encode_cons, Utf8.encode_append]
  simp only [List.append_assoc]
  rfl

theorem encode_object (members : List (Option String × Json)) (r : Bytes) :
    Utf8.encode (render (.object members)) ++ r =
      0x7B :: (Utf8.encode (renderMembers members) ++ 0x7D :: r) := by
  rw [render, List.cons_append, Utf8.encode_cons, Utf8.encode_append]
  simp only [List.append_assoc]
  rfl

theorem encode_items (j k : Json) (js : List Json) (r : Bytes) :
    Utf8.encode (renderItems (j :: k :: js)) ++ r =
      Utf8.encode j.render ++ 0x2C :: (Utf8.encode (renderItems (k :: js)) ++ r) := by
  rw [renderItems, Utf8.encode_append, List.append_assoc]
  rfl

theorem encode_renderItems (j : Json) (js : List Json) :
    ∃ b t, Utf8.encode (renderItems (j :: js)) = b :: t ∧ isSpace b = false ∧ b ≠ 0x5D := by
  obtain ⟨b, t, ht, head⟩ := encode_render j
  cases js with
  | nil => exact ⟨b, t, ht, head⟩
  | cons k js =>
    refine ⟨b, t ++ Utf8.encode (',' :: renderItems (k :: js)), ?_, head⟩
    rw [renderItems, Utf8.encode_append, ht, List.cons_append]

theorem encode_member (n : Option String) (j : Json) (r : Bytes) :
    Utf8.encode (renderMembers [(n, j)]) ++ r =
      Utf8.encode (renderString n) ++ 0x3A :: (Utf8.encode j.render ++ r) := by
  rw [renderMembers, Utf8.encode_append, List.append_assoc]
  rfl

theorem encode_members (n : Option String) (j : Json) (m : Option String × Json)
    (ms : List (Option String × Json)) (r : Bytes) :
    Utf8.encode (renderMembers ((n, j) :: m :: ms)) ++ r =
      Utf8.encode (renderString n) ++
        0x3A :: (Utf8.encode j.render ++ 0x2C :: (Utf8.encode (renderMembers (m :: ms)) ++ r)) := by
  rw [renderMembers, Utf8.encode_append, Utf8.encode_cons, Utf8.encode_append]
  simp only [List.append_assoc]
  rfl

-- A list takes one unit of fuel at each position and one for the value there; both have a byte of
-- their own, the position its comma or its closing bracket.
mutual

theorem readValue_render {j : Json} (h : j.Readable) (fuel : Nat)
    (hf : 2 * (Utf8.encode j.render).length ≤ fuel) {r : Bytes} (hr : Ends r) :
    readValue fuel (Utf8.encode j.render ++ r) = some (j, r) := by
  have := length_render_pos j
  obtain ⟨fuel, rfl⟩ : ∃ m, fuel = m + 1 := ⟨fuel - 1, by omega⟩
  match j with
  | .null | .bool true | .bool false => rfl
  | .number n =>
    cases h with
    | number h =>
      obtain ⟨b, t, ht, head⟩ := encode_renderNumber n
      have read := readNumber_renderNumber n h hr
      rw [render, ht, List.cons_append, readValue_of_numberHead head]
      rwa [ht] at read
  | .string s => exact readValue_string fuel s r
  | .array items =>
    cases h with
    | array h =>
      have length := congrArg List.length (encode_array items [])
      simp only [List.append_nil, List.length_cons, List.length_append, List.length_nil] at length
      rw [encode_array, readValue, skipSpace_cons (by decide)]
      match items with
      | [] => rfl
      | j :: items =>
        obtain ⟨b, t, ht, space, closing⟩ := encode_renderItems j items
        have read := readItems_render (j :: items) (fun h => nomatch h) h fuel (by omega) r
        rw [ht, List.cons_append] at read ⊢
        simp [skipSpace_cons space, closing, read]
  | .object members =>
    cases h with
    | object h =>
      have length := congrArg List.length (encode_object members [])
      simp only [List.append_nil, List.length_cons, List.length_append, List.length_nil] at length
      rw [encode_object, readValue, skipSpace_cons (by decide)]
      match members with
      | [] => rfl
      | m :: members =>
        obtain ⟨t, ht⟩ := encode_renderMembers m members
        have read := readMembers_render (m :: members) (fun h => nomatch h) h fuel (by omega) r
        have quote (u : Bytes) : skipSpace (0x22 :: u) = 0x22 :: u := skipSpace_cons (by decide) u
        rw [ht, List.cons_append] at read ⊢
        simp [quote, read]

theorem readItems_render (items : List Json) (hne : items ≠ []) (h : ∀ j ∈ items, Readable j)
    (fuel : Nat) (hf : 2 * (Utf8.encode (renderItems items)).length + 1 ≤ fuel) (r : Bytes) :
    readItems fuel (Utf8.encode (renderItems items) ++ 0x5D :: r) = some (items, r) := by
  obtain ⟨fuel, rfl⟩ : ∃ m, fuel = m + 1 := ⟨fuel - 1, by omega⟩
  match items with
  | [] => exact absurd rfl hne
  | [j] =>
    have read := readValue_render (h j (.head _)) fuel (by
      rw [renderItems] at hf
      omega) (ends_cons (b := 0x5D) (by decide) r)
    rw [renderItems, readItems, read]
    rfl
  | j :: k :: items =>
    have length := congrArg List.length (encode_items j k items [])
    simp only [List.append_nil, List.length_cons, List.length_append] at length
    have first := readValue_render (h j (.head _)) fuel (by omega)
      (ends_cons (b := 0x2C) (by decide) (Utf8.encode (renderItems (k :: items)) ++ 0x5D :: r))
    have others := readItems_render (k :: items) (fun h => nomatch h)
      (fun j hj => h j (.tail _ hj)) fuel (by omega) r
    have comma (t : Bytes) : skipSpace (0x2C :: t) = 0x2C :: t := skipSpace_cons (by decide) t
    rw [encode_items, readItems, first]
    simp only [comma, if_true, others]
    rfl

theorem readMembers_render (members : List (Option String × Json)) (hne : members ≠ [])
    (h : ∀ m ∈ members, Readable m.2) (fuel : Nat)
    (hf : 2 * (Utf8.encode (renderMembers members)).length + 1 ≤ fuel) (r : Bytes) :
    readMembers fuel (Utf8.encode (renderMembers members) ++ 0x7D :: r) = some (members, r) := by
  obtain ⟨fuel, rfl⟩ : ∃ m, fuel = m + 1 := ⟨fuel - 1, by omega⟩
  have quote (t : Bytes) : skipSpace (0x22 :: t) = 0x22 :: t := skipSpace_cons (by decide) t
  have colon (t : Bytes) : skipSpace (0x3A :: t) = 0x3A :: t := skipSpace_cons (by decide) t
  match members with
  | [] => exact absurd rfl hne
  | [(n, j)] =>
    have length := congrArg List.length (encode_member n j [])
    simp only [List.append_nil, List.length_cons, List.length_append] at length
    have value := readValue_render (j := j) (h (n, j) (.head _)) fuel (by omega)
      (ends_cons (b := 0x7D) (by decide) r)
    have brace : skipSpace (0x7D :: r) = 0x7D :: r := skipSpace_cons (by decide) r
    obtain ⟨t, ht, name⟩ :=
      readString_renderString n (0x3A :: (Utf8.encode j.render ++ 0x7D :: r))
    rw [encode_member, ht, readMembers, quote]
    simp only [if_true, name, colon, value, brace]
    rfl
  | (n, j) :: m :: members =>
    have length := congrArg List.length (encode_members n j m members [])
    simp only [List.append_nil, List.length_cons, List.length_append] at length
    let others := Utf8.encode (renderMembers (m :: members)) ++ 0x7D :: r
    have value := readValue_render (j := j) (h (n, j) (.head _)) fuel (by omega)
      (ends_cons (b := 0x2C) (by decide) others)
    have read := readMembers_render (m :: members) (fun h => nomatch h)
      (fun k hk => h k (.tail _ hk)) fuel (by omega) r
    have comma : skipSpace (0x2C :: others) = 0x2C :: others := skipSpace_cons (by decide) others
    obtain ⟨t, ht, name⟩ :=
      readString_renderString n (0x3A :: (Utf8.encode j.render ++ 0x2C :: others))
    rw [encode_members, ht, readMembers, quote]
    simp only [if_true, name, colon, value, comma]
    rw [read]
    rfl

end

theorem ofBytes?_toBytes {j : Json} (h : j.Readable) : ofBytes? j.toBytes = some j := by
  have read := readValue_render h _ (Nat.le_add_right _ 2) ends_nil
  rw [List.append_nil] at read
  rw [ofBytes?, toBytes, read]
  rfl

end Values

end DocumentPreview.Json
