import DocumentPreview.Proofs.Json.RoundTrip
import DocumentPreview.Proofs.Text.Split
import DocumentPreview.Token.Claims

namespace DocumentPreview

namespace Uuid

theorem digits_eq (u : Uuid) : u.digits = (Text.digitsOf 16 32 u.toNat).map Text.digitChar :=
  Text.fixedDigits_eq 16 32 u.toNat

theorem length_digits (u : Uuid) : u.digits.length = 32 :=
  Text.length_fixedDigits 16 32 u.toNat

theorem exists_of_mem_digits {u : Uuid} {c : Char} (h : c ∈ u.digits) :
    ∃ d < 16, c = Text.digitChar d := by
  rw [digits_eq] at h
  obtain ⟨d, hd, rfl⟩ := List.mem_map.mp h
  exact ⟨d, Text.lt_of_mem_digitsOf (by decide) hd, rfl⟩

theorem hexadecimal?_digits (u : Uuid) : hexadecimal? u.digits = some u.toNat := by
  have below : ∀ d ∈ Text.digitsOf 16 32 u.toNat, d < 16 := fun _ =>
    Text.lt_of_mem_digitsOf (by decide)
  have width : u.toNat < 16 ^ 32 := u.bits.isLt
  rw [hexadecimal?, digits_eq,
    Text.mapM_digits fun d hd => Text.hexDigit?_digitChar d (below d hd), Option.map_some,
    Text.ofDigits_digitsOf, Nat.mod_eq_of_lt width]

theorem ofNat_toNat (u : Uuid) : ofNat u.toNat = u := by
  rw [ofNat, toNat, BitVec.ofNat_toNat, BitVec.setWidth_eq]

theorem hyphen_not_mem_digits (u : Uuid) : '-' ∉ u.digits := by
  intro h
  obtain ⟨d, hd, hc⟩ := exists_of_mem_digits h
  have other : ∀ d < 16, '-' ≠ Text.digitChar d := by decide
  exact other d hd hc

theorem mem_hyphenated {u : Uuid} {c : Char} (h : c ∈ u.hyphenated) : c = '-' ∨ ∃ d < 16, c = Text.digitChar d := by
  have group {cs : List Char} (hs : cs ⊆ u.digits) (hc : c ∈ cs) : ∃ d < 16, c = Text.digitChar d :=
    exists_of_mem_digits (hs hc)
  have middle (n : Nat) : (u.digits.drop n).take 4 ⊆ u.digits :=
    List.Subset.trans (List.take_subset 4 _) (List.drop_subset n _)
  simp only [hyphenated, List.mem_append, List.mem_cons] at h
  rcases h with h | h | h | h | h | h | h | h | h
  · exact .inr (group (List.take_subset 8 _) h)
  · exact .inl h
  · exact .inr (group (middle 8) h)
  · exact .inl h
  · exact .inr (group (middle 12) h)
  · exact .inl h
  · exact .inr (group (middle 16) h)
  · exact .inl h
  · exact .inr (group (List.drop_subset 20 _) h)

theorem length_hyphenated (u : Uuid) : u.hyphenated.length = 36 := by
  simp [hyphenated, length_digits]

theorem ofGroups?_hyphenated (u : Uuid) : ofGroups? u.hyphenated = some u := by
  have hyphen {cs : List Char} (h : cs ⊆ u.digits) : '-' ∉ cs := fun hm =>
    u.hyphen_not_mem_digits (h hm)
  have middle (n : Nat) : (u.digits.drop n).take 4 ⊆ u.digits :=
    List.Subset.trans (List.take_subset 4 _) (List.drop_subset n _)
  have groups : Text.splitOn '-' u.hyphenated =
      [u.digits.take 8, (u.digits.drop 8).take 4, (u.digits.drop 12).take 4,
        (u.digits.drop 16).take 4, u.digits.drop 20] := by
    simp only [hyphenated, Text.splitOn_append (hyphen (List.take_subset 8 _)),
      Text.splitOn_append (hyphen (middle _)),
      Text.splitOn_of_not_mem (hyphen (List.drop_subset 20 _))]
  have joined : [u.digits.take 8, (u.digits.drop 8).take 4, (u.digits.drop 12).take 4,
      (u.digits.drop 16).take 4, u.digits.drop 20].flatten = u.digits := by
    have next (n : Nat) : (u.digits.drop n).take 4 ++ u.digits.drop (n + 4) = u.digits.drop n := by
      rw [← List.drop_drop, List.take_append_drop]
    simp only [List.flatten_cons, List.flatten_nil, List.append_nil]
    rw [next 16, next 12, next 8, List.take_append_drop]
  have lengths : [u.digits.take 8, (u.digits.drop 8).take 4, (u.digits.drop 12).take 4,
      (u.digits.drop 16).take 4, u.digits.drop 20].map List.length = groupLengths := by
    simp [length_digits, groupLengths]
  simp only [ofGroups?, groups, lengths, if_true, joined, hexadecimal?_digits, Option.map_some,
    ofNat_toNat]

theorem parts_of_digit {d : Nat} (h : d < 16) (cs : List Char) :
    Parts.of (Text.digitChar d :: cs) = ⟨false, 0, Text.digitChar d :: cs⟩ := by
  have other : ∀ d < 16, Text.digitChar d ≠ '{' ∧ 'u' ≠ (Text.digitChar d).toLower := by decide
  obtain ⟨brace, urn⟩ := other d h
  have plain : Text.afterAnyCase? "urn:uuid:".toList (Text.digitChar d :: cs) = none := by
    change (if 'u' = (Text.digitChar d).toLower then _ else none) = none
    rw [if_neg urn]
  rw [Parts.of.eq_def]
  split
  · rename_i heq
    exact absurd (List.cons.inj heq).1 brace
  · rw [plain]

theorem ofChars?_hyphenated (u : Uuid) : ofChars? u.hyphenated = some u := by
  obtain ⟨c, cs, hc⟩ : ∃ c cs, u.digits = c :: cs :=
    List.exists_cons_of_length_pos (by rw [length_digits]; decide)
  obtain ⟨d, hd, rfl⟩ : ∃ d < 16, c = Text.digitChar d :=
    exists_of_mem_digits (by rw [hc]; exact .head _)
  obtain ⟨r, hr⟩ : ∃ r, u.hyphenated = Text.digitChar d :: r := by
    rw [hyphenated, hc]
    exact ⟨_, rfl⟩
  have body : (Parts.of u.hyphenated).body = u.hyphenated := by
    rw [hr, parts_of_digit hd]
  simp only [ofChars?, body, ofGroups?_hyphenated]

theorem ofString?_text (u : Uuid) : ofString? u.text = some u := by
  rw [ofString?, text, String.toList_ofList, ofChars?_hyphenated]

theorem ofJson?_toJson (u : Uuid) : ofJson? u.toJson = some u := by
  simp only [ofJson?, toJson, Json.text, Json.text?, Option.bind_some, ofString?_text]

end Uuid

namespace Json

theorem int?_int (i : Int) : (int i).int? = some i := by
  change (if decide (i < 0) then if i.natAbs = 0 then none else some (-(i.natAbs : Int))
    else some (i.natAbs : Int)) = some i
  by_cases hi : i < 0
  · have nonzero : ¬ i.natAbs = 0 := by omega
    have value : -(i.natAbs : Int) = i := by omega
    rw [if_pos (decide_eq_true hi), if_neg nonzero, value]
  · have value : (i.natAbs : Int) = i := by omega
    rw [if_neg (by simpa using hi), value]

theorem int64?_int (i : Int64) : (int i.toInt).int64? = some i := by
  have low := i.le_toInt
  have high := i.toInt_lt
  rw [int64?, intBetween?, int?_int, Option.bind_some, if_pos (by omega), Option.map_some,
    Int64.ofInt_toInt]

end Json

namespace TokenClaims

theorem ofJson?_toJson (c : TokenClaims) : ofJson? c.toJson = some c := by
  have fields : c.toJson.fields? fieldNames =
      some [some c.fileId.toJson, some (.int c.expiresAt.toInt), some (.text c.nonce)] := rfl
  simp only [ofJson?, fields, Option.bind_some, ofFields?, Json.required?, Uuid.ofJson?_toJson,
    Json.int64?_int]
  rfl

theorem readable_toJson (c : TokenClaims) : c.toJson.Readable := by
  refine .object fun m hm => ?_
  simp only [List.map_cons, List.map_nil, List.mem_cons, List.not_mem_nil, or_false] at hm
  rcases hm with rfl | rfl | rfl
  · exact .string _
  · exact .number fun d hd => nomatch hd
  · exact .string _

theorem ofPayload?_payload (c : TokenClaims) : ofPayload? c.payload = some c := by
  rw [ofPayload?, payload, Json.ofBytes?_toBytes c.readable_toJson, Option.bind_some, ofJson?_toJson]

end TokenClaims

end DocumentPreview
