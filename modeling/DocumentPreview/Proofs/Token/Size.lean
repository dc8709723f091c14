import DocumentPreview.Proofs.Token.Issuer

namespace DocumentPreview

namespace Json

theorem length_quoted {cs : List Char} (h : ∀ c ∈ cs, escapeChar c = [c]) :
    (quoted cs).length = cs.length + 2 := by
  have same : cs.flatMap escapeChar = cs := by
    rw [List.flatMap_congr h, List.flatMap_singleton']
  simp [quoted, same]

theorem escapeChar_digitChar : ∀ d < 16, escapeChar (Text.digitChar d) = [Text.digitChar d] := by
  decide

theorem length_renderNumber_le (i : Int64) : (renderNumber (.ofInt i.toInt)).length ≤ 20 := by
  have low := i.le_toInt
  have high := i.toInt_lt
  have width : (Text.decimal i.toInt.natAbs).length ≤ 19 := by
    rw [Text.decimal, Text.length_fixedDigits]
    exact Text.decimalWidth_le (by omega)
  have sign : (if i.toInt < 0 then ['-'] else []).length ≤ 1 := by
    split <;> simp
  simp only [renderNumber, JsonNumber.ofInt, decide_eq_true_eq, List.isEmpty_nil, if_true,
    List.append_nil, List.length_append]
  omega

end Json

namespace TokenClaims

variable {c : TokenClaims} {nonce : Uuid}

theorem length_payload_le (h : c.nonce = nonce.simple) : c.payload.length ≤ 508 := by
  have file : (Json.renderString (some c.fileId.text)).length = 38 := by
    rw [Json.renderString, Uuid.text, String.toList_ofList, Json.length_quoted, Uuid.length_hyphenated]
    intro c hc
    rcases Uuid.mem_hyphenated hc with rfl | ⟨d, hd, rfl⟩
    · decide
    · exact Json.escapeChar_digitChar d hd
  have random : (Json.renderString (some c.nonce)).length = 34 := by
    rw [Json.renderString, h, Uuid.simple, String.toList_ofList, Json.length_quoted,
      Uuid.length_digits]
    intro c hc
    obtain ⟨d, hd, rfl⟩ := Uuid.exists_of_mem_digits hc
    exact Json.escapeChar_digitChar d hd
  have number := Json.length_renderNumber_le c.expiresAt
  have names : (Json.renderString (some "file_id")).length = 9 ∧
      (Json.renderString (some "expires_at")).length = 12 ∧
      (Json.renderString (some "nonce")).length = 7 := by decide
  have text : c.toJson.render.length ≤ 127 := by
    change (Json.record _).render.length ≤ 127
    simp only [Json.record, Json.text, Json.int, List.map_cons, List.map_nil, Json.render,
      Json.renderMembers, List.length_cons, List.length_append, List.length_nil, file, random,
      Uuid.toJson, names]
    omega
  exact Nat.le_trans (Utf8.length_encode_le _) (Nat.mul_le_mul_left 4 text)

end TokenClaims

namespace TokenIssuer

open Base64

variable {issuer : TokenIssuer} {fileId nonce : Uuid} {now : Instant} {m : MintedToken} {c : Char}

theorem mem_token (h : issuer.mint? fileId nonce now = some m) (hc : c ∈ m.token.toList) :
    c = '.' ∨ ∃ n < 64, c = urlSafe.symbol n := by
  have symbol {bs : Bytes} (hc : c ∈ urlSafe.encode bs) : ∃ n < 64, c = urlSafe.symbol n := by
    rcases Alphabet.mem_encode hc with rfl | hs
    · exact absurd hc (Alphabet.not_mem_encode Alphabet.faithful_urlSafe rfl (by decide) bs)
    · exact hs
  rw [toList_token_of_mint? h, sign, assemble, List.mem_append, List.mem_cons] at hc
  rcases hc with hc | hc | hc
  · exact .inr (symbol hc)
  · exact .inl hc
  · exact .inr (symbol hc)

theorem length_token_le (h : issuer.mint? fileId nonce now = some m) :
    1 ≤ m.token.toList.length ∧ m.token.toList.length ≤ 722 := by
  have payload := TokenClaims.length_payload_le (claims_of_mint? h).2
  rw [toList_token_of_mint? h, sign, assemble, List.length_append, List.length_cons,
    Alphabet.length_encode rfl, Alphabet.length_encode rfl, Hmac.sign_length]
  omega

theorem size_token (h : issuer.mint? fileId nonce now = some m) :
    Utf8.size m.token.toList = m.token.toList.length := by
  have symbols : ∀ n < 64, Utf8.charSize (urlSafe.symbol n) = 1 := by decide +kernel
  refine Utf8.size_eq_length fun c hc => ?_
  rcases mem_token h hc with rfl | ⟨n, hn, rfl⟩
  · decide
  · exact symbols n hn

end TokenIssuer

end DocumentPreview
