import DocumentPreview.Proofs.Text.Base64
import DocumentPreview.Proofs.Token.Payload
import DocumentPreview.Token.Issuer

namespace DocumentPreview

namespace Instant

variable {a b c : Instant}

theorem not_le : ¬ a ≤ b ↔ b < a :=
  Int.not_le

theorem lt_irrefl : ¬ a < a :=
  Int.lt_irrefl _

theorem lt_trans (h : a < b) (h' : b < c) : a < c :=
  Int.lt_trans h h'

theorem lt_of_le_of_lt (h : a ≤ b) (h' : b < c) : a < c :=
  Int.lt_of_le_of_lt h h'

theorem lt_of_lt_of_le (h : a < b) (h' : b ≤ c) : a < c :=
  Int.lt_of_lt_of_le h h'

end Instant

namespace TokenIssuer

open Base64

theorem parts?_assemble (payload signature : Bytes) :
    parts? (assemble payload signature) = some (payload, signature) := by
  have point : '.' ∉ urlSafe.encode payload :=
    Alphabet.not_mem_encode Alphabet.faithful_urlSafe rfl (by decide) payload
  have split := Text.splitFirst?_append point (urlSafe.encode signature)
  simp only [parts?, assemble, split, Option.bind_eq_bind, Option.bind_some,
    Alphabet.decode?_encode Alphabet.faithful_urlSafe]
  rfl

variable {issuer : TokenIssuer} {token : String} {now : Instant}

def Signed (issuer : TokenIssuer) (token : String) : Prop :=
  ∃ payload, parts? token.toList = some (payload, Hmac.sign issuer.key payload)

theorem validate_eq_ok_iff {claims : TokenClaims} :
    issuer.validate token now = .ok claims ↔
      ∃ payload, parts? token.toList = some (payload, Hmac.sign issuer.key payload) ∧
        TokenClaims.ofPayload? payload = some claims ∧ now < claims.expiry := by
  constructor
  · intro h
    rw [validate] at h
    split at h
    · cases h
    rename_i payload signature hp
    split at h
    · cases h
    rename_i hs
    split at h
    · cases h
    rename_i c hc
    split at h
    · cases h
    rename_i hlt
    obtain rfl := Except.ok.inj h
    obtain rfl := not_not.mp hs
    exact ⟨payload, hp, hc, Instant.not_le.mp hlt⟩
  · rintro ⟨payload, hp, hc, hlt⟩
    rw [validate, hp]
    simp only [ne_eq, not_true_eq_false, if_false, hc]
    rw [if_neg (Instant.not_le.mpr hlt)]

theorem signed_of_validate {claims : TokenClaims} (h : issuer.validate token now = .ok claims) :
    issuer.Signed token := by
  obtain ⟨payload, hp, -⟩ := validate_eq_ok_iff.mp h
  exact ⟨payload, hp⟩

section Minted

variable {fileId nonce : Uuid} {m : MintedToken}

theorem toList_token_of_mint? (h : issuer.mint? fileId nonce now = some m) :
    m.token.toList = issuer.sign m.claims.payload := by
  obtain ⟨ends, -, rfl⟩ := Option.map_eq_some_iff.mp h
  exact String.toList_ofList

theorem claims_of_mint? (h : issuer.mint? fileId nonce now = some m) :
    m.claims.fileId = fileId ∧ m.claims.nonce = nonce.simple := by
  obtain ⟨ends, -, rfl⟩ := Option.map_eq_some_iff.mp h
  exact ⟨rfl, rfl⟩

theorem signed_of_mint? (h : issuer.mint? fileId nonce now = some m) : issuer.Signed m.token :=
  ⟨m.claims.payload, by rw [toList_token_of_mint? h, sign, parts?_assemble]⟩

theorem expiry_of_mint? (h : issuer.mint? fileId nonce now = some m) :
    m.claims.expiry.nanos = (now.nanos + lifetime.nanos) / 1_000_000_000 * 1_000_000_000 := by
  obtain ⟨ends, hends, rfl⟩ := Option.map_eq_some_iff.mp h
  have nanos : ends.nanos = now.nanos + lifetime.nanos := by
    rw [Instant.shift?, Instant.ofNanos?] at hends
    split at hends
    · exact congrArg Instant.nanos (Option.some.inj hends).symm
    · cases hends
  have low := ends.least_le
  have high := ends.lt_end
  have second : ends.unixSeconds = ends.nanos / 1_000_000_000 := rfl
  have fits : (Int64.ofInt ends.unixSeconds).toInt = ends.unixSeconds :=
    Int64.toInt_ofInt_of_le (by omega) (by omega)
  simp only [TokenClaims.expiry, fits, Instant.ofUnixSeconds?, Instant.ofNanos?]
  rw [dif_pos (by omega), Option.getD_some, ← nanos, ← second]

theorem validate_minted_eq_ok_iff (h : issuer.mint? fileId nonce now = some m) {t : Instant}
    {claims : TokenClaims} :
    issuer.validate m.token t = .ok claims ↔ claims = m.claims ∧ t < m.claims.expiry := by
  rw [validate_eq_ok_iff, toList_token_of_mint? h, sign, parts?_assemble]
  constructor
  · rintro ⟨payload, hp, hc, hlt⟩
    obtain rfl := (Prod.mk.inj (Option.some.inj hp)).1
    rw [TokenClaims.ofPayload?_payload] at hc
    obtain rfl := Option.some.inj hc
    exact ⟨rfl, hlt⟩
  · rintro ⟨rfl, hlt⟩
    exact ⟨_, rfl, TokenClaims.ofPayload?_payload _, hlt⟩

end Minted

end TokenIssuer

end DocumentPreview
