import DocumentPreview.Proofs.Token.Verdict
import Mathlib.Data.List.TakeWhile

namespace DocumentPreview

namespace Text

variable {cs : List Char}

theorem dropWhile_isBlank_of_not_isBlank (h : ∀ c ∈ cs, ¬ isBlank c) : cs.dropWhile isBlank = cs := by
  cases cs with
  | nil => rfl
  | cons c cs => exact List.dropWhile_cons_of_neg (h c (.head _))

theorem trim_append {before after : List Char} (hb : ∀ c ∈ before, isBlank c)
    (ha : ∀ c ∈ after, isBlank c) (h : ∀ c ∈ cs, ¬ isBlank c) : trim (before ++ cs ++ after) = cs := by
  have front : (before ++ cs ++ after).dropWhile isBlank = (cs ++ after).dropWhile isBlank := by
    rw [List.append_assoc, List.dropWhile_append_of_pos hb]
  rw [trim, trimStart, front]
  cases cs with
  | nil =>
    rw [List.nil_append, List.dropWhile_eq_nil_iff.mpr ha]
    rfl
  | cons c cs =>
    rw [List.cons_append, List.dropWhile_cons_of_neg (h c (.head _)), ← List.cons_append, trimEnd,
      List.reverse_append, List.dropWhile_append_of_pos fun d hd => ha d (List.mem_reverse.mp hd),
      dropWhile_isBlank_of_not_isBlank fun d hd => h d (List.mem_reverse.mp hd), List.reverse_reverse]

end Text

namespace Base64

theorem not_isBlank_of_mem_encode {bs : Bytes} {c : Char} (h : c ∈ standard.encode bs) :
    ¬ Text.isBlank c := by
  have printed : ∀ n < 64, ¬ Text.isBlank (standard.symbol n) := by decide +kernel
  rcases Alphabet.mem_encode h with rfl | ⟨n, hn, rfl⟩
  · decide
  · exact printed n hn

end Base64

namespace TokenIssuer

open Base64

theorem ofBase64_encode {secret : Bytes} {before after : List Char}
    (hb : ∀ c ∈ before, Text.isBlank c) (ha : ∀ c ∈ after, Text.isBlank c) :
    ofBase64 (String.ofList (before ++ standard.encode secret ++ after)) = ofKey secret := by
  rw [ofBase64, String.toList_ofList, Text.trim_append hb ha fun _ => not_isBlank_of_mem_encode,
    Alphabet.decode?_encode Alphabet.faithful_standard]

variable {issuer : TokenIssuer} {fileId nonce : Uuid} {now ends t : Instant} {m : MintedToken}

theorem validate_minted (h : issuer.mint? fileId nonce now = some m) :
    issuer.validate m.token t = if t < m.claims.expiry then .ok m.claims else .error .expired := by
  split
  · exact (validate_minted_eq_ok_iff h).mpr ⟨rfl, ‹_›⟩
  · have late : m.claims.expiry ≤ t := Int.not_lt.mp ‹_›
    exact validate_of_verdict (.expired (toList_token_of_mint? h)
      (TokenClaims.ofPayload?_payload _) (expiry_le_iff.mp late))

theorem minted_valid_until_expiry {secret : Bytes} (h : 32 ≤ secret.length) :
    ∃ issuer, ofKey secret = .ok issuer ∧
      (∀ before after : List Char, (∀ c ∈ before, Text.isBlank c) → (∀ c ∈ after, Text.isBlank c) →
        ofBase64 (String.ofList (before ++ standard.encode secret ++ after)) = .ok issuer) ∧
      ∀ fileId nonce now, (now.shift? lifetime.nanos).isSome →
        ∃ m, issuer.mint? fileId nonce now = some m ∧ m.claims.fileId = fileId ∧
          m.claims.expiry.nanos = (now.nanos + 900 * 1_000_000_000) / 1_000_000_000 * 1_000_000_000 ∧
          ∀ t : Instant,
            issuer.validate m.token t =
              (if t < m.claims.expiry then .ok m.claims else .error .expired) ∧
            (t.nanos ≤ now.nanos + 899 * 1_000_000_000 → issuer.validate m.token t = .ok m.claims) ∧
            (now.nanos + 900 * 1_000_000_000 ≤ t.nanos → issuer.validate m.token t = .error .expired) := by
  refine ⟨⟨secret, h⟩, dif_pos h, fun before after hb ha => ?_, fun fileId nonce now hends => ?_⟩
  · rw [ofBase64_encode hb ha]
    exact dif_pos h
  · obtain ⟨ends, hends⟩ := Option.isSome_iff_exists.mp hends
    obtain ⟨m, hm⟩ : ∃ m, mint? ⟨secret, h⟩ fileId nonce now = some m := by
      rw [mint?, hends]
      exact ⟨_, rfl⟩
    have expiry : m.claims.expiry.nanos = (now.nanos + 900 * 1_000_000_000) / 1_000_000_000 * 1_000_000_000 :=
      expiry_of_mint? hm
    refine ⟨m, hm, (claims_of_mint? hm).1, expiry, fun t => ⟨validate_minted hm, ?_, ?_⟩⟩
    · intro early
      have lives : t.nanos < m.claims.expiry.nanos := by omega
      rw [validate_minted hm, if_pos (show t < m.claims.expiry from lives)]
    · intro late
      have ended : ¬ t.nanos < m.claims.expiry.nanos := by omega
      rw [validate_minted hm, if_neg (show ¬ t < m.claims.expiry from ended)]

theorem minted_valid_until_expiry_before_epoch :
    32 ≤ (List.replicate 32 0 : Bytes).length ∧ ∃ issuer m,
      ofBase64 (String.ofList ([' '] ++ standard.encode (List.replicate 32 0) ++ ['\n'])) = .ok issuer ∧
      issuer.mint? (.ofNat 1) (.ofNat 2) { nanos := -1 } = some m ∧
      issuer.validate m.token { nanos := 899 * 1_000_000_000 - 1 } = .ok m.claims ∧
      issuer.validate m.token { nanos := 899 * 1_000_000_000 } = .error .expired := by
  have long : 32 ≤ (List.replicate 32 0 : Bytes).length := by decide
  obtain ⟨issuer, -, text, tokens⟩ := minted_valid_until_expiry long
  obtain ⟨m, hm, -, expiry, valid⟩ := tokens (.ofNat 1) (.ofNat 2) { nanos := -1 } (by decide)
  have ends : m.claims.expiry.nanos = 899 * 1_000_000_000 := expiry
  refine ⟨long, issuer, m, text [' '] ['\n'] (List.forall_mem_singleton.mpr rfl)
    (List.forall_mem_singleton.mpr rfl), hm, ?_, ?_⟩
  · exact (valid _).2.1 (by decide)
  · have ended : ¬ (899 * 1_000_000_000 : Int) < m.claims.expiry.nanos := by omega
    exact (valid _).1.trans (if_neg ended)

end TokenIssuer

end DocumentPreview
