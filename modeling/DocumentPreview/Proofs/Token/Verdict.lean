import DocumentPreview.Proofs.Token.Issuer
import Mathlib.Data.Set.Subsingleton

namespace DocumentPreview

namespace Text

variable {sep : Char} {cs : List Char}

theorem splitFirst?_eq_none_iff : splitFirst? sep cs = none ↔ sep ∉ cs := by
  induction cs with
  | nil => exact iff_of_true rfl List.not_mem_nil
  | cons c cs ih =>
    rw [splitFirst?]
    split
    · rename_i hc
      exact iff_of_false (Option.some_ne_none _) fun h => h (hc ▸ .head _)
    · rename_i hc
      rw [Option.map_eq_none_iff, ih, List.mem_cons, not_or]
      exact (and_iff_right (Ne.symm hc)).symm

theorem append_of_splitFirst? {a b : List Char} (h : splitFirst? sep cs = some (a, b)) :
    cs = a ++ sep :: b ∧ sep ∉ a := by
  induction cs generalizing a with
  | nil => cases h
  | cons c cs ih =>
    rw [splitFirst?] at h
    split at h
    · rename_i hc
      obtain ⟨rfl, rfl⟩ := Prod.mk.inj (Option.some.inj h)
      exact ⟨by rw [hc]; rfl, List.not_mem_nil⟩
    · rename_i hc
      obtain ⟨⟨x, y⟩, hxy, hab⟩ := Option.map_eq_some_iff.mp h
      obtain ⟨rfl, rfl⟩ := Prod.mk.inj hab
      obtain ⟨rfl, hx⟩ := ih hxy
      exact ⟨rfl, fun hm => (List.mem_cons.mp hm).elim (Ne.symm hc) hx⟩

end Text

namespace Base64

theorem decode?_urlSafe_eq_some_iff {cs : List Char} {bs : Bytes} :
    urlSafe.decode? cs = some bs ↔ cs = urlSafe.encode bs :=
  Alphabet.decode?_eq_some_iff Alphabet.faithful_urlSafe rfl

theorem decode?_urlSafe_eq_none_iff {cs : List Char} :
    urlSafe.decode? cs = none ↔ ∀ bs, cs ≠ urlSafe.encode bs := by
  simp only [Option.eq_none_iff_forall_ne_some, ne_eq, decode?_urlSafe_eq_some_iff]

end Base64

namespace TokenIssuer

open Base64

theorem parts?_append {head tail : List Char} (h : '.' ∉ head) :
    parts? (head ++ '.' :: tail) =
      (urlSafe.decode? head).bind fun payload => (urlSafe.decode? tail).map (payload, ·) := by
  simp only [parts?, Text.splitFirst?_append h, Option.bind_eq_bind, Option.bind_some,
    Option.map_eq_bind]
  rfl

theorem parts?_eq_some_iff {token : List Char} {payload signature : Bytes} :
    parts? token = some (payload, signature) ↔ token = assemble payload signature := by
  refine ⟨fun h => ?_, fun h => h ▸ parts?_assemble payload signature⟩
  cases hsplit : Text.splitFirst? '.' token with
  | none =>
    rw [parts?, hsplit] at h
    cases h
  | some parts =>
    obtain ⟨rfl, hhead⟩ := Text.append_of_splitFirst? hsplit
    rw [parts?_append hhead] at h
    obtain ⟨p, hp, h⟩ := Option.bind_eq_some_iff.mp h
    obtain ⟨s, hs, h⟩ := Option.map_eq_some_iff.mp h
    obtain ⟨rfl, rfl⟩ := Prod.mk.inj h
    rw [decode?_urlSafe_eq_some_iff.mp hp, decode?_urlSafe_eq_some_iff.mp hs, assemble]

theorem parts?_eq_none_of_uncanonical {head tail : List Char} (h : '.' ∉ head)
    (hu : (∀ bs, head ≠ urlSafe.encode bs) ∨ ∀ bs, tail ≠ urlSafe.encode bs) :
    parts? (head ++ '.' :: tail) = none := by
  rw [parts?_append h]
  rcases hu with hu | hu
  · rw [decode?_urlSafe_eq_none_iff.mpr hu]
    rfl
  · rw [decode?_urlSafe_eq_none_iff.mpr hu]
    exact Option.bind_fun_none _

theorem assemble_injective {p q s t : Bytes} (h : assemble p s = assemble q t) : p = q ∧ s = t :=
  Prod.mk.inj (Option.some.inj
    ((parts?_assemble p s).symm.trans ((congrArg parts? h).trans (parts?_assemble q t))))

inductive Verdict (issuer : TokenIssuer) (token : List Char) (now : Instant) :
    Except TokenError TokenClaims → Prop
  | unseparated : '.' ∉ token → Verdict issuer token now (.error .malformed)
  | uncanonical {head tail : List Char} : token = head ++ '.' :: tail → '.' ∉ head →
      (∀ bs, head ≠ urlSafe.encode bs) ∨ (∀ bs, tail ≠ urlSafe.encode bs) →
        Verdict issuer token now (.error .malformed)
  | tampered {payload signature : Bytes} : token = assemble payload signature →
      signature ≠ Hmac.sign issuer.key payload → Verdict issuer token now (.error .tampered)
  | unreadable {payload : Bytes} : token = issuer.sign payload →
      TokenClaims.ofPayload? payload = none → Verdict issuer token now (.error .malformed)
  | expired {payload : Bytes} {claims : TokenClaims} : token = issuer.sign payload →
      TokenClaims.ofPayload? payload = some claims →
        (∀ ends, Instant.ofUnixSeconds? claims.expiresAt.toInt = some ends → ends ≤ now) →
          Verdict issuer token now (.error .expired)
  | accepted {payload : Bytes} {claims : TokenClaims} {ends : Instant} :
      token = issuer.sign payload → TokenClaims.ofPayload? payload = some claims →
        Instant.ofUnixSeconds? claims.expiresAt.toInt = some ends → now < ends →
          Verdict issuer token now (.ok claims)

variable {issuer : TokenIssuer} {token : String} {now : Instant} {claims : TokenClaims}

theorem verdict_of_parts?_eq_none {token : List Char} (h : parts? token = none) :
    issuer.Verdict token now (.error .malformed) := by
  cases hsplit : Text.splitFirst? '.' token with
  | none => exact .unseparated (Text.splitFirst?_eq_none_iff.mp hsplit)
  | some parts =>
    obtain ⟨htoken, hhead⟩ := Text.append_of_splitFirst? hsplit
    refine .uncanonical htoken hhead ?_
    by_contra hcanonical
    obtain ⟨hp, hs⟩ := not_or.mp hcanonical
    obtain ⟨p, hp⟩ := not_forall_not.mp hp
    obtain ⟨s, hs⟩ := not_forall_not.mp hs
    rw [htoken, hp, hs] at h
    exact nomatch (parts?_assemble p s).symm.trans h

theorem expiry_le_iff :
    claims.expiry ≤ now ↔
      ∀ ends, Instant.ofUnixSeconds? claims.expiresAt.toInt = some ends → ends ≤ now := by
  rw [TokenClaims.expiry]
  cases Instant.ofUnixSeconds? claims.expiresAt.toInt with
  | none => exact iff_of_true now.least_le (by simp)
  | some ends => exact ⟨fun h e he => Option.some.inj he ▸ h, fun h => h ends rfl⟩

theorem verdict_validate (issuer : TokenIssuer) (token : String) (now : Instant) :
    issuer.Verdict token.toList now (issuer.validate token now) := by
  rw [validate]
  split
  · exact verdict_of_parts?_eq_none ‹_›
  rename_i payload signature hparts
  have htoken := parts?_eq_some_iff.mp hparts
  split
  · exact .tampered htoken (Ne.symm ‹_›)
  rename_i hsigned
  obtain rfl := not_not.mp hsigned
  split
  · exact .unreadable htoken ‹_›
  rename_i claims hclaims
  split
  · exact .expired htoken hclaims (expiry_le_iff.mp ‹_›)
  rename_i hlives
  obtain ⟨ends, hends, hlt⟩ : ∃ ends, Instant.ofUnixSeconds? claims.expiresAt.toInt = some ends ∧
      ¬ ends ≤ now := by
    simpa using mt expiry_le_iff.mpr hlives
  exact .accepted htoken hclaims hends (Instant.not_le.mp hlt)

theorem validate_of_assemble {payload signature : Bytes}
    (h : token.toList = assemble payload signature) :
    issuer.validate token now =
      if Hmac.sign issuer.key payload ≠ signature then .error .tampered
      else match TokenClaims.ofPayload? payload with
        | none => .error .malformed
        | some claims => if claims.expiry ≤ now then .error .expired else .ok claims := by
  have parts : parts? token.toList = some (payload, signature) := by rw [h, parts?_assemble]
  unfold validate
  exact parts ▸ rfl

theorem validate_of_verdict {r : Except TokenError TokenClaims}
    (h : issuer.Verdict token.toList now r) : issuer.validate token now = r := by
  cases h with
  | unseparated h =>
    rw [validate, parts?, Text.splitFirst?_eq_none_iff.mpr h]
    rfl
  | uncanonical h hhead hu => rw [validate, h, parts?_eq_none_of_uncanonical hhead hu]
  | tampered h hs => rw [validate_of_assemble h, if_pos (Ne.symm hs)]
  | unreadable h hc => rw [validate_of_assemble h, if_neg (not_not.mpr rfl), hc]
  | expired h hc he =>
    rw [validate_of_assemble h, if_neg (not_not.mpr rfl), hc]
    exact if_pos (expiry_le_iff.mpr he)
  | accepted h hc he hlt =>
    rw [validate_of_assemble h, if_neg (not_not.mpr rfl), hc]
    exact if_neg fun hle => Instant.lt_irrefl (Instant.lt_of_lt_of_le hlt (expiry_le_iff.mp hle _ he))

def Accepted (issuer : TokenIssuer) (payload : Bytes) : Set String :=
  {token | (∃ signature, token.toList = assemble payload signature) ∧
    ∃ now claims, issuer.validate token now = .ok claims}

theorem toList_of_mem_accepted {payload : Bytes} (h : token ∈ issuer.Accepted payload) :
    token.toList = issuer.sign payload := by
  obtain ⟨⟨signature, htoken⟩, now, claims, hok⟩ := h
  obtain ⟨p, hp, -⟩ := validate_eq_ok_iff.mp hok
  obtain ⟨rfl, -⟩ := assemble_injective (htoken.symm.trans (parts?_eq_some_iff.mp hp))
  exact parts?_eq_some_iff.mp hp

theorem validate_eq_iff_verdict (issuer : TokenIssuer) :
    (∀ (token : String) (now : Instant) (r : Except TokenError TokenClaims),
      issuer.validate token now = r ↔ issuer.Verdict token.toList now r) ∧
    ∀ payload, (issuer.Accepted payload).Subsingleton := by
  refine ⟨fun token now r => ⟨?_, validate_of_verdict⟩, fun payload t ht u hu => ?_⟩
  · rintro rfl
    exact verdict_validate issuer token now
  · exact String.toList_injective
      ((toList_of_mem_accepted ht).trans (toList_of_mem_accepted hu).symm)

end TokenIssuer

end DocumentPreview
