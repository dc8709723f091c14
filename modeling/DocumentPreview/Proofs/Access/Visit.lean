import DocumentPreview.Pipeline.Sweep
import DocumentPreview.Proofs.Service.Shared
import DocumentPreview.Proofs.Token.Issuer
import DocumentPreview.Replay.Guard

namespace DocumentPreview

def Instant.ofSecond (n : Nat) : Instant :=
  (Instant.ofUnixSeconds? n).getD .epoch

def Outside.reading (t : Instant) : Outside :=
  .slow t (.ofNat 0)

namespace ReplayGuard

variable {g : ReplayGuard} {nonce : String} {expiry now : Instant} {e : String × Instant}

theorem contains_iff : g.contains nonce ↔ ∃ x, (nonce, x) ∈ g.consumed := by
  simp only [contains, List.any_eq_true, decide_eq_true_eq]
  constructor
  · rintro ⟨⟨n, x⟩, hmem, rfl⟩
    exact ⟨x, hmem⟩
  · rintro ⟨x, hmem⟩
    exact ⟨(nonce, x), hmem, rfl⟩

theorem not_contains_empty : ¬ empty.contains nonce := by
  simp [empty, contains]

theorem mem_consume : e ∈ (g.consume nonce expiry).2.consumed ↔
    e ∈ g.consumed ∨ ¬ g.contains nonce ∧ e = (nonce, expiry) := by
  by_cases h : g.contains nonce
  · simp [consume, h]
  · simp [consume, h, or_comm]

theorem mem_purge : e ∈ (g.purge now).2.consumed ↔ e ∈ g.consumed ∧ now ≤ e.2 := by
  simp [purge]

def answer (g : ReplayGuard) (o : Outside) : (c : ServiceCall) → c.Reply × ReplayGuard
  | .clock => (o.time, g)
  | .consume nonce expiry => (.ok (g.consume nonce expiry).1, (g.consume nonce expiry).2)
  | .purge now => (.ok (g.purge now).1, (g.purge now).2)
  | c => (o.reply c, g)

theorem answer_clock {o : Outside} : g.answer o .clock = (o.time, g) :=
  rfl

end ReplayGuard

namespace TokenIssuer

def Grants (issuer : TokenIssuer) (fileId : Uuid) (token : String) (now : Instant)
    (claims : TokenClaims) : Prop :=
  issuer.validate token now = .ok claims ∧ claims.fileId = fileId

variable {issuer : TokenIssuer} {fileId nonce : Uuid} {now t : Instant} {claims : TokenClaims}

theorem grants_minted_iff {m : MintedToken} {f : Uuid} (h : issuer.mint? f nonce now = some m) :
    issuer.Grants fileId m.token t claims ↔
      claims = m.claims ∧ t < m.claims.expiry ∧ m.claims.fileId = fileId := by
  rw [Grants, validate_minted_eq_ok_iff h]
  constructor
  · rintro ⟨⟨rfl, hlt⟩, hf⟩
    exact ⟨rfl, hlt, hf⟩
  · rintro ⟨rfl, hlt, hf⟩
    exact ⟨⟨rfl, hlt⟩, hf⟩

structure Issued (issuer : TokenIssuer) (ms : List MintedToken) : Prop where
  minted : ∀ m ∈ ms, ∃ fileId nonce now, issuer.mint? fileId nonce now = some m
  distinct : (ms.map (·.claims.nonce)).Nodup

namespace Issued

variable {ms : List MintedToken} {m n : MintedToken}

theorem eq (h : issuer.Issued ms) (hm : m ∈ ms) (hn : n ∈ ms)
    (he : m.claims.nonce = n.claims.nonce) : m = n :=
  List.inj_on_of_nodup_map h.distinct hm hn he

theorem grants_iff (h : issuer.Issued ms) (hm : m ∈ ms) :
    issuer.Grants fileId m.token t claims ↔
      claims = m.claims ∧ t < m.claims.expiry ∧ m.claims.fileId = fileId := by
  obtain ⟨f, nonce, now, hmint⟩ := h.minted m hm
  exact grants_minted_iff hmint

theorem pair {f f' nonce nonce' : Uuid} {now now' : Instant}
    (hm : issuer.mint? f nonce now = some m) (hn : issuer.mint? f' nonce' now' = some n)
    (hne : nonce.simple ≠ nonce'.simple) : issuer.Issued [m, n] where
  minted k hk := by
    rcases List.mem_pair.mp hk with rfl | rfl
    · exact ⟨_, _, _, hm⟩
    · exact ⟨_, _, _, hn⟩
  distinct := by
    rw [← (claims_of_mint? hm).2, ← (claims_of_mint? hn).2] at hne
    simpa using hne

end Issued

def zeroKey : TokenIssuer :=
  ⟨List.replicate 32 0, by decide⟩

theorem mint?_zeroKey_epoch (fileId nonce : Uuid) :
    ∃ m, zeroKey.mint? fileId nonce .epoch = some m ∧ m.claims.expiry = .ofSecond 900 := by
  obtain ⟨m, hm⟩ : ∃ m, zeroKey.mint? fileId nonce .epoch = some m := ⟨_, rfl⟩
  have ends : m.claims.expiry.nanos = (Instant.ofSecond 900).nanos := expiry_of_mint? hm
  exact ⟨m, hm, Instant.le_antisymm (Int.le_of_eq ends) (Int.le_of_eq ends.symm)⟩

theorem not_signed_short (issuer : TokenIssuer) : ¬ issuer.Signed "AA.AA" := by
  rintro ⟨payload, hp⟩
  have parts : parts? "AA.AA".toList = some ([0], [0]) := by decide
  have length := Hmac.sign_length issuer.key payload
  rw [← (Prod.mk.inj (Option.some.inj (parts.symm.trans hp))).2] at length
  cases length

end TokenIssuer

inductive Visit where
  | present (fileId : Uuid) (token : String)
  | purge
  deriving DecidableEq

namespace Visit

def Outcome : Visit → Type
  | present .. => Except AccessDenied StoredObject
  | purge => Except Redis.Error Nat

def program (issuer : TokenIssuer) : (v : Visit) → ServiceProgram v.Outcome
  | present fileId token => Previews.openPreview issuer fileId token
  | purge => purgeNonces

def pay (issuer : TokenIssuer) (v : Visit) (o : Outside) (g : ReplayGuard) :
    Option v.Outcome × ReplayGuard :=
  (v.program issuer).run (fun c g => g.answer o c) g

def Admitted : Option (Except AccessDenied StoredObject) → Prop
  | some (.ok _) => True
  | some (.error (.artifact _)) => True
  | _ => False

variable {issuer : TokenIssuer} {fileId : Uuid} {token : String} {o : Outside} {g : ReplayGuard}

theorem pay_purge : (purge.pay issuer o g).2 = (g.purge o.time).2 :=
  rfl

theorem admitted_fetch {file : Uuid} :
    Admitted ((Previews.fetch file).run (fun c g => g.answer o c) g).1 := by
  cases h : o.reply (.documents (.download (artifactKey file))) <;>
    simp [Previews.fetch, Program.run, ReplayGuard.answer, h, Admitted]

theorem snd_fetch {file : Uuid} :
    ((Previews.fetch file).run (fun c g => g.answer o c) g).2 = g := by
  cases h : o.reply (.documents (.download (artifactKey file))) <;>
    simp [Previews.fetch, Program.run, ReplayGuard.answer, h]

theorem pay_granted {claims : TokenClaims} (h : issuer.Grants fileId token o.time claims) :
    ((present fileId token).pay issuer o g).2 = (g.consume claims.nonce claims.expiry).2 ∧
      (Admitted ((present fileId token).pay issuer o g).1 ↔ ¬ g.contains claims.nonce) := by
  obtain ⟨hv, rfl⟩ := h
  have redeemed : (present claims.fileId token).pay issuer o g =
      (Previews.redeem claims.fileId claims).run (fun c g => g.answer o c) g := by
    simp only [pay, program, Previews.openPreview, Program.run, ReplayGuard.answer_clock, hv,
      if_true]
    rfl
  rw [redeemed]
  by_cases hc : g.contains claims.nonce
  · simp [Previews.redeem, Program.run, ReplayGuard.answer, ReplayGuard.consume, hc, Admitted]
  · simp only [Previews.redeem, Program.run, ReplayGuard.answer, ReplayGuard.consume, hc]
    exact ⟨snd_fetch, iff_of_true admitted_fetch Bool.false_ne_true⟩

theorem pay_refused (h : ∀ claims, ¬ issuer.Grants fileId token o.time claims) :
    ((present fileId token).pay issuer o g).2 = g ∧
      ¬ Admitted ((present fileId token).pay issuer o g).1 := by
  simp only [pay, program, Previews.openPreview, Program.run, ReplayGuard.answer]
  cases hv : issuer.validate token o.time with
  | error e => exact ⟨rfl, id⟩
  | ok claims =>
    have hf : claims.fileId ≠ fileId := fun hf => h claims ⟨hv, hf⟩
    simp only [if_neg hf]
    exact ⟨rfl, id⟩

def Known (issuer : TokenIssuer) (ms : List MintedToken) : Visit → Prop
  | present _ token => token ∈ ms.map (·.token) ∨ ¬ issuer.Signed token
  | purge => True

theorem Known.minted {ms : List MintedToken} (hms : issuer.Issued ms)
    (h : (present fileId token).Known issuer ms) {now : Instant} {claims : TokenClaims}
    (hg : issuer.Grants fileId token now claims) :
    ∃ m ∈ ms, token = m.token ∧ claims = m.claims := by
  rcases h with h | h
  · obtain ⟨m, hm, rfl⟩ := List.mem_map.mp h
    exact ⟨m, hm, rfl, ((hms.grants_iff hm).mp hg).1⟩
  · exact absurd (TokenIssuer.signed_of_validate hg.1) h

end Visit

end DocumentPreview
