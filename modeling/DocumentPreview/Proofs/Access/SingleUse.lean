import DocumentPreview.Proofs.Access.Visit
import Mathlib.Data.List.Induction

namespace DocumentPreview

abbrev Visits :=
  List (Outside × Visit)

namespace Visits

def guard (issuer : TokenIssuer) (vs : Visits) : ReplayGuard :=
  vs.foldl (fun g e => (e.2.pay issuer e.1 g).2) .empty

theorem guard_snoc (issuer : TokenIssuer) (vs : Visits) (o : Outside) (v : Visit) :
    guard issuer (vs ++ [(o, v)]) = (v.pay issuer o (guard issuer vs)).2 := by
  simp [guard]

def Clocked (vs : Visits) : Prop :=
  vs.Pairwise fun d e => d.1.time ≤ e.1.time

theorem clocked_of_times {vs : Visits} (h : (vs.map (·.1.time)).Pairwise (· ≤ ·)) : Clocked vs :=
  List.pairwise_map.mp h

def Spent (m : MintedToken) (vs : Visits) : Prop :=
  ∃ e ∈ vs, e.2 = .present m.claims.fileId m.token ∧ e.1.time < m.claims.expiry

theorem spent_snoc {m : MintedToken} {vs : Visits} {o : Outside} {v : Visit} :
    Spent m (vs ++ [(o, v)]) ↔
      Spent m vs ∨ v = .present m.claims.fileId m.token ∧ o.time < m.claims.expiry := by
  simp [Spent, or_and_right, exists_or]

structure Accounts (m : MintedToken) (vs : Visits) (g : ReplayGuard) : Prop where
  spent : g.contains m.claims.nonce → Spent m vs
  held : Spent m vs →
    (m.claims.nonce, m.claims.expiry) ∈ g.consumed ∨ ∃ e ∈ vs, m.claims.expiry < e.1.time

variable {issuer : TokenIssuer} {ms : List MintedToken} {m : MintedToken} {vs : Visits}
  {g : ReplayGuard} {o : Outside}

theorem Accounts.start : Accounts m [] .empty where
  spent h := absurd h ReplayGuard.not_contains_empty
  held h := by simp [Spent] at h

theorem Accounts.unchanged (h : Accounts m vs g) {v : Visit}
    (hv : ¬ (v = .present m.claims.fileId m.token ∧ o.time < m.claims.expiry)) {g' : ReplayGuard}
    (hg : ∀ x, (m.claims.nonce, x) ∈ g'.consumed ↔ (m.claims.nonce, x) ∈ g.consumed) :
    Accounts m (vs ++ [(o, v)]) g' where
  spent hc := by
    obtain ⟨x, hx⟩ := ReplayGuard.contains_iff.mp hc
    exact spent_snoc.mpr (.inl (h.spent (ReplayGuard.contains_iff.mpr ⟨x, (hg x).mp hx⟩)))
  held hs := by
    rcases spent_snoc.mp hs with hs | hs
    · rcases h.held hs with hk | ⟨e, he, hlt⟩
      · exact .inl ((hg _).mpr hk)
      · exact .inr ⟨e, List.mem_append_left _ he, hlt⟩
    · exact absurd hs hv

theorem Accounts.purge (h : Accounts m vs g) :
    Accounts m (vs ++ [(o, .purge)]) (g.purge o.time).2 where
  spent hc := by
    obtain ⟨x, hx⟩ := ReplayGuard.contains_iff.mp hc
    have before := (ReplayGuard.mem_purge.mp hx).1
    exact spent_snoc.mpr (.inl (h.spent (ReplayGuard.contains_iff.mpr ⟨x, before⟩)))
  held hs := by
    rcases spent_snoc.mp hs with hs | ⟨hv, -⟩
    · rcases h.held hs with hk | ⟨e, he, hlt⟩
      · by_cases hnow : o.time ≤ m.claims.expiry
        · exact .inl (ReplayGuard.mem_purge.mpr ⟨hk, hnow⟩)
        · exact .inr ⟨(o, .purge), by simp, Instant.not_le.mp hnow⟩
      · exact .inr ⟨e, List.mem_append_left _ he, hlt⟩
    · cases hv

theorem Accounts.spend (h : Accounts m vs g) (hlt : o.time < m.claims.expiry)
    (hclock : ∀ e ∈ vs, e.1.time ≤ o.time) :
    Accounts m (vs ++ [(o, .present m.claims.fileId m.token)])
      (g.consume m.claims.nonce m.claims.expiry).2 where
  spent _ := spent_snoc.mpr (.inr ⟨rfl, hlt⟩)
  held _ := by
    refine .inl (ReplayGuard.mem_consume.mpr ?_)
    by_cases hc : g.contains m.claims.nonce
    · rcases h.held (h.spent hc) with hk | ⟨e, he, hend⟩
      · exact .inl hk
      · have late : m.claims.expiry < o.time := Instant.lt_of_lt_of_le hend (hclock e he)
        exact absurd (Instant.lt_trans hlt late) Instant.lt_irrefl
    · exact .inr ⟨hc, rfl⟩

theorem Accounts.granted (hms : issuer.Issued ms) (hm : m ∈ ms) (h : Accounts m vs g)
    {fileId : Uuid} {token : String} (hv : (Visit.present fileId token).Known issuer ms)
    {claims : TokenClaims} (hg : issuer.Grants fileId token o.time claims)
    (hclock : ∀ e ∈ vs, e.1.time ≤ o.time) :
    Accounts m (vs ++ [(o, .present fileId token)]) (g.consume claims.nonce claims.expiry).2 := by
  obtain ⟨n, hn, rfl, rfl⟩ := hv.minted hms hg
  by_cases hnonce : m.claims.nonce = n.claims.nonce
  · obtain rfl := hms.eq hm hn hnonce
    obtain ⟨-, hlt, rfl⟩ := (hms.grants_iff hm).mp hg
    exact h.spend hlt hclock
  · refine h.unchanged ?_ fun x => by simp [ReplayGuard.mem_consume, hnonce]
    rintro ⟨hp, -⟩
    obtain ⟨rfl, htoken⟩ := Visit.present.inj hp
    rw [htoken] at hg
    exact hnonce (congrArg TokenClaims.nonce ((hms.grants_iff hm).mp hg).1).symm

theorem Accounts.refused (hms : issuer.Issued ms) (hm : m ∈ ms) (h : Accounts m vs g)
    {fileId : Uuid} {token : String} (hg : ∀ claims, ¬ issuer.Grants fileId token o.time claims) :
    Accounts m (vs ++ [(o, .present fileId token)]) g := by
  refine h.unchanged ?_ fun x => Iff.rfl
  rintro ⟨hp, hlt⟩
  obtain ⟨rfl, rfl⟩ := Visit.present.inj hp
  exact hg m.claims ((hms.grants_iff hm).mpr ⟨rfl, hlt, rfl⟩)

theorem Accounts.step (hms : issuer.Issued ms) (hm : m ∈ ms) (h : Accounts m vs g) {v : Visit}
    (hv : v.Known issuer ms) (hclock : ∀ e ∈ vs, e.1.time ≤ o.time) :
    Accounts m (vs ++ [(o, v)]) (v.pay issuer o g).2 := by
  cases v with
  | purge =>
    rw [Visit.pay_purge]
    exact h.purge
  | present fileId token =>
    by_cases hg : ∃ claims, issuer.Grants fileId token o.time claims
    · obtain ⟨claims, hg⟩ := hg
      rw [(Visit.pay_granted hg).1]
      exact h.granted hms hm hv hg hclock
    · have hg : ∀ claims, ¬ issuer.Grants fileId token o.time claims := not_exists.mp hg
      rw [(Visit.pay_refused hg).1]
      exact h.refused hms hm hg

theorem accounts_guard (hms : issuer.Issued ms) (hm : m ∈ ms) (hclock : Clocked vs)
    (hknown : ∀ e ∈ vs, e.2.Known issuer ms) : Accounts m vs (guard issuer vs) := by
  induction vs using List.reverseRecOn with
  | nil => exact .start
  | append_singleton vs e ih =>
    obtain ⟨hvs, -, hlast⟩ := List.pairwise_append.mp hclock
    rw [guard_snoc]
    refine (ih hvs fun d hd => hknown d (List.mem_append_left _ hd)).step hms hm
      (hknown e (by simp)) fun d hd => hlast d hd e (by simp)

theorem admitted_iff_first_presentation (hms : issuer.Issued ms) {file nonce : Uuid} {t : Instant}
    (hmint : issuer.mint? file nonce t = some m) (hm : m ∈ ms)
    (hknown : ∀ e ∈ vs, e.2.Known issuer ms) {fileId : Uuid}
    (hclock : Clocked (vs ++ [(o, .present fileId m.token)])) :
    Visit.Admitted ((Visit.present fileId m.token).pay issuer o (guard issuer vs)).1 ↔
      fileId = file ∧ o.time < m.claims.expiry ∧ ∀ e ∈ vs, e.2 ≠ .present file m.token := by
  obtain ⟨hvs, -, hlast⟩ := List.pairwise_append.mp hclock
  have accounts := accounts_guard hms hm hvs hknown
  have earlier (e) (he : e ∈ vs) : e.1.time ≤ o.time := hlast e he _ (List.mem_singleton_self _)
  have ended {e} (he : e ∈ vs) (hend : m.claims.expiry < e.1.time) : ¬ o.time < m.claims.expiry :=
    fun hlt => Instant.lt_irrefl (Instant.lt_trans hlt (Instant.lt_of_lt_of_le hend (earlier e he)))
  obtain ⟨rfl, -⟩ := TokenIssuer.claims_of_mint? hmint
  by_cases hg : o.time < m.claims.expiry ∧ m.claims.fileId = fileId
  · obtain ⟨hlt, rfl⟩ := hg
    rw [(Visit.pay_granted ((TokenIssuer.grants_minted_iff hmint).mpr ⟨rfl, hlt, rfl⟩)).2]
    constructor
    · intro hnot
      refine ⟨rfl, hlt, fun e he hp => hnot ?_⟩
      have spent : Spent m vs := ⟨e, he, hp, Instant.lt_of_le_of_lt (earlier e he) hlt⟩
      rcases accounts.held spent with hk | ⟨d, hd, hend⟩
      · exact ReplayGuard.contains_iff.mpr ⟨_, hk⟩
      · exact absurd hlt (ended hd hend)
    · rintro ⟨-, -, hfirst⟩ hc
      obtain ⟨e, he, hp, -⟩ := accounts.spent hc
      exact hfirst e he hp
  · refine iff_of_false (Visit.pay_refused fun claims hgrant => hg ?_).2 ?_
    · exact ((TokenIssuer.grants_minted_iff hmint).mp hgrant).2
    · rintro ⟨rfl, hlt, -⟩
      exact hg ⟨hlt, rfl⟩

def after (seconds : Nat) : Outside :=
  .reading (.ofSecond seconds)

theorem admitted_first_not_second : ∃ m n,
    TokenIssuer.zeroKey.mint? (.ofNat 1) (.ofNat 3) .epoch = some m ∧
    TokenIssuer.zeroKey.mint? (.ofNat 2) (.ofNat 4) .epoch = some n ∧
    let vs : Visits := [(after 1, .present (.ofNat 2) m.token), (after 2, .present (.ofNat 1) "AA.AA"),
      (after 3, .purge), (after 4, .present (.ofNat 2) n.token)]
    let turn : Visit := .present (.ofNat 1) m.token
    Visit.Admitted (turn.pay .zeroKey (after 5) (guard .zeroKey vs)).1 ∧
      ¬ Visit.Admitted
        (turn.pay .zeroKey (after 6) (guard .zeroKey (vs ++ [(after 5, turn)]))).1 := by
  let issuer := TokenIssuer.zeroKey
  obtain ⟨m, hm, hx⟩ := TokenIssuer.mint?_zeroKey_epoch (.ofNat 1) (.ofNat 3)
  obtain ⟨n, hn, -⟩ := TokenIssuer.mint?_zeroKey_epoch (.ofNat 2) (.ofNat 4)
  have signed : issuer.Signed m.token := TokenIssuer.signed_of_mint? hm
  have unsigned : ¬ issuer.Signed "AA.AA" := issuer.not_signed_short
  have issued : issuer.Issued [m, n] := .pair hm hn (by decide +kernel)
  have lives : (after 5).time < m.claims.expiry := by
    rw [hx]
    decide
  have known_m {f} : (Visit.present f m.token).Known issuer [m, n] := .inl (by simp)
  have known_n {f} : (Visit.present f n.token).Known issuer [m, n] := .inl (by simp)
  have known_x {f} : (Visit.present f "AA.AA").Known issuer [m, n] := .inr unsigned
  have times : ([1, 2, 3, 4, 5, 6].map fun k => (after k).time).Pairwise (· ≤ ·) := by decide
  refine ⟨m, n, hm, hn, ?_, ?_⟩
  · refine (admitted_iff_first_presentation issued hm (.head _) ?_ ?_).mpr ⟨rfl, lives, ?_⟩
    · simp only [List.mem_cons, List.not_mem_nil, or_false, forall_eq_or_imp, forall_eq]
      exact ⟨known_m, known_x, trivial, known_n⟩
    · exact clocked_of_times (times.sublist (List.sublist_append_left [_, _, _, _, _] [_]))
    · simp only [List.mem_cons, List.not_mem_nil, or_false, forall_eq_or_imp, forall_eq]
      have files : Uuid.ofNat 2 ≠ .ofNat 1 := by decide
      refine ⟨?_, ?_, ?_, ?_⟩
      · exact fun h => files (Visit.present.inj h).1
      · exact fun h => unsigned ((Visit.present.inj h).2 ▸ signed)
      · exact fun h => nomatch h
      · exact fun h => files (Visit.present.inj h).1
  · intro h
    refine ((admitted_iff_first_presentation issued hm (.head _) ?_ ?_).mp h).2.2 (after 5, _)
      (by simp) rfl
    · simp only [List.cons_append, List.nil_append, List.mem_cons, List.not_mem_nil, or_false,
        forall_eq_or_imp, forall_eq]
      exact ⟨known_m, known_x, trivial, known_n, known_m⟩
    · exact clocked_of_times times

end Visits

end DocumentPreview
