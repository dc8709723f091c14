import DocumentPreview.Proofs.Access.NonceStore

namespace DocumentPreview

structure Alike (server : Redis.Server) (ms : List MintedToken) (now : Instant)
    (g : ReplayGuard.nonceStore.State) (s : server.State) : Prop where
  dated : ∀ m ∈ ms, ∀ x, (m.claims.nonce, x) ∈ g.consumed → x = m.claims.expiry
  same : ∀ m ∈ ms, ∀ t, now ≤ t → t < m.claims.expiry →
    (g.contains m.claims.nonce ↔ server.Holds s t (Redis.keyStart ++ m.claims.nonce))

namespace Alike

variable {server : Redis.Server} {issuer : TokenIssuer} {ms : List MintedToken} {m n : MintedToken}
  {now t : Instant} {g : ReplayGuard.nonceStore.State} {s : server.State}

theorem start : Alike server ms now .empty server.start where
  dated _ _ _ hx := absurd hx List.not_mem_nil
  same _ _ _ _ _ := iff_of_false ReplayGuard.not_contains_empty (server.not_holds_start _ _)

theorem later (h : Alike server ms now g s) (ht : now ≤ t) : Alike server ms t g s where
  dated := h.dated
  same m hm _ hu := h.same m hm _ (Instant.le_trans ht hu)

theorem purge (h : Alike server ms now g s) (ht : now ≤ t) :
    Alike server ms t (g.purge t).2 s where
  dated m hm x hx := h.dated m hm x (ReplayGuard.mem_purge.mp hx).1
  same m hm u htu hu := by
    rw [← h.same m hm u (Instant.le_trans ht htu) hu, ReplayGuard.contains_iff,
      ReplayGuard.contains_iff]
    refine exists_congr fun x => ReplayGuard.mem_purge.trans (and_iff_left_of_imp fun hx => ?_)
    -- What is kept with the nonce is the end of the token, and that has not come at the purge.
    rw [h.dated m hm x hx]
    exact Int.le_of_lt (Instant.lt_of_le_of_lt htu hu)

theorem consume_used (h : Alike server ms now g s) (hm : m ∈ ms) (ht : now ≤ t)
    (hlt : t < m.claims.expiry) (hc : g.contains m.claims.nonce) :
    .ok (g.consume m.claims.nonce m.claims.expiry).1 =
        (server.nonceStore.consume s t m.claims.nonce m.claims.expiry).1 ∧
      Alike server ms t (g.consume m.claims.nonce m.claims.expiry).2
        (server.nonceStore.consume s t m.claims.nonce m.claims.expiry).2 := by
  have used : g.consume m.claims.nonce m.claims.expiry = (false, g) := if_pos hc
  obtain ⟨reply, holds⟩ := server.refuses (Redis.one_le_forgetAt m.claims.expiry)
    (Redis.forgetAt_le_lastSecond _) ((h.same m hm t ht hlt).mp hc)
  rw [used]
  refine ⟨congrArg Redis.consumed reply.symm, (h.later ht).dated, fun n hn u htu hu => ?_⟩
  exact (h.same n hn u (Instant.le_trans ht htu) hu).trans (holds u _ htu).symm

theorem consume_fresh (h : Alike server ms now g s) (hms : issuer.Issued ms) (hm : m ∈ ms)
    (ht : now ≤ t) (hlt : t < m.claims.expiry) (hc : ¬ g.contains m.claims.nonce) :
    .ok (g.consume m.claims.nonce m.claims.expiry).1 =
        (server.nonceStore.consume s t m.claims.nonce m.claims.expiry).1 ∧
      Alike server ms t (g.consume m.claims.nonce m.claims.expiry).2
        (server.nonceStore.consume s t m.claims.nonce m.claims.expiry).2 := by
  have fresh : (g.consume m.claims.nonce m.claims.expiry).1 = true := by
    rw [ReplayGuard.consume, if_neg hc]
  obtain ⟨reply, kept, others⟩ := server.sets (Redis.one_le_forgetAt m.claims.expiry)
    (Redis.forgetAt_le_lastSecond _) fun held => hc ((h.same m hm t ht hlt).mpr held)
  rw [fresh]
  refine ⟨congrArg Redis.consumed reply.symm, fun n hn x hx => ?_, fun n hn u htu hu => ?_⟩
  · rcases ReplayGuard.mem_consume.mp hx with hx | ⟨-, hx⟩
    · exact h.dated n hn x hx
    · obtain ⟨hnonce, rfl⟩ := Prod.mk.inj hx
      rw [hms.eq hn hm hnonce]
  · rw [ReplayGuard.contains_iff]
    by_cases hnm : n = m
    · subst hnm
      refine iff_of_true ⟨_, ReplayGuard.mem_consume.mpr (.inr ⟨hc, rfl⟩)⟩ ?_
      exact kept u htu (Redis.before_forgetAt (Int.le_of_lt hu))
    · have nonces : n.claims.nonce ≠ m.claims.nonce := fun he => hnm (hms.eq hn hm he)
      have keys : Redis.keyStart ++ n.claims.nonce ≠ Redis.keyStart ++ m.claims.nonce := fun he =>
        nonces ((String.append_right_inj _).mp he)
      refine Iff.trans ?_ (others u _ htu keys).symm
      rw [← h.same n hn u (Instant.le_trans ht htu) hu, ReplayGuard.contains_iff]
      simp [ReplayGuard.mem_consume, nonces]

theorem present (h : Alike server ms now g s) (hms : issuer.Issued ms) {o : Outside}
    (ho : now ≤ o.time) {fileId : Uuid} {token : String}
    (hv : (Visit.present fileId token).Known issuer ms) :
    let p := Previews.openPreview issuer fileId token
    (p.run (ReplayGuard.nonceStore.answer o) g).1 = (p.run (server.nonceStore.answer o) s).1 ∧
      Alike server ms o.time (p.run (ReplayGuard.nonceStore.answer o) g).2
        (p.run (server.nonceStore.answer o) s).2 := by
  refine NonceStore.openPreview_related (h.later ho) fun claims hg => ?_
  obtain ⟨m, hm, rfl, rfl⟩ := hv.minted hms hg
  have lives : o.time < m.claims.expiry := ((hms.grants_iff hm).mp hg).2.1
  by_cases hc : ReplayGuard.contains g m.claims.nonce
  · exact h.consume_used hm ho lives hc
  · exact h.consume_fresh hms hm ho lives hc

theorem outcomes (h : Alike server ms now g s) (hms : issuer.Issued ms) {vs : Visits}
    (hknown : ∀ e ∈ vs, e.2.Known issuer ms) (hfrom : ∀ e ∈ vs, now ≤ e.1.time)
    (hclock : Visits.Clocked vs) :
    ReplayGuard.nonceStore.outcomes issuer g vs = server.nonceStore.outcomes issuer s vs := by
  induction vs generalizing now g s with
  | nil => rfl
  | cons e vs ih =>
    obtain ⟨o, v⟩ := e
    obtain ⟨hfirst, hrest⟩ := List.pairwise_cons.mp hclock
    have ho := hfrom _ (.head _)
    have known := fun e he => hknown e (.tail _ he)
    cases v with
    | purge => exact ih (h.purge ho) known hfirst hrest
    | present fileId token =>
      obtain ⟨same, alike⟩ := h.present hms ho (hknown _ (.head _))
      exact List.cons_eq_cons.mpr ⟨same, ih alike known hfirst hrest⟩

end Alike

theorem replay_stores_agree (server : Redis.Server) {issuer : TokenIssuer} {ms : List MintedToken}
    {vs : Visits} (hms : issuer.Issued ms) (hknown : ∀ e ∈ vs, e.2.Known issuer ms)
    (hclock : Visits.Clocked vs) :
    ReplayGuard.nonceStore.outcomes issuer .empty vs =
        server.nonceStore.outcomes issuer server.start vs ∧
      ∀ token t claims, issuer.validate token t = .ok claims → ∃ second,
        Redis.consumeCommand claims.nonce claims.expiry =
            Redis.setCommand (Redis.keyStart ++ claims.nonce) second ∧
          1 ≤ second ∧ second ≤ Redis.lastSecond ∧ t.Before second := by
  have first : Alike server ms .least .empty server.start := .start
  refine ⟨first.outcomes hms hknown (fun e _ => e.1.time.least_le) hclock, ?_⟩
  intro token t claims hvalid
  obtain ⟨-, -, -, lives⟩ := TokenIssuer.validate_eq_ok_iff.mp hvalid
  exact ⟨Redis.forgetAt claims.expiry, rfl, Redis.one_le_forgetAt _,
    Redis.forgetAt_le_lastSecond _, Redis.before_forgetAt (Int.le_of_lt lives)⟩

theorem replay_stores_agree_from_least : ∃ m n,
    TokenIssuer.zeroKey.mint? (.ofNat 1) (.ofNat 3) .least = some m ∧
    TokenIssuer.zeroKey.mint? (.ofNat 2) (.ofNat 4) .epoch = some n ∧
    let server := Redis.KeyTable.server
    let vs : Visits := [(.reading .least, .present (.ofNat 2) m.token),
      (.reading .least, .present (.ofNat 1) m.token), (.reading .least, .purge),
      (.reading .least, .present (.ofNat 1) m.token), (Visits.after 1, .purge),
      (Visits.after 2, .present (.ofNat 1) m.token), (Visits.after 3, .present (.ofNat 2) n.token),
      (Visits.after 4, .present (.ofNat 2) "AA.AA"), (Visits.after 5, .purge),
      (Visits.after 6, .present (.ofNat 2) n.token)]
    ReplayGuard.nonceStore.outcomes .zeroKey .empty vs =
        server.nonceStore.outcomes .zeroKey server.start vs ∧
      ∃ second, Redis.consumeCommand m.claims.nonce m.claims.expiry =
          Redis.setCommand (Redis.keyStart ++ m.claims.nonce) second ∧
        1 ≤ second ∧ second ≤ Redis.lastSecond ∧ Instant.least.Before second := by
  let issuer := TokenIssuer.zeroKey
  obtain ⟨m, hm⟩ : ∃ m, issuer.mint? (.ofNat 1) (.ofNat 3) .least = some m := ⟨_, rfl⟩
  obtain ⟨n, hn, -⟩ := TokenIssuer.mint?_zeroKey_epoch (.ofNat 2) (.ofNat 4)
  have issued : issuer.Issued [m, n] := .pair hm hn (by decide +kernel)
  have lives : Instant.least < m.claims.expiry := by
    have ends := TokenIssuer.expiry_of_mint? hm
    change Instant.least.nanos < m.claims.expiry.nanos
    rw [ends]
    decide
  have known_m {f} : (Visit.present f m.token).Known issuer [m, n] := .inl (by simp)
  have known_n {f} : (Visit.present f n.token).Known issuer [m, n] := .inl (by simp)
  have known_x {f} : (Visit.present f "AA.AA").Known issuer [m, n] := .inr issuer.not_signed_short
  have times : ([Instant.least, .least, .least, .least] ++
      [1, 2, 3, 4, 5, 6].map fun k => (Visits.after k).time).Pairwise (· ≤ ·) := by decide
  have valid := (TokenIssuer.validate_minted_eq_ok_iff hm).mpr ⟨rfl, lives⟩
  refine ⟨m, n, hm, hn, (replay_stores_agree Redis.KeyTable.server issued ?_ ?_).imp_right
    fun sent => sent _ _ _ valid⟩
  · simp only [List.mem_cons, List.not_mem_nil, or_false, forall_eq_or_imp, forall_eq]
    exact ⟨known_m, known_m, trivial, known_m, trivial, known_m, known_n, known_x, trivial, known_n⟩
  · exact Visits.clocked_of_times times

end DocumentPreview
