import DocumentPreview.Proofs.Service.Completed

namespace DocumentPreview

open Entrance (own)

def ServiceCall.Misses (fileId : Uuid) : (c : ServiceCall) → c.Reply → Prop
  | .documents (.download key), .error _ => key = artifactKey fileId
  | _, _ => False

namespace Backend

variable {s : Backend} {o : Outside} {nonce : String} {expiry : Instant} {fileId : Uuid}

theorem takes_answer (c : ServiceCall) :
    c.Takes nonce expiry (s.answer o c).1 ↔ c.Takes nonce expiry (s.guard.answer o c).1 := by
  cases c <;> rfl

theorem Stores.not_misses (h : s.Stores fileId) (c : ServiceCall) :
    ¬ c.Misses fileId (s.answer o c).1 := by
  obtain ⟨object, ho, -⟩ := h
  intro hm
  cases c with
  | documents c =>
    cases c with
    | download key =>
      have served : s.objects.download (artifactKey fileId) = .ok object.bytes := by
        rw [ObjectStore.download, ObjectStore.find, ho]
        rfl
      have reply : (s.answer o (.documents (.download key))).1 = s.objects.download key := rfl
      rw [reply] at hm
      cases hd : s.objects.download key with
      | ok bytes =>
        rw [hd] at hm
        exact hm
      | error cause =>
        rw [hd] at hm
        obtain rfl : key = artifactKey fileId := hm
        cases hd.symm.trans served
    | find | convert | upload => exact hm
  | _ => exact hm

end Backend

namespace Traffic

variable {issuer : TokenIssuer} {s t : Traffic} {k : Nat} {fileId : Uuid}

structure Accounted (s : Traffic) : Prop where
  guard : ∀ n x, (n, x) ∈ s.backend.guard.consumed → ∃ d ∈ s.past, d.Takes n x
  asked : ∀ a e b n x, s.past = a ++ e :: b → e.call = .consume n x →
    e.Takes n x ∨ ∃ d ∈ a, ∃ y, d.Takes n y

theorem accounted_opening (queue : JobQueue) (clock : Instant) (objects : ObjectStore) :
    (opening queue clock objects).Accounted where
  guard _ _ h := absurd h List.not_mem_nil
  asked a _ _ _ _ h := by cases a <;> cases h

theorem Accounted.answered (h : s.Accounted) (i : Nat) (o : Outside) (e : Errand) (c : ServiceCall)
    (next : c.Reply → ServiceProgram e.Outcome) : (s.answered i o e c next).Accounted where
  guard n x hmem := by
    rw [Traffic.answered, Backend.guard_answer, ServiceCall.mem_answer] at hmem
    rcases hmem with ⟨before, -⟩ | takes
    · obtain ⟨d, hd, ht⟩ := h.guard n x before
      exact ⟨d, List.mem_append_left _ hd, ht⟩
    · exact ⟨_, List.mem_append_right _ (.head _), (Backend.takes_answer c).mpr takes⟩
  asked a d b n x hp hc := by
    rcases snoc_eq_append_cons hp with ⟨-, rfl, rfl⟩ | ⟨b, -, hpast⟩
    · obtain rfl : c = .consume n x := hc
      by_cases used : s.backend.guard.contains n
      · obtain ⟨y, hy⟩ := ReplayGuard.contains_iff.mp used
        obtain ⟨d, hd, ht⟩ := h.guard n y hy
        exact .inr ⟨d, hd, y, ht⟩
      · exact .inl ((Backend.takes_answer (o := o) _).mpr (ServiceCall.takes_answer_iff.mpr used))
    · exact h.asked a d b n x hpast hc

theorem Accounted.leads (h : s.Accounted) (hl : s.Leads issuer t) : t.Accounted := by
  cases hl with
  | stay => exact h
  | answered o => exact h.answered _ o _ _ _
  | start | reordered | deposited => exact ⟨h.guard, h.asked⟩

structure Available (issuer : TokenIssuer) (fileId : Uuid) (k : Nat) (s : Traffic) : Prop where
  sound : s.Sound issuer
  stores : s.backend.Stores fileId
  served : ∀ e ∈ s.past, e.strand = k → ¬ e.call.Misses fileId e.reply

theorem Available.leads (h : s.Available issuer fileId k) (hl : s.Leads issuer t) :
    t.Available issuer fileId k where
  sound := h.sound.leads hl
  stores := (h.sound.grows hl).stores _ h.stores
  served d hd := by
    cases hl with
    | stay | start | reordered | deposited => exact h.served d hd
    | @answered i e c next o =>
      rcases List.mem_append.mp hd with hd | hd
      · exact h.served d hd
      · exact List.mem_singleton.mp hd ▸ fun _ => h.stores.not_misses c

def InTime (s : Traffic) (k : Nat) (m : MintedToken) : Prop :=
  ∀ now : Instant, (⟨k, .clock, now⟩ : Event) ∈ s.past → now < m.claims.expiry

def First (s : Traffic) (k : Nat) (m : MintedToken) : Prop :=
  ∀ a e b x, s.past = a ++ e :: b → e.strand = k → e.call = .consume m.claims.nonce x →
    ∀ d ∈ a, ∀ y, ¬ d.Takes m.claims.nonce y

def Opens (s : Traffic) (k : Nat) (fileId : Uuid) (m : MintedToken) : Prop :=
  ∃ rest, s.runners[k]? = some ⟨.visit (.present fileId m.token), rest⟩ ∧
    ((∃ c next, rest = .call c next ∧ (own k s.past).length < 3) ∨
      ∃ bytes, rest = .done (.ok ⟨bytes, previewContentType⟩) ∧
        (⟨k, .documents (.download (artifactKey fileId)), .ok bytes⟩ : Event) ∈ s.past)

theorem Sound.of_issued (h : s.Sound issuer) {i : Nat} {m : MintedToken}
    (hr : s.runners[i]? = some ⟨.issue fileId, .done (.ok m)⟩) :
    s.backend.Stores fileId ∧ ∃ nonce now, issuer.mint? fileId nonce now = some m := by
  obtain ⟨⟨e, he, shows⟩, minted⟩ := h.conducted.follows i _ hr
  exact ⟨(h.confirms e (List.mem_filter.mp he).1).completed _ shows, minted⟩

theorem Accounted.takes_of_first (h : s.Accounted) {m : MintedToken} (hf : s.First k m)
    {x : Instant} {r : Except Redis.Error Bool}
    (he : (⟨k, .consume m.claims.nonce x, r⟩ : Event) ∈ s.past) : r = .ok true := by
  obtain ⟨a, b, hp⟩ := List.append_of_mem he
  rcases h.asked a _ b _ _ hp rfl with takes | ⟨d, hd, y, ht⟩
  · rcases r with _ | _ | _
    · cases takes
    · cases takes
    · rfl
  · exact absurd ht (hf a _ b x hp rfl rfl d hd y)

theorem Available.opens (h : s.Available issuer fileId k) (ha : s.Accounted) {nonce : Uuid}
    {start : Instant} {m : MintedToken} (hmint : issuer.mint? fileId nonce start = some m)
    (he : s.errand? k = some (.visit (.present fileId m.token))) (ht : s.InTime k m)
    (hf : s.First k m) : s.Opens k fileId m := by
  obtain ⟨⟨errand, rest⟩, hr, rfl⟩ := Option.map_eq_some_iff.mp he
  have follows := h.sound.conducted.follows k _ hr
  have mem {e : Event} (hown : e ∈ own k s.past) : e ∈ s.past := (List.mem_filter.mp hown).1
  refine ⟨rest, hr, ?_⟩
  cases rest with
  | call c next => exact .inl ⟨c, next, rfl, follows.1.2⟩
  | abort => exact absurd follows not_presented_none
  | done r =>
    have presented : Presented issuer fileId m.token k (own k s.past) (some r) := follows
    generalize own k s.past = past at mem presented
    cases presented with
    | refused error hn =>
      have early := ht _ (mem (.head _))
      have file := (TokenIssuer.claims_of_mint? hmint).1
      exact absurd ((TokenIssuer.grants_minted_iff hmint).mpr ⟨rfl, early, file⟩) (hn _)
    | used error hg hused =>
      obtain ⟨rfl, -⟩ := (TokenIssuer.grants_minted_iff hmint).mp hg
      exact absurd (ha.takes_of_first hf (mem (.tail _ (.head _)))) hused
    | missing cause hg => exact absurd rfl (h.served _ (mem (.tail _ (.tail _ (.head _)))) rfl)
    | opened bytes hg => exact .inr ⟨bytes, rfl, mem (.tail _ (.tail _ (.head _)))⟩

theorem Sound.available (h : s.Sound issuer) (hs : s.backend.Stores fileId) (e : Errand) :
    (s.step issuer (.start e)).Available issuer fileId s.runners.length where
  sound := h.leads (s.step_leads issuer _)
  stores := hs
  served d hd hk := absurd hk (Nat.ne_of_lt (h.conducted.present d hd))

theorem errand?_start (s : Traffic) (e : Errand) :
    (s.step issuer (.start e)).errand? s.runners.length = some e := by
  simp [step, errand?]

theorem completed_is_rendered (issuer : TokenIssuer) (queue : JobQueue) (clock : Instant)
    (objects : ObjectStore) (ms : List Move) :
    let s := (opening queue clock objects).run issuer ms
    (∀ j ∈ s.store.rows, j.status = .completed → s.backend.Stores j.fileId) ∧
      ∀ (i : Nat) (fileId : Uuid) (m : MintedToken),
        s.runners[i]? = some ⟨.issue fileId, .done (.ok m)⟩ → ∀ ms' : List Move,
          let t := s.run issuer (.start (.visit (.present fileId m.token)) :: ms')
          t.InTime s.runners.length m → t.First s.runners.length m →
            t.Opens s.runners.length fileId m := by
  intro s
  have sound : s.Sound issuer := sound_run queue clock objects ms
  refine ⟨sound.backed.stored, ?_⟩
  intro i fileId m issued ms' t ht hf
  obtain ⟨stores, nonce, start, hmint⟩ := sound.of_issued issued
  have available : t.Available issuer fileId s.runners.length :=
    run_invariant (sound.available stores _) (fun _ _ => Available.leads) ms'
  have accounted : t.Accounted := run_invariant
    (run_invariant (accounted_opening queue clock objects) (fun _ _ => Accounted.leads) ms)
    (fun _ _ => Accounted.leads) (_ :: ms')
  have visits : t.errand? s.runners.length = some (.visit (.present fileId m.token)) :=
    run_invariant (errand?_start s _) (fun _ _ h hl => errand?_leads hl h) ms'
  exact available.opens accounted hmint visits ht hf

theorem step_resume (issuer : TokenIssuer) {i : Nat} {e : Errand} {c : ServiceCall} {o : Outside}
    {next : c.Reply → ServiceProgram e.Outcome} {r : c.Reply}
    (hi : s.runners[i]? = some ⟨e, .call c next⟩) (hu : s.store.Unused o.freshId)
    (hr : (s.backend.answer o c).1 = r) :
    (s.step issuer (.resume i o)).runners[i]? = some ⟨e, next r⟩ ∧
      (s.step issuer (.resume i o)).backend = (s.backend.answer o c).2 ∧
      (s.step issuer (.resume i o)).past = s.past ++ [⟨i, c, r⟩] := by
  subst hr
  simp only [step, hi, if_pos hu]
  exact ⟨runner_answered hi o e c next, rfl, rfl⟩

def visiting (k : Nat) (fileId : Uuid) (token : String) (o : Outside) : List Move :=
  .start (.visit (.present fileId token)) :: List.replicate 3 (.resume k o)

def visitCalls (k : Nat) (fileId : Uuid) (now : Instant) (claims : TokenClaims)
    (r : Except StorageError Bytes) : List Event :=
  [⟨k, .clock, now⟩, ⟨k, .consume claims.nonce claims.expiry, .ok true⟩,
    ⟨k, .documents (.download (artifactKey fileId)), r⟩]

theorem run_visiting {token : String} {o : Outside} {claims : TokenClaims}
    (hg : issuer.Grants fileId token o.time claims) (hu : s.store.Unused o.freshId)
    (hn : ¬ s.backend.guard.contains claims.nonce) :
    let t := s.run issuer (visiting s.runners.length fileId token o)
    let r := s.backend.objects.download (artifactKey fileId)
    t.past = s.past ++ visitCalls s.runners.length fileId o.time claims r ∧
      ∀ bytes, r = .ok bytes → t.runners[s.runners.length]? =
        some ⟨.visit (.present fileId token), .done (.ok ⟨bytes, previewContentType⟩)⟩ := by
  obtain ⟨hv, hf⟩ := hg
  let s₁ := s.step issuer (.start (.visit (.present fileId token)))
  let s₂ := s₁.step issuer (.resume s.runners.length o)
  let s₃ := s₂.step issuer (.resume s.runners.length o)
  have h₁ : s₁.runners[s.runners.length]? =
      some ⟨.visit (.present fileId token), Previews.openPreview issuer fileId token⟩ :=
    List.getElem?_concat_length
  obtain ⟨h₂, b₂, p₂⟩ := step_resume issuer h₁ hu (show (s₁.backend.answer o .clock).1 = o.time from rfl)
  have h₂ : s₂.runners[s.runners.length]? =
      some ⟨.visit (.present fileId token), Previews.redeem fileId claims⟩ := by
    refine h₂.trans ?_
    simp only [hv, if_pos hf]
  have unused₂ : s₂.store.Unused o.freshId := by
    rw [store, show s₂.backend = _ from b₂]
    exact hu
  have taken : (s₂.backend.answer o (.consume claims.nonce claims.expiry)).1 = .ok true := by
    have fresh : ¬ s₂.backend.guard.contains claims.nonce := by
      rw [show s₂.backend = _ from b₂]
      exact hn
    simp only [Backend.answer, ReplayGuard.answer, ReplayGuard.consume, if_neg fresh]
    rfl
  obtain ⟨h₃, b₃, p₃⟩ := step_resume issuer h₂ unused₂ taken
  have unused₃ : s₃.store.Unused o.freshId := by
    rw [store, show s₃.backend = _ from b₃]
    exact unused₂
  have read : (s₃.backend.answer o (.documents (.download (artifactKey fileId)))).1 =
      s.backend.objects.download (artifactKey fileId) := by
    rw [show s₃.backend = _ from b₃, show s₂.backend = _ from b₂]
    rfl
  obtain ⟨h₄, -, p₄⟩ := step_resume issuer h₃ unused₃ read
  refine ⟨?_, fun bytes hb => ?_⟩
  · change (s₃.step issuer (.resume s.runners.length o)).past = _
    rw [p₄, show s₃.past = _ from p₃, show s₂.past = _ from p₂, List.append_assoc, List.append_assoc]
    rfl
  · refine h₄.trans ?_
    rw [hb]
    rfl

theorem past_visiting {token : String} {o : Outside} {claims : TokenClaims}
    (hg : issuer.Grants fileId token o.time claims) (hu : s.store.Unused o.freshId)
    (hn : ¬ s.backend.guard.contains claims.nonce) :
    ∃ r, (s.run issuer (visiting s.runners.length fileId token o)).past =
      s.past ++ visitCalls s.runners.length fileId o.time claims r :=
  ⟨_, (run_visiting hg hu hn).1⟩

variable {m : MintedToken} {now : Instant} {r : Except StorageError Bytes}

theorem Sound.inTime_visiting (h : s.Sound issuer)
    (hp : t.past = s.past ++ visitCalls s.runners.length fileId now m.claims r)
    (hnow : now < m.claims.expiry) : t.InTime s.runners.length m := by
  intro read hread
  rw [hp] at hread
  rcases List.mem_append.mp hread with before | after
  · exact absurd (h.conducted.present _ before) (Nat.lt_irrefl _)
  · rcases after with _ | ⟨_, _ | ⟨_, _ | ⟨_, ⟨⟩⟩⟩⟩
    exact hnow

theorem first_visiting
    (hp : t.past = s.past ++ visitCalls k fileId now m.claims r)
    (hs : ∀ d ∈ s.past, ∀ y, ¬ d.Takes m.claims.nonce y) : t.First k m := by
  intro a e b x hsplit _ hc d hd y ht
  rw [hp, visitCalls, List.append_cons s.past, List.append_cons (s.past ++ [_])] at hsplit
  -- The call is neither the last one nor the first, so before it stands what was there and a clock.
  rcases snoc_eq_append_cons hsplit with ⟨-, -, rfl⟩ | ⟨b, -, hsplit⟩
  · cases hc
  rcases snoc_eq_append_cons hsplit with ⟨-, rfl, -⟩ | ⟨b, -, hsplit⟩
  · rcases List.mem_append.mp hd with before | after
    · exact hs d before y ht
    · obtain rfl := List.mem_singleton.mp after
      cases ht
  rcases snoc_eq_append_cons hsplit with ⟨-, -, rfl⟩ | ⟨b, -, hsplit⟩
  · cases hc
  · exact hs d (hsplit ▸ List.mem_append_left _ hd) y ht

def rendering : List Move :=
  [.deposit "a" [1] "application/msword", .start (.background (.enqueue 3 (.ofNat 1) none)),
    .start (.background (.work ⟨.default, .ofSeconds 120⟩ (.ofNat 2))), .start (.issue (.ofNat 1))] ++
  List.replicate 4 (.resume 0 (.smooth .epoch (.ofNat 2))) ++
  List.replicate 11 (.resume 1 (.smooth .epoch (.ofNat 3))) ++
  List.replicate 4 (.resume 2 (.smooth .epoch (.ofNat 3)))

def rendered : Traffic :=
  (opening ⟨4, [], []⟩ .epoch .empty).run .zeroKey rendering

theorem issued_rendered : ∃ m, TokenIssuer.zeroKey.mint? (.ofNat 1) (.ofNat 3) .epoch = some m ∧
    rendered.runners[2]? = some ⟨.issue (.ofNat 1), .done (.ok m)⟩ :=
  ⟨_, rfl, rfl⟩

def asksNonce : ServiceCall → Bool
  | .consume .. => true
  | _ => false

theorem not_takes_rendered {d : Event} (hd : d ∈ rendered.past) (n : String) (x : Instant) :
    ¬ d.Takes n x := by
  have unasked : rendered.past.any (asksNonce ·.call) = false := by decide +kernel
  intro ht
  have asked : rendered.past.any (asksNonce ·.call) = true :=
    List.any_eq_true.mpr ⟨d, hd, by rw [ht.call_eq]; rfl⟩
  cases asked.symm.trans unasked

theorem completed_is_rendered_once : ∃ (m : MintedToken) (t : Traffic),
    rendered.runners[2]? = some ⟨.issue (.ofNat 1), .done (.ok m)⟩ ∧
      t = rendered.run .zeroKey
        (visiting rendered.runners.length (.ofNat 1) m.token (.smooth .epoch (.ofNat 3))) ∧
      t.InTime rendered.runners.length m ∧ t.First rendered.runners.length m ∧
      t.Opens rendered.runners.length (.ofNat 1) m := by
  obtain ⟨m, hmint, issued⟩ := issued_rendered
  have early : Instant.epoch < m.claims.expiry := by
    obtain ⟨n, hn, expiry⟩ := TokenIssuer.mint?_zeroKey_epoch (.ofNat 1) (.ofNat 3)
    rw [← Option.some.inj (hn.symm.trans hmint), expiry]
    decide
  have grants : TokenIssuer.zeroKey.Grants (.ofNat 1) m.token .epoch m.claims :=
    (TokenIssuer.grants_minted_iff hmint).mpr ⟨rfl, early, (TokenIssuer.claims_of_mint? hmint).1⟩
  have unused : rendered.store.Unused (.ofNat 3) := by decide +kernel
  obtain ⟨r, past⟩ := past_visiting (o := .smooth .epoch (.ofNat 3)) grants unused
    ReplayGuard.not_contains_empty
  have sound : rendered.Sound .zeroKey := sound_run ..
  have inTime := sound.inTime_visiting past early
  have first := first_visiting past fun d hd => not_takes_rendered hd _
  exact ⟨m, _, issued, rfl, inTime, first,
    (completed_is_rendered .zeroKey ⟨4, [], []⟩ .epoch .empty rendering).2 2 _ m issued _ inTime first⟩

end Traffic

end DocumentPreview
