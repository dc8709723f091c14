import DocumentPreview.Proofs.Access.Visit
import DocumentPreview.Proofs.Service.Interleaving

namespace DocumentPreview

open Program

structure Visitor where
  visit : Visit
  rest : ServiceProgram visit.Outcome

structure Entrance where
  guard : ReplayGuard
  clock : Instant
  visitors : List Visitor
  past : List Event

namespace Entrance

inductive Move where
  | arrive (v : Visit)
  | resume (i : Nat) (o : Outside)

def opening (clock : Instant) : Entrance :=
  ⟨.empty, clock, [], []⟩

def answered (s : Entrance) (i : Nat) (o : Outside) (v : Visit) (c : ServiceCall)
    (next : c.Reply → ServiceProgram v.Outcome) : Entrance where
  guard := (s.guard.answer o c).2
  clock := o.time
  visitors := s.visitors.set i ⟨v, next (s.guard.answer o c).1⟩
  past := s.past ++ [⟨i, c, (s.guard.answer o c).1⟩]

def step (issuer : TokenIssuer) (s : Entrance) : Move → Entrance
  | .arrive v => { s with visitors := s.visitors ++ [⟨v, v.program issuer⟩] }
  | .resume i o =>
    match s.visitors[i]? with
    | some ⟨v, .call c next⟩ => if s.clock ≤ o.time then s.answered i o v c next else s
    | _ => s

def run (issuer : TokenIssuer) (s : Entrance) (ms : List Move) : Entrance :=
  ms.foldl (step issuer) s

inductive Leads (issuer : TokenIssuer) (s : Entrance) : Entrance → Prop
  | stay : Leads issuer s s
  | arrive (v : Visit) :
      Leads issuer s { s with visitors := s.visitors ++ [⟨v, v.program issuer⟩] }
  | answered {i : Nat} {v : Visit} {c : ServiceCall} {next : c.Reply → ServiceProgram v.Outcome}
      (o : Outside) : s.visitors[i]? = some ⟨v, .call c next⟩ →
        Leads issuer s (s.answered i o v c next)

theorem step_leads (issuer : TokenIssuer) (s : Entrance) (m : Move) :
    s.Leads issuer (s.step issuer m) := by
  cases m with
  | arrive v => exact .arrive v
  | resume i o =>
    simp only [step]
    split
    · split
      · exact .answered o ‹_›
      · exact .stay
    · exact .stay

theorem run_invariant {issuer : TokenIssuer} {P : Entrance → Prop} {s : Entrance} (h0 : P s)
    (hs : ∀ s t, P s → s.Leads issuer t → P t) (ms : List Move) : P (s.run issuer ms) := by
  induction ms generalizing s with
  | nil => exact h0
  | cons m ms ih => exact ih (hs s _ h0 (s.step_leads issuer m))

end Entrance

namespace ServiceCall

def Takes (nonce : String) (expiry : Instant) : (c : ServiceCall) → c.Reply → Prop
  | .consume n x, .ok true => n = nonce ∧ x = expiry
  | _, _ => False

def Forgets (expiry : Instant) : ServiceCall → Prop
  | .purge now => expiry < now
  | _ => False

theorem mem_answer {g : ReplayGuard} {o : Outside} (c : ServiceCall) {nonce : String}
    {expiry : Instant} :
    (nonce, expiry) ∈ (g.answer o c).2.consumed ↔
      (nonce, expiry) ∈ g.consumed ∧ ¬ c.Forgets expiry ∨ c.Takes nonce expiry (g.answer o c).1 := by
  cases c with
  | consume n x =>
    rw [show (g.answer o (.consume n x)).2 = (g.consume n x).2 from rfl, ReplayGuard.mem_consume]
    by_cases h : g.contains n
    · simp [Takes, Forgets, ReplayGuard.answer, ReplayGuard.consume, h]
    · simp [Takes, Forgets, ReplayGuard.answer, ReplayGuard.consume, h, eq_comm]
  | purge now =>
    rw [show (g.answer o (.purge now)).2 = (g.purge now).2 from rfl, ReplayGuard.mem_purge]
    simp [Takes, Forgets, ← Instant.not_le]
  | _ => simp [ReplayGuard.answer, Takes, Forgets]

theorem takes_answer_iff {g : ReplayGuard} {o : Outside} {nonce : String} {expiry : Instant} :
    (consume nonce expiry).Takes nonce expiry (g.answer o (.consume nonce expiry)).1 ↔
      ¬ g.contains nonce := by
  by_cases h : g.contains nonce <;> simp [Takes, ReplayGuard.answer, ReplayGuard.consume, h]

end ServiceCall

namespace Event

def Takes (e : Event) (nonce : String) (expiry : Instant) : Prop :=
  e.call.Takes nonce expiry e.reply

theorem Takes.call_eq {e : Event} {nonce : String} {expiry : Instant} (h : e.Takes nonce expiry) :
    e.call = .consume nonce expiry := by
  obtain ⟨i, c, r⟩ := e
  cases c with
  | consume n x =>
    rcases r with _ | _ | _
    · cases h
    · cases h
    · exact congr (congrArg _ h.1) h.2
  | _ => cases h

end Event

def Held (nonce : String) (expiry : Instant) (past : List Event) : Prop :=
  ∃ a e b, past = a ++ e :: b ∧ e.Takes nonce expiry ∧ ∀ q ∈ b, ¬ q.call.Forgets expiry

theorem held_snoc {nonce : String} {expiry : Instant} {past : List Event} {e : Event} :
    Held nonce expiry (past ++ [e]) ↔
      Held nonce expiry past ∧ ¬ e.call.Forgets expiry ∨ e.Takes nonce expiry := by
  constructor
  · rintro ⟨a, d, b, h, ht, hb⟩
    rcases snoc_eq_append_cons h with ⟨-, -, rfl⟩ | ⟨b, rfl, rfl⟩
    · exact .inr ht
    · exact .inl ⟨⟨a, d, b, rfl, ht, fun q hq => hb q (by simp [hq])⟩, hb e (by simp)⟩
  · rintro (⟨⟨a, d, b, rfl, ht, hb⟩, he⟩ | he)
    · refine ⟨a, d, b ++ [e], by simp, ht, fun q hq => ?_⟩
      rcases List.mem_append.mp hq with hq | hq
      · exact hb q hq
      · exact List.mem_singleton.mp hq ▸ he
    · exact ⟨past, e, [], rfl, he, fun q hq => absurd hq List.not_mem_nil⟩

namespace Visit

def Allows (issuer : TokenIssuer) (v : Visit) (own : List Event) : ServiceCall → Prop
  | .clock => own = []
  | .consume nonce expiry => ∃ fileId token i now claims, v = .present fileId token ∧
      own = [⟨i, .clock, now⟩] ∧ issuer.Grants fileId token now claims ∧
      claims.nonce = nonce ∧ claims.expiry = expiry
  | .purge now => ∃ i, own = [⟨i, .clock, now⟩]
  | _ => True

def Follows (issuer : TokenIssuer) (v : Visit) {α : Type} (i : Nat) (own : List Event)
    (p : ServiceProgram α) : Prop :=
  p.Obeys (v.Allows issuer) (fun own (c : ServiceCall) (r : c.Reply) => own ++ [⟨i, c, r⟩]) own

theorem follows_fetch (issuer : TokenIssuer) (v : Visit) (i : Nat) (own : List Event)
    (fileId : Uuid) : v.Follows issuer i own (Previews.fetch fileId) := by
  refine ⟨trivial, fun r => ?_⟩
  cases r <;> trivial

theorem follows_program (issuer : TokenIssuer) (v : Visit) (i : Nat) :
    v.Follows issuer i [] (v.program issuer) := by
  cases v with
  | purge => exact ⟨rfl, fun now => ⟨⟨i, rfl⟩, fun _ => trivial⟩⟩
  | present fileId token =>
    refine ⟨rfl, fun now => ?_⟩
    dsimp only
    split
    · trivial
    rename_i claims hv
    split
    · rename_i hf
      refine ⟨⟨fileId, token, i, now, claims, rfl, rfl, ⟨hv, hf⟩, rfl, rfl⟩, fun r => ?_⟩
      rcases r with _ | _ | _
      · trivial
      · trivial
      · exact follows_fetch issuer _ i _ fileId
    · trivial

end Visit

namespace Entrance

def visit? (s : Entrance) (i : Nat) : Option Visit :=
  s.visitors[i]?.map (·.visit)

def own (i : Nat) (past : List Event) : List Event :=
  past.filter (·.strand = i)

theorem own_eq_nil {i : Nat} {past : List Event} (h : ∀ e ∈ past, e.strand < i) :
    own i past = [] := by
  refine List.filter_eq_nil_iff.mpr fun e he => ?_
  have := h e he
  simp
  omega

theorem own_snoc_self (past : List Event) (e : Event) :
    own e.strand (past ++ [e]) = own e.strand past ++ [e] := by
  simp [own]

theorem own_snoc_of_ne {i : Nat} {e : Event} (h : e.strand ≠ i) (past : List Event) :
    own i (past ++ [e]) = own i past := by
  simp [own, h]

section Followed

variable {β : Type} {Q : Nat → β → List Event → Prop} {l : List β} {past : List Event} {a : β}

theorem follows_append (h : ∀ k b, l[k]? = some b → Q k b (own k past))
    (present : ∀ e ∈ past, e.strand < l.length) (here : Q l.length a []) (k : Nat) (b : β)
    (hk : (l ++ [a])[k]? = some b) : Q k b (own k past) := by
  rcases getElem?_snoc hk with hk | ⟨rfl, rfl⟩
  · exact h k b hk
  · rw [own_eq_nil present]
    exact here

theorem follows_set {e : Event} (h : ∀ k b, l[k]? = some b → Q k b (own k past))
    (here : Q e.strand a (own e.strand past ++ [e])) (k : Nat) (b : β)
    (hk : (l.set e.strand a)[k]? = some b) : Q k b (own k (past ++ [e])) := by
  rcases getElem?_set_cases hk with ⟨rfl, rfl⟩ | ⟨hik, hk⟩
  · rw [own_snoc_self]
    exact here
  · rw [own_snoc_of_ne hik]
    exact h k b hk

end Followed

structure Orderly (issuer : TokenIssuer) (s : Entrance) : Prop where
  guard : ∀ n x, (n, x) ∈ s.guard.consumed ↔ Held n x s.past
  follows : ∀ (i : Nat) (w : Visitor), s.visitors[i]? = some w →
    w.visit.Follows issuer i (own i s.past) w.rest
  present : ∀ e ∈ s.past, e.strand < s.visitors.length
  allowed : ∀ a e b, s.past = a ++ e :: b →
    ∃ v, s.visit? e.strand = some v ∧ v.Allows issuer (own e.strand a) e.call
  asked : ∀ a e b n x, s.past = a ++ e :: b → e.call = .consume n x →
    (e.Takes n x ↔ ∀ y, ¬ Held n y a)

variable {issuer : TokenIssuer} {s t : Entrance}

theorem orderly_opening (clock : Instant) : (opening clock).Orderly issuer where
  guard n x := by simp [opening, ReplayGuard.empty, Held]
  follows _ _ h := nomatch h
  present _ h := absurd h List.not_mem_nil
  allowed a _ _ h := by cases a <;> cases h
  asked a _ _ _ _ h := by cases a <;> cases h

theorem Orderly.arrive (h : s.Orderly issuer) (v : Visit) :
    Orderly issuer { s with visitors := s.visitors ++ [⟨v, v.program issuer⟩] } where
  guard := h.guard
  follows := follows_append (Q := fun k (w : Visitor) own => w.visit.Follows issuer k own w.rest)
    h.follows h.present (v.follows_program issuer _)
  present e he := by
    have := h.present e he
    simp
    omega
  allowed a e b hp := by
    obtain ⟨u, hu, ha⟩ := h.allowed a e b hp
    refine ⟨u, ?_, ha⟩
    have := h.present e (by rw [hp]; simp)
    rw [visit?, List.getElem?_append_left this]
    exact hu
  asked := h.asked

section Answered

variable {i : Nat} {v : Visit} {c : ServiceCall} {next : c.Reply → ServiceProgram v.Outcome}
  {o : Outside}

theorem visit?_answered (hw : s.visitors[i]? = some ⟨v, .call c next⟩) (k : Nat) :
    (s.answered i o v c next).visit? k = s.visit? k := by
  by_cases hik : i = k
  · subst hik
    have hi : i < s.visitors.length := (List.getElem?_eq_some_iff.mp hw).1
    rw [visit?, visit?, hw, answered, List.getElem?_set_self hi]
    rfl
  · rw [visit?, visit?, answered, List.getElem?_set_ne hik]

theorem Orderly.answered (h : s.Orderly issuer) (hw : s.visitors[i]? = some ⟨v, .call c next⟩) :
    (s.answered i o v c next).Orderly issuer where
  guard n x := by
    rw [Entrance.answered, held_snoc, ← h.guard n x]
    exact c.mem_answer
  follows := follows_set (Q := fun k (w : Visitor) own => w.visit.Follows issuer k own w.rest)
    (e := ⟨i, c, (s.guard.answer o c).1⟩) h.follows ((h.follows i _ hw).2 _)
  present e he := by
    have hi : i < s.visitors.length := (List.getElem?_eq_some_iff.mp hw).1
    rw [Entrance.answered, List.length_set]
    rcases List.mem_append.mp he with he | he
    · exact h.present e he
    · exact List.mem_singleton.mp he ▸ hi
  allowed a e b hp := by
    simp only [visit?_answered hw]
    rcases snoc_eq_append_cons hp with ⟨-, rfl, rfl⟩ | ⟨b, -, hpast⟩
    · exact ⟨v, by rw [visit?, hw]; rfl, (h.follows i _ hw).1⟩
    · exact h.allowed a e b hpast
  asked a e b n x hp hc := by
    rcases snoc_eq_append_cons hp with ⟨-, rfl, rfl⟩ | ⟨b, -, hpast⟩
    · obtain rfl : c = .consume n x := hc
      simp only [← h.guard]
      rw [← not_exists, ← ReplayGuard.contains_iff]
      exact ServiceCall.takes_answer_iff (o := o)
    · exact h.asked a e b n x hpast hc

end Answered

theorem Orderly.leads (h : s.Orderly issuer) (hl : s.Leads issuer t) : t.Orderly issuer := by
  cases hl with
  | stay => exact h
  | arrive v => exact h.arrive v
  | answered o hw => exact h.answered hw

theorem orderly_run (clock : Instant) (ms : List Move) :
    ((opening clock).run issuer ms).Orderly issuer :=
  run_invariant (orderly_opening clock) (fun _ _ => Orderly.leads) ms

def Presents (s : Entrance) (token : String) (i : Nat) : Prop :=
  ∃ fileId, s.visit? i = some (.present fileId token)

def Asks (s : Entrance) (token : String) (e : Event) : Prop :=
  s.Presents token e.strand ∧ ∃ n x, e.call = .consume n x

def Passes (s : Entrance) (token : String) (e : Event) : Prop :=
  s.Presents token e.strand ∧ ∃ n x, e.Takes n x

def OpenedOnce (s : Entrance) (token : String) : Prop :=
  ∀ d ∈ s.past, ∀ e ∈ s.past, s.Passes token d → s.Passes token e → d.strand = e.strand

theorem Passes.asks {token : String} {e : Event} (h : s.Passes token e) : s.Asks token e := by
  obtain ⟨hp, n, x, ht⟩ := h
  exact ⟨hp, n, x, ht.call_eq⟩

section Minted

variable {file nonce : Uuid} {start : Instant} {m : MintedToken} {a b : List Event} {e : Event}

theorem Orderly.asks_minted (h : s.Orderly issuer) (hmint : issuer.mint? file nonce start = some m)
    (hp : s.past = a ++ e :: b) (he : s.Asks m.token e) :
    e.call = .consume m.claims.nonce m.claims.expiry ∧
      ∃ i, ∃ now : Instant,
        own e.strand a = [⟨i, .clock, now⟩] ∧ now < m.claims.expiry := by
  obtain ⟨⟨f, hf⟩, n, x, hc⟩ := he
  obtain ⟨v, hv, ha⟩ := h.allowed a e b hp
  obtain rfl := Option.some.inj (hf.symm.trans hv)
  rw [hc] at ha ⊢
  obtain ⟨fileId, token, i, now, claims, hpresent, hown, hgrants, rfl, rfl⟩ := ha
  obtain ⟨rfl, rfl⟩ := Visit.present.inj hpresent
  obtain ⟨rfl, hlt, -⟩ := (TokenIssuer.grants_minted_iff hmint).mp hgrants
  exact ⟨rfl, i, now, hown, hlt⟩

theorem Orderly.strand_ne (h : s.Orderly issuer) (hmint : issuer.mint? file nonce start = some m)
    (hp : s.past = a ++ e :: b) (he : s.Asks m.token e) {d : Event} (hd : d ∈ a)
    (hdp : s.Passes m.token d) : d.strand ≠ e.strand := by
  intro hs
  -- All that the visit has done before is to read the clock, so it has not passed already.
  obtain ⟨-, i, now, hown, -⟩ := h.asks_minted hmint hp he
  have mem : d ∈ own e.strand a := List.mem_filter.mpr ⟨hd, by simp [hs]⟩
  rw [hown, List.mem_singleton] at mem
  obtain ⟨-, n, x, hc⟩ := hdp.asks
  rw [mem] at hc
  cases hc

theorem Orderly.passes_iff (h : s.Orderly issuer) (hmint : issuer.mint? file nonce start = some m)
    (hp : s.past = a ++ e :: b) (he : s.Asks m.token e) :
    s.Passes m.token e ↔ ∀ x, ¬ Held m.claims.nonce x a := by
  have hc := (h.asks_minted hmint hp he).1
  rw [← h.asked a e b _ _ hp hc]
  constructor
  · rintro ⟨-, n, x, ht⟩
    have same : ServiceCall.consume n x = .consume m.claims.nonce m.claims.expiry :=
      ht.call_eq.symm.trans hc
    cases same
    exact ht
  · exact fun ht => ⟨he.1, _, _, ht⟩

theorem Orderly.held_of_openedOnce (h : s.Orderly issuer)
    (hmint : issuer.mint? file nonce start = some m) (ho : s.OpenedOnce m.token)
    (hp : s.past = a ++ e :: b) (he : s.Asks m.token e) {d : Event} (hd : d ∈ a)
    (hdp : s.Passes m.token d) : ∃ x, Held m.claims.nonce x a := by
  by_contra hnone
  have passes := (h.passes_iff hmint hp he).mpr (not_exists.mp hnone)
  have same := ho d (by simp [hp, hd]) e (by simp [hp]) hdp passes
  exact h.strand_ne hmint hp he hd hdp same

def Remembers (s : Entrance) (m : MintedToken) : Prop :=
  ∀ a e b, s.past = a ++ e :: b → s.Asks m.token e → (∃ d ∈ a, s.Passes m.token d) →
    ∃ x, Held m.claims.nonce x a

theorem Orderly.openedOnce_of_remembers (h : s.Orderly issuer)
    (hmint : issuer.mint? file nonce start = some m) (hr : s.Remembers m) :
    s.OpenedOnce m.token := by
  have refused {a b : List Event} {d e : Event} (hp : s.past = a ++ e :: b) (hd : d ∈ a)
      (hdp : s.Passes m.token d) : ¬ s.Passes m.token e := by
    intro hep
    obtain ⟨x, hx⟩ := hr a e b hp hep.asks ⟨d, hd, hdp⟩
    exact (h.passes_iff hmint hp hep.asks).mp hep x hx
  intro d hd e he hdp hep
  obtain ⟨a, b, hp⟩ := List.append_of_mem he
  have hmem : d ∈ a ++ e :: b := hp ▸ hd
  rcases List.mem_append.mp hmem with hda | hdb
  · exact absurd hep (refused hp hda hdp)
  rcases List.mem_cons.mp hdb with rfl | hdb
  · rfl
  · obtain ⟨b, c, rfl⟩ := List.append_of_mem hdb
    refine absurd hdp (refused (a := a ++ e :: b) (b := c) ?_ (by simp) hep)
    rw [hp]
    simp

def Prompt (s : Entrance) (m : MintedToken) : Prop :=
  ∀ a e b, s.past = a ++ e :: b → s.Asks m.token e →
    ∀ i (now : Instant), (⟨i, .clock, now⟩ : Event) ∈ a → now ≤ m.claims.expiry

theorem Orderly.remembers_of_prompt (h : s.Orderly issuer)
    (hmint : issuer.mint? file nonce start = some m) (hpr : s.Prompt m) : s.Remembers m := by
  rintro a e b hp he ⟨d, hd, hdp⟩
  obtain ⟨a, c, rfl⟩ := List.append_of_mem hd
  have hpd : s.past = a ++ d :: (c ++ e :: b) := by rw [hp]; simp
  obtain ⟨hdr, n, x, ht⟩ := hdp
  obtain ⟨hcall, -⟩ := h.asks_minted hmint hpd ⟨hdr, n, x, ht.call_eq⟩
  rw [ht.call_eq] at hcall
  cases hcall
  refine ⟨_, a, d, c, rfl, ht, fun q hq hforgets => ?_⟩
  -- The purge names a time that its visit has read, and that reading stands before the call.
  obtain ⟨c, f, rfl⟩ := List.append_of_mem hq
  obtain ⟨v, -, ha⟩ := h.allowed (a ++ d :: c) q (f ++ e :: b) (by rw [hp]; simp)
  obtain ⟨i, qc, r⟩ := q
  cases qc with
  | purge now =>
    obtain ⟨k, hown⟩ := ha
    have read : (⟨k, .clock, now⟩ : Event) ∈ a ++ d :: c :=
      (List.mem_filter.mp (hown ▸ List.mem_singleton_self _)).1
    have early := hpr _ e b hp he k now (by
      rw [← List.cons_append, ← List.append_assoc]
      exact List.mem_append_left _ read)
    exact Instant.not_le.mpr hforgets early
  | _ => cases hforgets

theorem opened_once_of_prompt (hmint : issuer.mint? file nonce start = some m) (clock : Instant)
    (ms : List Move) (hpr : ((opening clock).run issuer ms).Prompt m) :
    ((opening clock).run issuer ms).OpenedOnce m.token :=
  have h := orderly_run clock ms
  h.openedOnce_of_remembers hmint (h.remembers_of_prompt hmint hpr)

end Minted

def outlived (file : Uuid) (token : String) (early late : Instant) : List Move :=
  [.arrive (.present file token), .arrive (.present file token), .arrive .purge,
    .resume 0 (.reading early), .resume 1 (.reading early), .resume 0 (.reading early),
    .resume 2 (.reading late), .resume 2 (.reading late), .resume 1 (.reading late)]

section Outlived

variable {i : Nat} {o : Outside}

theorem step_resume {v : Visit} {c : ServiceCall} {next : c.Reply → ServiceProgram v.Outcome}
    (hw : s.visitors[i]? = some ⟨v, .call c next⟩) (hc : s.clock ≤ o.time) :
    s.step issuer (.resume i o) = s.answered i o v c next := by
  simp only [step, hw, if_pos hc]

theorem step_validate {token : String} {claims : TokenClaims}
    (hw : s.visitors[i]? =
      some ⟨.present claims.fileId token, Previews.openPreview issuer claims.fileId token⟩)
    (hc : s.clock ≤ o.time) (hv : issuer.validate token o.time = .ok claims) :
    s.step issuer (.resume i o) =
      { s with
        clock := o.time
        visitors := s.visitors.set i
          ⟨.present claims.fileId token, Previews.redeem claims.fileId claims⟩
        past := s.past ++ [⟨i, .clock, o.time⟩] } := by
  rw [step_resume hw hc]
  simp only [Entrance.answered, ReplayGuard.answer_clock, hv, if_true]

theorem past_outlived {token : String} {claims : TokenClaims} {early late : Instant}
    (hv : issuer.validate token early = .ok claims) (he : early ≤ late)
    (hl : claims.expiry < late) :
    ∃ s : Entrance, (opening early).run issuer (outlived claims.fileId token early late) = s ∧
      s.visit? 0 = some (.present claims.fileId token) ∧
      s.visit? 1 = some (.present claims.fileId token) ∧
      ∀ i < 2, (⟨i, .consume claims.nonce claims.expiry, .ok true⟩ : Event) ∈ s.past := by
  have dropped : (ReplayGuard.mk [(claims.nonce, claims.expiry)]).purge late = (1, .empty) := by
    simp [ReplayGuard.purge, Instant.not_le.mpr hl, ReplayGuard.empty]
  have now : early ≤ early := Int.le_refl _
  have still : late ≤ late := Int.le_refl _
  let visit : Visit := .present claims.fileId token
  let begun : Visitor := ⟨visit, Previews.openPreview issuer claims.fileId token⟩
  let validated : Visitor := ⟨visit, Previews.redeem claims.fileId claims⟩
  let admitted : Visitor := ⟨visit, Previews.fetch claims.fileId⟩
  let cleaner : Visitor := ⟨.purge, purgeNonces⟩
  let kept : ReplayGuard := ⟨[(claims.nonce, claims.expiry)]⟩
  let read (i : Nat) (t : Instant) : Event := ⟨i, .clock, t⟩
  let take (i : Nat) : Event := ⟨i, .consume claims.nonce claims.expiry, .ok true⟩
  let purged : Event := ⟨2, .purge late, .ok 1⟩
  let s₀ : Entrance := ⟨.empty, early, [begun, begun, cleaner], []⟩
  let s₁ : Entrance := ⟨.empty, early, [validated, begun, cleaner], [read 0 early]⟩
  let s₂ : Entrance :=
    ⟨.empty, early, [validated, validated, cleaner], [read 0 early, read 1 early]⟩
  let s₃ : Entrance :=
    ⟨kept, early, [admitted, validated, cleaner], [read 0 early, read 1 early, take 0]⟩
  let s₄ : Entrance :=
    ⟨kept, late, [admitted, validated, ⟨.purge, .call (.purge late) .done⟩],
      [read 0 early, read 1 early, take 0, read 2 late]⟩
  let s₅ : Entrance :=
    ⟨.empty, late, [admitted, validated, ⟨.purge, .done (.ok 1)⟩],
      [read 0 early, read 1 early, take 0, read 2 late, purged]⟩
  let s₆ : Entrance :=
    ⟨kept, late, [admitted, admitted, ⟨.purge, .done (.ok 1)⟩],
      [read 0 early, read 1 early, take 0, read 2 late, purged, take 1]⟩
  have h₁ : s₀.step issuer (.resume 0 (.reading early)) = s₁ := step_validate rfl now hv
  have h₂ : s₁.step issuer (.resume 1 (.reading early)) = s₂ := step_validate rfl now hv
  have h₃ : s₂.step issuer (.resume 0 (.reading early)) = s₃ := by
    rw [step_resume rfl now]
    rfl
  have h₄ : s₃.step issuer (.resume 2 (.reading late)) = s₄ := by
    rw [step_resume rfl he]
    rfl
  have h₅ : s₄.step issuer (.resume 2 (.reading late)) = s₅ := by
    rw [step_resume rfl still]
    simp only [Entrance.answered, ReplayGuard.answer, s₄, kept, dropped]
    rfl
  have h₆ : s₅.step issuer (.resume 1 (.reading late)) = s₆ := by
    rw [step_resume rfl still]
    rfl
  have steps : (opening early).run issuer (outlived claims.fileId token early late) = s₆ := by
    rw [← h₆, ← h₅, ← h₄, ← h₃, ← h₂, ← h₁]
    rfl
  refine ⟨_, steps, rfl, rfl, fun i hi => ?_⟩
  rcases (by omega : i = 0 ∨ i = 1) with rfl | rfl
  · exact .tail _ (.tail _ (.head _))
  · exact .tail _ (.tail _ (.tail _ (.tail _ (.tail _ (.head _)))))

theorem not_openedOnce_outlived {file nonce : Uuid} {start : Instant} {m : MintedToken}
    (hmint : issuer.mint? file nonce start = some m) {early late : Instant}
    (he : early < m.claims.expiry) (hl : m.claims.expiry < late) :
    ¬ ((opening early).run issuer (outlived file m.token early late)).OpenedOnce m.token := by
  obtain ⟨rfl, -⟩ := TokenIssuer.claims_of_mint? hmint
  have valid : issuer.validate m.token early = .ok m.claims :=
    (TokenIssuer.validate_minted_eq_ok_iff hmint).mpr ⟨rfl, he⟩
  obtain ⟨s, hs, h0, h1, taken⟩ := past_outlived valid (Int.le_of_lt (Instant.lt_trans he hl)) hl
  rw [hs]
  intro ho
  have both := ho _ (taken 0 (by decide)) _ (taken 1 (by decide)) ⟨⟨_, h0⟩, _, _, rfl, rfl⟩
    ⟨⟨_, h1⟩, _, _, rfl, rfl⟩
  cases both

end Outlived

theorem opened_once_iff_remembers {file nonce : Uuid} {start : Instant} {m : MintedToken}
    (hmint : issuer.mint? file nonce start = some m)
    (clock : Instant) (ms : List Move) :
    ((opening clock).run issuer ms).OpenedOnce m.token ↔
      ((opening clock).run issuer ms).Remembers m := by
  have h : ((opening clock).run issuer ms).Orderly issuer := orderly_run clock ms
  constructor
  · rintro ho a e b hp he ⟨d, hd, hdp⟩
    exact h.held_of_openedOnce hmint ho hp he hd hdp
  · exact h.openedOnce_of_remembers hmint

theorem not_opened_once_minted_at_epoch : ∃ m,
    TokenIssuer.zeroKey.mint? (.ofNat 1) (.ofNat 2) .epoch = some m ∧
      ¬ ((opening .epoch).run .zeroKey
        (outlived (.ofNat 1) m.token .epoch (.ofSecond 1000))).OpenedOnce m.token := by
  obtain ⟨m, hm, hx⟩ := TokenIssuer.mint?_zeroKey_epoch (.ofNat 1) (.ofNat 2)
  exact ⟨m, hm, not_openedOnce_outlived hm (by rw [hx]; decide) (by rw [hx]; decide)⟩

theorem not_remembers_minted_at_epoch : ∃ m,
    TokenIssuer.zeroKey.mint? (.ofNat 1) (.ofNat 2) .epoch = some m ∧
      ¬ ((opening .epoch).run .zeroKey
        (outlived (.ofNat 1) m.token .epoch (.ofSecond 1000))).Remembers m := by
  obtain ⟨m, hm, hx⟩ := TokenIssuer.mint?_zeroKey_epoch (.ofNat 1) (.ofNat 2)
  refine ⟨m, hm, fun hr => ?_⟩
  have once := (opened_once_iff_remembers hm _ _).mpr hr
  exact not_openedOnce_outlived hm (by rw [hx]; decide) (by rw [hx]; decide) once

end Entrance

end DocumentPreview
