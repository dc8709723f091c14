import DocumentPreview.Proofs.Service.Ownership

namespace DocumentPreview

def Standing (id : Uuid) (past : List Event) : Prop :=
  ∃ a c b, past = a ++ c :: b ∧ c.Claims id ∧ ∀ f ∈ b, ¬ f.Touches id

def Fenced (past : List Event) (strand : Nat) (id : Uuid) : Prop :=
  ∀ a c b, past = a ++ c :: b → c.strand = strand → c.Claims id → ∀ f ∈ b, ¬ f.Disturbs id

def LatestClaim (past : List Event) (strand : Nat) (id : Uuid) : Prop :=
  ∀ a c b, past = a ++ c :: b → c.strand = strand → c.Claims id → ∀ f ∈ b, ¬ f.Claims id

theorem Standing.append {id : Uuid} {past : List Event} {e : Event} (h : Standing id past)
    (he : ¬ e.Touches id) : Standing id (past ++ [e]) := by
  obtain ⟨a, c, b, rfl, hc, hb⟩ := h
  refine ⟨a, c, b ++ [e], by simp, hc, fun f hf => ?_⟩
  rcases List.mem_append.mp hf with hf | hf
  · exact hb f hf
  · rw [List.mem_singleton.mp hf]
    exact he

theorem Standing.untouched {id : Uuid} {a b : List Event} {c : Event}
    (h : Standing id (a ++ c :: b)) (hb : ∀ f ∈ b, ¬ f.Claims id) : ∀ f ∈ b, ¬ f.Touches id := by
  obtain ⟨a', c', b', he, hc', hb'⟩ := h
  rcases List.append_eq_append_iff.mp he with ⟨l, rfl, hl⟩ | ⟨l, rfl, hl⟩
  · cases l with
    | nil =>
      obtain ⟨-, rfl⟩ := List.cons.inj hl
      exact hb'
    | cons d l =>
      obtain ⟨-, rfl⟩ := List.cons.inj hl
      exact absurd hc' (hb c' (by simp))
  · cases l with
    | nil =>
      obtain ⟨-, rfl⟩ := List.cons.inj hl
      exact hb'
    | cons d l =>
      obtain ⟨-, rfl⟩ := List.cons.inj hl
      exact fun f hf => hb' f (by simp [hf])

namespace System

variable {s t : System} {id : Uuid}

def claimedBy (s : System) (i : Nat) : List Uuid :=
  s.past.flatMap fun e => if e.strand = i then e.call.claims e.reply else []

theorem mem_claimedBy {i : Nat} :
    id ∈ s.claimedBy i ↔ ∃ e ∈ s.past, e.strand = i ∧ e.Claims id := by
  simp only [claimedBy, List.mem_flatMap]
  refine exists_congr fun e => and_congr_right fun _ => ?_
  split
  · exact ServiceCall.mem_claims.trans (and_iff_right ‹_›).symm
  · exact iff_of_false List.not_mem_nil fun h => absurd h.1 ‹_›

def claims : View (List Uuid) where
  of i past := past.flatMap fun e => if e.strand = i then e.call.claims e.reply else []
  note q c r := q ++ c.claims r
  of_snoc i past e := by
    rw [List.flatMap_append]
    split <;> simp [*]

structure Tracked (s : System) : Prop where
  distinct : s.store.Distinct
  own : ∀ i t, s.strands[i]? = some t → SettlesOwn (s.claimedBy i) t.rest
  standing : ∀ id j, s.store.get? id = some j → j.status = .processing →
    (∀ e ∈ s.past, ¬ e.Touches id) ∨ Standing id s.past

theorem tracked_idle {shared : Shared} (h : shared.store.Distinct) : (idle shared).Tracked where
  distinct := h
  own := fun _ _ ht => nomatch ht
  standing := fun _ _ _ _ => .inl fun _ he => absurd he List.not_mem_nil

section Answered

variable {i : Nat} {a : Activity} {c : ServiceCall} {next : c.Reply → ServiceProgram a.Outcome}
  {o : Outside}

theorem Tracked.standing_answered (h : s.Tracked) (hu : s.store.Unused o.freshId) (j : Job)
    (hg : (s.answered i o a c next).store.get? id = some j) (hj : j.status = .processing) :
    (∀ e ∈ (s.answered i o a c next).past, ¬ e.Touches id) ∨
      Standing id (s.answered i o a c next).past := by
  have hrow := Shared.answer_row h.distinct hu c id
  rw [show (s.shared.answer o c).2.store.get? id = some j from hg] at hrow
  -- A job is being processed either since this very claim, or as it was before the call.
  by_cases hc : (id, .claimed) ∈ c.changes (s.shared.answer o c).1
  · exact .inr ⟨s.past, _, [], rfl, hc, fun _ hf => absurd hf List.not_mem_nil⟩
  · have quiet : ∀ k, (id, k) ∉ c.changes (s.shared.answer o c).1 := by
      intro k hk
      obtain ⟨j', he, hs⟩ := hrow.target hk
      obtain rfl := Option.some.inj he
      rw [hj] at hs
      exact hc (JobChange.target_eq_processing_iff.mp hs.symm ▸ hk)
    have same := hrow.eq_of_unchanged quiet
    rcases h.standing id j same.symm hj with hn | hst
    · refine .inl fun e he => ?_
      rcases List.mem_append.mp he with he | he
      · exact hn e he
      · rw [List.mem_singleton.mp he]
        exact fun ⟨k, hk⟩ => quiet k hk
    · exact .inr (hst.append fun ⟨k, hk⟩ => quiet k hk)

end Answered

theorem Tracked.leads (h : s.Tracked) (hl : s.Leads t) : t.Tracked := by
  have own : ∀ i u, t.strands[i]? = some u → SettlesOwn (t.claimedBy i) u.rest :=
    claims.follows_leads (Q := fun q u => SettlesOwn q u.rest)
      (fun q a => a.settlesOwn_program q) (fun hq => hq.2) h.own hl
  cases hl with
  | stay => exact h
  | start a => exact ⟨h.distinct, own, h.standing⟩
  | answered o ht hu =>
    exact ⟨Shared.answer_distinct h.distinct _, own, fun id => h.standing_answered hu⟩
  | reorder hp =>
    refine ⟨h.distinct.perm hp, own, fun id j hj => ?_⟩
    exact h.standing id j ((MemoryStore.get?_perm h.distinct hp id).symm.trans hj)

theorem Tracked.settles {e : Event} (h : s.Tracked) (hl : s.Leads t) (hp : t.past = s.past ++ [e])
    (he : e.Settles id) :
    (∃ c ∈ s.past, c.strand = e.strand ∧ c.Claims id) ∧ Standing id s.past := by
  have grows : s.past ≠ s.past ++ [e] := by simp
  cases hl with
  | stay => exact absurd hp grows
  | start => exact absurd hp grows
  | reorder => exact absurd hp grows
  | @answered i a c next o ht hu =>
    obtain rfl := List.singleton_inj.mp (List.append_cancel_left hp)
    obtain ⟨k, hk, hck⟩ := he
    have own := (h.own i _ ht).1 id (Shared.settles?_of_changes hk hck)
    obtain ⟨c', hc', hstrand, hclaims⟩ := mem_claimedBy.mp own
    refine ⟨⟨c', hc', hstrand, hclaims⟩, ?_⟩
    obtain ⟨j, hj, hs⟩ := (Shared.answer_row h.distinct hu c id).processing_of_settles hck hk
    exact (h.standing id j hj hs).resolve_left fun hn => hn c' hc' hclaims.disturbs.touches

theorem fenced_iff_latest_claim {shared : Shared} (h : shared.store.Distinct) {ms : List Move}
    {m : Move} {e : Event} (hp : (((idle shared).run ms).step m).past =
      ((idle shared).run ms).past ++ [e]) (he : e.Settles id) :
    (∃ c ∈ ((idle shared).run ms).past, c.strand = e.strand ∧ c.Claims id) ∧
      (Fenced ((idle shared).run ms).past e.strand id ↔
        LatestClaim ((idle shared).run ms).past e.strand id) := by
  have tracked := run_invariant (tracked_idle h) (fun _ _ => Tracked.leads) ms
  obtain ⟨own, standing⟩ := tracked.settles (step_leads _ m) hp he
  refine ⟨own, ?_, ?_⟩
  · intro fenced a c b hs hstrand hc f hf hclaims
    exact fenced a c b hs hstrand hc f hf hclaims.disturbs
  · intro latest a c b hs hstrand hc f hf hd
    exact (hs ▸ standing).untouched (latest a c b hs hstrand hc) f hf hd.touches

def oneWaiting : Shared where
  store := (MemoryStore.empty.run .epoch (.ofNat 1) (.create (.ofNat 9) none 3)).2
  queue := ⟨4, [], []⟩
  clock := .epoch

theorem distinct_oneWaiting : oneWaiting.store.Distinct := by
  unfold MemoryStore.Distinct
  decide

def overtaken : List Move :=
  [.start (.work ⟨.default, .ofSeconds 120⟩ (.ofNat 1)), .start (.sweep (.ofSeconds 900)),
    .start (.work ⟨.default, .ofSeconds 120⟩ (.ofNat 1))] ++
  resumed 2 0 0 (.ofNat 2) ++ resumed 3 1 1000 (.ofNat 2) ++ resumed 2 2 1000 (.ofNat 2) ++
  resumed 5 0 1000 (.ofNat 2)

def lastWord : Move :=
  .resume 0 (.slow .epoch (.ofNat 2))

theorem past_overtaken :
    ((idle oneWaiting).run overtaken).past.map (fun e => (e.strand, e.changes)) =
      [(0, [])] ++ (0, [(.ofNat 1, .claimed)]) ::
        [(1, []), (1, [(.ofNat 1, .reaped)]), (1, [(.ofNat 1, .requeued)]), (2, []),
          (2, [(.ofNat 1, .claimed)]), (0, []), (0, []), (0, []), (0, []), (0, [])] := by
  decide +kernel

theorem Leads.past (h : s.Leads t) : t.past = s.past ∨ ∃ e, t.past = s.past ++ [e] := by
  cases h with
  | answered => exact .inr ⟨_, rfl⟩
  | stay | start | reorder => exact .inl rfl

theorem last_word_overtaken :
    ∃ e, (((idle oneWaiting).run overtaken).step lastWord).past =
      ((idle oneWaiting).run overtaken).past ++ [e] ∧ e.strand = 0 ∧ e.Settles (.ofNat 1) := by
  obtain ⟨e, he⟩ := exists_snoc_of_length (step_leads ((idle oneWaiting).run overtaken) lastWord).past
    (by decide +kernel)
  have hv : (((idle oneWaiting).run overtaken).step lastWord).past.getLast?.map
      (fun e => (e.strand, e.changes)) = some (0, [(.ofNat 1, .failed)]) := by decide +kernel
  rw [he, List.getLast?_append] at hv
  obtain ⟨hstrand, hchanges⟩ : e.strand = 0 ∧ e.changes = [(.ofNat 1, .failed)] :=
    Prod.mk.inj (Option.some.inj hv)
  exact ⟨e, he, hstrand, .failed, .inr rfl, by rw [hchanges]; exact .head _⟩

theorem fenced_iff_latest_claim_overtaken :
    oneWaiting.store.Distinct ∧ ∃ e, (((idle oneWaiting).run overtaken).step lastWord).past =
      ((idle oneWaiting).run overtaken).past ++ [e] ∧ e.Settles (.ofNat 1) ∧
      (∃ c ∈ ((idle oneWaiting).run overtaken).past, c.strand = e.strand ∧ c.Claims (.ofNat 1)) ∧
      (Fenced ((idle oneWaiting).run overtaken).past e.strand (.ofNat 1) ↔
        LatestClaim ((idle oneWaiting).run overtaken).past e.strand (.ofNat 1)) := by
  obtain ⟨e, hp, -, he⟩ := last_word_overtaken
  exact ⟨distinct_oneWaiting, e, hp, he, fenced_iff_latest_claim distinct_oneWaiting hp he⟩

theorem not_fenced_overtaken :
    ∃ shared ms m e id, shared.store.Distinct ∧ (((idle shared).run ms).step m).past =
      ((idle shared).run ms).past ++ [e] ∧ e.Settles id ∧
      ¬ Fenced ((idle shared).run ms).past e.strand id := by
  obtain ⟨e, hp, hstrand, he⟩ := last_word_overtaken
  refine ⟨oneWaiting, overtaken, lastWord, e, .ofNat 1, distinct_oneWaiting, hp, he, ?_⟩
  intro fenced
  obtain ⟨a, l, hs, -, hl⟩ := List.map_eq_append_iff.mp past_overtaken
  obtain ⟨c, b, rfl, hc, hb⟩ := List.map_eq_cons_iff.mp hl
  obtain ⟨hcs, hcc⟩ := Prod.mk.inj hc
  have hclaims : c.Claims (.ofNat 1) := by
    rw [Event.Claims, hcc]
    exact .head _
  have again : (2, [(Uuid.ofNat 1, JobChange.claimed)]) ∈ b.map (fun e => (e.strand, e.changes)) := by
    simp [hb]
  obtain ⟨f, hf, hfv⟩ := List.mem_map.mp again
  have hfc : f.Claims (.ofNat 1) := by
    rw [Event.Claims, (Prod.mk.inj hfv).2]
    exact .head _
  exact fenced a c b hs (hcs.trans hstrand.symm) hclaims f hf hfc.disturbs

end System

end DocumentPreview
