import DocumentPreview.Proofs.Service.Hands

namespace DocumentPreview

open Program

variable {α : Type}

def Program.Returned (p : ServiceProgram α) : Prop :=
  ∃ a, p = .done a

instance : (p : ServiceProgram α) → Decidable p.Returned
  | .done a => .isTrue ⟨a, rfl⟩
  | .abort => .isFalse nofun
  | .call .. => .isFalse nofun

def Together (i : Nat) (past : List Event) : Prop :=
  ∃ a b c, past = a ++ b ++ c ∧ (∀ e ∈ b, e.strand = i) ∧ ∀ e ∈ a ++ c, e.strand ≠ i

theorem Together.none_before_or_none_after {i : Nat} {a b : List Event} {e : Event}
    (h : Together i (a ++ e :: b)) (he : e.strand ≠ i) :
    (∀ f ∈ a, f.strand ≠ i) ∨ ∀ f ∈ b, f.strand ≠ i := by
  obtain ⟨x, y, z, hp, hy, hxz⟩ := h
  have hx : ∀ f ∈ x, f.strand ≠ i := fun f hf => hxz f (List.mem_append_left _ hf)
  have hz : ∀ f ∈ z, f.strand ≠ i := fun f hf => hxz f (List.mem_append_right _ hf)
  rw [List.append_assoc] at hp
  rcases List.append_eq_append_iff.mp hp with ⟨l, rfl, hl⟩ | ⟨l, rfl, hl⟩
  · exact .inl fun f hf => hx f (List.mem_append_left _ hf)
  · -- The call of the other strand stands behind the first part, so behind the second as well.
    rcases List.append_eq_append_iff.mp hl with ⟨m, rfl, rfl⟩ | ⟨m, rfl, hm⟩
    · exact .inr fun f hf => hz f (List.mem_append_right _ (List.mem_cons_of_mem _ hf))
    · cases m with
      | nil => exact .inr fun f hf => hz f ((show e :: b = z from hm) ▸ List.mem_cons_of_mem _ hf)
      | cons d m =>
        obtain rfl : e = d := (List.cons.inj hm).1
        exact absurd (hy e (by simp)) he

theorem together_of_dropWhile {i : Nat} {past : List Event}
    (h : ∀ e ∈ (past.dropWhile (·.strand ≠ i)).dropWhile (·.strand = i), e.strand ≠ i) :
    Together i past := by
  refine ⟨past.takeWhile (·.strand ≠ i), (past.dropWhile (·.strand ≠ i)).takeWhile (·.strand = i),
    (past.dropWhile (·.strand ≠ i)).dropWhile (·.strand = i), ?_, fun e he => ?_, fun e he => ?_⟩
  · rw [List.append_assoc, List.takeWhile_append_dropWhile, List.takeWhile_append_dropWhile]
  · simpa using List.all_eq_true.mp List.all_takeWhile e he
  · rcases List.mem_append.mp he with he | he
    · simpa using List.all_eq_true.mp List.all_takeWhile e he
    · exact h e he

namespace System

variable {s : System} {holders : List Nat}

def Uninterrupted (s : System) : Prop :=
  ∀ i w id rest, s.strands[i]? = some ⟨.work w id, rest⟩ →
    Together i s.past ∧ (rest = w.process id ∨ rest.Returned)

theorem Handed.work_of_claims (h : s.Handed holders) {e : Event} (he : e ∈ s.past)
    (hc : e.call.Claims) : ∃ w id rest, s.strands[e.strand]? = some ⟨.work w id, rest⟩ := by
  obtain ⟨⟨a, rest⟩, ht, hm⟩ := h.made e he
  cases a with
  | work w id => exact ⟨w, id, rest, ht⟩
  | sweep | enqueue | retry => exact absurd hc hm.1.2

theorem exists_claims_of_inHand {i : Nat} {past : List Event} (h : inHand i past ≠ none) :
    ∃ e ∈ past, e.strand = i ∧ e.call.Claims := by
  by_contra hn
  exact h (inHand_eq_none fun e he hi hc => hn ⟨e, he, hi, hc⟩)

theorem Handed.inHand_of_uninterrupted (h : s.Handed holders) (hs : s.Uninterrupted) (i : Nat) :
    inHand i s.past = none := by
  by_contra hn
  obtain ⟨e, he, rfl, hc⟩ := exists_claims_of_inHand hn
  obtain ⟨w, id, rest, ht⟩ := h.work_of_claims he hc
  have hand := h.follows e.strand _ ht
  refine hn ?_
  rcases (hs e.strand w id rest ht).2 with rfl | ⟨r, rfl⟩
  · -- A worker looks at the clock and then asks for the claim, with its hands free.
    exact ((hand.2 .epoch).1).2 trivial
  · exact hand rfl

theorem reapStale_of_reaped {e : Event} {id : Uuid} (h : (id, .reaped) ∈ e.changes) :
    ∃ cutoff now, e.call = .store (.reapStale cutoff now) := by
  obtain ⟨i, c, r⟩ := e
  cases c with
  | store op =>
    cases r with
    | error => cases h
    | ok r =>
      have turn : op.change? = some .reaped := StoreOp.change?_of_mem_changes h
      cases op with
      | reapStale cutoff now => exact ⟨cutoff, now, rfl⟩
      | _ => cases turn
  | _ => cases h

theorem Handed.spared_of_uninterrupted (h : s.Handed holders) (hs : s.Uninterrupted) :
    Spared s.past := by
  intro a e b hp id hr i job hj _
  obtain ⟨cutoff, now, he⟩ := reapStale_of_reaped hr
  obtain ⟨f, hf, rfl, hc⟩ := exists_claims_of_inHand (fun hn => nomatch hn.symm.trans hj)
  have inPast : f ∈ s.past := hp ▸ List.mem_append_left _ hf
  obtain ⟨w, jobId, rest, ht⟩ := h.work_of_claims inPast hc
  -- Who gives up on jobs is no worker, so it is another strand than the one that has the job.
  have other : e.strand ≠ f.strand := by
    intro same
    obtain ⟨t, ht', hm⟩ := h.made e (hp ▸ by simp)
    obtain rfl := Option.some.inj (ht.symm.trans (same ▸ ht'))
    rw [he] at hm
    exact hm
  rcases (hp ▸ (hs f.strand w jobId rest ht).1).none_before_or_none_after other with hn | hn
  · exact hn f hf rfl
  · have same : inHand f.strand s.past = inHand f.strand a :=
      hp ▸ inHand_append_of_ne a (List.forall_mem_cons.mpr ⟨other, hn⟩)
    rw [h.inHand_of_uninterrupted hs, hj] at same
    cases same

theorem Handed.countP_claimed (h : s.Handed holders) (hs : s.Uninterrupted) :
    s.past.countP (·.Claimed) = s.past.countP (·.call.settles?.isSome) := by
  have nobody : holders = [] := by
    refine List.eq_nil_iff_forall_not_mem.mpr fun i hi => ?_
    have hand := (h.held i).mp hi
    rw [h.inHand_of_uninterrupted hs] at hand
    cases hand
  simpa [nobody] using h.sums

theorem Handed.between_eq_zero (h : s.Handed holders) (hs : s.Uninterrupted) {c : Counter}
    (hc : c ≠ .jobsEnqueued) : s.between c = 0 := by
  refine List.countP_eq_zero.mpr fun t ht => ?_
  obtain ⟨i, ht⟩ := List.mem_iff_getElem?.mp ht
  have due : t.rest.due? = none ∨ t.rest.due? = some .jobsEnqueued := by
    obtain ⟨a, rest⟩ := t
    by_cases hw : ∃ w id, a = .work w id
    · obtain ⟨w, id, rfl⟩ := hw
      rcases (hs i w id rest ht).2 with rfl | ⟨r, rfl⟩
      · exact .inl rfl
      · exact .inl rfl
    · cases rest with
      | done | abort => exact .inl rfl
      | call c next =>
        have made := (h.makes _ (List.mem_of_getElem? ht)).1
        cases a with
        | work w id => exact absurd ⟨w, id, rfl⟩ hw
        | sweep | enqueue | retry => exact made.2
  rcases due with due | due
  · simp [due]
  · simpa [due] using hc.symm

end System

def ServiceCall.fails? : (c : ServiceCall) → c.Reply → Option Bool
  | .store (.recordFailure _ _ next), .ok (some _) => some next.isNone
  | _, _ => none

def Event.fails? (e : Event) : Option Bool :=
  e.call.fails? e.reply

theorem ServiceCall.opens?_jobsFailed_iff {terminal : Bool} {c : ServiceCall} {r : c.Reply} :
    c.opens? r = some (.jobsFailed terminal) ↔ c.counts? = some (.jobsFailed terminal) := by
  cases c with
  | count c => cases c <;> simp [opens?, counts?]
  | store op =>
    -- A change in the store opens the count of a new or of a completed job.
    refine iff_of_false ?_ (by simp [counts?])
    unfold opens?
    split <;> simp_all
  | _ => exact iff_of_false (by simp [opens?]) (by simp [counts?])

theorem Ends.fails?_iff {job : Job} {c : ServiceCall} {r : c.Reply} (h : Ends job c r)
    {terminal : Bool} : c.fails? r = some terminal ↔ c.closes? = some (.jobsFailed terminal) := by
  cases h <;> simp [ServiceCall.fails?, ServiceCall.closes?]

theorem ServiceCall.settles?_of_fails? {c : ServiceCall} {r : c.Reply} {terminal : Bool}
    (h : c.fails? r = some terminal) : c.settles?.isSome := by
  unfold fails? at h
  split at h
  · rfl
  · cases h

theorem ServiceCall.settles?_of_closes? {c : ServiceCall} {terminal : Bool}
    (h : c.closes? = some (.jobsFailed terminal)) : c.settles?.isSome := by
  unfold closes? at h
  split at h
  · cases h
  · cases h
  · rfl
  · cases h

theorem ServiceCall.settles?_of_opens? {c : ServiceCall} {r : c.Reply}
    (h : c.opens? r = some .jobsCompleted) : c.settles?.isSome := by
  unfold opens? at h
  split at h
  · split at h <;> cases h
  · rfl
  · cases h
  · cases h

section EndsOwn

variable {past : List Event}

theorem EndsOwn.ends (h : EndsOwn past) {e : Event} (he : e ∈ past) (hs : e.call.settles?.isSome) :
    ∃ job, Ends job e.call e.reply := by
  obtain ⟨a, b, hp⟩ := List.append_of_mem he
  obtain ⟨id, hid⟩ := Option.isSome_iff_exists.mp hs
  obtain ⟨job, -, -, ends⟩ := h a e b hp id hid
  exact ⟨job, ends⟩

theorem EndsOwn.fails?_iff (h : EndsOwn past) {e : Event} (he : e ∈ past) {terminal : Bool} :
    e.fails? = some terminal ↔ e.closes? = some (.jobsFailed terminal) := by
  by_cases hs : e.call.settles?.isSome
  · obtain ⟨job, ends⟩ := h.ends he hs
    exact ends.fails?_iff
  · obtain ⟨i, c, r⟩ := e
    refine iff_of_false (fun hf => hs ?_) fun hc => hs ?_
    · exact ServiceCall.settles?_of_fails? hf
    · exact ServiceCall.settles?_of_closes? hc

theorem EndsOwn.word (h : EndsOwn past) {e : Event} (he : e ∈ past) :
    (if e.call.settles?.isSome then 1 else 0) =
      (if e.opens? = some .jobsCompleted then 1 else 0) +
        (if e.fails? = some true then 1 else 0) + if e.fails? = some false then 1 else 0 := by
  by_cases hs : e.call.settles?.isSome
  · obtain ⟨job, ends⟩ := h.ends he hs
    obtain ⟨i, c, r⟩ := e
    cases ends with
    | completed => rfl
    | failed error next => cases next <;> rfl
  · have completes : e.opens? ≠ some .jobsCompleted := fun ho =>
      hs (ServiceCall.settles?_of_opens? ho)
    have fails (terminal : Bool) : e.fails? ≠ some terminal := fun hf =>
      hs (ServiceCall.settles?_of_fails? hf)
    simp [hs, completes, fails]

theorem EndsOwn.countP_settles (h : EndsOwn past) :
    past.countP (·.call.settles?.isSome) = past.countP (·.opens? = some .jobsCompleted) +
      past.countP (·.fails? = some true) + past.countP (·.fails? = some false) := by
  have words : ∀ e ∈ past, _ := fun e => h.word
  clear h
  induction past with
  | nil => rfl
  | cons e past ih =>
    have first := words e (.head _)
    have later := ih fun f hf => words f (.tail _ hf)
    simp only [List.countP_cons, decide_eq_true_eq]
    omega

end EndsOwn

namespace System

variable {s : System} {holders : List Nat}

theorem Handed.fails_counted (h : s.Handed holders) (hb : s.Balanced) (he : EndsOwn s.past)
    (hs : s.Uninterrupted) (terminal : Bool) :
    (counted s.past).value (.jobsFailed terminal) = s.past.countP (·.fails? = some terminal) := by
  have opened : s.past.countP (·.opens? = some (.jobsFailed terminal)) =
      s.past.countP (·.call.counts? = some (.jobsFailed terminal)) :=
    List.countP_congr fun e _ => by
      simp only [decide_eq_true_eq]
      exact ServiceCall.opens?_jobsFailed_iff
  have closed : s.past.countP (·.fails? = some terminal) =
      s.past.countP (·.closes? = some (.jobsFailed terminal)) :=
    List.countP_congr fun e hm => by simpa using he.fails?_iff hm
  have sums := hb.sums (.jobsFailed terminal)
  rw [h.between_eq_zero hs (by simp)] at sums
  rw [value_counted, ← opened, sums, closed, Nat.add_zero]

theorem counters_match_store (queue : JobQueue) (clock : Instant) (bs : List Beat) :
    let s := (idle ⟨.empty, queue, clock⟩).play bs
    let m := counted s.past
    ((∀ t ∈ s.strands, t.rest.due? ≠ some .jobsEnqueued) ↔
      m.value .jobsEnqueued = s.store.rows.length) ∧
    ((∀ t ∈ s.strands, t.rest.due? ≠ some .jobsCompleted) ↔
      m.value .jobsCompleted = (s.store.rows.filter (·.status = .completed)).length) ∧
    (s.Uninterrupted →
      s.past.countP (·.Claimed) = m.value .jobsCompleted +
        (m.value (.jobsFailed true) + m.value (.jobsFailed false)) ∧
      ∀ terminal, m.value (.jobsFailed terminal) = s.past.countP (·.fails? = some terminal)) := by
  intro s m
  have nobody (c : Counter) : (∀ t ∈ s.strands, t.rest.due? ≠ some c) ↔ s.between c = 0 := by
    simp [between, List.countP_eq_zero]
  have rows : s.store.rows.length = m.value .jobsEnqueued + s.between .jobsEnqueued :=
    length_rows queue clock bs
  have completed : (s.store.rows.filter (·.status = .completed)).length =
      m.value .jobsCompleted + s.between .jobsCompleted := length_completed queue clock bs
  refine ⟨?_, ?_, fun hs => ?_⟩
  · rw [nobody, rows]
    omega
  · rw [nobody, completed]
    omega
  · obtain ⟨holders, handed⟩ : ∃ holders, s.Handed holders := play_handed _ bs
    have balanced : s.Balanced := play_balanced _ bs
    have guarded : s.Guarded := play_guarded .empty bs (handed.spared_of_uninterrupted hs)
    have fails := handed.fails_counted balanced guarded.ends hs
    have completes : s.past.countP (·.opens? = some .jobsCompleted) = m.value .jobsCompleted := by
      rw [← CountedAs.completed.length_occurrences, balanced.length_occurrences .completed,
        handed.between_eq_zero hs (by simp)]
      rfl
    refine ⟨?_, fails⟩
    rw [handed.countP_claimed hs, guarded.ends.countP_settles, completes, fails, fails]
    omega

def twoPreviews : List Beat :=
  let smooth (n i freshId : Nat) : List Move :=
    List.replicate n (.resume i (.smooth .epoch (.ofNat freshId)))
  [.move (.start (.enqueue 1 (.ofNat 9) none)), .move (.start (.enqueue 1 (.ofNat 8) none))] ++
  (smooth 2 0 1 ++ smooth 2 0 3 ++ resumed 2 1 500 (.ofNat 2) ++ smooth 2 1 3).map .move ++
  [.deliver ⟨.default, .ofSeconds 120⟩] ++ (smooth 11 2 3).map .move ++
  [.deliver ⟨.default, .ofSeconds 120⟩] ++ (resumed 7 3 1000 (.ofNat 3)).map .move

theorem uninterrupted_twoPreviews :
    ((idle ⟨.empty, ⟨4, [], []⟩, .epoch⟩).play twoPreviews).Uninterrupted := by
  have four : ((idle ⟨.empty, ⟨4, [], []⟩, .epoch⟩).play twoPreviews).strands.length = 4 := by
    decide +kernel
  have returned : ∀ t ∈ ((idle ⟨.empty, ⟨4, [], []⟩, .epoch⟩).play twoPreviews).strands,
      t.rest.Returned := by decide +kernel
  have together : ∀ i < 4, ∀ e ∈
      (((idle ⟨.empty, ⟨4, [], []⟩, .epoch⟩).play twoPreviews).past.dropWhile
        (·.strand ≠ i)).dropWhile (·.strand = i), e.strand ≠ i := by decide +kernel
  intro i w id rest ht
  have hi := four ▸ (List.getElem?_eq_some_iff.mp ht).1
  exact ⟨together_of_dropWhile (together i hi), .inr (returned _ (List.mem_of_getElem? ht))⟩

theorem counters_match_store_twoPreviews :
    ((idle ⟨.empty, ⟨4, [], []⟩, .epoch⟩).play twoPreviews).Uninterrupted ∧
    ((idle ⟨.empty, ⟨4, [], []⟩, .epoch⟩).play twoPreviews).past.countP (·.Claimed) = 2 ∧
    (counted ((idle ⟨.empty, ⟨4, [], []⟩, .epoch⟩).play twoPreviews).past).value .jobsEnqueued =
      ((idle ⟨.empty, ⟨4, [], []⟩, .epoch⟩).play twoPreviews).store.rows.length ∧
    (counted ((idle ⟨.empty, ⟨4, [], []⟩, .epoch⟩).play twoPreviews).past).value .jobsCompleted =
      1 ∧
    (counted ((idle ⟨.empty, ⟨4, [], []⟩, .epoch⟩).play twoPreviews).past).value
      (.jobsFailed true) = 1 := by
  obtain ⟨rows, completed, claims⟩ := counters_match_store ⟨4, [], []⟩ .epoch twoPreviews
  obtain ⟨sum, -⟩ := claims uninterrupted_twoPreviews
  refine ⟨uninterrupted_twoPreviews, sum.trans ?_, rows.mp ?_, (completed.mp ?_).trans ?_, ?_⟩
  all_goals decide +kernel

end System

end DocumentPreview
