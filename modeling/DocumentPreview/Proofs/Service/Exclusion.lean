import DocumentPreview.Proofs.Service.Beats

namespace DocumentPreview

open Program

namespace ServiceCall

def handAfter (q : Option Job) (c : ServiceCall) (r : c.Reply) : Option Job :=
  if c.settles?.isSome then none else (c.claimed? r).or q

def SettlesHeld (q : Option Job) (c : ServiceCall) : Prop :=
  ∀ id, c.settles? = some id → ∃ job, q = some job ∧ job.id = id

theorem settlesHeld_of_unsettling {c : ServiceCall} (h : Unsettling c) (q : Option Job) :
    SettlesHeld q c :=
  fun _ hc => nomatch h.symm.trans hc

end ServiceCall

def EndsHeld {α : Type} (q : Option Job) (p : ServiceProgram α) : Prop :=
  p.Obeys ServiceCall.SettlesHeld ServiceCall.handAfter q

theorem endsHeld_of_unsettling {α : Type} {p : ServiceProgram α} (h : p.Every Unsettling)
    (q : Option Job) : EndsHeld q p :=
  obeys_of_every (h.imp fun _ hc => ServiceCall.settlesHeld_of_unsettling hc) q

namespace Worker

variable (w : Worker) (job : Job)

theorem endsHeld_recordSuccess : EndsHeld (some job) (recordSuccess job) := by
  refine ⟨fun _ h => (nomatch h), fun now => ⟨fun _ h => ⟨job, rfl, Option.some.inj h⟩, fun r => ?_⟩⟩
  rcases r with _ | _ | done
  · trivial
  · exact endsHeld_of_unsettling (every_current_of rfl) _
  · exact ⟨fun _ h => (nomatch h), fun _ => trivial⟩

theorem endsHeld_recordFailureAt (error : AttemptError) (next : Option Instant) :
    EndsHeld (some job) (recordFailureAt job error next) := by
  refine ⟨fun _ h => (nomatch h), fun _ => ⟨fun _ h => ⟨job, rfl, Option.some.inj h⟩, fun r => ?_⟩⟩
  rcases r with _ | _ | failed
  · trivial
  · exact endsHeld_of_unsettling (every_current_of rfl) _
  · trivial

theorem endsHeld_recordFailure (error : AttemptError) :
    EndsHeld (some job) (w.recordFailure job error) := by
  unfold recordFailure
  split
  · refine ⟨fun _ h => (nomatch h), fun now => ?_⟩
    dsimp only
    split
    · exact endsHeld_recordFailureAt job error _
    · trivial
  · exact endsHeld_recordFailureAt job error none

theorem endsHeld_finish (outcome : Except AttemptError Unit) :
    EndsHeld (some job) (w.finish job outcome) := by
  refine ⟨fun _ h => (nomatch h), fun _ => ?_⟩
  cases outcome with
  | ok => exact endsHeld_recordSuccess job
  | error e => exact endsHeld_recordFailure w job e

theorem endsHeld_call_of_quiet {c : ServiceCall} {next : c.Reply → ServiceProgram (Option Job)}
    (hc : c.Quiet) (h : ∀ r, EndsHeld (some job) (next r)) :
    EndsHeld (some job) (.call c next) := by
  cases c with
  | clock | within | count | timeAttempt => exact ⟨fun _ hs => (nomatch hs), h⟩
  | _ => exact hc.elim

theorem endsHeld_process (id : Uuid) (q : Option Job) : EndsHeld q (w.process id) := by
  refine ⟨fun _ h => (nomatch h), fun now => ⟨fun _ h => (nomatch h), fun r => ?_⟩⟩
  rcases r with _ | _ | job
  · trivial
  · trivial
  · exact attempt_closed (fun _ _ hc => endsHeld_call_of_quiet job hc.quiet) (endsHeld_finish w job)

end Worker

theorem Activity.endsHeld_program (a : Activity) (q : Option Job) : EndsHeld q a.program := by
  rcases a.works_or_unsettling with ⟨w, id, rfl⟩ | h
  · exact w.endsHeld_process id q
  · exact endsHeld_of_unsettling h q

variable {i k : Nat} {job : Job} {past : List Event} {e : Event}

def inHand (i : Nat) (past : List Event) : Option Job :=
  past.foldl (fun q e => if e.strand = i then e.call.handAfter q e.reply else q) none

theorem inHand_snoc (i : Nat) (past : List Event) (e : Event) :
    inHand i (past ++ [e]) =
      if e.strand = i then e.call.handAfter (inHand i past) e.reply else inHand i past := by
  simp [inHand]

def Holds (i : Nat) (job : Job) (past : List Event) : Prop :=
  ∃ a c b, past = a ++ c :: b ∧ c.strand = i ∧ c.call.claimed? c.reply = some job ∧
    job.status = .processing ∧ ∀ f ∈ b, ¬ f.Touches job.id

theorem Holds.snoc (h : Holds i job past) (he : ¬ e.Touches job.id) :
    Holds i job (past ++ [e]) := by
  obtain ⟨a, c, b, rfl, hi, hc, hs, hb⟩ := h
  refine ⟨a, c, b ++ [e], by simp, hi, hc, hs, fun f hf => ?_⟩
  rcases List.mem_append.mp hf with hf | hf
  · exact hb f hf
  · exact List.mem_singleton.mp hf ▸ he

theorem touches_of_claimed? (h : e.call.claimed? e.reply = some job) : e.Touches job.id :=
  ⟨.claimed, ServiceCall.mem_changes_of_claimed? h⟩

theorem Holds.strand_eq {job' : Job} (h : Holds i job past) (h' : Holds k job' past)
    (hid : job.id = job'.id) : i = k := by
  obtain ⟨a, c, b, rfl, rfl, hc, -, hb⟩ := h
  obtain ⟨a', c', b', hp, rfl, hc', -, hb'⟩ := h'
  -- Each claim is the last that has touched the job, so they are one claim.
  rw [eq_of_last hp (touches_of_claimed? hc) (hid ▸ touches_of_claimed? hc') hb (hid ▸ hb')]

def Spared (past : List Event) : Prop :=
  ∀ a e b, past = a ++ e :: b → ∀ id, (id, .reaped) ∈ e.changes →
    ∀ i job, inHand i a = some job → job.id ≠ id

theorem Spared.of_prefix {past' : List Event} (h : Spared past') (hp : past <+: past') :
    Spared past := by
  obtain ⟨l, rfl⟩ := hp
  exact fun a e b hs => h a e (b ++ l) (by simp [hs])

def Exclusive (past : List Event) : Prop :=
  ∀ i k a b, inHand i past = some a → inHand k past = some b → a.fileId = b.fileId → i = k

inductive Ends (job : Job) : (c : ServiceCall) → c.Reply → Prop
  | completed (now clock : Instant) :
      Ends job (.store (.complete job.id now)) (.ok (some (job.finished now clock)))
  | failed (error : String) (next : Option Instant) (clock : Instant) :
      Ends job (.store (.recordFailure job.id error next))
        (.ok (some (job.failedWith error next clock)))

def EndsOwn (past : List Event) : Prop :=
  ∀ a e b, past = a ++ e :: b → ∀ id, e.call.settles? = some id →
    ∃ job, Holds e.strand job a ∧ job.id = id ∧ Ends job e.call e.reply

theorem Shared.ends_of_processing {s : Shared} {o : Outside} {c : ServiceCall}
    (hj : s.store.get? job.id = some job) (hs : job.status = .processing)
    (hc : c.settles? = some job.id) : Ends job c (s.answer o c).1 := by
  cases c with
  | store op =>
    cases op with
    | complete id now =>
      obtain rfl : id = job.id := Option.some.inj hc
      rw [answer_store_eq (.complete job.id now) (MemoryStore.transition_of_get? hj hs)]
      exact .completed now o.time
    | recordFailure id error next =>
      obtain rfl : id = job.id := Option.some.inj hc
      rw [answer_store_eq (.recordFailure job.id error next) (MemoryStore.transition_of_get? hj hs)]
      exact .failed error next o.time
    | _ => cases hc
  | _ => cases hc

namespace System

open MemoryStore

variable {s t : System}

def hands : View (Option Job) where
  of := inHand
  note q c r := c.handAfter q r
  of_snoc := inHand_snoc

structure Guarded (s : System) : Prop where
  judged : s.Judged
  single : s.store.OneEach Job.isActive
  follows : ∀ i t, s.strands[i]? = some t → EndsHeld (inHand i s.past) t.rest
  holds : ∀ i job, inHand i s.past = some job → Holds i job s.past
  ends : EndsOwn s.past

theorem guarded_idle {shared : Shared} (h : Reaches shared.store) : (idle shared).Guarded where
  judged := judged_idle h.distinct
  single := h.oneActive
  follows _ _ ht := nomatch ht
  holds _ _ hj := nomatch hj
  ends a _ _ hp := by cases a <;> cases hp

theorem Guarded.row (h : s.Guarded) (hj : Holds i job s.past) :
    s.store.get? job.id = some job ∧ job.status = .processing := by
  obtain ⟨a, c, b, hp, -, hc, hs, hb⟩ := hj
  exact ⟨h.judged.asClaimed a c b job hp hc hb, hs⟩

theorem Guarded.exclusive (h : s.Guarded) : Exclusive s.past := by
  intro i k a b ha hb hfile
  obtain ⟨hrow, hs⟩ := h.row (h.holds i a ha)
  obtain ⟨hrow', hs'⟩ := h.row (h.holds k b hb)
  -- Both jobs are active, and the store has one active job of a file.
  have active {j : Job} (hs : j.status = .processing) : j.isActive := isActive_iff.mpr (.inr hs)
  have same := h.single a (mem_of_get? hrow).1 b (mem_of_get? hrow').1 (active hs) (active hs') hfile
  exact (h.holds i a ha).strand_eq (h.holds k b hb) same

section Answered

variable {a : Activity} {c : ServiceCall} {next : c.Reply → ServiceProgram a.Outcome} {o : Outside}

theorem Guarded.settles_of_touches (h : s.Guarded) (ht : s.strands[i]? = some ⟨a, .call c next⟩)
    (hu : s.store.Unused o.freshId) (hk : Holds k job s.past)
    (hreaped : (job.id, .reaped) ∉ c.changes (s.shared.answer o c).1)
    (he : (⟨i, c, (s.shared.answer o c).1⟩ : Event).Touches job.id) :
    i = k ∧ c.settles? = some job.id := by
  obtain ⟨l, hl⟩ := he
  obtain ⟨hrow, hs⟩ := h.row hk
  have hstep := Shared.answer_row h.judged.tracked.distinct hu c job.id
  rw [show s.shared.store.get? job.id = some job from hrow] at hstep
  generalize (s.shared.answer o c).2.store.get? job.id = after at hstep
  cases hstep with
  | same _ hn => exact absurd hl (hn l)
  | @turned k' _ j' hm _ hturn =>
    have settled (hl : k'.settles) : i = k ∧ c.settles? = some job.id := by
      have hc := Shared.settles?_of_changes hl hm
      obtain ⟨job', hj', hid⟩ := (h.follows i _ ht).1 job.id hc
      exact ⟨(h.holds i job' hj').strand_eq hk hid, hc⟩
    cases hturn with
    | completed => exact settled (.inl rfl)
    | failed => exact settled (.inr rfl)
    | reaped => exact absurd hm hreaped
    | claimed _ _ _ hp | reset _ _ hp => exact nomatch hs.symm.trans hp
    | requeued _ _ hd => exact nomatch hs.symm.trans (Job.isDue_iff.mp hd).1

theorem Guarded.holds_answered (h : s.Guarded) (ht : s.strands[i]? = some ⟨a, .call c next⟩)
    (hu : s.store.Unused o.freshId) (hs : Spared (s.answered i o a c next).past)
    (hk : inHand k (s.answered i o a c next).past = some job) :
    Holds k job (s.answered i o a c next).past := by
  have kept (hj : inHand k s.past = some job) (hc : i = k → c.settles? = none) :
      Holds k job (s.answered i o a c next).past := by
    have spared : (job.id, .reaped) ∉ c.changes (s.shared.answer o c).1 := fun hr =>
      hs s.past ⟨i, c, _⟩ [] rfl job.id hr k job hj rfl
    refine (h.holds k job hj).snoc fun he => ?_
    obtain ⟨hik, hsome⟩ := h.settles_of_touches ht hu (h.holds k job hj) spared he
    exact nomatch (hc hik).symm.trans hsome
  simp only [answered, inHand_snoc] at hk
  split at hk
  · rename_i hik
    unfold ServiceCall.handAfter at hk
    split at hk
    · cases hk
    · rename_i hsettles
      cases hclaim : c.claimed? (s.shared.answer o c).1 with
      | none =>
        rw [hclaim] at hk
        exact kept hk fun _ => by simpa using hsettles
      | some claimed =>
        rw [hclaim] at hk
        obtain rfl := Option.some.inj hk
        exact ⟨s.past, _, [], rfl, hik, hclaim, Shared.processing_of_claimed? hclaim, by simp⟩
  · exact kept hk fun hik => absurd hik ‹_›

theorem Guarded.ends_answered (h : s.Guarded) (ht : s.strands[i]? = some ⟨a, .call c next⟩) :
    EndsOwn (s.answered i o a c next).past := by
  intro pre e post hp id hid
  rcases snoc_eq_append_cons hp with ⟨-, rfl, rfl⟩ | ⟨post, -, hpast⟩
  · obtain ⟨job, hj, rfl⟩ := (h.follows i _ ht).1 id hid
    obtain ⟨hrow, hs⟩ := h.row (h.holds i job hj)
    exact ⟨job, h.holds i job hj, rfl, Shared.ends_of_processing hrow hs hid⟩
  · exact h.ends pre e post hpast id hid

end Answered

theorem Guarded.leads (h : s.Guarded) (hl : s.Leads t) (hs : Spared t.past) : t.Guarded := by
  have judged := h.judged.leads hl
  have follows : ∀ i u, t.strands[i]? = some u → EndsHeld (inHand i t.past) u.rest :=
    hands.follows_leads (Q := fun q u => EndsHeld q u.rest)
      (fun q a => a.endsHeld_program q) (fun hq => hq.2) h.follows hl
  cases hl with
  | stay => exact h
  | start a => exact ⟨judged, h.single, follows, h.holds, h.ends⟩
  | @answered i a c next o ht hu =>
    refine ⟨judged, ?_, follows, fun _ _ => h.holds_answered ht hu hs, h.ends_answered ht⟩
    rcases answer_store s.shared o c with ⟨op, -, he⟩ | ⟨-, he⟩
    · rw [show (s.answered i o a c next).store = _ from he]
      exact oneActive_run h.judged.tracked.distinct h.single op
    · rw [show (s.answered i o a c next).store = _ from he]
      exact h.single
  | reorder hp => exact ⟨judged, h.single.perm hp, follows, h.holds, h.ends⟩

theorem Leads.past_prefix (h : s.Leads t) : s.past <+: t.past := by
  cases h with
  | stay | start | reorder => exact List.prefix_refl _
  | answered => exact List.prefix_append _ _

theorem play_guarded {shared : Shared} (h : Reaches shared.store) (bs : List Beat) :
    Spared ((idle shared).play bs).past → ((idle shared).play bs).Guarded := by
  -- By induction on the beats: a history that spares the jobs in hand has only such beginnings.
  refine play_invariant (P := fun s => Spared s.past → s.Guarded) (fun _ => guarded_idle h) ?_ ?_ bs
  · intro s queue hs spared
    have guarded := hs spared
    exact ⟨guarded.judged.withQueue queue, guarded.single, guarded.follows, guarded.holds,
      guarded.ends⟩
  · exact fun s t hs hl spared => (hs (spared.of_prefix hl.past_prefix)).leads hl spared

theorem workers_exclude_each_other {shared : Shared} (h : Reaches shared.store) (bs : List Beat)
    (hs : Spared ((idle shared).play bs).past) :
    Exclusive ((idle shared).play bs).past ∧ EndsOwn ((idle shared).play bs).past :=
  have guarded := play_guarded h bs hs
  ⟨guarded.exclusive, guarded.ends⟩

theorem claims_of_inHand (h : inHand i past = some job) : ∃ c ∈ past, c.Claims job.id := by
  induction past using List.reverseRecOn with
  | nil => cases h
  | append_singleton past e ih =>
    have earlier (hp : inHand i past = some job) : ∃ c ∈ past ++ [e], c.Claims job.id :=
      have ⟨c, hc, hclaims⟩ := ih hp
      ⟨c, List.mem_append_left _ hc, hclaims⟩
    rw [inHand_snoc] at h
    split at h
    · unfold ServiceCall.handAfter at h
      split at h
      · cases h
      · cases hc : e.call.claimed? e.reply with
        | none => exact earlier (by simpa [hc] using h)
        | some claimed =>
          obtain rfl : claimed = job := by simpa [hc] using h
          exact ⟨e, by simp, ServiceCall.mem_changes_of_claimed? hc⟩
    · exact earlier h

theorem spared_of_unclaimed
    (h : ∀ e ∈ past, ∀ d ∈ past, ∀ id, (id, .reaped) ∈ e.changes → ¬ d.Claims id) :
    Spared past := by
  rintro a e b rfl id hr i job hj rfl
  obtain ⟨c, hc, hclaims⟩ := claims_of_inHand hj
  exact h e (by simp) c (by simp [hc]) job.id hr hclaims

def leftBehind : Shared where
  store := ((MemoryStore.empty.run .epoch (.ofNat 5) (.create (.ofNat 7) none 3)).2.run .epoch
    (.ofNat 6) (.claim (.ofNat 5) .epoch)).2
  queue := ⟨4, [], []⟩
  clock := .epoch

theorem reaches_leftBehind : Reaches leftBehind.store :=
  (Reaches.empty.run .epoch (.ofNat 5) _ (by decide)).run .epoch (.ofNat 6) _ (by decide)

def sideBySide : List Beat :=
  [.move (.start (.enqueue 3 (.ofNat 9) none)), .move (.start (.enqueue 3 (.ofNat 8) none))] ++
  (resumed 2 0 500 (.ofNat 1) ++ resumed 2 1 500 (.ofNat 2) ++ resumed 2 0 500 (.ofNat 3) ++
    resumed 2 1 500 (.ofNat 3)).map .move ++
  [.deliver ⟨.default, .ofSeconds 120⟩, .deliver ⟨.default, .ofSeconds 120⟩,
    .move (.start (.sweep (.ofSeconds 900)))] ++
  (resumed 2 2 500 (.ofNat 3) ++ resumed 2 3 500 (.ofNat 3) ++ resumed 3 4 1000 (.ofNat 3) ++
    resumed 6 2 1000 (.ofNat 3)).map .move

theorem changes_sideBySide :
    ((idle leftBehind).play sideBySide).past.flatMap Event.changes =
      [(.ofNat 1, .created), (.ofNat 2, .created), (.ofNat 1, .claimed), (.ofNat 2, .claimed),
        (.ofNat 5, .reaped), (.ofNat 5, .requeued), (.ofNat 1, .failed)] := by
  decide +kernel

theorem spared_sideBySide : Spared ((idle leftBehind).play sideBySide).past := by
  refine spared_of_unclaimed fun e he d hd id hr hc => ?_
  have reaped := List.mem_flatMap.mpr ⟨e, he, hr⟩
  have claimed := List.mem_flatMap.mpr ⟨d, hd, hc⟩
  rw [changes_sideBySide] at reaped claimed
  obtain rfl : id = .ofNat 5 := by simpa using reaped
  exact absurd claimed (by decide)

theorem workers_exclude_each_other_sideBySide :
    Reaches leftBehind.store ∧ Spared ((idle leftBehind).play sideBySide).past ∧
      (inHand 3 ((idle leftBehind).play sideBySide).past).map (·.id) = some (.ofNat 2) ∧
      Exclusive ((idle leftBehind).play sideBySide).past ∧
      EndsOwn ((idle leftBehind).play sideBySide).past :=
  ⟨reaches_leftBehind, spared_sideBySide, by decide +kernel,
    workers_exclude_each_other reaches_leftBehind sideBySide spared_sideBySide⟩

end System

end DocumentPreview
