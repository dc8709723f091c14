import DocumentPreview.Proofs.Service.Counters
import DocumentPreview.Proofs.Service.Exclusion

namespace DocumentPreview

open Program

variable {α : Type}

namespace ServiceCall

def Claims : ServiceCall → Prop
  | .store (.claim ..) => True
  | _ => False

def Handless (c : ServiceCall) : Prop :=
  c.settles? = none ∧ ¬ c.Claims

theorem claimed?_eq_none {c : ServiceCall} (h : ¬ c.Claims) (r : c.Reply) :
    c.claimed? r = none := by
  cases c with
  | store op =>
    cases op with
    | claim => exact absurd trivial h
    | _ => cases r <;> rfl
  | _ => rfl

theorem claimed?_eq_none_of_settles {c : ServiceCall} (h : c.settles?.isSome) (r : c.Reply) :
    c.claimed? r = none := by
  refine claimed?_eq_none (fun hc => ?_) r
  cases c with
  | store op =>
    cases op with
    | claim => cases h
    | _ => exact hc
  | _ => exact hc

theorem Handless.handAfter {c : ServiceCall} (h : c.Handless) (q : Option Job) (r : c.Reply) :
    c.handAfter q r = q := by
  rw [ServiceCall.handAfter, h.1, claimed?_eq_none h.2]
  rfl

theorem Waits.handless {c : ServiceCall} (h : c.Waits) : c.Handless := by
  cases c with
  | clock | within => exact ⟨rfl, not_false⟩
  | _ => exact h.elim

end ServiceCall

def HandsOver (q : Option Job) (p : ServiceProgram α) : Prop :=
  p.Concludes
    (fun q (c : ServiceCall) => (c.settles?.isSome → q.isSome) ∧ (c.Claims → q = none))
    ServiceCall.handAfter (fun q a => a.isSome → q = none) q

theorem handsOver_call {q : Option Job} {c : ServiceCall} {next : c.Reply → ServiceProgram α}
    (hc : c.Handless) (h : ∀ r, HandsOver q (next r)) : HandsOver q (.call c next) := by
  refine ⟨⟨fun hs => ?_, fun hk => absurd hk hc.2⟩, fun r => ?_⟩
  · rw [hc.1] at hs
    cases hs
  · exact (show HandsOver (c.handAfter q r) (next r) from (hc.handAfter q r).symm ▸ h r)

theorem handsOver_of_handless {p : ServiceProgram α} (h : p.Every ServiceCall.Handless) :
    HandsOver none p := by
  induction p with
  | done a => exact fun _ => rfl
  | abort => exact fun _ => rfl
  | call c next ih => exact handsOver_call h.1 fun r => ih r (h.2 r)

namespace Worker

variable (w : Worker) (job : Job)

theorem handsOver_current (id : Uuid) : HandsOver none (current id) :=
  handsOver_of_handless (every_current_of ⟨rfl, not_false⟩)

theorem handsOver_recordSuccess : HandsOver (some job) (recordSuccess job) := by
  refine handsOver_call ⟨rfl, not_false⟩ fun now => ⟨⟨fun _ => rfl, nofun⟩, fun r => ?_⟩
  rcases r with _ | _ | done
  · exact fun _ => rfl
  · exact handsOver_current job.id
  · exact handsOver_call ⟨rfl, not_false⟩ fun _ _ => rfl

theorem handsOver_recordFailureAt (error : AttemptError) (next : Option Instant) :
    HandsOver (some job) (recordFailureAt job error next) := by
  refine handsOver_call ⟨rfl, not_false⟩ fun _ => ⟨⟨fun _ => rfl, nofun⟩, fun r => ?_⟩
  rcases r with _ | _ | failed
  · exact fun _ => rfl
  · exact handsOver_current job.id
  · exact fun _ => rfl

theorem handsOver_recordFailure (error : AttemptError) :
    HandsOver (some job) (w.recordFailure job error) := by
  unfold recordFailure
  split
  · refine handsOver_call ⟨rfl, not_false⟩ fun now => ?_
    split
    · exact handsOver_recordFailureAt job error _
    · exact nofun
  · exact handsOver_recordFailureAt job error none

theorem handsOver_finish (outcome : Except AttemptError Unit) :
    HandsOver (some job) (w.finish job outcome) := by
  refine handsOver_call ⟨rfl, not_false⟩ fun _ => ?_
  cases outcome with
  | ok => exact handsOver_recordSuccess job
  | error e => exact handsOver_recordFailure w job e

theorem handsOver_process (id : Uuid) : HandsOver none (w.process id) := by
  refine handsOver_call ⟨rfl, not_false⟩ fun now => ⟨⟨nofun, fun _ => rfl⟩, fun r => ?_⟩
  rcases r with _ | _ | job
  · exact fun _ => rfl
  · exact fun _ => rfl
  · exact attempt_closed (P := HandsOver (some job)) (fun _ _ hc => handsOver_call hc.handless)
      (handsOver_finish w job)

end Worker

def ServiceCall.Bystands (c : ServiceCall) : Prop :=
  c.Handless ∧ (c.closes? = none ∨ c.closes? = some .jobsEnqueued)

def Activity.Makes : Activity → ServiceCall → Prop
  | .work .., .store (.reapStale ..) => False
  | .work .., _ => True
  | _, c => c.Bystands

theorem AttemptCall.makes {job : Job} {c : ServiceCall} (h : AttemptCall job c) (w : Worker)
    (id : Uuid) : (Activity.work w id).Makes c := by
  cases h <;> trivial

theorem Sweep.PassCall.bystands {c : ServiceCall} (h : PassCall c) : c.Bystands := by
  cases h <;> exact ⟨⟨rfl, not_false⟩, .inl rfl⟩

theorem Previews.RequestCall.bystands {c : ServiceCall} (h : RequestCall c) : c.Bystands := by
  cases h with
  | jobsEnqueued => exact ⟨⟨rfl, not_false⟩, .inr rfl⟩
  | _ => exact ⟨⟨rfl, not_false⟩, .inl rfl⟩

theorem Worker.makes_process (w : Worker) (id : Uuid) :
    (w.process id).Every (Activity.work w id).Makes := by
  refine ⟨trivial, fun now => ⟨trivial, fun r => ?_⟩⟩
  rcases r with _ | _ | job
  · trivial
  · trivial
  · exact (every_attempt w job).imp fun _ h => h.makes w id

theorem Activity.makes_program (a : Activity) : a.program.Every a.Makes := by
  cases a with
  | work w id => exact w.makes_process id
  | sweep staleAfter => exact (Sweep.every_runOnce staleAfter).imp fun _ h => h.bystands
  | enqueue maxAttempts fileId requestedBy =>
    exact (Previews.every_enqueue maxAttempts fileId requestedBy).imp fun _ h => h.bystands
  | retry fileId => exact (Previews.every_retry fileId).imp fun _ h => h.bystands

theorem Activity.handsOver_program (a : Activity) : HandsOver none a.program := by
  cases a with
  | work w id => exact w.handsOver_process id
  | sweep staleAfter =>
    exact handsOver_of_handless ((Sweep.every_runOnce staleAfter).imp fun _ h => h.bystands.1)
  | enqueue maxAttempts fileId requestedBy =>
    exact handsOver_of_handless
      ((Previews.every_enqueue maxAttempts fileId requestedBy).imp fun _ h => h.bystands.1)
  | retry fileId =>
    exact handsOver_of_handless ((Previews.every_retry fileId).imp fun _ h => h.bystands.1)

theorem inHand_eq_none {i : Nat} {past : List Event}
    (h : ∀ e ∈ past, e.strand = i → ¬ e.call.Claims) : inHand i past = none := by
  induction past using List.reverseRecOn with
  | nil => rfl
  | append_singleton past e ih =>
    have before := ih fun f hf => h f (List.mem_append_left _ hf)
    rw [inHand_snoc, before]
    split
    · next hi =>
      rw [ServiceCall.handAfter, ServiceCall.claimed?_eq_none (h e (by simp) hi)]
      split <;> rfl
    · rfl

theorem inHand_append_of_ne {i : Nat} (past : List Event) {later : List Event}
    (h : ∀ e ∈ later, e.strand ≠ i) : inHand i (past ++ later) = inHand i past := by
  induction later using List.reverseRecOn with
  | nil => rw [List.append_nil]
  | append_singleton later e ih =>
    rw [← List.append_assoc, inHand_snoc, if_neg (h e (by simp))]
    exact ih fun f hf => h f (List.mem_append_left _ hf)

def Event.Claimed (e : Event) : Prop :=
  (e.call.claimed? e.reply).isSome

instance (e : Event) : Decidable e.Claimed :=
  inferInstanceAs (Decidable (_ = true))

namespace System

variable {s t : System}

structure Handed (s : System) (holders : List Nat) : Prop where
  follows : ∀ i t, s.strands[i]? = some t → HandsOver (inHand i s.past) t.rest
  makes : ∀ t ∈ s.strands, t.rest.Every t.activity.Makes
  made : ∀ e ∈ s.past, ∃ t, s.strands[e.strand]? = some t ∧ t.activity.Makes e.call
  nodup : holders.Nodup
  held : ∀ i, i ∈ holders ↔ (inHand i s.past).isSome
  sums : s.past.countP (·.Claimed) =
    s.past.countP (·.call.settles?.isSome) + holders.length

theorem handed_idle (shared : Shared) : (idle shared).Handed [] where
  follows _ _ ht := nomatch ht
  makes _ ht := nomatch ht
  made _ he := nomatch he
  nodup := .nil
  held _ := iff_of_false List.not_mem_nil Bool.false_ne_true
  sums := rfl

theorem Handed.start {holders : List Nat} (h : s.Handed holders) (a : Activity) :
    Handed { s with strands := s.strands ++ [⟨a, a.program⟩] } holders where
  follows i t ht := by
    rcases getElem?_snoc ht with ht | ⟨rfl, rfl⟩
    · exact h.follows i t ht
    · have nothing : inHand s.strands.length s.past = none := by
        refine inHand_eq_none fun e he hi => ?_
        obtain ⟨t, ht, -⟩ := h.made e he
        exact absurd (List.getElem?_eq_some_iff.mp ht).1 (by omega)
      rw [nothing]
      exact a.handsOver_program
  makes t ht := by
    rcases List.mem_append.mp ht with ht | ht
    · exact h.makes t ht
    · obtain rfl := List.mem_singleton.mp ht
      exact a.makes_program
  made e he := by
    obtain ⟨t, ht, hm⟩ := h.made e he
    exact ⟨t, List.getElem?_append_left (List.getElem?_eq_some_iff.mp ht).1 ▸ ht, hm⟩
  nodup := h.nodup
  held := h.held
  sums := h.sums

section Answered

variable {i : Nat} {a : Activity} {c : ServiceCall} {next : c.Reply → ServiceProgram a.Outcome}
  {o : Outside} {holders : List Nat}

theorem Handed.holders_answered (h : s.Handed holders)
    (ht : s.strands[i]? = some ⟨a, .call c next⟩) :
    ∃ holders' : List Nat, holders'.Nodup ∧
      (∀ k, k ∈ holders' ↔ (inHand k (s.answered i o a c next).past).isSome) ∧
      (s.answered i o a c next).past.countP (·.Claimed) =
        (s.answered i o a c next).past.countP (·.call.settles?.isSome) + holders'.length := by
  obtain ⟨hand, free⟩ := (h.follows i _ ht).1
  have sums := h.sums
  simp only [answered, inHand_snoc, List.countP_append, List.countP_singleton, decide_eq_true_eq]
  generalize (s.shared.answer o c).1 = r
  have success : (⟨i, c, r⟩ : Event).Claimed ↔ (c.claimed? r).isSome := Iff.rfl
  simp only [success]
  cases hs : c.settles? with
  | some id =>
    -- The last word takes the job from the hands of the program.
    have member : i ∈ holders := (h.held i).mpr (hand (by rw [hs]; rfl))
    have positive := List.length_pos_of_mem member
    have unclaimed : c.claimed? r = none :=
      ServiceCall.claimed?_eq_none_of_settles (by rw [hs]; rfl) r
    refine ⟨holders.erase i, h.nodup.erase i, fun k => ?_, ?_⟩
    · rw [h.nodup.mem_erase_iff, ServiceCall.handAfter, hs]
      by_cases hik : i = k
      · simp [hik]
      · simp [hik, Ne.symm hik, h.held k]
    · rw [List.length_erase_of_mem member, unclaimed]
      simp
      omega
  | none =>
    cases hc : c.claimed? r with
    | some job =>
      have claims : c.Claims := by
        by_contra hn
        rw [ServiceCall.claimed?_eq_none hn] at hc
        cases hc
      have fresh : i ∉ holders := by
        rw [h.held, free claims]
        exact Bool.false_ne_true
      refine ⟨i :: holders, List.nodup_cons.mpr ⟨fresh, h.nodup⟩, fun k => ?_, ?_⟩
      · rw [List.mem_cons, ServiceCall.handAfter, hs, hc]
        by_cases hik : i = k
        · simp [hik]
        · simp [hik, Ne.symm hik, h.held k]
      · simp
        omega
    | none =>
      refine ⟨holders, h.nodup, fun k => ?_, by simpa using sums⟩
      rw [h.held, ServiceCall.handAfter, hs, hc]
      by_cases hik : i = k
      · simp [hik]
      · simp [hik]

theorem Handed.answered (h : s.Handed holders) (ht : s.strands[i]? = some ⟨a, .call c next⟩) :
    ∃ holders', (s.answered i o a c next).Handed holders' := by
  obtain ⟨holders', nodup, held, sums⟩ := h.holders_answered (o := o) ht
  have hi := (List.getElem?_eq_some_iff.mp ht).1
  have follows : ∀ k u, (s.answered i o a c next).strands[k]? = some u →
      HandsOver (inHand k (s.answered i o a c next).past) u.rest :=
    hands.follows_answered (Q := fun q u => HandsOver q u.rest) h.follows (h.follows i _ ht).2
  refine ⟨holders', follows, fun t ht' => ?_, fun e he => ?_, nodup, held, sums⟩
  · have own := h.makes _ (List.mem_of_getElem? ht)
    rcases List.mem_or_eq_of_mem_set ht' with ht' | rfl
    · exact h.makes t ht'
    · exact own.2 _
  · have kept {k : Nat} {u : Strand} (hu : s.strands[k]? = some u) :
        ∃ u', (s.answered i o a c next).strands[k]? = some u' ∧ u'.activity = u.activity := by
      by_cases hik : i = k
      · subst hik
        obtain rfl := Option.some.inj (ht.symm.trans hu)
        exact ⟨_, List.getElem?_set_self hi, rfl⟩
      · exact ⟨u, (List.getElem?_set_ne hik).trans hu, rfl⟩
    rcases List.mem_append.mp he with he | he
    · obtain ⟨u, hu, made⟩ := h.made e he
      obtain ⟨u', hu', same⟩ := kept hu
      exact ⟨u', hu', same ▸ made⟩
    · obtain rfl := List.mem_singleton.mp he
      obtain ⟨u', hu', same⟩ := kept ht
      exact ⟨u', hu', same ▸ (h.makes _ (List.mem_of_getElem? ht)).1⟩

end Answered

theorem play_handed (shared : Shared) (bs : List Beat) :
    ∃ holders, ((idle shared).play bs).Handed holders := by
  refine play_invariant (P := fun s => ∃ holders, s.Handed holders) ?_ ?_ ?_ bs
  · exact ⟨[], handed_idle shared⟩
  · rintro s queue ⟨holders, h⟩
    exact ⟨holders, h.follows, h.makes, h.made, h.nodup, h.held, h.sums⟩
  · rintro s t ⟨holders, h⟩ hl
    cases hl with
    | stay => exact ⟨holders, h⟩
    | reorder => exact ⟨holders, h.follows, h.makes, h.made, h.nodup, h.held, h.sums⟩
    | start a => exact ⟨holders, h.start a⟩
    | answered o ht hu => exact h.answered ht

end System

end DocumentPreview
