import DocumentPreview.Proofs.Service.Beats
import DocumentPreview.Proofs.Store.History

namespace DocumentPreview

open Program

namespace Metrics

theorem lookup_filter_ne {c k : Counter} (h : c ≠ k) (counters : List (Counter × Nat)) :
    (counters.filter (·.1 ≠ c)).lookup k = counters.lookup k := by
  induction counters with
  | nil => rfl
  | cons entry counters ih =>
    by_cases hc : entry.1 = c
    · have other : (k == entry.1) = false := by simpa [hc] using Ne.symm h
      rw [List.filter_cons_of_neg (by simpa using hc), ih, List.lookup_cons, other]
    · rw [List.filter_cons_of_pos (by simpa using hc), List.lookup_cons, List.lookup_cons, ih]

theorem value_count (m : Metrics) (c k : Counter) :
    (m.count c).value k = m.value k + if c = k then 1 else 0 := by
  by_cases h : c = k
  · simp [value, count, h]
  · have other : (k == c) = false := by simpa using Ne.symm h
    simp only [value, count, List.lookup_cons, other, lookup_filter_ne h, if_neg h, Nat.add_zero]

end Metrics

namespace ServiceCall

def counts? : ServiceCall → Option Counter
  | .count c => some c
  | _ => none

def opens? : (c : ServiceCall) → c.Reply → Option Counter
  | .store (.create ..), .ok made => if made.2 then some .jobsEnqueued else none
  | .store (.complete ..), .ok (some _) => some .jobsCompleted
  | .count (.jobsFailed terminal), _ => some (.jobsFailed terminal)
  | _, _ => none

def closes? : ServiceCall → Option Counter
  | .count .jobsEnqueued => some .jobsEnqueued
  | .count .jobsCompleted => some .jobsCompleted
  | .store (.recordFailure _ _ next) => some (.jobsFailed next.isNone)
  | _ => none

end ServiceCall

def Event.record (m : Metrics) (e : Event) : Metrics :=
  match e.call with
  | .count c => m.count c
  | .timeAttempt => m.timeAttempt
  | _ => m

def counted (past : List Event) : Metrics :=
  past.foldl Event.record .empty

theorem value_record (m : Metrics) (e : Event) (k : Counter) :
    (e.record m).value k = m.value k + if e.call.counts? = some k then 1 else 0 := by
  obtain ⟨i, c, r⟩ := e
  cases c with
  | count c => simp [Event.record, ServiceCall.counts?, Metrics.value_count]
  | _ => rfl

theorem value_counted (past : List Event) (k : Counter) :
    (counted past).value k = past.countP (·.call.counts? = some k) := by
  induction past using List.reverseRecOn with
  | nil => rfl
  | append_singleton past e ih =>
    have last : counted (past ++ [e]) = e.record (counted past) := by simp [counted]
    rw [last, value_record, ih, List.countP_append, List.countP_singleton]
    simp only [decide_eq_true_eq]

variable {α : Type}

def PairedFrom (q : Option Counter) (p : ServiceProgram α) : Prop :=
  p.Concludes (fun q (c : ServiceCall) => c.closes? = q)
    (fun _ (c : ServiceCall) (r : c.Reply) => c.opens? r) (fun q _ => q = none) q

def Program.due? : ServiceProgram α → Option Counter
  | .done _ | .abort => none
  | .call c _ => ServiceCall.closes? c

theorem PairedFrom.due? {q : Option Counter} {p : ServiceProgram α} (h : PairedFrom q p) :
    p.due? = q := by
  cases p with
  | done | abort => exact h.symm
  | call c next => exact h.1

def Lone (c : ServiceCall) : Prop :=
  c.closes? = none ∧ ∀ r, c.opens? r = none

theorem pairedFrom_of_lone {p : ServiceProgram α} (h : p.Every Lone) : PairedFrom none p := by
  induction p with
  | done | abort => rfl
  | call c next ih =>
    refine ⟨h.1.1, fun r => ?_⟩
    have quiet : ServiceCall.opens? c r = none := h.1.2 r
    exact (show PairedFrom (ServiceCall.opens? c r) (next r) from quiet ▸ ih r (h.2 r))

namespace Worker

variable (w : Worker) (job : Job)

theorem paired_current (id : Uuid) : PairedFrom none (current id) :=
  pairedFrom_of_lone (every_current_of ⟨rfl, fun _ => rfl⟩)

theorem paired_recordSuccess : PairedFrom none (recordSuccess job) := by
  refine ⟨rfl, fun now => ⟨rfl, fun r => ?_⟩⟩
  rcases r with _ | _ | done
  · rfl
  · exact paired_current job.id
  · exact ⟨rfl, fun _ => rfl⟩

theorem paired_recordFailureAt (error : AttemptError) (next : Option Instant) :
    PairedFrom none (recordFailureAt job error next) := by
  refine ⟨rfl, fun _ => ⟨rfl, fun r => ?_⟩⟩
  rcases r with _ | _ | failed
  · rfl
  · exact paired_current job.id
  · rfl

theorem paired_recordFailure (error : AttemptError) :
    PairedFrom none (w.recordFailure job error) := by
  unfold recordFailure
  split
  · refine ⟨rfl, fun now => ?_⟩
    dsimp only
    split
    · exact paired_recordFailureAt job error _
    · rfl
  · exact paired_recordFailureAt job error none

theorem paired_finish (outcome : Except AttemptError Unit) :
    PairedFrom none (w.finish job outcome) := by
  refine ⟨rfl, fun _ => ?_⟩
  cases outcome with
  | ok => exact paired_recordSuccess job
  | error e => exact paired_recordFailure w job e

theorem paired_process (id : Uuid) : PairedFrom none (w.process id) := by
  refine ⟨rfl, fun now => ⟨rfl, fun r => ?_⟩⟩
  rcases r with _ | _ | job
  · rfl
  · rfl
  · refine attempt_closed (P := PairedFrom none) (fun c next hc h => ?_) (paired_finish w job)
    cases c with
    | clock | within => exact ⟨rfl, h⟩
    | _ => exact hc.elim

end Worker

theorem Sweep.PassCall.lone {c : ServiceCall} (h : PassCall c) : Lone c := by
  cases h <;> exact ⟨rfl, fun _ => rfl⟩

namespace Previews

theorem paired_offer (job : Job) (created : Bool) : PairedFrom none (offer job created) := by
  refine ⟨rfl, fun r => ?_⟩
  cases r with
  | full => exact ⟨rfl, fun _ => rfl⟩
  | admitted | alreadyQueued | closed => rfl

theorem paired_enqueue (maxAttempts : Int32) (fileId : Uuid) (requestedBy : Option String) :
    PairedFrom none (enqueue maxAttempts fileId requestedBy) := by
  refine ⟨rfl, fun r => ?_⟩
  rcases r with _ | _ | file
  · rfl
  · rfl
  · refine ⟨rfl, fun r => ?_⟩
    rcases r with e | ⟨job, _ | _⟩
    · rfl
    · rfl
    · exact ⟨rfl, fun _ => paired_offer job true⟩

theorem paired_retry (fileId : Uuid) : PairedFrom none (retry fileId) := by
  refine ⟨rfl, fun r => ?_⟩
  rcases r with _ | _ | latest
  · rfl
  · rfl
  · dsimp only
    split
    · refine ⟨rfl, fun r => ?_⟩
      rcases r with _ | _ | job
      · rfl
      · refine ⟨rfl, fun r => ?_⟩
        rcases r with _ | _ | job <;> rfl
      · exact paired_offer job false
    · rfl

end Previews

theorem Activity.paired_program (a : Activity) : PairedFrom none a.program := by
  cases a with
  | work w id => exact w.paired_process id
  | sweep staleAfter =>
    exact pairedFrom_of_lone ((Sweep.every_runOnce staleAfter).imp fun _ h => h.lone)
  | enqueue maxAttempts fileId requestedBy =>
    exact Previews.paired_enqueue maxAttempts fileId requestedBy
  | retry fileId => exact Previews.paired_retry fileId

def Event.opens? (e : Event) : Option Counter :=
  e.call.opens? e.reply

def Event.closes? (e : Event) : Option Counter :=
  e.call.closes?

def occurrences (k : JobChange) (past : List Event) : List Uuid :=
  past.flatMap fun e => (e.changes.filter (·.2 = k)).map (·.1)

theorem occurrences_snoc (k : JobChange) (past : List Event) (e : Event) :
    occurrences k (past ++ [e]) = occurrences k past ++ (e.changes.filter (·.2 = k)).map (·.1) := by
  simp [occurrences]

theorem changes_filter_eq_nil {op : StoreOp} {k : JobChange} (h : op.change? ≠ some k)
    (r : op.Result) : (op.changes r).filter (·.2 = k) = [] := by
  rw [List.filter_eq_nil_iff]
  rintro ⟨id, l⟩ hl same
  obtain rfl : l = k := of_decide_eq_true same
  exact h (StoreOp.change?_of_mem_changes hl)

inductive CountedAs : JobChange → Counter → Prop
  | created : CountedAs .created .jobsEnqueued
  | completed : CountedAs .completed .jobsCompleted

section CountedAs

variable {k : JobChange} {c : Counter}

theorem CountedAs.length_changes (h : CountedAs k c) (e : Event) :
    (e.changes.filter (·.2 = k)).length = if e.opens? = some c then 1 else 0 := by
  obtain ⟨i, call, r⟩ := e
  cases call with
  | store op =>
    cases r with
    | error e => cases h <;> cases op <;> rfl
    | ok r =>
      cases op with
      | create => obtain ⟨job, _ | _⟩ := r <;> cases h <;> rfl
      | complete => cases r <;> cases h <;> rfl
      | _ =>
        cases h <;>
          exact congrArg List.length (changes_filter_eq_nil (by simp [StoreOp.change?]) r)
  | count c => cases h <;> cases c <;> rfl
  | _ => cases h <;> rfl

theorem CountedAs.length_occurrences (h : CountedAs k c) (past : List Event) :
    (occurrences k past).length = past.countP (·.opens? = some c) := by
  induction past using List.reverseRecOn with
  | nil => rfl
  | append_singleton past e ih =>
    rw [occurrences_snoc, List.length_append, List.length_map, ih, h.length_changes,
      List.countP_append, List.countP_singleton]
    simp only [decide_eq_true_eq]

theorem CountedAs.counts?_eq_some_iff (h : CountedAs k c) {call : ServiceCall} :
    call.counts? = some c ↔ call.closes? = some c := by
  cases call with
  | count d => cases h <;> cases d <;> simp [ServiceCall.counts?, ServiceCall.closes?]
  | store op => cases h <;> cases op <;> simp [ServiceCall.counts?, ServiceCall.closes?]
  | _ => exact Iff.rfl

theorem CountedAs.length_le_one (h : CountedAs k c) (e : Event) :
    (e.changes.filter (·.2 = k)).length ≤ 1 := by
  rw [h.length_changes]
  split <;> decide

end CountedAs

structure Once (k : JobChange) (P : Option Job → Prop) : Prop where
  absent : ¬ P none
  does : ∀ {clock changes id before after}, RowStep clock changes id before after →
    (id, k) ∈ changes → ¬ P before ∧ P after
  keeps : ∀ {clock changes id before after}, RowStep clock changes id before after →
    (id, k) ∉ changes → (P after ↔ P before)
  single : ∀ e : Event, (e.changes.filter (·.2 = k)).length ≤ 1

theorem once_created : Once .created (·.isSome) where
  absent := Bool.false_ne_true
  does h hk := by
    cases h with
    | same _ hn => exact absurd hk (hn _)
    | created => exact ⟨Bool.false_ne_true, rfl⟩
    | turned _ hu ht =>
      have impossible := hu _ hk
      subst impossible
      cases ht
  keeps h hk := by
    cases h with
    | same => rfl
    | created _ _ _ hc => exact absurd (hc ▸ List.mem_singleton_self _) hk
    | turned => rfl
  single := CountedAs.created.length_le_one

def IsCompleted (row : Option Job) : Prop :=
  ∃ j, row = some j ∧ j.status = .completed

theorem once_completed : Once .completed IsCompleted where
  absent := fun ⟨_, h, _⟩ => nomatch h
  does h hk := by
    refine ⟨?_, h.target hk⟩
    rintro ⟨j, rfl, hs⟩
    cases h with
    | same _ hn => exact absurd hk (hn _)
    | turned _ _ ht => exact ht.not_completed hs
  keeps h hk := by
    cases h with
    | same => rfl
    | created =>
      exact iff_of_false (fun ⟨_, h, hs⟩ => nomatch Option.some.inj h ▸ hs)
        fun ⟨_, h, _⟩ => nomatch h
    | @turned k j j' hm _ ht =>
      refine iff_of_false ?_ ?_
      · rintro ⟨_, ⟨⟩, hs⟩
        have target := ht.target.symm.trans hs
        have same : k = .completed := by
          revert target
          cases k <;> simp [JobChange.target]
        exact hk (same ▸ hm)
      · rintro ⟨_, ⟨⟩, hs⟩
        exact ht.not_completed hs
  single := CountedAs.completed.length_le_one

namespace System

open MemoryStore

variable {s t : System} {k : JobChange} {P : Option Job → Prop}

structure Told (k : JobChange) (P : Option Job → Prop) (s : System) : Prop where
  distinct : s.store.Distinct
  told : ∀ id, id ∈ occurrences k s.past ↔ P (s.store.get? id)
  nodup : (occurrences k s.past).Nodup

theorem Told.leads (ho : Once k P) (h : s.Told k P) (hl : s.Leads t) : t.Told k P := by
  cases hl with
  | stay => exact h
  | start a => exact ⟨h.distinct, h.told, h.nodup⟩
  | reorder hp =>
    refine ⟨h.distinct.perm hp, fun id => (h.told id).trans ?_, h.nodup⟩
    exact iff_of_eq (congrArg P (get?_perm h.distinct hp id).symm)
  | @answered i a c next o ht hu =>
    have row (id : Uuid) := Shared.answer_row h.distinct hu c id
    have mem (id : Uuid) : id ∈ ((c.changes (s.shared.answer o c).1).filter (·.2 = k)).map (·.1) ↔
        (id, k) ∈ c.changes (s.shared.answer o c).1 := by simp
    refine ⟨Shared.answer_distinct h.distinct c, fun id => ?_, ?_⟩
    · simp only [answered, occurrences_snoc, List.mem_append, h.told]
      by_cases hk : (id, k) ∈ c.changes (s.shared.answer o c).1
      · exact iff_of_true (.inr ((mem id).mpr hk)) (ho.does (row id) hk).2
      · exact (or_iff_left fun h => hk ((mem id).mp h)).trans (ho.keeps (row id) hk).symm
    · simp only [answered, occurrences_snoc]
      refine List.nodup_append.mpr ⟨h.nodup, ?_, ?_⟩
      · have one := ho.single ⟨i, c, (s.shared.answer o c).1⟩
        rw [← List.length_map (f := (·.1))] at one
        exact List.nodup_iff_count_le_one.mpr fun id => Nat.le_trans List.count_le_length one
      · rintro id before _ now rfl
        exact (ho.does (row id) ((mem id).mp now)).1 ((h.told id).mp before)

theorem play_told (ho : Once k P) (queue : JobQueue) (clock : Instant) (bs : List Beat) :
    ((idle ⟨.empty, queue, clock⟩).play bs).Told k P := by
  refine play_invariant (P := Told k P) ?_ ?_ (fun _ _ => Told.leads ho) bs
  · exact ⟨distinct_empty, fun _ => iff_of_false List.not_mem_nil ho.absent, .nil⟩
  · exact fun s queue h => ⟨h.distinct, h.told, h.nodup⟩

theorem Told.length_rows (h : s.Told .created (·.isSome)) :
    s.store.rows.length = (occurrences .created s.past).length := by
  rw [← List.length_map (f := (·.id))]
  refine ((List.perm_ext_iff_of_nodup h.distinct h.nodup).mpr fun id => ?_).length_eq
  rw [h.told, List.mem_map, Option.isSome_iff_exists]
  exact exists_congr fun j => (get?_eq_some_iff h.distinct).symm

theorem Told.length_completed (h : s.Told .completed IsCompleted) :
    (s.store.rows.filter (·.status = .completed)).length =
      (occurrences .completed s.past).length := by
  rw [← List.length_map (f := (·.id))]
  have nodup := h.distinct.sublist ((List.filter_sublist (p := (·.status = .completed))).map Job.id)
  refine ((List.perm_ext_iff_of_nodup nodup h.nodup).mpr fun id => ?_).length_eq
  rw [h.told, List.mem_map]
  refine exists_congr fun j => ?_
  rw [get?_eq_some_iff h.distinct, List.mem_filter, decide_eq_true_eq, and_right_comm]

def between (s : System) (c : Counter) : Nat :=
  s.strands.countP (·.rest.due? = some c)

structure Balanced (s : System) : Prop where
  paired : ∀ t ∈ s.strands, PairedFrom t.rest.due? t.rest
  sums : ∀ c, s.past.countP (·.opens? = some c) =
    s.past.countP (·.closes? = some c) + s.between c

theorem Balanced.leads (h : s.Balanced) (hl : s.Leads t) : t.Balanced := by
  cases hl with
  | stay | reorder => exact ⟨h.paired, h.sums⟩
  | start a =>
    have fresh := a.paired_program
    refine ⟨fun t ht => ?_, fun c => ?_⟩
    · rcases List.mem_append.mp ht with ht | ht
      · exact h.paired t ht
      · obtain rfl := List.mem_singleton.mp ht
        exact fresh.due?.symm ▸ fresh
    · rw [h.sums, between, between, List.countP_append, List.countP_singleton, fresh.due?]
      rfl
  | @answered i a c next o ht hu =>
    have after := (h.paired _ (List.mem_of_getElem? ht)).2 (s.shared.answer o c).1
    have due := PairedFrom.due? after
    refine ⟨fun t ht => ?_, fun k => ?_⟩
    · rcases List.mem_or_eq_of_mem_set ht with ht | rfl
      · exact h.paired t ht
      · exact due.symm ▸ after
    · have strands := countP_set (fun t : Strand => t.rest.due? = some k)
        (a := ⟨a, next (s.shared.answer o c).1⟩) ht
      have sums := h.sums k
      have opens : (⟨i, c, (s.shared.answer o c).1⟩ : Event).opens? =
        c.opens? (s.shared.answer o c).1 := rfl
      have closes : (⟨i, c, (s.shared.answer o c).1⟩ : Event).closes? = c.closes? := rfl
      have waits : Program.due? (Program.call (S := Service) c next) = c.closes? := rfl
      simp only [due, waits, decide_eq_true_eq] at strands
      simp only [between, answered, List.countP_append, List.countP_singleton, opens, closes,
        decide_eq_true_eq] at sums ⊢
      omega

theorem play_balanced (shared : Shared) (bs : List Beat) : ((idle shared).play bs).Balanced := by
  refine play_invariant (P := Balanced) ?_ ?_ ?_ bs
  · exact ⟨fun _ ht => absurd ht List.not_mem_nil, fun _ => rfl⟩
  · exact fun s queue h => ⟨h.paired, h.sums⟩
  · exact fun _ _ => Balanced.leads

theorem Balanced.length_occurrences {c : Counter} (h : s.Balanced) (hk : CountedAs k c) :
    (occurrences k s.past).length = (counted s.past).value c + s.between c := by
  rw [hk.length_occurrences, h.sums, value_counted]
  refine congrArg (· + s.between c) (List.countP_congr fun e _ => ?_)
  simp only [decide_eq_true_eq]
  exact hk.counts?_eq_some_iff.symm

section Play

variable (queue : JobQueue) (clock : Instant) (bs : List Beat)

theorem length_rows :
    ((idle ⟨.empty, queue, clock⟩).play bs).store.rows.length =
      (counted ((idle ⟨.empty, queue, clock⟩).play bs).past).value .jobsEnqueued +
        ((idle ⟨.empty, queue, clock⟩).play bs).between .jobsEnqueued := by
  rw [(play_told once_created queue clock bs).length_rows]
  exact (play_balanced _ bs).length_occurrences .created

theorem length_completed :
    (((idle ⟨.empty, queue, clock⟩).play bs).store.rows.filter (·.status = .completed)).length =
      (counted ((idle ⟨.empty, queue, clock⟩).play bs).past).value .jobsCompleted +
        ((idle ⟨.empty, queue, clock⟩).play bs).between .jobsCompleted := by
  rw [(play_told once_completed queue clock bs).length_completed]
  exact (play_balanced _ bs).length_occurrences .completed

end Play

end System

end DocumentPreview
