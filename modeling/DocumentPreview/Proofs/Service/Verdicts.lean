import DocumentPreview.Proofs.Service.Crowding
import DocumentPreview.Proofs.Service.Fencing

namespace DocumentPreview

open Program

namespace Job

def Remembered (j : Job) : Prop :=
  j.status = .failed → (j.hasAttemptsLeft ↔ j.nextRetryAt.isSome)

theorem Remembered.comes_due {j : Job} (h : j.Remembered) (hs : j.status = .failed)
    (ha : j.hasAttemptsLeft) : ∃ t, ∀ now, t ≤ now → j.isDue now := by
  obtain ⟨t, ht⟩ := Option.isSome_iff_exists.mp ((h hs).mp ha)
  exact ⟨t, fun now hle => isDue_iff.mpr ⟨hs, ha, t, ht, hle⟩⟩

theorem remembered_reaped (j : Job) (now clock : Instant) : (j.reaped now clock).Remembered := by
  intro _
  rw [show (j.reaped now clock).hasAttemptsLeft = j.hasAttemptsLeft from rfl]
  by_cases h : j.hasAttemptsLeft <;> simp [reaped, h]

theorem Turns.remembered {k : JobChange} {j j' : Job} (h : Turns k j j') (hk : k ≠ .failed) :
    j'.Remembered := by
  cases h with
  | failed => exact absurd rfl hk
  | reaped _ _ now => exact remembered_reaped j now now
  | claimed | completed | reset | requeued => exact fun hs => nomatch hs

end Job

namespace MemoryStore

variable {s : MemoryStore} {clock : Instant} {freshId : Uuid}

def Remembers (s : MemoryStore) : Prop :=
  ∀ j ∈ s.rows, j.Remembered

theorem Remembers.perm {t : MemoryStore} (h : s.Remembers) (hp : s.rows.Perm t.rows) :
    t.Remembers := fun j hj =>
  h j (hp.mem_iff.mpr hj)

theorem remembers_run (h : s.Distinct) (hu : s.Unused freshId) (hr : s.Remembers) {op : StoreOp}
    (hop : op.change? ≠ some .failed) : (s.run clock freshId op).2.Remembers := by
  intro j hj
  have hrow : RowStep clock _ j.id _ _ := s.run_row h hu op j.id
  rw [get?_self (h.run op) hj] at hrow
  generalize hb : s.get? j.id = before at hrow
  generalize j.id = id at hrow
  cases hrow with
  | same => exact hr j (mem_of_get? hb).1
  | created => exact fun hs => nomatch hs
  | turned hk _ ht =>
    exact ht.remembered fun hf => hop (hf ▸ StoreOp.change?_of_mem_changes hk)

theorem remembers_recordFailure_iff (h : s.Distinct) (hr : s.Remembers) {id : Uuid}
    {error : String} {next : Option Instant} :
    (s.run clock freshId (.recordFailure id error next)).2.Remembers ↔
      ∀ j, s.get? id = some j → j.status = .processing → (j.hasAttemptsLeft ↔ next.isSome) := by
  simp only [run]
  rcases s.transition_cases id .processing (·.failedWith error next clock) with
    ⟨hn, he⟩ | ⟨j, hj, hs, he⟩
  · rw [he]
    exact iff_of_true hr fun j hj hs => absurd hs (hn j hj)
  · rw [he]
    obtain ⟨hjr, hji⟩ := mem_of_get? hj
    constructor
    · intro hrem k hk _
      obtain rfl := Option.some.inj (hj.symm.trans hk)
      exact hrem _ (mem_changeRow.mpr ⟨j, hjr, if_pos hji⟩) rfl
    · intro hleft k hk
      obtain ⟨r, hrow, rfl⟩ := mem_changeRow.mp hk
      split
      · obtain rfl := h.eq hrow hjr (by rw [hji]; assumption)
        exact fun _ => hleft r hj hs
      · exact hr r hrow

end MemoryStore

namespace ServiceCall

def claimed? : (c : ServiceCall) → c.Reply → Option Job
  | .store (.claim ..), .ok job => job
  | _, _ => none

def Judges (job? : Option Job) : ServiceCall → Prop
  | .store (.recordFailure id _ next) =>
    ∃ job, job? = some job ∧ job.id = id ∧ (job.hasAttemptsLeft ↔ next.isSome)
  | _ => True

theorem mem_changes_of_claimed? {c : ServiceCall} {r : c.Reply} {job : Job}
    (h : c.claimed? r = some job) : (job.id, .claimed) ∈ c.changes r := by
  cases c with
  | store op =>
    cases op with
    | claim =>
      cases r with
      | ok r =>
        rw [show r = some job from h]
        exact List.mem_singleton_self _
      | error => cases h
    | _ => cases h
  | _ => cases h

end ServiceCall

def JudgesByClaim {α : Type} (job? : Option Job) (p : ServiceProgram α) : Prop :=
  p.Obeys ServiceCall.Judges
    (fun q (c : ServiceCall) (r : c.Reply) => (c.claimed? r).or q) job?

theorem judgesByClaim_of_every {α : Type} {job? : Option Job} {p : ServiceProgram α}
    (h : p.Every fun (c : ServiceCall) => c.Judges job? ∧ ∀ r, c.claimed? r = none) :
    JudgesByClaim job? p := by
  induction p with
  | done a => trivial
  | abort => trivial
  | call c next ih =>
    refine ⟨h.1.1, fun r => ?_⟩
    have same : (ServiceCall.claimed? c r).or job? = job? := by
      rw [h.1.2 r]
      rfl
    exact (show JudgesByClaim ((ServiceCall.claimed? c r).or job?) (next r) from
      same.symm ▸ ih r (h.2 r))

theorem judgesByClaim_of_unsettling {α : Type} {p : ServiceProgram α} (h : p.Every Unsettling)
    (job? : Option Job) : JudgesByClaim job? p := by
  refine obeys_of_every (h.imp fun c hc q => ?_) job?
  cases c with
  | store op =>
    cases op with
    | recordFailure => cases hc
    | _ => trivial
  | _ => trivial

namespace Worker

variable (w : Worker) (job : Job)

def Judicious (c : ServiceCall) : Prop :=
  c.Judges (some job) ∧ ∀ r, c.claimed? r = none

theorem judicious_of_quiet {c : ServiceCall} (h : c.Quiet) : Judicious job c := by
  cases c with
  | clock | within | count | timeAttempt => exact ⟨trivial, fun _ => rfl⟩
  | _ => exact h.elim

theorem judicious_current : (current job.id).Every (Judicious job) :=
  every_current_of ⟨trivial, fun _ => rfl⟩

theorem judicious_recordSuccess : (recordSuccess job).Every (Judicious job) := by
  refine ⟨judicious_of_quiet job trivial, fun now => ⟨⟨trivial, fun _ => rfl⟩, fun r => ?_⟩⟩
  rcases r with _ | _ | done
  · trivial
  · exact judicious_current job
  · exact ⟨judicious_of_quiet job trivial, fun _ => trivial⟩

theorem judicious_recordFailureAt (error : AttemptError) {next : Option Instant}
    (h : job.hasAttemptsLeft ↔ next.isSome) :
    (recordFailureAt job error next).Every (Judicious job) := by
  refine ⟨judicious_of_quiet job trivial, fun _ => ⟨⟨⟨job, rfl, rfl, h⟩, fun _ => rfl⟩, fun r => ?_⟩⟩
  rcases r with _ | _ | failed
  · trivial
  · exact judicious_current job
  · trivial

theorem judicious_recordFailure (error : AttemptError) :
    (w.recordFailure job error).Every (Judicious job) := by
  rw [recordFailure]
  split
  · refine ⟨judicious_of_quiet job trivial, fun now => ?_⟩
    dsimp only
    split
    · rename_i hleft _ t _
      have comes : job.hasAttemptsLeft ↔ (some t).isSome := iff_of_true hleft rfl
      exact judicious_recordFailureAt job error comes
    · trivial
  · have ends : job.hasAttemptsLeft ↔ (none : Option Instant).isSome :=
      iff_of_false ‹_› Bool.false_ne_true
    exact judicious_recordFailureAt job error ends

theorem judicious_finish (outcome : Except AttemptError Unit) :
    (w.finish job outcome).Every (Judicious job) := by
  refine ⟨judicious_of_quiet job trivial, fun _ => ?_⟩
  cases outcome with
  | ok => exact judicious_recordSuccess job
  | error e => exact judicious_recordFailure w job e

theorem judgesByClaim_process (id : Uuid) (job? : Option Job) :
    JudgesByClaim job? (w.process id) := by
  refine ⟨trivial, fun now => ⟨trivial, fun r => ?_⟩⟩
  rcases r with _ | _ | job
  · trivial
  · trivial
  · refine judgesByClaim_of_every (attempt_closed (P := (·.Every (Judicious job))) ?_ ?_)
    · exact fun c next hc hnext => ⟨judicious_of_quiet job hc.quiet, hnext⟩
    · exact judicious_finish w job

end Worker

theorem Activity.judgesByClaim_program (a : Activity) (job? : Option Job) :
    JudgesByClaim job? a.program := by
  rcases a.works_or_unsettling with ⟨w, id, rfl⟩ | h
  · exact w.judgesByClaim_process id job?
  · exact judgesByClaim_of_unsettling h job?

theorem Shared.exists_of_claimed? {s : Shared} {o : Outside} {c : ServiceCall} {job : Job}
    (hc : c.claimed? (s.answer o c).1 = some job) :
    ∃ id now j, c = .store (.claim id now) ∧ s.store.get? id = some j ∧ j.status = .pending ∧
      job = j.claimed now o.time ∧
      (s.answer o c).2.store = s.store.changeRow id (·.claimed now o.time) := by
  cases c with
  | store op =>
    cases op with
    | claim id now =>
      rcases s.store.transition_cases id .pending (·.claimed now o.time) with
        ⟨-, he⟩ | ⟨j, hj, hs, he⟩
      · rw [answer_store_eq (.claim id now) he] at hc
        cases hc
      · rw [answer_store_eq (.claim id now) he] at hc ⊢
        obtain rfl := Option.some.inj hc
        exact ⟨id, now, j, rfl, hj, hs, rfl, rfl⟩
    | _ => cases hc
  | _ => cases hc

theorem Shared.get?_of_claimed? {s : Shared} {o : Outside} (h : s.store.Distinct) {c : ServiceCall}
    {job : Job} (hc : c.claimed? (s.answer o c).1 = some job) :
    (s.answer o c).2.store.get? job.id = some job := by
  obtain ⟨id, now, j, -, hj, -, rfl, he⟩ := exists_of_claimed? hc
  rw [he, Job.id_claimed, (MemoryStore.mem_of_get? hj).2]
  exact MemoryStore.get?_changeRow_self h Job.id_claimed hj

theorem Shared.processing_of_claimed? {s : Shared} {o : Outside} {c : ServiceCall} {job : Job}
    (hc : c.claimed? (s.answer o c).1 = some job) : job.status = .processing := by
  obtain ⟨id, now, j, -, -, -, rfl, -⟩ := exists_of_claimed? hc
  rfl

def snapshotOf (i : Nat) (past : List Event) : Option Job :=
  past.foldl (fun q e => if e.strand = i then (e.call.claimed? e.reply).or q else q) none

theorem snapshotOf_snoc (i : Nat) (past : List Event) (e : Event) :
    snapshotOf i (past ++ [e]) =
      if e.strand = i then (e.call.claimed? e.reply).or (snapshotOf i past) else snapshotOf i past := by
  simp [snapshotOf]

theorem claim_of_snapshotOf {i : Nat} {past : List Event} {job : Job}
    (h : snapshotOf i past = some job) :
    ∃ a c b, past = a ++ c :: b ∧ c.strand = i ∧ c.call.claimed? c.reply = some job ∧
      ∀ f ∈ b, f.strand = i → f.call.claimed? f.reply = none := by
  induction past using List.reverseRecOn with
  | nil => cases h
  | append_singleton past e ih =>
    have earlier (hp : snapshotOf i past = some job)
        (he : e.strand = i → e.call.claimed? e.reply = none) :
        ∃ a c b, past ++ [e] = a ++ c :: b ∧ c.strand = i ∧ c.call.claimed? c.reply = some job ∧
          ∀ f ∈ b, f.strand = i → f.call.claimed? f.reply = none := by
      obtain ⟨a, c, b, rfl, hi, hc, hb⟩ := ih hp
      refine ⟨a, c, b ++ [e], by simp, hi, hc, fun f hf => ?_⟩
      rcases List.mem_append.mp hf with hf | hf
      · exact hb f hf
      · exact List.mem_singleton.mp hf ▸ he
    rw [snapshotOf_snoc] at h
    split at h
    · cases hc : e.call.claimed? e.reply with
      | none => exact earlier (by simpa [hc] using h) fun _ => hc
      | some k =>
        obtain rfl : k = job := by simpa [hc] using h
        exact ⟨past, e, [], rfl, ‹_›, hc, fun _ hf => absurd hf List.not_mem_nil⟩
    · exact earlier h fun he => absurd he ‹_›

namespace System

open MemoryStore

variable {s t : System} {i : Nat} {id : Uuid}

def snapshots : View (Option Job) where
  of := snapshotOf
  note q c r := (c.claimed? r).or q
  of_snoc := snapshotOf_snoc

def Misjudges (s : System) (m : Move) : Prop :=
  ∃ i o id error next job j, m = .resume i o ∧
    s.operation? m = some (.recordFailure id error next) ∧
    snapshotOf i s.past = some job ∧ job.id = id ∧ s.store.get? id = some j ∧
    j.status = .processing ∧ ¬ (job.hasAttemptsLeft ↔ j.hasAttemptsLeft) ∧
    ¬ LatestClaim s.past i id

structure Judged (s : System) : Prop where
  tracked : s.Tracked
  own : ∀ i t, s.strands[i]? = some t → JudgesByClaim (snapshotOf i s.past) t.rest
  asClaimed : ∀ a c b job, s.past = a ++ c :: b → c.call.claimed? c.reply = some job →
    (∀ f ∈ b, ¬ f.Touches job.id) → s.store.get? job.id = some job

theorem judged_idle {shared : Shared} (h : shared.store.Distinct) : (idle shared).Judged where
  tracked := tracked_idle h
  own := fun _ _ ht => nomatch ht
  asClaimed := fun a _ _ _ hp => by cases a <;> cases hp

section Answered

variable {a : Activity} {c : ServiceCall} {next : c.Reply → ServiceProgram a.Outcome} {o : Outside}

theorem Judged.asClaimed_answered (h : s.Judged) (hu : s.store.Unused o.freshId) {job : Job}
    {pre post : List Event} {e : Event} (hp : (s.answered i o a c next).past = pre ++ e :: post)
    (he : e.call.claimed? e.reply = some job) (hq : ∀ f ∈ post, ¬ f.Touches job.id) :
    (s.answered i o a c next).store.get? job.id = some job := by
  rcases snoc_eq_append_cons hp with ⟨-, -, rfl⟩ | ⟨post, rfl, hpast⟩
  · exact Shared.get?_of_claimed? h.tracked.distinct he
  · have row := h.asClaimed pre e post job hpast he fun g hg => hq g (by simp [hg])
    have quiet : ¬ (⟨i, c, (s.shared.answer o c).1⟩ : Event).Touches job.id := hq _ (by simp)
    have hrow := Shared.answer_row h.tracked.distinct hu c job.id
    exact (hrow.eq_of_unchanged fun k hk => quiet ⟨k, hk⟩).trans row

end Answered

theorem Judged.leads (h : s.Judged) (hl : s.Leads t) : t.Judged where
  tracked := h.tracked.leads hl
  own := snapshots.follows_leads (Q := fun q u => JudgesByClaim q u.rest)
    (fun q a => a.judgesByClaim_program q) (fun hq => hq.2) h.own hl
  asClaimed := by
    cases hl with
    | stay | start => exact h.asClaimed
    | answered o ht hu => exact fun _ _ _ _ => h.asClaimed_answered hu
    | reorder hp =>
      intro a c b job hpast hc hb
      exact (get?_perm h.tracked.distinct hp job.id).trans (h.asClaimed a c b job hpast hc hb)

theorem Judged.row_of_latest_claim (h : s.Judged) {job j : Job}
    (hs : snapshotOf i s.past = some job) (hl : LatestClaim s.past i job.id)
    (hj : s.store.get? job.id = some j) (hp : j.status = .processing) : j = job := by
  obtain ⟨a, c, b, hpast, hi, hc, hb⟩ := claim_of_snapshotOf hs
  have claims : c.Claims job.id := ServiceCall.mem_changes_of_claimed? hc
  have standing : Standing job.id (a ++ c :: b) := by
    rw [← hpast]
    refine (h.tracked.standing job.id j hj hp).resolve_left fun hn => ?_
    exact hn c (hpast ▸ by simp) claims.disturbs.touches
  have untouched := standing.untouched (hl a c b hpast hi claims)
  exact Option.some.inj (hj.symm.trans (h.asClaimed a c b job hpast hc untouched))

theorem strand_of_operation? {m : Move} {op : StoreOp} (h : s.operation? m = some op) :
    ∃ i o a next, m = .resume i o ∧ s.strands[i]? = some ⟨a, .call (.store op) next⟩ := by
  cases m with
  | start | reorder => cases h
  | resume i o =>
    rcases ht : s.strands[i]? with _ | ⟨a, _ | _ | ⟨c, next⟩⟩
    all_goals simp only [operation?, ht] at h
    · cases h
    · cases h
    · cases h
    · split at h
      · cases c with
        | store op' =>
          obtain rfl := Option.some.inj h
          exact ⟨i, o, a, next, rfl, ht⟩
        | _ => cases h
      · cases h

theorem Judged.verdict (h : s.Judged) {m : Move} {error : String} {next : Option Instant}
    (hop : s.operation? m = some (.recordFailure id error next)) :
    ∃ i o job, m = .resume i o ∧ snapshotOf i s.past = some job ∧ job.id = id ∧
      (job.hasAttemptsLeft ↔ next.isSome) := by
  obtain ⟨i, o, a, rest, hm, ht⟩ := strand_of_operation? hop
  obtain ⟨job, hs, hid, hleft⟩ := (h.own i _ ht).1
  exact ⟨i, o, job, hm, hs, hid, hleft⟩

theorem Judged.remembers_step_iff (h : s.Judged) (hr : s.store.Remembers) (m : Move) :
    (s.step m).store.Remembers ↔ ¬ s.Misjudges m := by
  rcases s.step_store m with ⟨clock, freshId, op, hop, hu, he⟩ | ⟨hop, hp⟩
  · rw [he]
    by_cases hf : op.change? = some .failed
    · cases op with
      | recordFailure id error next =>
        obtain ⟨i, o, job, rfl, hs, rfl, hleft⟩ := h.verdict hop
        rw [remembers_recordFailure_iff h.tracked.distinct hr]
        constructor
        · rintro agrees ⟨_, _, _, _, _, k, j, ⟨⟩, hop', hk, -, hj, hp, hne, -⟩
          cases hop.symm.trans hop'
          obtain rfl := Option.some.inj (hs.symm.trans hk)
          exact hne (hleft.trans (agrees j hj hp).symm)
        · intro clear j hj hp
          by_contra hne
          have disagree : ¬ (job.hasAttemptsLeft ↔ j.hasAttemptsLeft) := fun heq =>
            hne (heq.symm.trans hleft)
          refine clear ⟨i, o, job.id, error, next, job, j, rfl, hop, hs, rfl, hj, hp, disagree, ?_⟩
          intro hl
          exact disagree (by rw [h.row_of_latest_claim hs hl hj hp])
      | _ => cases hf
    · refine iff_of_true (remembers_run h.tracked.distinct hu hr hf) ?_
      rintro ⟨_, _, _, _, _, _, _, -, hop', -⟩
      obtain rfl := Option.some.inj (hop.symm.trans hop')
      exact hf rfl
  · refine iff_of_true (hr.perm hp) ?_
    rintro ⟨_, _, _, _, _, _, _, -, hop', -⟩
    cases hop.symm.trans hop'

theorem run_judged (queue : JobQueue) (clock : Instant) (ms : List Move) :
    ((idle ⟨.empty, queue, clock⟩).run ms).Judged :=
  run_invariant (judged_idle distinct_empty) (fun _ _ => Judged.leads) ms

theorem remembers_iff_no_misjudgement (queue : JobQueue) (clock : Instant) (ms : List Move) :
    (∀ ps, ps <+: ms → ((idle ⟨.empty, queue, clock⟩).run ps).store.Remembers) ↔
      ∀ ps m, ps ++ [m] <+: ms → ¬ ((idle ⟨.empty, queue, clock⟩).run ps).Misjudges m := by
  constructor
  · intro all ps m hm
    have before := all ps ((List.prefix_append ps [m]).trans hm)
    have after := all (ps ++ [m]) hm
    rw [run_snoc] at after
    exact ((run_judged queue clock ps).remembers_step_iff before m).mp after
  · intro clear ps hps
    induction ps using List.reverseRecOn with
    | nil => exact fun j hj => absurd hj List.not_mem_nil
    | append_singleton ps m ih =>
      have before := ih ((List.prefix_append ps [m]).trans hps)
      rw [run_snoc]
      exact ((run_judged queue clock ps).remembers_step_iff before m).mpr (clear ps m hps)

def forgetting : List Move :=
  [.start (.enqueue 2 (.ofNat 9) none), .start (.work ⟨.default, .ofSeconds 120⟩ (.ofNat 1)),
    .start (.sweep (.ofSeconds 900)), .start (.work ⟨.default, .ofSeconds 120⟩ (.ofNat 1)),
    .start (.sweep (.ofSeconds 900)), .start (.retry (.ofNat 9)),
    .start (.work ⟨.default, .ofSeconds 120⟩ (.ofNat 1))] ++
  resumed 4 0 0 (.ofNat 1) ++ resumed 8 1 0 (.ofNat 2) ++ resumed 3 2 1000 (.ofNat 2) ++
  resumed 2 3 1000 (.ofNat 2) ++ resumed 2 4 2000 (.ofNat 2) ++ resumed 2 5 2000 (.ofNat 2) ++
  resumed 2 6 2000 (.ofNat 2) ++ resumed 5 3 2000 (.ofNat 2)

theorem not_remembers_forgetting :
    ∃ queue clock ms, (∀ maxAttempts fileId requestedBy,
        .start (.enqueue maxAttempts fileId requestedBy) ∈ ms → 1 ≤ maxAttempts.toInt) ∧
      ∃ j ∈ ((idle ⟨.empty, queue, clock⟩).run ms).store.rows,
        ¬ j.Remembered ∧ j.hasAttemptsLeft ∧ ∀ now, ¬ j.isDue now := by
  refine ⟨⟨4, [], []⟩, .epoch, forgetting, ?_, ?_⟩
  · intro maxAttempts fileId requestedBy hm
    obtain ⟨rfl, -⟩ : maxAttempts = 2 ∧ _ := by simpa [forgetting, resumed] using hm
    decide
  · have shapes : ((idle ⟨.empty, ⟨4, [], []⟩, .epoch⟩).run forgetting).store.rows.map
        (fun j => (j.status, j.hasAttemptsLeft, j.nextRetryAt)) = [(.failed, true, none)] := by
      decide +kernel
    obtain ⟨j, l, hrows, hj, -⟩ := List.map_eq_cons_iff.mp shapes
    simp only [Prod.mk.injEq] at hj
    obtain ⟨hs, hleft, hnext⟩ := hj
    refine ⟨j, by simp [hrows], fun hr => ?_, hleft, fun now hd => ?_⟩
    · have comes := (hr hs).mp hleft
      rw [hnext] at comes
      cases comes
    · obtain ⟨-, -, t, ht, -⟩ := Job.isDue_iff.mp hd
      cases hnext.symm.trans ht

end System

end DocumentPreview
