import DocumentPreview.Config.Settings
import DocumentPreview.Proofs.Service.Turns

namespace DocumentPreview

open Program

def ServiceCall.reading? : (c : ServiceCall) → c.Reply → Option Instant
  | .clock, now => some now
  | _, _ => none

def readings (past : List Event) : List Instant :=
  past.filterMap fun e => e.call.reading? e.reply

theorem readings_snoc (past : List Event) (e : Event) :
    readings (past ++ [e]) = readings past ++ (e.call.reading? e.reply).toList := by
  cases h : e.call.reading? e.reply <;> simp [readings, h]

theorem readings_clock (past : List Event) (i : Nat) (now : Instant) :
    readings (past ++ [⟨i, .clock, now⟩]) = readings past ++ [now] :=
  readings_snoc past ⟨i, .clock, now⟩

theorem last_reading_clock (past : List Event) (i : Nat) (now : Instant) :
    (readings (past ++ [⟨i, .clock, now⟩])).getLast? = some now := by
  rw [readings_clock, List.getLast?_concat]

theorem mem_readings_snoc {past : List Event} {now : Instant} (h : now ∈ readings past)
    (e : Event) : now ∈ readings (past ++ [e]) := by
  rw [readings_snoc]
  exact List.mem_append_left _ h

theorem readings_of_none (past : List Event) {e : Event} (h : e.call.reading? e.reply = none) :
    readings (past ++ [e]) = readings past := by
  rw [readings_snoc, h, Option.toList_none, List.append_nil]

def RetrySchedule.Sets (r : RetrySchedule) (job : Job) (past : List Event)
    (next : Option Instant) : Prop :=
  if job.hasAttemptsLeft then
    ∃ t u, (readings past).getLast? = some t ∧ r.nextRetryAt? job.attempts t = some u ∧ next = some u
  else next = none

theorem RetrySchedule.Sets.isSome_iff {r : RetrySchedule} {job : Job} {past : List Event}
    {next : Option Instant} (h : r.Sets job past next) : job.hasAttemptsLeft ↔ next.isSome := by
  unfold Sets at h
  split at h
  · obtain ⟨t, u, -, -, rfl⟩ := h
    exact iff_of_true ‹_› rfl
  · rw [h]
    exact iff_of_false ‹_› Bool.false_ne_true

variable {cfg : PipelineSettings}

def Conforms (cfg : PipelineSettings) (s : Shared) (past : List Event) : ServiceCall → Prop
  | .store (.create _ _ maxAttempts) => maxAttempts = cfg.maxAttempts
  | .store (.claim _ now) => (readings past).getLast? = some now
  | .store (.recordFailure id _ next) =>
    ∃ job, s.store.get? id = some job ∧ job.status = .processing ∧ cfg.retry.Sets job past next
  | .store (.reset id) => ∃ fileId j, s.store.latest? fileId = some j ∧ j.id = id
  | .store (.requeueDue now _) => now ∈ readings past
  | _ => True

def ServiceCall.Free : ServiceCall → Prop
  | .store (.create ..) | .store (.claim ..) | .store (.recordFailure ..) => False
  | .store (.reset _) | .store (.requeueDue ..) => False
  | _ => True

theorem conforms_of_free {c : ServiceCall} (h : c.Free) (s : Shared) (past : List Event) :
    Conforms cfg s past c := by
  cases c with
  | store op =>
    cases op with
    | create | claim | recordFailure | reset | requeueDue => exact h.elim
    | _ => trivial
  | _ => trivial

section Free

variable {α : Type} {p : ServiceProgram α} {i : Nat} {s : Shared} {past : List Event}

theorem respects_of_free (h : p.Every ServiceCall.Free) :
    p.Respects (Conforms cfg) (fun _ _ => True) i s past :=
  respects_of_every (h.imp fun _ hc => conforms_of_free hc) fun _ _ => trivial

theorem respects_call_of_free {c : ServiceCall} {next : c.Reply → ServiceProgram α}
    (hc : Conforms cfg s past c) (h : ∀ r, (next r).Every ServiceCall.Free) :
    (call c next).Respects (Conforms cfg) (fun _ _ => True) i s past :=
  ⟨hc, fun _ _ => respects_of_free (h _)⟩

end Free

namespace Worker

variable (w : Worker) {job : Job} {i : Nat} {s : Shared} {past : List Event}

theorem free_recordSuccess (job : Job) : (recordSuccess job).Every ServiceCall.Free := by
  refine ⟨trivial, fun now => ⟨trivial, fun r => ?_⟩⟩
  rcases r with _ | _ | done
  · trivial
  · exact every_current_of trivial
  · exact ⟨trivial, fun _ => trivial⟩

theorem respects_recordFailureAt {next : Option Instant} (error : AttemptError)
    (hrow : s.store.get? job.id = some job) (hs : job.status = .processing)
    (hn : cfg.retry.Sets job past next) :
    (recordFailureAt job error next).Respects (Conforms cfg) (fun _ _ => True) i s past := by
  refine ⟨trivial, fun o _ => respects_call_of_free ⟨job, hrow, hs, ?_⟩ fun r => ?_⟩
  · unfold RetrySchedule.Sets at hn ⊢
    rwa [readings_of_none past rfl]
  · rcases r with _ | _ | failed
    · trivial
    · exact every_current_of trivial
    · trivial

theorem respects_recordFailure (hw : w.retry = cfg.retry) (error : AttemptError)
    (hrow : s.store.get? job.id = some job) (hs : job.status = .processing) :
    (w.recordFailure job error).Respects (Conforms cfg) (fun _ _ => True) i s past := by
  unfold recordFailure
  split
  · rename_i left
    refine ⟨trivial, fun o _ => ?_⟩
    dsimp only
    split
    · rename_i u hu
      refine respects_recordFailureAt error hrow hs ?_
      rw [RetrySchedule.Sets, if_pos left]
      exact ⟨_, u, last_reading_clock past i _, hw ▸ hu, rfl⟩
    · trivial
  · rename_i ended
    refine respects_recordFailureAt error hrow hs ?_
    rw [RetrySchedule.Sets, if_neg ended]

theorem respects_finish (hw : w.retry = cfg.retry) (outcome : Except AttemptError Unit)
    (hrow : s.store.get? job.id = some job) (hs : job.status = .processing) :
    (w.finish job outcome).Respects (Conforms cfg) (fun _ _ => True) i s past := by
  refine ⟨trivial, fun o _ => ?_⟩
  cases outcome with
  | ok => exact respects_of_free (free_recordSuccess job)
  | error e => exact respects_recordFailure w hw e hrow hs

theorem respects_attempt (hw : w.retry = cfg.retry) (hrow : s.store.get? job.id = some job)
    (hs : job.status = .processing) :
    (w.attempt job).Respects (Conforms cfg) (fun _ _ => True) i s past := by
  refine attempt_closed (P := fun p => ∀ s past, s.store.get? job.id = some job →
    p.Respects (Conforms cfg) (fun _ _ => True) i s past) ?_ ?_ s past hrow
  · intro c next hc hnext s past hrow
    cases c with
    | clock | within => exact ⟨trivial, fun o _ => hnext _ _ _ hrow⟩
    | _ => exact hc.elim
  · exact fun outcome s past hrow => respects_finish w hw outcome hrow hs

theorem respects_process (hw : w.retry = cfg.retry) (h : s.store.Distinct) (id : Uuid) :
    (w.process id).Respects (Conforms cfg) (fun _ _ => True) i s past := by
  refine ⟨trivial, fun o _ => ⟨?_, fun o' _ => ?_⟩⟩
  · exact last_reading_clock past i _
  · have row {job : Job} (hj : ServiceCall.claimed? _ ((s.answer o .clock).2.answer o'
        (.store (.claim id (s.answer o .clock).1))).1 = some job) :=
      Shared.get?_of_claimed? (s := (s.answer o .clock).2) h hj
    have status {job : Job} (hj : ServiceCall.claimed? _ ((s.answer o .clock).2.answer o'
        (.store (.claim id (s.answer o .clock).1))).1 = some job) :=
      Shared.processing_of_claimed? hj
    -- Both hold of this very answer, so they have to follow it through its cases.
    revert row status
    generalize (s.answer o .clock).2.answer o' (.store (.claim id (s.answer o .clock).1)) = r
    obtain ⟨r, v⟩ := r
    intro row status
    rcases r with _ | _ | job
    · trivial
    · trivial
    · exact respects_attempt w hw (row rfl) (status rfl)

end Worker

namespace Sweep

variable {i : Nat} {s : Shared} {past : List Event}

theorem free_offerEach (jobs : List Job) (report : SweepReport) :
    (offerEach jobs report).Every ServiceCall.Free :=
  offerEach_closed (fun _ _ rest => ⟨trivial, rest⟩) (fun _ => trivial) jobs report

theorem free_offerPending (report : SweepReport) :
    (offerPending report).Every ServiceCall.Free := by
  refine ⟨trivial, fun r => ?_⟩
  cases r with
  | ok jobs => exact free_offerEach jobs report
  | error e => trivial

theorem respects_runOnce (staleAfter : Span) :
    (runOnce staleAfter).Respects (Conforms cfg) (fun _ _ => True) i s past := by
  refine ⟨trivial, fun o _ => ?_⟩
  dsimp only
  split
  · refine ⟨trivial, fun o' _ => ?_⟩
    refine respects_call_of_free ?_ fun r => ?_
    · have shown := List.mem_of_getLast? (last_reading_clock past i (s.answer o .clock).1)
      exact mem_readings_snoc shown _
    · cases r <;> exact free_offerPending _
  · trivial

end Sweep

namespace Previews

variable {i : Nat} {s : Shared} {past : List Event}

theorem free_offer (job : Job) (created : Bool) : (offer job created).Every ServiceCall.Free := by
  refine ⟨trivial, fun r => ?_⟩
  cases r with
  | full => exact ⟨trivial, fun _ => trivial⟩
  | admitted | alreadyQueued | closed => trivial

def Offers (fileId : Uuid) (r : Option (Except PreviewError EnqueueOutcome)) (s : Shared) : Prop :=
  ∀ out, r = some (.ok out) →
    out.job ∈ s.store.rows ∧ out.job.fileId = fileId ∧ out.job.isInFlight

theorem respects_offer {job : Job} (hj : job ∈ s.store.rows) (hf : job.isInFlight)
    (created : Bool) :
    (offer job created).Respects (Conforms cfg) (Offers job.fileId) i s past := by
  have offered (full : Bool) : Offers job.fileId (some (.ok ⟨job, created, full⟩)) s := by
    rintro _ ⟨⟩
    exact ⟨hj, rfl, hf⟩
  refine .of_any_reply trivial fun o _ r => ?_
  cases r with
  | full => exact ⟨trivial, fun _ _ => offered true⟩
  | closed => exact offered true
  | admitted | alreadyQueued => exact offered false

theorem respects_create {maxAttempts : Int32} (hm : maxAttempts = cfg.maxAttempts)
    (fileId : Uuid) (requestedBy : Option String) :
    (create maxAttempts fileId requestedBy).Respects (Conforms cfg) (Offers fileId) i s past := by
  refine ⟨hm, fun o _ => ?_⟩
  rcases MemoryStore.create_cases s.store o.time o.freshId fileId requestedBy maxAttempts with
    ⟨j, hj, he⟩ | ⟨-, he⟩
  · rw [Shared.answer_store_eq (.create fileId requestedBy maxAttempts) he]
    rintro _ ⟨⟩
    exact MemoryStore.of_inFlight? hj
  · rw [Shared.answer_store_eq (.create fileId requestedBy maxAttempts) he]
    exact ⟨trivial, fun o _ => respects_offer (MemoryStore.mem_put.mpr (.inr rfl)) rfl true⟩

theorem respects_enqueue {maxAttempts : Int32} (hm : maxAttempts = cfg.maxAttempts)
    (fileId : Uuid) (requestedBy : Option String) :
    (enqueue maxAttempts fileId requestedBy).Respects (Conforms cfg) (Offers fileId) i s past := by
  refine .of_any_reply trivial fun o _ r => ?_
  rcases r with _ | _ | file
  · exact fun _ h => nomatch h
  · exact fun _ h => nomatch h
  · exact respects_create hm fileId requestedBy

theorem respects_retry (fileId : Uuid) :
    (retry fileId).Respects (Conforms cfg) (fun _ _ => True) i s past := by
  refine ⟨trivial, fun o _ => ?_⟩
  rw [Shared.answer_store_eq (.latest fileId) rfl]
  cases hl : s.store.latest? fileId with
  | none => trivial
  | some latest =>
    dsimp only
    split
    · refine respects_call_of_free ⟨fileId, latest, hl, rfl⟩ fun r => ?_
      rcases r with _ | _ | job
      · trivial
      · refine ⟨trivial, fun r => ?_⟩
        rcases r with _ | _ | job <;> trivial
      · exact free_offer job false
    · trivial

end Previews

namespace Activity

def Fits (cfg : PipelineSettings) : Activity → Prop
  | work w _ => w = ⟨cfg.retry, cfg.conversionTimeout⟩
  | sweep staleAfter => staleAfter = cfg.staleAfter
  | enqueue maxAttempts .. => maxAttempts = cfg.maxAttempts
  | retry _ => True

theorem exists_fits (a : Activity) : ∃ cfg, a.Fits cfg := by
  cases a with
  | work w id =>
    exact ⟨{ PipelineSettings.default with retry := w.retry, conversionTimeout := w.timeLimit }, rfl⟩
  | sweep staleAfter => exact ⟨{ PipelineSettings.default with staleAfter }, rfl⟩
  | enqueue maxAttempts fileId requestedBy =>
    exact ⟨{ PipelineSettings.default with maxAttempts }, rfl⟩
  | retry fileId => exact ⟨PipelineSettings.default, trivial⟩

variable {a : Activity} {i : Nat} {s : Shared} {past : List Event}

theorem Fits.respects (ha : a.Fits cfg) (h : s.store.Distinct) :
    a.program.Respects (Conforms cfg) (fun _ _ => True) i s past := by
  cases a with
  | work w id => exact w.respects_process (congrArg Worker.retry ha) h id
  | sweep staleAfter => exact Sweep.respects_runOnce staleAfter
  | enqueue maxAttempts fileId requestedBy =>
    exact (Previews.respects_enqueue ha fileId requestedBy).imp (fun _ _ _ h => h)
      fun _ _ _ => trivial
  | retry fileId => exact Previews.respects_retry fileId

end Activity

end DocumentPreview
