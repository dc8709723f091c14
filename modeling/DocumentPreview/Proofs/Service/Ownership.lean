import DocumentPreview.Proofs.Service.Events

namespace DocumentPreview

open Program

variable {α : Type}

def ServiceCall.Quiet : ServiceCall → Prop
  | .clock | .within .. | .count _ | .timeAttempt => True
  | _ => False

def ServiceCall.Waits : ServiceCall → Prop
  | .clock | .within .. => True
  | _ => False

theorem ServiceCall.Waits.quiet {c : ServiceCall} (h : c.Waits) : c.Quiet := by
  cases c with
  | clock | within => trivial
  | _ => exact h.elim

namespace Worker

variable {P : ServiceProgram (Option Job) → Prop} {w : Worker} {job : Job}
  (hcall : ∀ (c : ServiceCall) (next : c.Reply → ServiceProgram (Option Job)), c.Waits →
    (∀ r, P (next r)) → P (.call c next))
  (hfinish : ∀ outcome, P (w.finish job outcome))

include hcall hfinish

theorem await_closed {deadline : Int} {c : DocumentCall}
    {next : c.Reply → ServiceProgram (Option Job)} (h : ∀ r, P (next r)) :
    P (w.await job deadline c next) := by
  refine hcall _ _ trivial fun r => ?_
  cases r with
  | some r => exact h r
  | none => exact hfinish _

theorem upload_closed {deadline : Int} {preview : Bytes} : P (w.upload job deadline preview) := by
  refine await_closed hcall hfinish fun r => ?_
  cases r <;> exact hfinish _

theorem convert_closed {deadline : Int} {name : String} {source : Bytes} :
    P (w.convert job deadline name source) := by
  refine await_closed hcall hfinish fun r => ?_
  cases r with
  | ok preview => exact upload_closed hcall hfinish
  | error e => exact hfinish _

theorem download_closed {deadline : Int} {file : FileRecord} :
    P (w.download job deadline file) := by
  refine await_closed hcall hfinish fun r => ?_
  cases r with
  | ok source => exact convert_closed hcall hfinish
  | error e => exact hfinish _

theorem find_closed {deadline : Int} : P (w.find job deadline) := by
  refine await_closed hcall hfinish fun r => ?_
  rcases r with _ | _ | file
  · exact hfinish _
  · exact hfinish _
  · exact download_closed hcall hfinish

theorem attempt_closed : P (w.attempt job) :=
  hcall _ _ trivial fun _ => find_closed hcall hfinish

end Worker

inductive AttemptCall (job : Job) : ServiceCall → Prop
  | clock : AttemptCall job .clock
  | within (deadline : Int) (c : DocumentCall) : AttemptCall job (.within deadline c)
  | timeAttempt : AttemptCall job .timeAttempt
  | count (c : Counter) : AttemptCall job (.count c)
  | complete (now : Instant) : AttemptCall job (.store (.complete job.id now))
  | recordFailure (error : String) (next : Option Instant) :
      AttemptCall job (.store (.recordFailure job.id error next))
  | get : AttemptCall job (.store (.get job.id))

theorem AttemptCall.of_quiet {job : Job} {c : ServiceCall} (h : c.Quiet) : AttemptCall job c := by
  cases c with
  | clock => exact .clock
  | within deadline c => exact .within deadline c
  | count c => exact .count c
  | timeAttempt => exact .timeAttempt
  | _ => exact h.elim

inductive FailureCall (job : Job) : ServiceCall → Prop
  | clock : FailureCall job .clock
  | count (c : Counter) : FailureCall job (.count c)
  | recordFailure (error : String) (next : Option Instant) :
      FailureCall job (.store (.recordFailure job.id error next))
  | get : FailureCall job (.store (.get job.id))

theorem FailureCall.attempt {job : Job} {c : ServiceCall} (h : FailureCall job c) :
    AttemptCall job c := by
  cases h with
  | clock => exact .clock
  | count c => exact .count c
  | recordFailure error next => exact .recordFailure error next
  | get => exact .get

theorem AttemptCall.eq_of_settles? {job : Job} {c : ServiceCall} (h : AttemptCall job c) {id : Uuid}
    (hc : c.settles? = some id) : id = job.id := by
  cases h with
  | complete | recordFailure => exact (Option.some.inj hc).symm
  | clock | within | timeAttempt | count | get => cases hc

namespace Worker

variable (w : Worker) (job : Job)

theorem every_current_of {P : ServiceCall → Prop} {id : Uuid} (h : P (.store (.get id))) :
    (current id).Every P := by
  refine ⟨h, fun r => ?_⟩
  cases r <;> trivial

theorem every_current : (current job.id).Every (FailureCall job) :=
  every_current_of .get

theorem every_recordSuccess : (recordSuccess job).Every (AttemptCall job) := by
  refine ⟨.clock, fun now => ⟨.complete now, fun r => ?_⟩⟩
  rcases r with _ | _ | done
  · trivial
  · exact (every_current job).imp fun _ h => h.attempt
  · exact ⟨.count _, fun _ => trivial⟩

theorem every_recordFailureAt (error : AttemptError) (next : Option Instant) :
    (recordFailureAt job error next).Every (FailureCall job) := by
  refine ⟨.count _, fun _ => ⟨.recordFailure _ _, fun r => ?_⟩⟩
  rcases r with _ | _ | failed
  · trivial
  · exact every_current job
  · trivial

theorem every_recordFailure (error : AttemptError) :
    (w.recordFailure job error).Every (FailureCall job) := by
  unfold recordFailure
  split
  · refine ⟨.clock, fun now => ?_⟩
    dsimp only
    split
    · exact every_recordFailureAt job error _
    · trivial
  · exact every_recordFailureAt job error none

theorem every_finish (outcome : Except AttemptError Unit) :
    (w.finish job outcome).Every (AttemptCall job) := by
  refine ⟨.timeAttempt, fun _ => ?_⟩
  cases outcome with
  | ok => exact every_recordSuccess job
  | error e => exact (every_recordFailure w job e).imp fun _ h => h.attempt

theorem every_attempt : (w.attempt job).Every (AttemptCall job) :=
  attempt_closed (fun _ _ hc h => ⟨.of_quiet hc.quiet, h⟩) (every_finish w job)

end Worker

abbrev Unsettling (c : ServiceCall) : Prop :=
  c.settles? = none

namespace Sweep

inductive PassCall : ServiceCall → Prop
  | clock : PassCall .clock
  | reapStale (cutoff now : Instant) : PassCall (.store (.reapStale cutoff now))
  | requeueDue (now : Instant) (limit : Int) : PassCall (.store (.requeueDue now limit))
  | pending (limit : Int) : PassCall (.store (.pending limit))
  | offer (id : Uuid) : PassCall (.offer id)

theorem PassCall.unsettling {c : ServiceCall} (h : PassCall c) : Unsettling c := by
  cases h <;> rfl

theorem every_offerEach (jobs : List Job) (report : SweepReport) :
    (offerEach jobs report).Every PassCall :=
  offerEach_closed (fun id _ rest => ⟨.offer id, rest⟩) (fun _ => trivial) jobs report

theorem every_offerPending (report : SweepReport) : (offerPending report).Every PassCall := by
  refine ⟨.pending _, fun r => ?_⟩
  cases r with
  | ok jobs => exact every_offerEach jobs report
  | error e => trivial

theorem every_requeue (now : Instant) (reaped : Nat) : (requeue now reaped).Every PassCall := by
  refine ⟨.requeueDue _ _, fun r => ?_⟩
  cases r <;> exact every_offerPending _

theorem every_runOnce (staleAfter : Span) : (runOnce staleAfter).Every PassCall := by
  refine ⟨.clock, fun now => ?_⟩
  dsimp only
  split
  · refine ⟨.reapStale _ _, fun r => ?_⟩
    cases r with
    | ok reaped => exact every_requeue now _
    | error e => trivial
  · trivial

end Sweep

namespace Previews

inductive RequestCall : ServiceCall → Prop
  | find (fileId : Uuid) : RequestCall (.documents (.find fileId))
  | create (fileId : Uuid) (requestedBy : Option String) (maxAttempts : Int32) :
      RequestCall (.store (.create fileId requestedBy maxAttempts))
  | latest (fileId : Uuid) : RequestCall (.store (.latest fileId))
  | get (id : Uuid) : RequestCall (.store (.get id))
  | reset (id : Uuid) : RequestCall (.store (.reset id))
  | offer (id : Uuid) : RequestCall (.offer id)
  | queueFull : RequestCall (.count .queueFull)
  | jobsEnqueued : RequestCall (.count .jobsEnqueued)

theorem RequestCall.unsettling {c : ServiceCall} (h : RequestCall c) : Unsettling c := by
  cases h <;> rfl

theorem every_offer (job : Job) (created : Bool) : (offer job created).Every RequestCall := by
  refine ⟨.offer _, fun r => ?_⟩
  cases r with
  | full => exact ⟨.queueFull, fun _ => trivial⟩
  | admitted | alreadyQueued | closed => trivial

theorem every_enqueue (maxAttempts : Int32) (fileId : Uuid) (requestedBy : Option String) :
    (enqueue maxAttempts fileId requestedBy).Every RequestCall := by
  refine ⟨.find _, fun r => ?_⟩
  rcases r with _ | _ | file
  · trivial
  · trivial
  · refine ⟨.create _ _ _, fun r => ?_⟩
    rcases r with e | ⟨job, _ | _⟩
    · trivial
    · trivial
    · exact ⟨.jobsEnqueued, fun _ => every_offer job true⟩

theorem every_retry (fileId : Uuid) : (retry fileId).Every RequestCall := by
  refine ⟨.latest _, fun r => ?_⟩
  rcases r with _ | _ | latest
  · trivial
  · trivial
  · dsimp only
    split
    · refine ⟨.reset _, fun r => ?_⟩
      rcases r with _ | _ | job
      · trivial
      · refine ⟨.get _, fun r => ?_⟩
        rcases r with _ | _ | job <;> trivial
      · exact every_offer job false
    · trivial

end Previews

def SettlesOwn (held : List Uuid) (p : ServiceProgram α) : Prop :=
  p.Obeys (fun q (c : ServiceCall) => ∀ id, c.settles? = some id → id ∈ q)
    (fun q (c : ServiceCall) (r : c.Reply) => q ++ c.claims r) held

theorem settlesOwn_of_held {held : List Uuid} {id : Uuid} {p : ServiceProgram α}
    (h : p.Every fun (c : ServiceCall) => ∀ i, c.settles? = some i → i = id) (hid : id ∈ held) :
    SettlesOwn held p := by
  induction p generalizing held with
  | done a => trivial
  | abort => trivial
  | call c next ih =>
    refine ⟨fun i hi => h.1 i hi ▸ hid, fun r => ?_⟩
    exact ih r (h.2 r) (List.mem_append_left _ hid)

theorem settlesOwn_of_unsettling {p : ServiceProgram α} (h : p.Every Unsettling)
    (held : List Uuid) : SettlesOwn held p :=
  obeys_of_every (h.imp fun _ hc _ _ hi => nomatch (Eq.trans hc.symm hi)) held

theorem Worker.settlesOwn_process (w : Worker) (id : Uuid) (held : List Uuid) :
    SettlesOwn held (w.process id) := by
  refine ⟨fun i hi => (nomatch hi), fun now => ⟨fun i hi => (nomatch hi), fun r => ?_⟩⟩
  rcases r with _ | _ | job
  · trivial
  · trivial
  · refine settlesOwn_of_held ((every_attempt w job).imp fun _ hc _ => hc.eq_of_settles?) ?_
    exact List.mem_append_right _ (ServiceCall.mem_claims.mpr (.head _))

theorem Activity.works_or_unsettling (a : Activity) :
    (∃ w id, a = .work w id) ∨ a.program.Every Unsettling := by
  cases a with
  | work w id => exact .inl ⟨w, id, rfl⟩
  | sweep staleAfter => exact .inr ((Sweep.every_runOnce staleAfter).imp fun _ h => h.unsettling)
  | enqueue maxAttempts fileId requestedBy =>
    exact .inr ((Previews.every_enqueue maxAttempts fileId requestedBy).imp fun _ h => h.unsettling)
  | retry fileId => exact .inr ((Previews.every_retry fileId).imp fun _ h => h.unsettling)

theorem Activity.settlesOwn_program (a : Activity) (held : List Uuid) :
    SettlesOwn held a.program := by
  rcases a.works_or_unsettling with ⟨w, id, rfl⟩ | h
  · exact w.settlesOwn_process id held
  · exact settlesOwn_of_unsettling h held

end DocumentPreview
