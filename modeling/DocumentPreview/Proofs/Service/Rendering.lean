import DocumentPreview.Proofs.Service.Ownership
import DocumentPreview.Proofs.Service.Traffic
import DocumentPreview.Proofs.Service.Verdicts

namespace DocumentPreview

open Program

namespace ServiceCall

def Plain : ServiceCall → Prop
  | .store (.complete ..) | .documents (.upload ..) | .within _ (.upload ..) => False
  | _ => True

def Uploads (fileId : Uuid) : (c : ServiceCall) → c.Reply → Prop
  | .within _ (.upload key _ contentType), some (.ok ()) =>
    key = artifactKey fileId ∧ contentType = previewContentType
  | _, _ => False

def ShowsCompleted (fileId : Uuid) : (c : ServiceCall) → c.Reply → Prop
  | .store (.latest id), .ok (some job) => id = fileId ∧ job.status = .completed
  | _, _ => False

end ServiceCall

def Handed (past : List Event) (job : Job) : Prop :=
  ∃ e ∈ past, e.call.claimed? e.reply = some job

def Uploaded (past : List Event) (fileId : Uuid) : Prop :=
  ∃ e ∈ past, e.call.Uploads fileId e.reply

def ShownCompleted (past : List Event) (fileId : Uuid) : Prop :=
  ∃ e ∈ past, e.call.ShowsCompleted fileId e.reply

theorem Handed.snoc {past : List Event} {job : Job} (h : Handed past job) (e : Event) :
    Handed (past ++ [e]) job := by
  obtain ⟨d, hd, hj⟩ := h
  exact ⟨d, List.mem_append_left _ hd, hj⟩

theorem Uploaded.snoc {past : List Event} {fileId : Uuid} (h : Uploaded past fileId) (e : Event) :
    Uploaded (past ++ [e]) fileId := by
  obtain ⟨d, hd, hu⟩ := h
  exact ⟨d, List.mem_append_left _ hd, hu⟩

def ServiceCall.Rendered (own : List Event) : ServiceCall → Prop
  | .store (.complete id _) => ∃ job, Handed own job ∧ job.id = id ∧ Uploaded own job.fileId
  | .within _ (.upload _ _ contentType) => contentType = previewContentType
  | .documents (.upload ..) => False
  | _ => True

theorem ServiceCall.Plain.rendered {c : ServiceCall} (h : c.Plain) (own : List Event) :
    c.Rendered own := by
  cases c with
  | store op => cases op <;> trivial
  | documents c | within _ c => cases c <;> trivial
  | _ => trivial

theorem FailureCall.plain {job : Job} {c : ServiceCall} (h : FailureCall job c) : c.Plain := by
  cases h <;> trivial

theorem Sweep.PassCall.plain {c : ServiceCall} (h : PassCall c) : c.Plain := by
  cases h <;> trivial

theorem Previews.RequestCall.plain {c : ServiceCall} (h : RequestCall c) : c.Plain := by
  cases h <;> trivial

namespace Worker

def Renders {α : Type} (i : Nat) (own : List Event) (p : ServiceProgram α) : Prop :=
  p.Obeys ServiceCall.Rendered (fun own (c : ServiceCall) (r : c.Reply) => own ++ [⟨i, c, r⟩]) own

theorem renders_of_plain {α : Type} {p : ServiceProgram α} (h : p.Every ServiceCall.Plain)
    (i : Nat) (own : List Event) : Renders i own p :=
  obeys_of_every (h.imp fun _ hc => hc.rendered) own

variable {w : Worker} {job : Job} {i : Nat} {own : List Event} {deadline : Int}

theorem renders_finish_error (error : AttemptError) :
    Renders i own (w.finish job (.error error)) :=
  ⟨trivial, fun _ => renders_of_plain ((every_recordFailure w job error).imp fun _ h => h.plain) i _⟩

theorem renders_finish_ok (hjob : Handed own job) (hup : Uploaded own job.fileId) :
    Renders i own (w.finish job (.ok ())) := by
  refine ⟨trivial, fun _ => ⟨trivial, fun now => ⟨?_, fun r => ?_⟩⟩⟩
  · exact ⟨job, (hjob.snoc _).snoc _, rfl, (hup.snoc _).snoc _⟩
  · rcases r with _ | _ | done
    · trivial
    · exact renders_of_plain ((every_current job).imp fun _ h => h.plain) i _
    · exact ⟨trivial, fun _ => trivial⟩

theorem renders_await {c : DocumentCall} {next : c.Reply → ServiceProgram (Option Job)}
    (hc : ServiceCall.Rendered own (.within deadline c))
    (hnext : ∀ r, Renders i (own ++ [⟨i, .within deadline c, some r⟩]) (next r)) :
    Renders i own (w.await job deadline c next) := by
  refine ⟨hc, fun r => ?_⟩
  cases r with
  | some r => exact hnext r
  | none => exact renders_finish_error _

theorem renders_upload (hjob : Handed own job) (preview : Bytes) :
    Renders i own (w.upload job deadline preview) := by
  refine renders_await rfl fun r => ?_
  cases r with
  | ok =>
    exact renders_finish_ok (hjob.snoc _) ⟨_, List.mem_append_right _ (.head _), rfl, rfl⟩
  | error e => exact renders_finish_error _

theorem renders_convert (hjob : Handed own job) (name : String) (source : Bytes) :
    Renders i own (w.convert job deadline name source) := by
  refine renders_await trivial fun r => ?_
  cases r with
  | ok preview => exact renders_upload (hjob.snoc _) preview
  | error e => exact renders_finish_error _

theorem renders_download (hjob : Handed own job) (file : FileRecord) :
    Renders i own (w.download job deadline file) := by
  refine renders_await trivial fun r => ?_
  cases r with
  | ok source => exact renders_convert (hjob.snoc _) file.name source
  | error e => exact renders_finish_error _

theorem renders_find (hjob : Handed own job) : Renders i own (w.find job deadline) := by
  refine renders_await trivial fun r => ?_
  rcases r with _ | _ | file
  · exact renders_finish_error _
  · exact renders_finish_error _
  · exact renders_download (hjob.snoc _) file

theorem renders_process (w : Worker) (id : Uuid) (i : Nat) (own : List Event) :
    Renders i own (w.process id) := by
  refine ⟨trivial, fun now => ⟨trivial, fun r => ?_⟩⟩
  rcases r with _ | _ | job
  · trivial
  · trivial
  · have handed : Handed (own ++ [⟨i, .clock, now⟩] ++ [⟨i, .store (.claim id now), .ok (some job)⟩])
        job := ⟨_, List.mem_append_right _ (.head _), rfl⟩
    exact ⟨trivial, fun started => renders_find (handed.snoc _)⟩

end Worker

inductive Presented (issuer : TokenIssuer) (fileId : Uuid) (token : String) (i : Nat) :
    List Event → Option (Except AccessDenied StoredObject) → Prop
  | refused {now : Instant} (error : AccessDenied) :
      (∀ claims, ¬ issuer.Grants fileId token now claims) →
        Presented issuer fileId token i [⟨i, .clock, now⟩] (some (.error error))
  | used {now : Instant} {claims : TokenClaims} {r : Except Redis.Error Bool}
      (error : AccessDenied) : issuer.Grants fileId token now claims → r ≠ .ok true →
        Presented issuer fileId token i
          [⟨i, .clock, now⟩, ⟨i, .consume claims.nonce claims.expiry, r⟩] (some (.error error))
  | missing {now : Instant} {claims : TokenClaims} (cause : StorageError) :
      issuer.Grants fileId token now claims →
        Presented issuer fileId token i
          [⟨i, .clock, now⟩, ⟨i, .consume claims.nonce claims.expiry, .ok true⟩,
            ⟨i, .documents (.download (artifactKey fileId)), .error cause⟩]
          (some (.error (.artifact cause)))
  | opened {now : Instant} {claims : TokenClaims} (bytes : Bytes) :
      issuer.Grants fileId token now claims →
        Presented issuer fileId token i
          [⟨i, .clock, now⟩, ⟨i, .consume claims.nonce claims.expiry, .ok true⟩,
            ⟨i, .documents (.download (artifactKey fileId)), .ok bytes⟩]
          (some (.ok ⟨bytes, previewContentType⟩))

theorem not_presented_none {issuer : TokenIssuer} {fileId : Uuid} {token : String} {i : Nat}
    {own : List Event} : ¬ Presented issuer fileId token i own none := fun h => nomatch h

namespace Errand

def Allows : Errand → List Event → ServiceCall → Prop
  | background (.work ..), own, c => c.Rendered own
  | visit (.present ..), own, c => c.Plain ∧ own.length < 3
  | _, _, c => c.Plain

theorem Allows.rendered {e : Errand} {own : List Event} {c : ServiceCall} (h : e.Allows own c) :
    c.Rendered own := by
  cases e with
  | background a =>
    cases a with
    | work => exact h
    | sweep | enqueue | retry => exact ServiceCall.Plain.rendered h own
  | issue => exact ServiceCall.Plain.rendered h own
  | visit v =>
    cases v with
    | present => exact h.1.rendered own
    | purge => exact ServiceCall.Plain.rendered h own

def Explains (issuer : TokenIssuer) (i : Nat) :
    (e : Errand) → List Event → Option e.Outcome → Prop
  | issue fileId, own, some (.ok m) =>
    ShownCompleted own fileId ∧ ∃ nonce now, issuer.mint? fileId nonce now = some m
  | visit (.present fileId token), own, r => Presented issuer fileId token i own r
  | _, _, _ => True

def Follows (issuer : TokenIssuer) (i : Nat) (e : Errand) (own : List Event)
    (p : ServiceProgram e.Outcome) : Prop :=
  p.Concludes e.Allows (fun own (c : ServiceCall) (r : c.Reply) => own ++ [⟨i, c, r⟩])
    (e.Explains issuer i) own

variable {issuer : TokenIssuer} {i : Nat}

theorem follows_issue (fileId : Uuid) :
    (issue fileId).Follows issuer i [] (Previews.issueToken issuer fileId) := by
  refine ⟨trivial, fun r => ?_⟩
  cases r with
  | error e => trivial
  | ok latest =>
    dsimp only
    split
    · rename_i hs
      obtain ⟨job, rfl, hjob⟩ := Option.map_eq_some_iff.mp hs
      refine ⟨trivial, fun now => ?_⟩
      dsimp only
      split
      · trivial
      refine ⟨trivial, fun nonce => ?_⟩
      dsimp only
      split
      · rename_i m hm
        exact ⟨trivial, fun _ => ⟨⟨_, .head _, rfl, hjob⟩, nonce, now, hm⟩⟩
      · trivial
    · trivial

theorem follows_present (fileId : Uuid) (token : String) :
    (visit (.present fileId token)).Follows issuer i []
      (Previews.openPreview issuer fileId token) := by
  refine ⟨⟨trivial, by simp⟩, fun now => ?_⟩
  dsimp only
  split
  · rename_i error hv
    exact Presented.refused _ fun claims hg => nomatch hv.symm.trans hg.1
  rename_i claims hv
  split
  · rename_i hf
    have grants : issuer.Grants fileId token now claims := ⟨hv, hf⟩
    refine ⟨⟨trivial, by simp⟩, fun r => ?_⟩
    rcases r with error | _ | _
    · exact Presented.used _ grants (by simp)
    · exact Presented.used _ grants (by simp)
    · refine ⟨⟨trivial, by simp⟩, fun r => ?_⟩
      cases r with
      | error cause => exact Presented.missing cause grants
      | ok bytes => exact Presented.opened bytes grants
  · rename_i hf
    refine Presented.refused _ fun c hg => hf ?_
    rw [Except.ok.inj (hv.symm.trans hg.1)]
    exact hg.2

theorem follows_program (issuer : TokenIssuer) (i : Nat) (e : Errand) :
    e.Follows issuer i [] (e.program issuer) := by
  have plain {a : Activity} {p : ServiceProgram a.Outcome} (h : p.Every ServiceCall.Plain)
      (ha : ∀ own c, c.Plain → (background a).Allows own c) :
      (background a).Follows issuer i [] p :=
    (obeys_of_every (h.imp fun c hc own => ha own c hc) []).concludes fun _ _ => trivial
  cases e with
  | background a =>
    cases a with
    | work w id => exact (w.renders_process id i []).concludes fun _ _ => trivial
    | sweep staleAfter =>
      exact plain ((Sweep.every_runOnce staleAfter).imp fun _ h => h.plain) fun _ _ h => h
    | enqueue maxAttempts fileId requestedBy =>
      exact plain ((Previews.every_enqueue maxAttempts fileId requestedBy).imp fun _ h => h.plain)
        fun _ _ h => h
    | retry fileId =>
      exact plain ((Previews.every_retry fileId).imp fun _ h => h.plain) fun _ _ h => h
  | issue fileId => exact follows_issue fileId
  | visit v =>
    cases v with
    | present fileId token => exact follows_present fileId token
    | purge => exact ⟨trivial, fun now => ⟨trivial, fun _ => trivial⟩⟩

end Errand

end DocumentPreview
