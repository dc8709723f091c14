import DocumentPreview.Proofs.Service.Shared

namespace DocumentPreview

structure Surroundings where
  time : Nat → Instant
  answered : DocumentCall → Int
  catalog : Uuid → Except CatalogError (Option FileRecord)
  converter : String → Bytes → Except ConversionError Bytes
  refusal : DocumentCall → Option StorageError

structure Station where
  shared : Shared
  objects : ObjectStore
  looks : Nat

def ServiceCall.looks : ServiceCall → Nat
  | .clock | .store _ => 1
  | _ => 0

namespace Surroundings

variable (e : Surroundings)

def fetched (objects : ObjectStore) (key : String) : Except StorageError Bytes :=
  (e.refusal (.download key)).elim (objects.download key) .error

def accepted (key : String) (bytes : Bytes) (contentType : String) : Except StorageError Unit :=
  (e.refusal (.upload key bytes contentType)).elim (.ok ()) .error

def reply (objects : ObjectStore) : (c : DocumentCall) → c.Reply
  | .find fileId => e.catalog fileId
  | .download key => e.fetched objects key
  | .convert name source => e.converter name source
  | .upload key bytes contentType => e.accepted key bytes contentType

def stored (objects : ObjectStore) : DocumentCall → ObjectStore
  | .upload key bytes contentType =>
    match e.accepted key bytes contentType with
    | .ok () => objects.upload key bytes contentType
    | .error _ => objects
  | _ => objects

def answer : (c : ServiceCall) → Station → c.Reply × Station
  | .documents c, s => (e.reply s.objects c, { s with objects := e.stored s.objects c })
  | .within deadline c, s =>
    if e.answered c ≤ deadline then
      (some (e.reply s.objects c), { s with objects := e.stored s.objects c })
    else (none, s)
  | c, s =>
    let (r, shared) := s.shared.answer (.slow (e.time s.looks) default) c
    (r, { s with shared := shared, looks := s.looks + c.looks })

variable (objects : ObjectStore) (limit : Span) (deadline : Int) (fileId : Uuid)

def inTime {ε α : Type} (c : DocumentCall) (r : Except ε α) (cause : ε → AttemptError) :
    Except AttemptError α :=
  if e.answered c ≤ deadline then r.mapError cause else .error (.timedOut limit)

def uploaded (preview : Bytes) : Except AttemptError Bytes := do
  e.inTime limit deadline (.upload (artifactKey fileId) preview previewContentType)
    (e.accepted (artifactKey fileId) preview previewContentType) .storage
  return preview

def converted (name : String) (source : Bytes) : Except AttemptError Bytes := do
  let preview ← e.inTime limit deadline (.convert name source) (e.converter name source) .conversion
  e.uploaded limit deadline fileId preview

def downloaded (file : FileRecord) : Except AttemptError Bytes := do
  let source ← e.inTime limit deadline (.download file.storageKey)
    (e.fetched objects file.storageKey) .storage
  e.converted limit deadline fileId file.name source

def outcome : Except AttemptError Bytes := do
  match ← e.inTime limit deadline (.find fileId) (e.catalog fileId) .catalog with
  | some file => e.downloaded objects limit deadline fileId file
  | none => throw (.fileMissing fileId)

end Surroundings

def ObjectStore.rendered (s : ObjectStore) (fileId : Uuid) : Except AttemptError Bytes → ObjectStore
  | .ok preview => s.upload (artifactKey fileId) preview previewContentType
  | .error _ => s

namespace Worker

variable {e : Surroundings} {s : Station} {w : Worker} {job : Job} {deadline : Int}

theorem run_await (c : DocumentCall) (next : c.Reply → ServiceProgram (Option Job)) :
    (w.await job deadline c next).run e.answer s =
      if e.answered c ≤ deadline then
        (next (e.reply s.objects c)).run e.answer { s with objects := e.stored s.objects c }
      else (w.finish job (.error (.timedOut w.timeLimit))).run e.answer s := by
  by_cases there : e.answered c ≤ deadline <;>
    simp only [await, Program.run, Surroundings.answer, there, if_true, if_false]

def Ends (e : Surroundings) (w : Worker) (job : Job) (s : Station) (p : ServiceProgram (Option Job))
    (r : Except AttemptError Bytes) : Prop :=
  p.run e.answer s = (w.finish job (r.map fun _ => ())).run e.answer
    { s with objects := s.objects.rendered job.fileId r }

theorem ends_upload (preview : Bytes) : Ends e w job s (w.upload job deadline preview)
    (e.uploaded w.timeLimit deadline job.fileId preview) := by
  rw [Ends, upload, run_await, Surroundings.uploaded, Surroundings.inTime]
  by_cases there :
      e.answered (.upload (artifactKey job.fileId) preview previewContentType) ≤ deadline
  · simp only [there, if_true, Surroundings.reply, Surroundings.stored]
    cases e.accepted (artifactKey job.fileId) preview previewContentType <;> rfl
  · simp only [there, if_false]
    rfl

theorem ends_convert (name : String) (source : Bytes) :
    Ends e w job s (w.convert job deadline name source)
      (e.converted w.timeLimit deadline job.fileId name source) := by
  rw [Ends, convert, run_await, Surroundings.converted, Surroundings.inTime]
  by_cases there : e.answered (.convert name source) ≤ deadline
  · simp only [there, if_true, Surroundings.reply, Surroundings.stored]
    cases e.converter name source with
    | ok preview => exact ends_upload preview
    | error cause => rfl
  · simp only [there, if_false]
    rfl

theorem ends_download (file : FileRecord) :
    Ends e w job s (w.download job deadline file)
      (e.downloaded s.objects w.timeLimit deadline job.fileId file) := by
  rw [Ends, download, run_await, Surroundings.downloaded, Surroundings.inTime]
  by_cases there : e.answered (.download file.storageKey) ≤ deadline
  · simp only [there, if_true, Surroundings.reply, Surroundings.stored]
    cases e.fetched s.objects file.storageKey with
    | ok source => exact ends_convert file.name source
    | error cause => rfl
  · simp only [there, if_false]
    rfl

theorem ends_find : Ends e w job s (w.find job deadline)
    (e.outcome s.objects w.timeLimit deadline job.fileId) := by
  rw [Ends, find, run_await, Surroundings.outcome, Surroundings.inTime]
  by_cases there : e.answered (.find job.fileId) ≤ deadline
  · simp only [there, if_true, Surroundings.reply, Surroundings.stored]
    rcases e.catalog job.fileId with cause | (_ | file)
    · rfl
    · rfl
    · exact ends_download file
  · simp only [there, if_false]
    rfl

end Worker

end DocumentPreview
