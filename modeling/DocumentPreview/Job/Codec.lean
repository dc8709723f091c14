import DocumentPreview.Job.Basic
import DocumentPreview.Json.Basic
import DocumentPreview.Time.Rfc3339

namespace DocumentPreview

def JobStatus.toJson (s : JobStatus) : Json :=
  .text s.name

def JobStatus.ofJson? : Json → Option JobStatus
  | .string (some s) => ofName? s
  | .object [(some s, .null)] => ofName? s
  | _ => none

namespace Job

def fieldNames : List String :=
  ["id", "file_id", "status", "attempts", "max_attempts", "last_error", "next_retry_at", "started_at",
   "completed_at", "requested_by", "created_at", "updated_at"]

def toJson (j : Job) : Json :=
  .record
    [("id", j.id.toJson), ("file_id", j.fileId.toJson), ("status", j.status.toJson),
     ("attempts", .int j.attempts.toInt), ("max_attempts", .int j.maxAttempts.toInt),
     ("last_error", .ofOption .text j.lastError),
     ("next_retry_at", .ofOption Instant.toJson j.nextRetryAt),
     ("started_at", .ofOption Instant.toJson j.startedAt),
     ("completed_at", .ofOption Instant.toJson j.completedAt),
     ("requested_by", .ofOption .text j.requestedBy),
     ("created_at", j.createdAt.toJson), ("updated_at", j.updatedAt.toJson)]

def ofFields? : List (Option Json) → Option Job
  | [id, fileId, status, attempts, maxAttempts, lastError, nextRetryAt, startedAt, completedAt,
      requestedBy, createdAt, updatedAt] => do
    return {
      id := ← Json.required? Uuid.ofJson? id
      fileId := ← Json.required? Uuid.ofJson? fileId
      status := ← Json.required? JobStatus.ofJson? status
      attempts := ← Json.required? Json.int32? attempts
      maxAttempts := ← Json.required? Json.int32? maxAttempts
      lastError := ← Json.optional? Json.text? lastError
      nextRetryAt := ← Json.optional? Instant.ofJson? nextRetryAt
      startedAt := ← Json.optional? Instant.ofJson? startedAt
      completedAt := ← Json.optional? Instant.ofJson? completedAt
      requestedBy := ← Json.optional? Json.text? requestedBy
      createdAt := ← Json.required? Instant.ofJson? createdAt
      updatedAt := ← Json.required? Instant.ofJson? updatedAt }
  | _ => none

def ofJson? (j : Json) : Option Job :=
  (j.fields? fieldNames).bind ofFields?

end Job

structure JobResponse where
  jobId : Uuid
  fileId : Uuid
  status : JobStatus
  attempts : Int32
  maxAttempts : Int32
  lastError : Option String
  nextRetryAt : Option Instant
  startedAt : Option Instant
  completedAt : Option Instant
  createdAt : Instant
  updatedAt : Instant
  queueFull : Bool
  deriving DecidableEq, Repr

namespace JobResponse

def ofJob (j : Job) (queueFull : Bool) : JobResponse where
  jobId := j.id
  fileId := j.fileId
  status := j.status
  attempts := j.attempts
  maxAttempts := j.maxAttempts
  lastError := j.lastError
  nextRetryAt := j.nextRetryAt
  startedAt := j.startedAt
  completedAt := j.completedAt
  createdAt := j.createdAt
  updatedAt := j.updatedAt
  queueFull := queueFull

def fieldNames : List String :=
  ["job_id", "file_id", "status", "attempts", "max_attempts", "last_error", "next_retry_at",
   "started_at", "completed_at", "created_at", "updated_at", "queue_full"]

def present {α : Type} (name : String) (f : α → Json) : Option α → List (String × Json)
  | none => []
  | some a => [(name, f a)]

def toJson (r : JobResponse) : Json :=
  .record
    ([("job_id", r.jobId.toJson), ("file_id", r.fileId.toJson), ("status", r.status.toJson),
      ("attempts", .int r.attempts.toInt), ("max_attempts", .int r.maxAttempts.toInt)]
      ++ present "last_error" .text r.lastError
      ++ present "next_retry_at" Instant.toJson r.nextRetryAt
      ++ present "started_at" Instant.toJson r.startedAt
      ++ present "completed_at" Instant.toJson r.completedAt
      ++ [("created_at", r.createdAt.toJson), ("updated_at", r.updatedAt.toJson)]
      ++ (if r.queueFull then [("queue_full", .bool true)] else []))

def ofFields? : List (Option Json) → Option JobResponse
  | [jobId, fileId, status, attempts, maxAttempts, lastError, nextRetryAt, startedAt, completedAt,
      createdAt, updatedAt, queueFull] => do
    return {
      jobId := ← Json.required? Uuid.ofJson? jobId
      fileId := ← Json.required? Uuid.ofJson? fileId
      status := ← Json.required? JobStatus.ofJson? status
      attempts := ← Json.required? Json.int32? attempts
      maxAttempts := ← Json.required? Json.int32? maxAttempts
      lastError := ← Json.optional? Json.text? lastError
      nextRetryAt := ← Json.optional? Instant.ofJson? nextRetryAt
      startedAt := ← Json.optional? Instant.ofJson? startedAt
      completedAt := ← Json.optional? Instant.ofJson? completedAt
      createdAt := ← Json.required? Instant.ofJson? createdAt
      updatedAt := ← Json.required? Instant.ofJson? updatedAt
      queueFull := ← Json.required? Json.bool? (some (queueFull.getD (.bool false))) }
  | _ => none

def ofJson? (j : Json) : Option JobResponse :=
  (j.fields? fieldNames).bind ofFields?

end JobResponse

end DocumentPreview
