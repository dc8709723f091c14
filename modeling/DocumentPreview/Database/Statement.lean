import DocumentPreview.Database.Row

namespace DocumentPreview

inductive Statement where
  | findInFlight (fileId : Uuid)
  | insertJob (id fileId : Uuid) (maxAttempts : Int32) (requestedBy : Option String)
  | getJob (id : Uuid)
  | latestJob (fileId : Uuid)
  | claimJob (id : Uuid) (now : Instant)
  | completeJob (id : Uuid) (now : Instant)
  | failJob (id : Uuid) (error : String) (nextRetryAt : Option Instant)
  | resetJob (id : Uuid)
  | requeueJobs (now : Instant) (limit : Int)
  | pendingJobs (limit : Int)
  | reapJobs (cutoff now : Instant)
  | countJobs
  | ping
  | findFile (id : Uuid)
  | createVersions
  | currentDatabase
  | lock
  | unlock
  | unfinishedVersion
  | versions
  | beginChange
  | createJobs
  | recordVersion (version : Nat)
  | commit
  | recordDuration (version : Nat)
  deriving DecidableEq, Repr

namespace Statement

def Rows : Statement → Type
  | findInFlight _ | insertJob .. | getJob _ | latestJob _ | claimJob .. | completeJob ..
  | failJob .. | resetJob _ | requeueJobs .. | pendingJobs _ | reapJobs .. => List JobRow
  | countJobs => List (String × Nat)
  | findFile _ => List FileRow
  | unfinishedVersion | versions => List Nat
  | _ => Unit

def jobsVersion : Nat :=
  20261018000001

def jobColumns : String :=
  "id, file_id, status, attempts, max_attempts, last_error, next_retry_at, started_at, "
    ++ "completed_at, requested_by, created_at, updated_at"

def lines (indent : Nat) (ls : List String) : String :=
  ("\n" ++ String.ofList (List.replicate indent ' ')).intercalate ls

def update (changes conditions : List String) : String :=
  lines 12
    ("UPDATE preview_jobs" :: ("SET " ++ ",\n                ".intercalate changes)
      :: conditions ++ ["RETURNING " ++ jobColumns])

def selectJobs (rest : String) : String :=
  "SELECT " ++ jobColumns ++ " FROM preview_jobs WHERE " ++ rest

def schema : String :=
  lines 0
    ["CREATE TABLE IF NOT EXISTS preview_jobs (",
     "    id            UUID PRIMARY KEY,",
     "    file_id       UUID NOT NULL,",
     "    status        TEXT NOT NULL DEFAULT 'pending'",
     "                  CHECK (status IN ('pending', 'processing', 'completed', 'failed')),",
     "    attempts      INTEGER NOT NULL DEFAULT 0 CHECK (attempts >= 0),",
     "    max_attempts  INTEGER NOT NULL CHECK (max_attempts >= 1),",
     "    last_error    TEXT,",
     "    next_retry_at TIMESTAMPTZ,",
     "    started_at    TIMESTAMPTZ,",
     "    completed_at  TIMESTAMPTZ,",
     "    requested_by  TEXT,",
     "    created_at    TIMESTAMPTZ NOT NULL DEFAULT NOW(),",
     "    updated_at    TIMESTAMPTZ NOT NULL DEFAULT NOW()",
     ");",
     "",
     "-- Single-flight: at most one pending/processing job per file.",
     "CREATE UNIQUE INDEX IF NOT EXISTS preview_jobs_active_file",
     "    ON preview_jobs (file_id)",
     "    WHERE status IN ('pending', 'processing');",
     "",
     "CREATE INDEX IF NOT EXISTS preview_jobs_file_created",
     "    ON preview_jobs (file_id, created_at DESC);",
     "",
     "CREATE INDEX IF NOT EXISTS preview_jobs_retry_due",
     "    ON preview_jobs (next_retry_at)",
     "    WHERE status = 'failed';",
     "",
     "CREATE INDEX IF NOT EXISTS preview_jobs_processing_started",
     "    ON preview_jobs (started_at)",
     "    WHERE status = 'processing';",
     ""]

def text : Statement → String
  | findInFlight _ =>
    selectJobs
      ("file_id = $1 AND (status IN ('pending', 'processing') OR (status = 'failed' "
        ++ "AND attempts < max_attempts AND next_retry_at IS NOT NULL)) "
        ++ "ORDER BY created_at DESC LIMIT 1")
  | insertJob .. =>
    lines 12
      ["INSERT INTO preview_jobs (id, file_id, status, attempts, max_attempts, requested_by)",
       "VALUES ($1, $2, 'pending', 0, $3, $4)",
       "ON CONFLICT (file_id) WHERE status IN ('pending', 'processing') DO NOTHING",
       "RETURNING " ++ jobColumns]
  | getJob _ => selectJobs "id = $1"
  | latestJob _ => selectJobs "file_id = $1 ORDER BY created_at DESC LIMIT 1"
  | claimJob .. =>
    update
      ["status = 'processing'", "attempts = attempts + 1", "started_at = $2",
       "next_retry_at = NULL", "updated_at = NOW()"]
      ["WHERE id = $1 AND status = 'pending'"]
  | completeJob .. =>
    update
      ["status = 'completed'", "completed_at = $2", "last_error = NULL", "next_retry_at = NULL",
       "updated_at = NOW()"]
      ["WHERE id = $1 AND status = 'processing'"]
  | failJob .. =>
    update ["status = 'failed'", "last_error = $2", "next_retry_at = $3", "updated_at = NOW()"]
      ["WHERE id = $1 AND status = 'processing'"]
  | resetJob _ =>
    update
      ["status = 'pending'", "attempts = 0", "last_error = NULL", "next_retry_at = NULL",
       "updated_at = NOW()"]
      ["WHERE id = $1 AND status = 'failed'",
       "  AND NOT EXISTS (",
       "      SELECT 1 FROM preview_jobs active",
       "      WHERE active.file_id = preview_jobs.file_id",
       "        AND active.status IN ('pending', 'processing')",
       "  )"]
  | requeueJobs .. =>
    update ["status = 'pending'", "next_retry_at = NULL", "updated_at = NOW()"]
      ["WHERE id IN (",
       "    SELECT due.id FROM preview_jobs due",
       "    WHERE due.status = 'failed'",
       "      AND due.attempts < due.max_attempts",
       "      AND due.next_retry_at <= $1",
       "      AND NOT EXISTS (",
       "          SELECT 1 FROM preview_jobs active",
       "          WHERE active.file_id = due.file_id",
       "            AND active.status IN ('pending', 'processing')",
       "      )",
       "    ORDER BY due.next_retry_at ASC",
       "    LIMIT $2",
       "    FOR UPDATE OF due SKIP LOCKED",
       ")",
       "AND status = 'failed'"]
  | pendingJobs _ => selectJobs "status = 'pending' ORDER BY created_at ASC LIMIT $1"
  | reapJobs .. =>
    update
      ["status = 'failed'", "last_error = $3",
       "next_retry_at = CASE WHEN attempts < max_attempts THEN $2 ELSE NULL END",
       "updated_at = NOW()"]
      ["WHERE status = 'processing' AND started_at < $1"]
  | countJobs => "SELECT status, COUNT(*) AS n FROM preview_jobs GROUP BY status"
  | ping => "SELECT 1"
  | findFile _ =>
    lines 12
      ["SELECT id, name, storage_key, mime_type", "FROM files",
       "WHERE id = $1 AND deleted_at IS NULL"]
  | createVersions =>
    lines 4
      ["CREATE TABLE IF NOT EXISTS _sqlx_migrations (", "version BIGINT PRIMARY KEY,",
       "description TEXT NOT NULL,", "installed_on TIMESTAMPTZ NOT NULL DEFAULT now(),",
       "success BOOLEAN NOT NULL,", "checksum BYTEA NOT NULL,",
       "execution_time BIGINT NOT NULL"] ++ "\n);"
  | currentDatabase => "SELECT current_database()"
  | lock => "SELECT pg_advisory_lock($1)"
  | unlock => "SELECT pg_advisory_unlock($1)"
  | unfinishedVersion =>
    "SELECT version FROM _sqlx_migrations WHERE success = false ORDER BY version LIMIT 1"
  | versions => "SELECT version, checksum FROM _sqlx_migrations ORDER BY version"
  | beginChange => "BEGIN"
  | createJobs => schema
  | recordVersion _ =>
    lines 4
      ["INSERT INTO _sqlx_migrations ( version, description, success, checksum, execution_time )",
       "VALUES ( $1, $2, TRUE, $3, -1 )"]
  | commit => "COMMIT"
  | recordDuration _ =>
    lines 4
      ["UPDATE _sqlx_migrations", "SET execution_time = $1", "WHERE version = $2"]

end Statement

end DocumentPreview
