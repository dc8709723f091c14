import DocumentPreview.Job.Codec
import DocumentPreview.Proofs.Json.Objects
import DocumentPreview.Proofs.Time.Rfc3339
import DocumentPreview.Proofs.Token.Payload

namespace DocumentPreview

namespace Json

theorem int32?_int (i : Int32) : (int i.toInt).int32? = some i := by
  have low := i.le_toInt
  have high := i.toInt_lt
  rw [int32?, intBetween?, int?_int, Option.bind_some, if_pos (by omega), Option.map_some,
    Int32.ofInt_toInt]

structure Inverse {α : Type} (write : α → Json) (read : Json → Option α) : Prop where
  read_write : ∀ a, read (write a) = some a
  not_null : ∀ a, write a ≠ .null
  readable : ∀ a, (write a).Readable

variable {α : Type} {write : α → Json} {read : Json → Option α}

theorem Inverse.optional? (h : Inverse write read) (o : Option α) :
    optional? read (o.map write) = some o := by
  cases o with
  | none => rfl
  | some a =>
    have not_null := h.not_null a
    have back := h.read_write a
    rw [Option.map_some]
    generalize write a = j at not_null back
    cases j <;> first | exact absurd rfl not_null | exact congrArg (Option.map some) back

theorem Inverse.optional?_ofOption (h : Inverse write read) (o : Option α) :
    Json.optional? read (some (ofOption write o)) = some o := by
  cases o with
  | none => rfl
  | some a => exact h.optional? (some a)

theorem Inverse.required? (h : Inverse write read) (a : α) :
    required? read (some (write a)) = some a :=
  h.read_write a

theorem Inverse.readable_ofOption (h : Inverse write read) (o : Option α) :
    (ofOption write o).Readable := by
  cases o with
  | none => exact .null
  | some a => exact h.readable a

theorem readable_record {ms : List (String × Json)} (h : ∀ m ∈ ms, m.2.Readable) :
    (record ms).Readable := by
  refine .object fun m hm => ?_
  obtain ⟨m, member, rfl⟩ := List.mem_map.mp hm
  exact h m member

theorem widens_refl (names : List String) (ms : List (String × Json)) :
    Widens names ms (.record ms) :=
  ⟨ms, [], rfl, by rw [List.append_nil], nofun⟩

theorem ofString?_toText {j : Json} (h : j.Readable) : ofString? j.toText = some j := by
  have bytes : Utf8.ofString j.toText = j.toBytes := by
    rw [Utf8.ofString, toText, String.toList_ofList, toBytes]
  rw [ofString?, bytes, ofBytes?_toBytes h]

end Json

theorem Json.inverse_text : Json.Inverse Json.text Json.text? :=
  ⟨fun _ => rfl, nofun, fun _ => .string _⟩

theorem Json.inverse_int32 : Json.Inverse (fun i : Int32 => Json.int i.toInt) Json.int32? :=
  ⟨Json.int32?_int, nofun, fun _ => .number nofun⟩

theorem Uuid.inverse : Json.Inverse Uuid.toJson Uuid.ofJson? :=
  ⟨Uuid.ofJson?_toJson, fun u => Json.inverse_text.not_null u.text, fun _ => .string _⟩

theorem Instant.inverse : Json.Inverse Instant.toJson Instant.ofJson? :=
  ⟨Instant.ofJson?_toJson, fun t => Json.inverse_text.not_null t.text, fun _ => .string _⟩

theorem JobStatus.inverse : Json.Inverse JobStatus.toJson JobStatus.ofJson? :=
  ⟨JobStatus.ofName?_name, fun s => Json.inverse_text.not_null s.name, fun _ => .string _⟩

namespace Job

variable (j : Job)

def members : List (String × Json) :=
  [("id", j.id.toJson), ("file_id", j.fileId.toJson), ("status", j.status.toJson),
   ("attempts", .int j.attempts.toInt), ("max_attempts", .int j.maxAttempts.toInt),
   ("last_error", .ofOption .text j.lastError),
   ("next_retry_at", .ofOption Instant.toJson j.nextRetryAt),
   ("started_at", .ofOption Instant.toJson j.startedAt),
   ("completed_at", .ofOption Instant.toJson j.completedAt),
   ("requested_by", .ofOption .text j.requestedBy),
   ("created_at", j.createdAt.toJson), ("updated_at", j.updatedAt.toJson)]

theorem toJson_eq : j.toJson = .record j.members :=
  rfl

theorem hasFields : Json.HasFields fieldNames j.members (j.members.map fun m => some m.2) := by
  simp [Json.HasFields, fieldNames, members, Json.named_cons, Json.named_nil]

theorem ofFields?_members : ofFields? (j.members.map fun m => some m.2) = some j := by
  simp only [members, List.map_cons, List.map_nil, ofFields?, Uuid.inverse.required?,
    Instant.inverse.required?, JobStatus.inverse.required?, Json.inverse_int32.required?,
    Json.inverse_text.optional?_ofOption, Instant.inverse.optional?_ofOption]
  rfl

theorem ofJson?_of_widens {ms : List (String × Json)} (h : Json.Widens fieldNames ms j.toJson) :
    ofJson? (.record ms) = some j := by
  rw [ofJson?, (j.hasFields.widen h).fields?, Option.bind_some, ofFields?_members]

theorem readable_member {m : String × Json} (hm : m ∈ j.members) : m.2.Readable := by
  simp only [members, List.mem_cons, List.not_mem_nil, or_false] at hm
  rcases hm with rfl | rfl | rfl | rfl | rfl | rfl | rfl | rfl | rfl | rfl | rfl | rfl
  · exact Uuid.inverse.readable _
  · exact Uuid.inverse.readable _
  · exact JobStatus.inverse.readable _
  · exact Json.inverse_int32.readable _
  · exact Json.inverse_int32.readable _
  · exact Json.inverse_text.readable_ofOption _
  · exact Instant.inverse.readable_ofOption _
  · exact Instant.inverse.readable_ofOption _
  · exact Instant.inverse.readable_ofOption _
  · exact Json.inverse_text.readable_ofOption _
  · exact Instant.inverse.readable _
  · exact Instant.inverse.readable _

theorem readable_toJson : j.toJson.Readable :=
  Json.readable_record fun _ => j.readable_member

end Job

namespace JobResponse

variable (r : JobResponse)

def members : List (String × Json) :=
  [("job_id", r.jobId.toJson), ("file_id", r.fileId.toJson), ("status", r.status.toJson),
    ("attempts", .int r.attempts.toInt), ("max_attempts", .int r.maxAttempts.toInt)]
    ++ present "last_error" .text r.lastError
    ++ present "next_retry_at" Instant.toJson r.nextRetryAt
    ++ present "started_at" Instant.toJson r.startedAt
    ++ present "completed_at" Instant.toJson r.completedAt
    ++ [("created_at", r.createdAt.toJson), ("updated_at", r.updatedAt.toJson)]
    ++ (if r.queueFull then [("queue_full", .bool true)] else [])

theorem toJson_eq : r.toJson = .record r.members :=
  rfl

def flag : Option Json :=
  if r.queueFull then some (.bool true) else none

def written : List (Option Json) :=
  [some r.jobId.toJson, some r.fileId.toJson, some r.status.toJson, some (.int r.attempts.toInt),
   some (.int r.maxAttempts.toInt), r.lastError.map .text, r.nextRetryAt.map Instant.toJson,
   r.startedAt.map Instant.toJson, r.completedAt.map Instant.toJson, some r.createdAt.toJson,
   some r.updatedAt.toJson, r.flag]

theorem named_present {α : Type} (n name : String) (write : α → Json) (o : Option α) :
    Json.named n (present name write o) = if name = n then (o.map write).toList else [] := by
  cases o <;> simp [present, Json.named_nil, Json.named_cons]

theorem named_flag (n : String) :
    Json.named n (if r.queueFull then [("queue_full", .bool true)] else []) =
      if "queue_full" = n then r.flag.toList else [] := by
  cases h : r.queueFull <;> simp [flag, h, Json.named_nil, Json.named_cons]

theorem hasFields : Json.HasFields fieldNames r.members r.written := by
  simp [Json.HasFields, fieldNames, members, written, Json.named_append, Json.named_cons,
    named_present, named_flag]

theorem ofFields?_written : ofFields? r.written = some r := by
  have full : Json.required? Json.bool? (some (r.flag.getD (.bool false))) = some r.queueFull := by
    rw [flag]
    cases r.queueFull <;> rfl
  simp only [written, ofFields?, Uuid.inverse.required?, Instant.inverse.required?,
    JobStatus.inverse.required?, Json.inverse_int32.required?, Json.inverse_text.optional?,
    Instant.inverse.optional?, full]
  rfl

theorem ofJson?_of_widens {ms : List (String × Json)} (h : Json.Widens fieldNames ms r.toJson) :
    ofJson? (.record ms) = some r := by
  rw [ofJson?, (r.hasFields.widen h).fields?, Option.bind_some, ofFields?_written]

theorem readable_present {α : Type} {write : α → Json} {read : Json → Option α}
    (h : Json.Inverse write read) {name : String} {o : Option α} {m : String × Json}
    (hm : m ∈ present name write o) : m.2.Readable := by
  cases o with
  | none => exact nomatch hm
  | some a =>
    obtain rfl := List.mem_singleton.mp hm
    exact h.readable a

theorem readable_toJson : r.toJson.Readable := by
  refine Json.readable_record fun m hm => ?_
  simp only [List.mem_append] at hm
  rcases hm with (((((own | error) | retry) | started) | completed) | times) | full
  · simp only [List.mem_cons, List.not_mem_nil, or_false] at own
    rcases own with rfl | rfl | rfl | rfl | rfl
    · exact Uuid.inverse.readable _
    · exact Uuid.inverse.readable _
    · exact JobStatus.inverse.readable _
    · exact Json.inverse_int32.readable _
    · exact Json.inverse_int32.readable _
  · exact readable_present Json.inverse_text error
  · exact readable_present Instant.inverse retry
  · exact readable_present Instant.inverse started
  · exact readable_present Instant.inverse completed
  · simp only [List.mem_cons, List.not_mem_nil, or_false] at times
    rcases times with rfl | rfl
    · exact Instant.inverse.readable _
    · exact Instant.inverse.readable _
  · split at full
    · obtain rfl := List.mem_singleton.mp full
      exact .bool true
    · exact nomatch full

def optionalFields : List (String × Bool) :=
  [("last_error", r.lastError.isSome), ("next_retry_at", r.nextRetryAt.isSome),
   ("started_at", r.startedAt.isSome), ("completed_at", r.completedAt.isSome),
   ("queue_full", r.queueFull)]

theorem isSome_member? {f : String × Bool} (h : f ∈ r.optionalFields) :
    (r.toJson.member? f.1).isSome = f.2 := by
  have flagged : r.flag.isSome = r.queueFull := by
    rw [flag]
    cases r.queueFull <;> rfl
  have fields := r.hasFields
  simp only [Json.HasFields, fieldNames, written, List.map_cons, List.map_nil, List.cons.injEq,
    and_true] at fields
  obtain ⟨-, -, -, -, -, error, retry, started, completed, -, -, full⟩ := fields
  simp only [optionalFields, List.mem_cons, List.not_mem_nil, or_false] at h
  rw [toJson_eq]
  rcases h with rfl | rfl | rfl | rfl | rfl
  · rw [Json.member?_record error, Option.isSome_map]
  · rw [Json.member?_record retry, Option.isSome_map]
  · rw [Json.member?_record started, Option.isSome_map]
  · rw [Json.member?_record completed, Option.isSome_map]
  · rw [Json.member?_record full, flagged]

end JobResponse

namespace Job

theorem returns_from_text (j : Job) (queueFull : Bool) :
    (Json.ofString? j.toJson.toText).bind ofJson? = some j ∧
    (∃ v, Json.ofString? (JobResponse.ofJob j queueFull).toJson.toText = some v ∧
      JobResponse.ofJson? v = some (JobResponse.ofJob j queueFull) ∧
      ∀ f ∈ (JobResponse.ofJob j queueFull).optionalFields, (v.member? f.1).isSome = f.2) ∧
    ∀ ts ms, List.Forall₂ Json.Denotes ts ms →
      (Json.Widens fieldNames ms j.toJson →
        (Json.ofBytes? (Json.objectText ts)).bind ofJson? = some j) ∧
      (Json.Widens JobResponse.fieldNames ms (JobResponse.ofJob j queueFull).toJson →
        (Json.ofBytes? (Json.objectText ts)).bind JobResponse.ofJson? =
          some (JobResponse.ofJob j queueFull)) := by
  refine ⟨?_, ?_, ?_⟩
  · rw [Json.ofString?_toText j.readable_toJson, Option.bind_some]
    exact j.ofJson?_of_widens (Json.widens_refl _ _)
  · exact ⟨_, Json.ofString?_toText (JobResponse.readable_toJson _),
      JobResponse.ofJson?_of_widens _ (Json.widens_refl _ _), fun _ => JobResponse.isSome_member? _⟩
  · intro ts ms denotes
    have read := Json.ofBytes?_objectText denotes
    refine ⟨fun h => ?_, fun h => ?_⟩
    · rw [read, Option.bind_some, j.ofJson?_of_widens h]
    · rw [read, Option.bind_some, JobResponse.ofJson?_of_widens _ h]

theorem returns_from_reversed_text :
    let j := fresh (.ofNat 1) (.ofNat 2) (some "\u2028") 3 .epoch
    let extra := ((Json.text "extra").toBytes, [0x20, 0x31, 0x20])
    let texts := j.members.reverse.map fun m => ((Json.text m.1).toBytes, m.2.toBytes)
    (Json.ofBytes? (Json.objectText (extra :: texts))).bind ofJson? = some j := by
  intro j extra texts
  have unknown : Json.Denotes extra ("extra", .int 1) :=
    ⟨Json.ofBytes?_toBytes (.string _), rfl⟩
  have known (m : String × Json) (hm : m ∈ j.members.reverse) :
      Json.Denotes ((Json.text m.1).toBytes, m.2.toBytes) m :=
    ⟨Json.ofBytes?_toBytes (.string _),
      Json.ofBytes?_toBytes (j.readable_member (List.mem_reverse.mp hm))⟩
  have widens : Json.Widens fieldNames (("extra", .int 1) :: j.members.reverse) j.toJson := by
    refine ⟨j.members, [("extra", .int 1)], j.toJson_eq, ?_, by decide⟩
    exact ((List.reverse_perm _).cons _).trans (List.perm_append_singleton _ _).symm
  exact ((returns_from_text j false).2.2 _ _
    (.cons unknown (List.forall₂_map_left_iff.mpr (List.forall₂_same.mpr known)))).1 widens

end Job

end DocumentPreview
