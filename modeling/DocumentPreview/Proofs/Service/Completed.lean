import DocumentPreview.Proofs.Recovery.Operations
import DocumentPreview.Proofs.Service.Conduct
import DocumentPreview.Proofs.Service.Rendering

namespace DocumentPreview

open Entrance (own)

namespace ServiceCall

variable {s : Shared} {o : Outside}

theorem completes_of_changes {c : ServiceCall} {id : Uuid}
    (h : (id, .completed) ∈ c.changes (s.answer o c).1) : ∃ now, c = .store (.complete id now) := by
  have settles : c.settles? = some id := Shared.settles?_of_changes (.inl rfl) h
  cases c with
  | store op =>
    have turn : op.change? = some .completed := StoreOp.change?_of_mem_changes h
    cases op with
    | complete other now =>
      obtain rfl := Option.some.inj settles
      exact ⟨now, rfl⟩
    | _ => cases turn
  | _ => cases settles

end ServiceCall

namespace Shared

variable {s : Shared} {o : Outside} {c : ServiceCall}

theorem row_answer (h : s.store.Distinct) (hu : s.store.Unused o.freshId) (c : ServiceCall)
    {j : Job} (hj : j ∈ s.store.rows) :
    ∃ k ∈ (s.answer o c).2.store.rows, k.id = j.id ∧ k.fileId = j.fileId := by
  have hrow := answer_row h hu c j.id
  rw [MemoryStore.get?_self h hj] at hrow
  generalize ha : (s.answer o c).2.store.get? j.id = after at hrow
  cases hrow with
  | same =>
    obtain ⟨hk, hid⟩ := MemoryStore.mem_of_get? ha
    exact ⟨j, hk, rfl, rfl⟩
  | turned _ _ ht =>
    obtain ⟨hk, hid⟩ := MemoryStore.mem_of_get? ha
    exact ⟨_, hk, hid, ht.fileId⟩

theorem completed_answer (h : s.store.Distinct) (hu : s.store.Unused o.freshId) {k : Job}
    (hk : k ∈ (s.answer o c).2.store.rows) (hc : k.status = .completed) :
    ∃ j ∈ s.store.rows, j.id = k.id ∧ j.fileId = k.fileId ∧
      (j.status = .completed ∨ ∃ now, c = .store (.complete k.id now)) := by
  have hrow := answer_row h hu c k.id
  rw [MemoryStore.get?_self (answer_distinct h c) hk] at hrow
  generalize hb : s.store.get? k.id = before at hrow
  generalize hi : k.id = id at hrow
  cases hrow with
  | same =>
    obtain ⟨hj, hid⟩ := MemoryStore.mem_of_get? hb
    exact ⟨k, hj, hi, rfl, .inl hc⟩
  | created => cases hc
  | @turned change j _ hmem _ ht =>
    obtain ⟨hj, hid⟩ := MemoryStore.mem_of_get? hb
    have completes : change = .completed := by
      have target := ht.target.symm.trans hc
      cases change <;> first | rfl | cases target
    rw [completes] at hmem
    exact ⟨j, hj, hid.trans hi, ht.fileId.symm, .inr (ServiceCall.completes_of_changes hmem)⟩

end Shared

namespace Backend

variable {s t : Backend} {o : Outside} {c : ServiceCall} {fileId : Uuid} {job : Job}

def Stores (s : Backend) (fileId : Uuid) : Prop :=
  ∃ object, s.objects.get? (artifactKey fileId) = some object ∧
    object.contentType = previewContentType

def Enlists (s : Backend) (job : Job) : Prop :=
  ∃ j ∈ s.store.rows, j.id = job.id ∧ j.fileId = job.fileId

structure Grows (s t : Backend) : Prop where
  stores : ∀ fileId, s.Stores fileId → t.Stores fileId
  enlists : ∀ job, s.Enlists job → t.Enlists job

theorem Grows.refl (s : Backend) : s.Grows s :=
  ⟨fun _ h => h, fun _ h => h⟩

structure Confirms (s : Backend) (e : Event) : Prop where
  handed : ∀ job, e.call.claimed? e.reply = some job → s.Enlists job
  uploaded : ∀ fileId, e.call.Uploads fileId e.reply → s.Stores fileId
  completed : ∀ fileId, e.call.ShowsCompleted fileId e.reply → s.Stores fileId

theorem Confirms.mono {e : Event} (h : s.Confirms e) (hg : s.Grows t) : t.Confirms e where
  handed job hj := hg.enlists job (h.handed job hj)
  uploaded fileId hf := hg.stores fileId (h.uploaded fileId hf)
  completed fileId hf := hg.stores fileId (h.completed fileId hf)

structure Backed (s : Backend) : Prop where
  distinct : s.store.Distinct
  stored : ∀ j ∈ s.store.rows, j.status = .completed → s.Stores j.fileId

theorem stores_upload {key contentType : String} {bytes : Bytes}
    (ht : t.objects = s.objects.upload key bytes contentType)
    (hk : Reserved key → contentType = previewContentType) (h : s.Stores fileId) :
    t.Stores fileId := by
  obtain ⟨object, ho, hp⟩ := h
  by_cases hkey : artifactKey fileId = key
  · refine ⟨⟨bytes, contentType⟩, ?_, hk (hkey ▸ reserved_artifactKey fileId)⟩
    rw [ht, hkey]
    exact ObjectStore.get?_upload_self
  · refine ⟨object, ?_, hp⟩
    rw [ht, ObjectStore.get?_upload_of_ne hkey]
    exact ho

theorem objects_answer {own : List Event} (hc : c.Rendered own) :
    (s.answer o c).2.objects = s.objects ∨
      ∃ key bytes, (s.answer o c).2.objects = s.objects.upload key bytes previewContentType := by
  cases c with
  | documents c =>
    cases c with
    | upload => exact hc.elim
    | find | download | convert => exact .inl rfl
  | within deadline c =>
    simp only [answer]
    split
    · exact .inl rfl
    · cases c with
      | upload key bytes contentType =>
        obtain rfl : contentType = previewContentType := hc
        exact .inr ⟨key, bytes, rfl⟩
      | find | download | convert => exact .inl rfl
  | _ => exact .inl rfl

theorem grows_answer (h : s.store.Distinct) (hu : s.store.Unused o.freshId) {own : List Event}
    (hc : c.Rendered own) : s.Grows (s.answer o c).2 where
  stores fileId hs := by
    rcases objects_answer hc with he | ⟨key, bytes, he⟩
    · rwa [Stores, he]
    · exact stores_upload he (fun _ => rfl) hs
  enlists job hj := by
    obtain ⟨j, hj, hid, hf⟩ := hj
    obtain ⟨k, hk, hkid, hkf⟩ := Shared.row_answer h hu c hj
    refine ⟨k, ?_, hkid.trans hid, hkf.trans hf⟩
    rwa [store, shared_answer]

theorem Backed.answer (h : s.Backed) (hu : s.store.Unused o.freshId) {own : List Event}
    (hc : c.Rendered own) (hown : ∀ e ∈ own, s.Confirms e) : (s.answer o c).2.Backed where
  distinct := by
    rw [store, shared_answer]
    exact Shared.answer_distinct h.distinct c
  stored k hk hs := by
    rw [store, shared_answer] at hk
    refine (grows_answer h.distinct hu hc).stores _ ?_
    obtain ⟨j, hj, hid, hf, completed | ⟨now, rfl⟩⟩ := Shared.completed_answer h.distinct hu hk hs
    · exact hf ▸ h.stored j hj completed
    -- The worker was handed a job with this identifier, so with this file, and has uploaded.
    · obtain ⟨job, ⟨d, hd, handed⟩, hjob, e, he, uploads⟩ := hc
      obtain ⟨i, hi, hijob, hif⟩ := (hown d hd).handed job handed
      obtain rfl := h.distinct.eq hi hj ((hijob.trans hjob).trans hid.symm)
      rw [← hf, hif]
      exact (hown e he).uploaded _ uploads

theorem stores_of_uploads (h : c.Uploads fileId (s.answer o c).1) :
    (s.answer o c).2.Stores fileId := by
  cases c with
  | within deadline c =>
    cases c with
    | upload key bytes contentType =>
      simp only [answer] at h ⊢
      split at h
      · cases h
      · rename_i r hr
        obtain ⟨rfl, rfl⟩ := h
        exact ⟨_, ObjectStore.get?_upload_self, rfl⟩
    | _ => cases h
  | _ => cases h

theorem Backed.stores_of_showsCompleted (h : s.Backed)
    (hc : c.ShowsCompleted fileId (s.answer o c).1) : s.Stores fileId := by
  cases c with
  | store op =>
    cases op with
    | latest id =>
      have latest : (s.answer o (.store (.latest id))).1 = .ok (s.store.latest? id) := rfl
      rw [latest] at hc
      cases hl : s.store.latest? id with
      | none =>
        rw [hl] at hc
        cases hc
      | some j =>
        rw [hl] at hc
        obtain ⟨rfl, hs⟩ := hc
        obtain ⟨hj, hf, -⟩ := MemoryStore.newest_of_latest? hl
        exact hf ▸ h.stored j hj hs
    | _ => cases hc
  | _ => cases hc

theorem enlists_of_claimed? (h : s.store.Distinct) (hc : c.claimed? (s.answer o c).1 = some job) :
    (s.answer o c).2.Enlists job := by
  have handed : c.claimed? (s.shared.answer o c).1 = some job := by
    cases c with
    | store => exact hc
    | _ => cases hc
  obtain ⟨hj, -⟩ := MemoryStore.mem_of_get? (Shared.get?_of_claimed? h handed)
  refine ⟨job, ?_, rfl, rfl⟩
  rwa [store, shared_answer]

theorem Backed.confirms_answer (h : s.Backed) (hu : s.store.Unused o.freshId) {own : List Event}
    (hc : c.Rendered own) (i : Nat) :
    (s.answer o c).2.Confirms ⟨i, c, (s.answer o c).1⟩ where
  handed _ hj := enlists_of_claimed? h.distinct hj
  uploaded _ hf := stores_of_uploads hf
  completed _ hf := (grows_answer h.distinct hu hc).stores _ (h.stores_of_showsCompleted hf)

end Backend

namespace Traffic

theorem kept_follows (issuer : TokenIssuer) :
    Conduct.Kept issuer fun i e own p => e.Follows issuer i own p where
  start i e := e.follows_program issuer i
  answered h r := h.2 r

structure Sound (issuer : TokenIssuer) (s : Traffic) : Prop where
  backed : s.backend.Backed
  confirms : ∀ e ∈ s.past, s.backend.Confirms e
  conducted : s.Conducted fun i e own p => e.Follows issuer i own p

variable {issuer : TokenIssuer} {s t : Traffic}

theorem sound_opening (queue : JobQueue) (clock : Instant) (objects : ObjectStore) :
    (opening queue clock objects).Sound issuer where
  backed := ⟨MemoryStore.distinct_empty, fun _ hj => absurd hj List.not_mem_nil⟩
  confirms _ h := absurd h List.not_mem_nil
  conducted := .idle _

section Answered

variable {i : Nat} {e : Errand} {c : ServiceCall} {next : c.Reply → ServiceProgram e.Outcome}
  {o : Outside}

theorem Sound.rendered (h : s.Sound issuer) (hr : s.runners[i]? = some ⟨e, .call c next⟩) :
    c.Rendered (own i s.past) :=
  (h.conducted.follows i _ hr).1.rendered

theorem Sound.answered (h : s.Sound issuer) (hr : s.runners[i]? = some ⟨e, .call c next⟩)
    (hu : s.store.Unused o.freshId) : (s.answered i o e c next).Sound issuer where
  backed := h.backed.answer hu (h.rendered hr) fun d hd => h.confirms d (List.mem_filter.mp hd).1
  confirms d hd := by
    rcases List.mem_append.mp hd with hd | hd
    · exact (h.confirms d hd).mono (Backend.grows_answer h.backed.distinct hu (h.rendered hr))
    · exact List.mem_singleton.mp hd ▸ h.backed.confirms_answer hu (h.rendered hr) i
  conducted := h.conducted.answered (kept_follows issuer) hr

end Answered

theorem Sound.grows (h : s.Sound issuer) (hl : s.Leads issuer t) : s.backend.Grows t.backend := by
  cases hl with
  | stay | start => exact .refl _
  | answered o hr hu => exact Backend.grows_answer h.backed.distinct hu (h.rendered hr)
  | reordered hp =>
    refine ⟨fun _ hf => hf, ?_⟩
    rintro job ⟨j, hj, hjob⟩
    exact ⟨j, hp.mem_iff.mp hj, hjob⟩
  | deposited _ _ hk => exact ⟨fun _ => Backend.stores_upload rfl (absurd · hk), fun _ hj => hj⟩

theorem Sound.leads (h : s.Sound issuer) (hl : s.Leads issuer t) : t.Sound issuer := by
  have grows := h.grows hl
  have conducted := h.conducted.leads (kept_follows issuer) hl
  cases hl with
  | stay => exact h
  | start e => exact ⟨h.backed, h.confirms, conducted⟩
  | answered o hr hu => exact h.answered hr hu
  | reordered hp =>
    refine ⟨⟨h.backed.distinct.perm hp, fun j hj => ?_⟩, fun e he => (h.confirms e he).mono grows,
      conducted⟩
    exact h.backed.stored j (hp.mem_iff.mpr hj)
  | deposited =>
    refine ⟨⟨h.backed.distinct, fun j hj hs => ?_⟩, fun e he => (h.confirms e he).mono grows,
      conducted⟩
    exact grows.stores _ (h.backed.stored j hj hs)

theorem sound_run (queue : JobQueue) (clock : Instant) (objects : ObjectStore) (ms : List Move) :
    ((opening queue clock objects).run issuer ms).Sound issuer :=
  run_invariant (sound_opening queue clock objects) (fun _ _ => Sound.leads) ms

end Traffic

end DocumentPreview
