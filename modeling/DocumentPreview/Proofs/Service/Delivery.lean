import DocumentPreview.Proofs.Access.Issued

namespace DocumentPreview

open Program
open Entrance (own)

theorem Uuid.text_injective : Function.Injective Uuid.text := by
  intro u v h
  have same : u.hyphenated = v.hyphenated := String.ofList_injective h
  have read := v.ofChars?_hyphenated
  rw [← same, u.ofChars?_hyphenated] at read
  exact Option.some.inj read

theorem artifactKey_injective : Function.Injective artifactKey := by
  intro f g h
  have chars := congrArg String.toList h
  simp only [artifactKey, String.toList_append] at chars
  have texts := List.append_cancel_right chars
  exact Uuid.text_injective (String.toList_injective (List.append_cancel_left texts))

def ServiceCall.Writes (fileId : Uuid) (bytes : Bytes) : (c : ServiceCall) → c.Reply → Prop
  | .documents (.upload key written _), .ok () | .within _ (.upload key written _), some (.ok ()) =>
    key = artifactKey fileId ∧ written = bytes
  | _, _ => False

def Event.Writes (e : Event) (fileId : Uuid) (bytes : Bytes) : Prop :=
  e.call.Writes fileId bytes e.reply

def ServiceCall.Reads (fileId : Uuid) (bytes : Bytes) : (c : ServiceCall) → c.Reply → Prop
  | .documents (.download key), .ok read => key = artifactKey fileId ∧ read = bytes
  | _, _ => False

def Event.Reads (e : Event) (fileId : Uuid) (bytes : Bytes) : Prop :=
  e.call.Reads fileId bytes e.reply

def ServiceCall.Catalogued : (c : ServiceCall) → c.Reply → Prop
  | .within _ (.find id), some (.ok record?) => ∃ files : FileCatalog, record? = files.find? id
  | _, _ => True

def Event.Catalogued (e : Event) : Prop :=
  e.call.Catalogued e.reply

theorem FileCatalog.id_of_find? {files : FileCatalog} {id : Uuid} {record : FileRecord}
    (h : files.find? id = some record) : record.id = id := by
  simpa using List.find?_some h

def LastWritten (fileId : Uuid) (bytes : Bytes) (past : List Event) : Prop :=
  ∃ a e b, past = a ++ e :: b ∧ e.Writes fileId bytes ∧ ∀ d ∈ b, ∀ other, ¬ d.Writes fileId other

theorem lastWritten_snoc {fileId : Uuid} {bytes : Bytes} {past : List Event} {e : Event} :
    LastWritten fileId bytes (past ++ [e]) ↔
      LastWritten fileId bytes past ∧ (∀ other, ¬ e.Writes fileId other) ∨
        e.Writes fileId bytes := by
  constructor
  · rintro ⟨a, d, b, h, hw, hb⟩
    rcases snoc_eq_append_cons h with ⟨-, -, rfl⟩ | ⟨b, rfl, rfl⟩
    · exact .inr hw
    · exact .inl ⟨⟨a, d, b, rfl, hw, fun q hq => hb q (by simp [hq])⟩, hb e (by simp)⟩
  · rintro (⟨⟨a, d, b, rfl, hw, hb⟩, he⟩ | he)
    · refine ⟨a, d, b ++ [e], by simp, hw, fun q hq => ?_⟩
      rcases List.mem_append.mp hq with hq | hq
      · exact hb q hq
      · exact List.mem_singleton.mp hq ▸ he
    · exact ⟨past, e, [], rfl, he, fun q hq => absurd hq List.not_mem_nil⟩

namespace Backend

variable {s : Backend} {o : Outside} {c : ServiceCall} {fileId : Uuid} {object : StoredObject}

theorem preview_answer (h : (s.answer o c).2.objects.get? (artifactKey fileId) = some object) :
    s.objects.get? (artifactKey fileId) = some object ∧
        (∀ other, ¬ c.Writes fileId other (s.answer o c).1) ∨
      c.Writes fileId object.bytes (s.answer o c).1 := by
  have uploaded {key contentType : String} {bytes : Bytes}
      (h : (s.objects.upload key bytes contentType).get? (artifactKey fileId) = some object) :
      s.objects.get? (artifactKey fileId) = some object ∧ key ≠ artifactKey fileId ∨
        key = artifactKey fileId ∧ bytes = object.bytes := by
    by_cases hk : key = artifactKey fileId
    · subst hk
      rw [ObjectStore.get?_upload_self] at h
      exact .inr ⟨rfl, congrArg StoredObject.bytes (Option.some.inj h)⟩
    · rw [ObjectStore.get?_upload_of_ne (Ne.symm hk)] at h
      exact .inl ⟨h, hk⟩
  cases c with
  | documents c =>
    cases c with
    | upload key bytes contentType => exact (uploaded h).imp_left fun ⟨ho, hk⟩ => ⟨ho, fun _ hw => hk hw.1⟩
    | find | download | convert => exact .inl ⟨h, fun _ hw => hw⟩
  | within deadline c =>
    simp only [answer] at h ⊢
    split at h
    · exact .inl ⟨h, fun _ hw => by cases c <;> exact hw⟩
    · cases c with
      | upload key bytes contentType => exact (uploaded h).imp_left fun ⟨ho, hk⟩ => ⟨ho, fun _ hw => hk hw.1⟩
      | find | download | convert => exact .inl ⟨h, fun _ hw => hw⟩
  | _ => exact .inl ⟨h, fun _ hw => hw⟩

theorem get?_of_reads {bytes : Bytes} (h : c.Reads fileId bytes (s.answer o c).1) :
    ∃ object, s.objects.get? (artifactKey fileId) = some object ∧ object.bytes = bytes := by
  cases c with
  | documents c =>
    cases c with
    | download key =>
      have reply : (s.answer o (.documents (.download key))).1 = s.objects.download key := rfl
      rw [reply, ObjectStore.download, ObjectStore.find] at h
      cases hg : s.objects.get? key with
      | none =>
        rw [hg] at h
        exact h.elim
      | some object =>
        rw [hg] at h
        obtain ⟨rfl, rfl⟩ := h
        exact ⟨object, hg, rfl⟩
    | find | convert | upload => exact h.elim
  | _ => exact h.elim

end Backend

inductive Rendition (i : Nat) (job : Job) (record : FileRecord) (source preview : Bytes) :
    List Event → Prop
  | intro (id : Uuid) (now started : Instant) (deadline : Int) :
      Rendition i job record source preview
        [⟨i, .clock, now⟩, ⟨i, .store (.claim id now), .ok (some job)⟩, ⟨i, .clock, started⟩,
          ⟨i, .within deadline (.find job.fileId), some (.ok (some record))⟩,
          ⟨i, .within deadline (.download record.storageKey), some (.ok source)⟩,
          ⟨i, .within deadline (.convert record.name source), some (.ok preview)⟩]

theorem Rendition.looked_up {i : Nat} {job : Job} {record : FileRecord} {source preview : Bytes}
    {own : List Event} (h : Rendition i job record source preview own) :
    ∃ d ∈ own, d.Catalogued → ∃ files : FileCatalog, some record = files.find? job.fileId := by
  cases h with
  | intro => exact ⟨_, .tail _ (.tail _ (.tail _ (.head _))), fun hc => hc⟩

namespace ServiceCall

def Bystanding : ServiceCall → Prop
  | .store (.claim ..) | .documents (.upload ..) | .within _ (.upload ..) => False
  | _ => True

def Delivers (i : Nat) (own : List Event) : ServiceCall → Prop
  | .store (.claim ..) => own.length = 1
  | .within _ (.upload key preview _) => ∃ job record source,
    key = artifactKey job.fileId ∧ Rendition i job record source preview own
  | .documents (.upload ..) => False
  | _ => True

theorem Bystanding.delivers {c : ServiceCall} (h : c.Bystanding) (i : Nat) (own : List Event) :
    c.Delivers i own := by
  cases c with
  | store op => cases op <;> trivial
  | documents c | within _ c => cases c <;> trivial
  | _ => trivial

end ServiceCall

theorem FailureCall.bystanding {job : Job} {c : ServiceCall} (h : FailureCall job c) :
    c.Bystanding := by
  cases h <;> trivial

theorem Sweep.PassCall.bystanding {c : ServiceCall} (h : PassCall c) : c.Bystanding := by
  cases h <;> trivial

theorem Previews.RequestCall.bystanding {c : ServiceCall} (h : RequestCall c) : c.Bystanding := by
  cases h <;> trivial

def Delivers {α : Type} (i : Nat) (own : List Event) (p : ServiceProgram α) : Prop :=
  p.Obeys (ServiceCall.Delivers i) (fun own (c : ServiceCall) (r : c.Reply) => own ++ [⟨i, c, r⟩]) own

theorem delivers_of_bystanding {α : Type} {p : ServiceProgram α}
    (h : p.Every ServiceCall.Bystanding) (i : Nat) (own : List Event) : Delivers i own p :=
  obeys_of_every (h.imp fun _ hc => hc.delivers i) own

namespace Worker

variable {w : Worker} {job : Job} {i : Nat} {own : List Event} {deadline : Int}

theorem bystanding_finish (outcome : Except AttemptError Unit) :
    (w.finish job outcome).Every ServiceCall.Bystanding := by
  refine ⟨trivial, fun _ => ?_⟩
  cases outcome with
  | ok =>
    refine ⟨trivial, fun now => ⟨trivial, fun r => ?_⟩⟩
    rcases r with _ | _ | done
    · trivial
    · exact (every_current job).imp fun _ h => h.bystanding
    · exact ⟨trivial, fun _ => trivial⟩
  | error e => exact (every_recordFailure w job e).imp fun _ h => h.bystanding

theorem delivers_finish (outcome : Except AttemptError Unit) :
    Delivers i own (w.finish job outcome) :=
  delivers_of_bystanding (bystanding_finish outcome) i own

theorem delivers_await {c : DocumentCall} {next : c.Reply → ServiceProgram (Option Job)}
    (hc : ServiceCall.Delivers i own (.within deadline c))
    (hnext : ∀ r, Delivers i (own ++ [⟨i, .within deadline c, some r⟩]) (next r)) :
    Delivers i own (w.await job deadline c next) := by
  refine ⟨hc, fun r => ?_⟩
  cases r with
  | some r => exact hnext r
  | none => exact delivers_finish _

theorem delivers_upload {record : FileRecord} {source preview : Bytes}
    (h : Rendition i job record source preview own) :
    Delivers i own (w.upload job deadline preview) := by
  refine delivers_await ⟨job, record, source, rfl, h⟩ fun r => ?_
  cases r <;> exact delivers_finish _

theorem delivers_convert {record : FileRecord} {source : Bytes}
    (h : ∀ preview, Rendition i job record source preview
      (own ++ [⟨i, .within deadline (.convert record.name source), some (.ok preview)⟩])) :
    Delivers i own (w.convert job deadline record.name source) := by
  refine delivers_await trivial fun r => ?_
  cases r with
  | ok preview => exact delivers_upload (h preview)
  | error e => exact delivers_finish _

theorem delivers_download {record : FileRecord}
    (h : ∀ source preview, Rendition i job record source preview
      (own ++ [⟨i, .within deadline (.download record.storageKey), some (.ok source)⟩] ++
        [⟨i, .within deadline (.convert record.name source), some (.ok preview)⟩])) :
    Delivers i own (w.download job deadline record) := by
  refine delivers_await trivial fun r => ?_
  cases r with
  | ok source => exact delivers_convert (h source)
  | error e => exact delivers_finish _

theorem delivers_process (w : Worker) (id : Uuid) (i : Nat) : Delivers i [] (w.process id) := by
  refine ⟨trivial, fun now => ⟨rfl, fun r => ?_⟩⟩
  rcases r with _ | _ | job
  · trivial
  · trivial
  refine ⟨trivial, fun started => delivers_await trivial fun r => ?_⟩
  rcases r with _ | _ | record
  · exact delivers_finish _
  · exact delivers_finish _
  · exact delivers_download fun source preview => .intro id now started _

end Worker

namespace Errand

theorem bystanding_issue (issuer : TokenIssuer) (fileId : Uuid) :
    (Previews.issueToken issuer fileId).Every ServiceCall.Bystanding := by
  refine ⟨trivial, fun r => ?_⟩
  cases r with
  | error e => trivial
  | ok latest =>
    dsimp only
    split
    · refine ⟨trivial, fun now => ?_⟩
      dsimp only
      split
      · trivial
      refine ⟨trivial, fun nonce => ?_⟩
      dsimp only
      split
      · exact ⟨trivial, fun _ => trivial⟩
      · trivial
    · trivial

theorem bystanding_present (issuer : TokenIssuer) (fileId : Uuid) (token : String) :
    (Previews.openPreview issuer fileId token).Every ServiceCall.Bystanding := by
  refine ⟨trivial, fun now => ?_⟩
  dsimp only
  split
  · trivial
  split
  · refine ⟨trivial, fun r => ?_⟩
    rcases r with _ | _ | _
    · trivial
    · trivial
    · refine ⟨trivial, fun r => ?_⟩
      cases r <;> trivial
  · trivial

theorem delivers_program (issuer : TokenIssuer) (i : Nat) (e : Errand) :
    Delivers i [] (e.program issuer) := by
  cases e with
  | background a =>
    cases a with
    | work w id => exact w.delivers_process id i
    | sweep staleAfter =>
      exact delivers_of_bystanding ((Sweep.every_runOnce staleAfter).imp fun _ h => h.bystanding) i []
    | enqueue maxAttempts fileId requestedBy =>
      exact delivers_of_bystanding
        ((Previews.every_enqueue maxAttempts fileId requestedBy).imp fun _ h => h.bystanding) i []
    | retry fileId =>
      exact delivers_of_bystanding ((Previews.every_retry fileId).imp fun _ h => h.bystanding) i []
  | issue fileId => exact delivers_of_bystanding (bystanding_issue issuer fileId) i []
  | visit v =>
    cases v with
    | present fileId token =>
      exact delivers_of_bystanding (bystanding_present issuer fileId token) i []
    | purge => exact ⟨trivial, fun now => ⟨trivial, fun _ => trivial⟩⟩

end Errand

namespace Traffic

variable {issuer : TokenIssuer} {s t : Traffic} {fileId : Uuid} {bytes : Bytes}

theorem kept_delivers (issuer : TokenIssuer) : Conduct.Kept issuer fun i _ own p => Delivers i own p where
  start i e := e.delivers_program issuer i
  answered h r := h.2 r

structure Preserved (s : Traffic) : Prop where
  stored : ∀ f object, s.backend.objects.get? (artifactKey f) = some object →
    LastWritten f object.bytes s.past
  read : ∀ a d b f bytes, s.past = a ++ d :: b → d.Reads f bytes → LastWritten f bytes a

theorem Preserved.answered (h : s.Preserved) (i : Nat) (o : Outside) (e : Errand) (c : ServiceCall)
    (next : c.Reply → ServiceProgram e.Outcome) : (s.answered i o e c next).Preserved where
  stored f object hf := by
    rw [Traffic.answered, lastWritten_snoc]
    rcases Backend.preview_answer hf with ⟨before, unwritten⟩ | written
    · exact .inl ⟨h.stored f object before, unwritten⟩
    · exact .inr written
  read a d b f bytes hp hd := by
    rcases snoc_eq_append_cons hp with ⟨-, rfl, rfl⟩ | ⟨b, -, hpast⟩
    · obtain ⟨object, stored, rfl⟩ := Backend.get?_of_reads hd
      exact h.stored f object stored
    · exact h.read a d b f bytes hpast hd

theorem Preserved.leads (h : s.Preserved) (hl : s.Leads issuer t) : t.Preserved := by
  cases hl with
  | stay => exact h
  | answered o => exact h.answered _ o _ _ _
  | start | reordered => exact ⟨h.stored, h.read⟩
  | @deposited key bytes contentType hk =>
    refine ⟨fun f object hf => h.stored f object ?_, h.read⟩
    have other : artifactKey f ≠ key := fun he => hk (he ▸ reserved_artifactKey f)
    exact (ObjectStore.get?_upload_of_ne other).symm.trans hf

theorem Conducted.rendition_of_writes (h : s.Conducted fun i _ own p => Delivers i own p)
    {a b : List Event} {e : Event} (hp : s.past = a ++ e :: b) (hw : e.Writes fileId bytes) :
    ∃ job record source, job.fileId = fileId ∧
      Rendition e.strand job record source bytes (own e.strand a) := by
  obtain ⟨_, _, delivers, -⟩ := h.asked a e b hp
  obtain ⟨i, c, r⟩ := e
  cases c with
  | within deadline c =>
    cases c with
    | upload key preview contentType =>
      obtain ⟨job, record, source, hkey, rendition⟩ := delivers
      rcases r with _ | _ | _
      · exact hw.elim
      · exact hw.elim
      · obtain ⟨rfl, rfl⟩ := hw
        exact ⟨job, record, source, artifactKey_injective hkey.symm, rendition⟩
    | find | download | convert => exact hw.elim
  | documents c =>
    cases c with
    | upload => exact delivers.elim
    | find | download | convert => exact hw.elim
  | _ => exact hw.elim

theorem Conducted.job_of_rendition (h : s.Conducted fun i _ own p => Delivers i own p)
    {a b : List Event} {e : Event} (hp : s.past = a ++ e :: b) {job j : Job} {record : FileRecord}
    {source : Bytes} (hr : Rendition e.strand job record source bytes (own e.strand a))
    {d : Event} (hd : d ∈ s.past) (hs : d.strand = e.strand)
    (hj : d.call.claimed? d.reply = some j) : j = job := by
  obtain ⟨a', b', hp'⟩ := List.append_of_mem hd
  obtain ⟨_, _, delivers, -⟩ := h.asked a' d b' hp'
  have second : (own e.strand a').length = 1 := by
    rw [← hs]
    obtain ⟨i, c, r⟩ := d
    cases c with
    | store op =>
      cases op with
      | claim => exact delivers
      | _ => cases r <;> cases hj
    | _ => cases hj
  -- Both are the second of the runner's own calls.
  have here : (own e.strand s.past)[1]? = some d := by
    rw [hp', own, List.filter_append, List.filter_cons_of_pos (by simpa using hs)]
    change (own e.strand a' ++ d :: own e.strand b')[1]? = some d
    rw [List.getElem?_append_right (by omega), second]
    rfl
  rw [hp, own, List.filter_append] at here
  change (own e.strand a ++ _)[1]? = some d at here
  generalize own e.strand a = mine at hr here
  cases hr with
  | intro id now started deadline =>
    obtain rfl := Option.some.inj here
    exact (Option.some.inj hj).symm

theorem opened_is_own_rendering (issuer : TokenIssuer) {backend : Backend}
    (h : ∀ key, Reserved key → backend.objects.get? key = none) (ms : List Move) :
    let s := run issuer ⟨backend, [], []⟩ ms
    (∀ (k : Nat) (fileId : Uuid) (token : String) (object : StoredObject),
      s.runners[k]? = some ⟨.visit (.present fileId token), .done (.ok object)⟩ →
        (∃ now claims, issuer.Grants fileId token now claims) ∧
        ∃ a b, s.past =
            a ++ ⟨k, .documents (.download (artifactKey fileId)), .ok object.bytes⟩ :: b ∧
          LastWritten fileId object.bytes a) ∧
      ∀ a e b fileId preview, s.past = a ++ e :: b → e.Writes fileId preview →
        ∃ job record source, job.fileId = fileId ∧
          Rendition e.strand job record source preview (own e.strand a) ∧
          ((∀ d ∈ s.past, d.Catalogued) → record.id = fileId) ∧
          ∀ d ∈ s.past, d.strand = e.strand → ∀ j, d.call.claimed? d.reply = some j → j = job := by
  intro s
  have delivered := Conducted.run (kept_delivers issuer) backend ms
  have followed := Conducted.run (kept_follows issuer) backend ms
  have preserved : s.Preserved := by
    refine run_invariant ⟨fun f object hf => ?_, fun a _ _ _ _ hp => ?_⟩ (fun _ _ => Preserved.leads) ms
    · cases (h _ (reserved_artifactKey f)).symm.trans hf
    · cases a <;> cases hp
  constructor
  · intro k fileId token object hk
    have presented : Presented issuer fileId token k (own k s.past) (some (.ok object)) :=
      followed.follows k _ hk
    generalize hown : own k s.past = mine at presented
    cases presented with
    | @opened now claims bytes grants =>
      have read : (⟨k, .documents (.download (artifactKey fileId)), .ok bytes⟩ : Event) ∈ s.past := by
        have mine : (⟨k, .documents (.download (artifactKey fileId)), .ok bytes⟩ : Event) ∈
            own k s.past := by
          rw [hown]
          exact .tail _ (.tail _ (.head _))
        exact (List.mem_filter.mp mine).1
      obtain ⟨a, b, hp⟩ := List.append_of_mem read
      exact ⟨⟨now, claims, grants⟩, a, b, hp, preserved.read a _ b fileId bytes hp ⟨rfl, rfl⟩⟩
  · intro a e b fileId preview hp hw
    obtain ⟨job, record, source, hfile, rendition⟩ := delivered.rendition_of_writes hp hw
    refine ⟨job, record, source, hfile, rendition, fun hc => ?_,
      fun d hd hs j hj => delivered.job_of_rendition hp rendition hd hs hj⟩
    obtain ⟨d, hd, catalogued⟩ := rendition.looked_up
    obtain ⟨files, found⟩ := catalogued (hc d (hp ▸ List.mem_append_left _ (List.mem_filter.mp hd).1))
    exact (FileCatalog.id_of_find? found.symm).trans hfile

theorem opened_is_own_rendering_once : ∃ (m : MintedToken) (t : Traffic),
    t = run .zeroKey ⟨⟨⟨.empty, ⟨4, [], []⟩, .epoch⟩, .empty, .empty⟩, [], []⟩
      (rendering ++ visiting rendered.runners.length (.ofNat 1) m.token (.smooth .epoch (.ofNat 3))) ∧
      t.runners[rendered.runners.length]? =
        some ⟨.visit (.present (.ofNat 1) m.token), .done (.ok ⟨[2], previewContentType⟩)⟩ ∧
      (∃ a b, t.past = a ++ ⟨rendered.runners.length,
          .documents (.download (artifactKey (.ofNat 1))), .ok [2]⟩ :: b ∧
        LastWritten (.ofNat 1) [2] a) ∧
      ∃ a e b, t.past = a ++ e :: b ∧ e.Writes (.ofNat 1) [2] ∧
        ∃ job record source, job.fileId = .ofNat 1 ∧
          Rendition e.strand job record source [2] (own e.strand a) := by
  obtain ⟨m, hmint, -⟩ := issued_rendered
  have early : Instant.epoch < m.claims.expiry := by
    obtain ⟨n, hn, expiry⟩ := TokenIssuer.mint?_zeroKey_epoch (.ofNat 1) (.ofNat 3)
    rw [← Option.some.inj (hn.symm.trans hmint), expiry]
    decide
  have grants : TokenIssuer.zeroKey.Grants (.ofNat 1) m.token .epoch m.claims :=
    (TokenIssuer.grants_minted_iff hmint).mpr ⟨rfl, early, (TokenIssuer.claims_of_mint? hmint).1⟩
  have unused : rendered.store.Unused (.ofNat 3) := by decide +kernel
  have stored : rendered.backend.objects.download (artifactKey (.ofNat 1)) = .ok [2] := by
    decide +kernel
  have opened := (run_visiting (o := .smooth .epoch (.ofNat 3)) grants unused
    ReplayGuard.not_contains_empty).2 [2] stored
  have joined : run .zeroKey ⟨⟨⟨.empty, ⟨4, [], []⟩, .epoch⟩, .empty, .empty⟩, [], []⟩
      (rendering ++ visiting rendered.runners.length (.ofNat 1) m.token (.smooth .epoch (.ofNat 3))) =
      rendered.run .zeroKey
        (visiting rendered.runners.length (.ofNat 1) m.token (.smooth .epoch (.ofNat 3))) :=
    List.foldl_append
  rw [← joined] at opened
  have clear : ∀ key, Reserved key →
      (⟨⟨.empty, ⟨4, [], []⟩, .epoch⟩, .empty, .empty⟩ : Backend).objects.get? key = none :=
    fun _ _ => rfl
  obtain ⟨given, written⟩ := opened_is_own_rendering .zeroKey clear
    (rendering ++ visiting rendered.runners.length (.ofNat 1) m.token (.smooth .epoch (.ofNat 3)))
  obtain ⟨-, a, b, read, p, e, q, rfl, hw, hq⟩ := given _ _ _ _ opened
  have here := read.trans (List.append_assoc p (e :: q) _)
  obtain ⟨job, record, source, hfile, rendition, -⟩ := written p e _ _ _ here hw
  exact ⟨m, _, rfl, opened, ⟨_, b, read, p, e, q, rfl, hw, hq⟩, p, e, _, here, hw,
    job, record, source, hfile, rendition⟩

end Traffic

end DocumentPreview
