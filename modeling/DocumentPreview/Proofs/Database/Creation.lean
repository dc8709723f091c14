import DocumentPreview.Proofs.Database.Sessions
import DocumentPreview.Proofs.Program.Rule
import DocumentPreview.Proofs.Sequence

namespace DocumentPreview

open Program JobRow

namespace DatabaseCall

def missed? : (c : DatabaseCall) → c.Reply → Option Uuid
  | .execute (.findInFlight fileId), .ok [] => some fileId
  | _, _ => none

def inserted? : (c : DatabaseCall) → c.Reply → Option JobRow
  | .execute (.insertJob ..), .ok (row :: _) => some row
  | _, _ => none

def failed : (c : DatabaseCall) → c.Reply → List JobRow
  | .execute (.failJob ..), .ok rows => rows
  | .execute (.reapJobs ..), .ok rows => rows
  | _, _ => []

def missedAfter (q : Option Uuid) : (c : DatabaseCall) → c.Reply → Option Uuid
  | .freshId, _ => q
  | .execute s, r => missed? (.execute s) r

def Checked (q : Option Uuid) : DatabaseCall → Prop
  | .execute (.insertJob _ fileId _ _) => q = some fileId
  | _ => True

end DatabaseCall

namespace Tables

variable {t u : Tables} {clock : Instant} {freshId : Uuid} {r : JobRow}

theorem mem_update {p : JobRow → Bool} {f : JobRow → JobRow} {rows : List JobRow}
    (h : t.update p f = .ok (rows, u)) (hr : r ∈ u.jobs) :
    r ∈ t.jobs ∨ r ∈ rows ∧ ∃ o, f o = r := by
  simp only [update] at h
  split at h
  · cases h
  obtain ⟨rfl, rfl⟩ := Prod.mk.inj (Except.ok.inj h)
  obtain ⟨o, ho, rfl⟩ := List.mem_map.mp hr
  by_cases hp : p o
  · rw [if_pos hp]
    exact .inr ⟨List.mem_map_of_mem (List.mem_filter.mpr ⟨ho, hp⟩), o, rfl⟩
  · rw [if_neg hp]
    exact .inl ho

theorem not_isInFlight_of_completed {o : JobRow} (h : o.status = JobStatus.completed.name) :
    ¬ o.isInFlight := by
  simp [isInFlight, isActive, hasStatus, h, JobStatus.name]

theorem isActive_of_pending {o : JobRow} (h : o.status = JobStatus.pending.name) : o.isActive := by
  simp [isActive, h]

theorem isActive_of_processing {o : JobRow} (h : o.status = JobStatus.processing.name) :
    o.isActive := by
  simp [isActive, h]

theorem mem_execute {c : Statement} {rows : c.Rows} (h : t.execute clock c = .ok (rows, u))
    (hr : r ∈ u.jobs) (hf : r.isInFlight) :
    r ∈ t.jobs ∨ r.isActive ∨ r ∈ DatabaseCall.failed (.execute c) (.ok rows) := by
  cases c with
  | insertJob id fileId maxAttempts requestedBy =>
    rcases insert_cases h with ⟨-, rfl⟩ | ⟨-, -, -, rfl⟩
    · exact .inl hr
    · rcases List.mem_append.mp hr with hr | hr
      · exact .inl hr
      · rw [List.mem_singleton.mp hr]
        exact .inr (.inl (isActive_of_pending rfl))
  | claimJob id now =>
    simp only [execute, claim] at h
    split at h
    · cases h
    · rcases mem_update h hr with hr | ⟨-, o, rfl⟩
      · exact .inl hr
      · exact .inr (.inl (isActive_of_processing rfl))
  | completeJob id now =>
    rcases mem_update h hr with hr | ⟨-, o, rfl⟩
    · exact .inl hr
    · exact absurd hf (not_isInFlight_of_completed rfl)
  | failJob id error next =>
    exact (mem_update (update_of_fail h).2 hr).imp_right fun made => .inr made.1
  | reapJobs cutoff now => exact (mem_update h hr).imp_right fun made => .inr made.1
  | resetJob id =>
    rcases mem_update h hr with hr | ⟨-, o, rfl⟩
    · exact .inl hr
    · exact .inr (.inl (isActive_of_pending rfl))
  | requeueJobs now limit =>
    simp only [execute, requeue_eq] at h
    split at h
    · cases h
    · rcases mem_update h hr with hr | ⟨-, o, rfl⟩
      · exact .inl hr
      · exact .inr (.inl (isActive_of_pending rfl))
  | pendingJobs limit =>
    simp only [execute, limited] at h
    split at h
    · cases h
    · obtain ⟨-, rfl⟩ := Prod.mk.inj (Except.ok.inj h)
      exact .inl hr
  | _ =>
    obtain ⟨-, rfl⟩ := Prod.mk.inj (Except.ok.inj h)
    exact .inl hr

theorem mem_answer {c : DatabaseCall} (hr : r ∈ (t.answer clock freshId c).2.jobs)
    (hf : r.isInFlight) :
    r ∈ t.jobs ∨ r.isActive ∨ r ∈ c.failed (t.answer clock freshId c).1 := by
  cases c with
  | freshId => exact .inl hr
  | execute c =>
    simp only [answer] at hr ⊢
    cases he : t.execute clock c with
    | error v =>
      rw [he] at hr
      exact .inl hr
    | ok p =>
      rw [he] at hr
      exact mem_execute he hr hf

theorem not_isInFlight_of_missed? {c : DatabaseCall} {fileId : Uuid}
    (h : c.missed? (t.answer clock freshId c).1 = some fileId) :
    (t.answer clock freshId c).2 = t ∧ ∀ r ∈ t.jobs, r.fileId = fileId → ¬ r.isInFlight := by
  cases c with
  | freshId => cases h
  | execute c =>
    cases c with
    | findInFlight file =>
      have reply : (t.answer clock freshId (.execute (.findInFlight file))).1 =
        .ok (t.findInFlight file) := rfl
      rw [reply] at h
      rcases t.findInFlight_cases file with ⟨missed, none⟩ | ⟨r, -, -, -, found⟩
      · rw [missed] at h
        obtain rfl : file = fileId := Option.some.inj h
        exact ⟨rfl, none⟩
      · rw [found] at h
        cases h
    | _ => cases h

theorem not_isActive_of_inserted? {c : DatabaseCall} {row : JobRow}
    (h : c.inserted? (t.answer clock freshId c).1 = some row) :
    (∃ id maxAttempts requestedBy,
        c = .execute (.insertJob id row.fileId maxAttempts requestedBy)) ∧
      ∀ r ∈ t.jobs, r.fileId = row.fileId → ¬ r.isActive := by
  cases c with
  | freshId => cases h
  | execute c =>
    cases c with
    | insertJob id fileId maxAttempts requestedBy =>
      simp only [answer] at h
      cases he : t.execute clock (.insertJob id fileId maxAttempts requestedBy) with
      | error v =>
        rw [he] at h
        cases h
      | ok p =>
        obtain ⟨rows, u⟩ := p
        rw [he] at h
        rcases insert_cases he with ⟨rfl, -⟩ | ⟨rfl, free, -, -⟩
        · cases h
        · obtain rfl := Option.some.inj h
          refine ⟨⟨id, maxAttempts, requestedBy, rfl⟩, fun r hr hfile hactive => free ?_⟩
          exact List.any_eq_true.mpr ⟨r, hr, by simp [hfile, hactive]⟩
    | _ => cases h

end Tables

def LooksFirst {α : Type} (q : Option Uuid) (p : DatabaseProgram α) : Prop :=
  p.Obeys DatabaseCall.Checked DatabaseCall.missedAfter q

namespace DatabaseStore

theorem looksFirst_insertAgain (fileId : Uuid) (requestedBy : Option String) (maxAttempts : Int32)
    (left : Nat) : LooksFirst (some fileId) (insertAgain fileId requestedBy maxAttempts left) := by
  induction left with
  | zero => trivial
  | succ left ih =>
    refine ⟨trivial, fun id => ⟨rfl, fun r => ?_⟩⟩
    rcases r with e | _ | ⟨row, rows⟩
    · trivial
    · refine ⟨trivial, fun r => ?_⟩
      rcases r with e | _ | ⟨row, rows⟩
      · trivial
      · exact ih
      · trivial
    · trivial

theorem looksFirst_run (op : StoreOp) (q : Option Uuid) : LooksFirst q (run op) := by
  cases op with
  | create fileId requestedBy maxAttempts =>
    refine ⟨trivial, fun r => ?_⟩
    rcases r with e | _ | ⟨row, rows⟩
    · trivial
    · exact looksFirst_insertAgain fileId requestedBy maxAttempts maxInserts
    · trivial
  | _ =>
    refine ⟨trivial, fun r => ?_⟩
    cases r <;> trivial

end DatabaseStore

namespace Sessions

variable {s t : Sessions} {i : Nat} {fileId : Uuid}

inductive Leads (s : Sessions) : Sessions → Prop
  | stay : Leads s s
  | start (op : StoreOp) :
      Leads s { s with running := s.running ++ [⟨op, DatabaseStore.run op⟩] }
  | answered {i : Nat} {op : StoreOp} {c : DatabaseCall}
      {next : c.Reply → DatabaseProgram (Except StoreError op.Result)} (clock : Instant)
      (freshId : Uuid) : s.running[i]? = some ⟨op, .call c next⟩ →
        Leads s (s.answered i clock freshId op c next)
  | reordered {rows : List JobRow} : rows.Perm s.tables.jobs →
      Leads s { s with tables := { s.tables with jobs := rows } }

theorem step_leads (s : Sessions) (m : Move) : s.Leads (s.step m) := by
  cases m with
  | start op => exact .start op
  | resume i clock freshId =>
    simp only [step]
    split
    · exact .answered clock freshId ‹_›
    · exact .stay
  | reorder rows =>
    simp only [step]
    split
    · exact .reordered ‹_›
    · exact .stay

theorem run_invariant {P : Sessions → Prop} (h0 : P idle) (hs : ∀ s t, P s → s.Leads t → P t)
    (ms : List Move) : P (idle.run ms) := by
  induction ms using List.reverseRecOn with
  | nil => exact h0
  | append_singleton ms m ih =>
    rw [run_snoc]
    exact hs _ _ ih (step_leads _ m)

def missedBy (i : Nat) (past : List Sent) : Option Uuid :=
  past.foldl (fun q e => if e.session = i then e.call.missedAfter q e.reply else q) none

theorem missedBy_snoc (i : Nat) (past : List Sent) (e : Sent) :
    missedBy i (past ++ [e]) =
      if e.session = i then e.call.missedAfter (missedBy i past) e.reply else missedBy i past := by
  simp [missedBy]

def Missed (i : Nat) (fileId : Uuid) (s : Sessions) : Prop :=
  ∃ a look b, s.past = a ++ look :: b ∧ look.session = i ∧
    look.call.missed? look.reply = some fileId ∧
    (∀ d ∈ b, d.session = i → d.call = .freshId) ∧
    ∀ r ∈ s.tables.jobs, r.fileId = fileId → r.isInFlight →
      r.isActive ∨ ∃ d ∈ b, r ∈ d.call.failed d.reply

structure Watched (s : Sessions) : Prop where
  follows : ∀ i w, s.running[i]? = some w → LooksFirst (missedBy i s.past) w.rest
  missed : ∀ i fileId, missedBy i s.past = some fileId → Missed i fileId s

theorem watched_idle : idle.Watched where
  follows := fun _ _ h => nomatch h
  missed := fun _ _ h => nomatch h

section Answered

variable {op : StoreOp} {c : DatabaseCall}
  {next : c.Reply → DatabaseProgram (Except StoreError op.Result)} {clock : Instant}
  {freshId : Uuid}

theorem Watched.follows_answered (h : s.Watched) (hw : s.running[i]? = some ⟨op, .call c next⟩)
    {k : Nat} {w : Session} (hk : (s.answered i clock freshId op c next).running[k]? = some w) :
    LooksFirst (missedBy k (s.answered i clock freshId op c next).past) w.rest := by
  simp only [answered, missedBy_snoc]
  rcases getElem?_set_cases hk with ⟨rfl, rfl⟩ | ⟨hik, hk⟩
  · rw [if_pos rfl]
    exact (h.follows i _ hw).2 _
  · rw [if_neg hik]
    exact h.follows k w hk

theorem Missed.answered {k : Nat} (h : Missed k fileId s) (hc : i = k → c = .freshId) :
    Missed k fileId (s.answered i clock freshId op c next) := by
  obtain ⟨a, look, b, hpast, hsession, hmiss, hown, hjobs⟩ := h
  refine ⟨a, look, b ++ [⟨i, c, (s.tables.answer clock freshId c).1⟩],
    by simp [Sessions.answered, hpast], hsession, hmiss, fun d hd => ?_, fun r hr hfile hin => ?_⟩
  · rcases List.mem_append.mp hd with hd | hd
    · exact hown d hd
    · rw [List.mem_singleton.mp hd]
      exact hc
  · rcases Tables.mem_answer hr hin with hr | hactive | hfailed
    · rcases hjobs r hr hfile hin with hactive | ⟨d, hd, hdr⟩
      · exact .inl hactive
      · exact .inr ⟨d, List.mem_append_left _ hd, hdr⟩
    · exact .inl hactive
    · exact .inr ⟨_, List.mem_append_right _ (List.mem_singleton_self _), hfailed⟩

theorem Watched.missed_answered (h : s.Watched) {k : Nat}
    (hm : missedBy k (s.answered i clock freshId op c next).past = some fileId) :
    Missed k fileId (s.answered i clock freshId op c next) := by
  simp only [Sessions.answered, missedBy_snoc] at hm
  split at hm
  · rename_i hik
    cases c with
    | freshId => exact (h.missed k fileId hm).answered fun _ => rfl
    | execute c =>
      -- The look is the last statement, and has left the table as it found it.
      obtain ⟨same, none⟩ := Tables.not_isInFlight_of_missed? hm
      refine ⟨s.past, _, [], rfl, hik, hm, fun d hd => absurd hd List.not_mem_nil, ?_⟩
      intro r hr hfile hin
      simp only [Sessions.answered, same] at hr
      exact absurd hin (none r hr hfile)
  · exact (h.missed k fileId hm).answered fun hik => absurd hik ‹_›

end Answered

theorem Watched.leads (h : s.Watched) (hl : s.Leads t) : t.Watched := by
  cases hl with
  | stay => exact h
  | start op =>
    refine ⟨fun i w hw => ?_, h.missed⟩
    rcases getElem?_snoc hw with hw | ⟨-, rfl⟩
    · exact h.follows i w hw
    · exact DatabaseStore.looksFirst_run op _
  | answered clock freshId hw => exact ⟨fun _ _ => h.follows_answered hw, fun _ _ => h.missed_answered⟩
  | reordered hp =>
    refine ⟨h.follows, fun i fileId hm => ?_⟩
    obtain ⟨a, look, b, hpast, hsession, hmiss, hown, hjobs⟩ := h.missed i fileId hm
    exact ⟨a, look, b, hpast, hsession, hmiss, hown, fun r hr => hjobs r (hp.mem_iff.mp hr)⟩

theorem run_watched (ms : List Move) : (idle.run ms).Watched :=
  run_invariant watched_idle (fun _ _ => Watched.leads) ms

theorem Watched.inserted (h : s.Watched) (hl : s.Leads t) {e : Sent} {row : JobRow}
    (hp : t.past = s.past ++ [e]) (he : e.call.inserted? e.reply = some row) :
    Missed e.session row.fileId s ∧
      ∀ r ∈ s.tables.jobs, r.fileId = row.fileId → ¬ r.isActive := by
  cases hl with
  | stay | start | reordered => simp at hp
  | answered clock freshId hw =>
    obtain rfl := List.singleton_inj.mp (List.append_cancel_left hp)
    obtain ⟨⟨id, maxAttempts, requestedBy, rfl⟩, free⟩ := Tables.not_isActive_of_inserted? he
    exact ⟨h.missed _ _ (h.follows _ _ hw).1, free⟩

theorem inserted_beside_iff (ms : List Move) (m : Move) {e : Sent} {row : JobRow}
    (hp : ((idle.run ms).step m).past = (idle.run ms).past ++ [e])
    (he : e.call.inserted? e.reply = some row) :
    (∀ r ∈ (idle.run ms).tables.jobs, r.fileId = row.fileId → ¬ r.isActive) ∧
    ∃ a look b, (idle.run ms).past = a ++ look :: b ∧ look.session = e.session ∧
      look.call.missed? look.reply = some row.fileId ∧
      (∀ d ∈ b, d.session = e.session → d.call = .freshId) ∧
      ((∃ r ∈ (idle.run ms).tables.jobs, r.fileId = row.fileId ∧ r.isInFlight) ↔
        ∃ d ∈ b, ∃ r ∈ d.call.failed d.reply, r ∈ (idle.run ms).tables.jobs ∧
          r.fileId = row.fileId ∧ r.isInFlight) := by
  obtain ⟨⟨a, look, b, hpast, hsession, hmiss, hown, hjobs⟩, free⟩ :=
    (run_watched ms).inserted (step_leads _ m) hp he
  refine ⟨free, a, look, b, hpast, hsession, hmiss, hown, ?_, ?_⟩
  · rintro ⟨r, hr, hfile, hin⟩
    obtain ⟨d, hd, hdr⟩ := (hjobs r hr hfile hin).resolve_left (free r hr hfile)
    exact ⟨d, hd, r, hdr, hr, hfile, hin⟩
  · rintro ⟨d, hd, r, hdr, hr, hfile, hin⟩
    exact ⟨r, hr, hfile, hin⟩

def overlooking : List Move :=
  [.start (.create (.ofNat 9) none 2), .resume 0 .epoch (.ofNat 0)] ++
  alone 1 (.create (.ofNat 9) none 2) 1 ++ failing 2 1 (some .epoch) ++
  [.resume 0 .epoch (.ofNat 2)]

def insertion : Move :=
  .resume 0 .epoch (.ofNat 0)

theorem Leads.past (h : s.Leads t) : t.past = s.past ∨ ∃ e, t.past = s.past ++ [e] := by
  cases h with
  | answered => exact .inr ⟨_, rfl⟩
  | stay | start | reordered => exact .inl rfl

theorem insertion_overlooking :
    ∃ e row, ((idle.run overlooking).step insertion).past = (idle.run overlooking).past ++ [e] ∧
      e.call.inserted? e.reply = some row ∧ row.fileId = .ofNat 9 := by
  obtain ⟨e, he⟩ := exists_snoc_of_length (step_leads (idle.run overlooking) insertion).past
    (by decide +kernel)
  have hv : (((idle.run overlooking).step insertion).past.getLast?.bind
      fun e => (e.call.inserted? e.reply).map JobRow.fileId) = some (.ofNat 9) := by decide +kernel
  rw [he, List.getLast?_append] at hv
  obtain ⟨row, hrow, hfile⟩ := Option.map_eq_some_iff.mp hv
  exact ⟨e, row, he, hrow, hfile⟩

theorem inserted_beside_overlooked :
    ∃ e row, ((idle.run overlooking).step insertion).past = (idle.run overlooking).past ++ [e] ∧
      e.call.inserted? e.reply = some row ∧
      ∃ a look b, (idle.run overlooking).past = a ++ look :: b ∧ look.session = e.session ∧
        ∃ d ∈ b, ∃ r ∈ d.call.failed d.reply, r.fileId = row.fileId ∧ r.isInFlight := by
  obtain ⟨e, row, hp, he, hfile⟩ := insertion_overlooking
  obtain ⟨-, a, look, b, hpast, hsession, -, -, beside⟩ :=
    inserted_beside_iff overlooking insertion hp he
  have failed : ∃ r ∈ (idle.run overlooking).tables.jobs, r.fileId = .ofNat 9 ∧ r.isInFlight := by
    decide +kernel
  obtain ⟨d, hd, r, hdr, -, hr⟩ := beside.mp (hfile ▸ failed)
  exact ⟨e, row, hp, he, a, look, b, hpast, hsession, d, hd, r, hdr, hr⟩

theorem inserted_beside_awaiting :
    ∃ ms m e row, (∀ id, .start (.reset id) ∉ ms) ∧
      ((idle.run ms).step m).past = (idle.run ms).past ++ [e] ∧
      e.call.inserted? e.reply = some row ∧
      ∃ r ∈ (idle.run ms).tables.jobs, r.fileId = row.fileId ∧ r.isInFlight := by
  obtain ⟨e, row, hp, he, hfile⟩ := insertion_overlooking
  refine ⟨overlooking, insertion, e, row, fun id => by simp [overlooking, alone, failing], hp, he, ?_⟩
  rw [hfile]
  decide +kernel

end Sessions

end DocumentPreview
