import DocumentPreview.Proofs.Database.Sessions

namespace DocumentPreview

namespace Tables

variable {t u : Tables} {r : JobRow}

structure Lawful (rows : List JobRow) : Prop where
  primaryKey : (rows.map (·.id)).Nodup
  activeFile : ∀ a ∈ rows, ∀ b ∈ rows, a.isActive → b.isActive → a.fileId = b.fileId → a.id = b.id
  status : ∀ r ∈ rows, ∃ status ∈ JobStatus.all, r.status = status.name
  attempts : ∀ r ∈ rows, 0 ≤ r.attempts
  maxAttempts : ∀ r ∈ rows, 1 ≤ r.maxAttempts

instance (rows : List JobRow) : Decidable (Lawful rows) :=
  decidable_of_iff
    ((rows.map (·.id)).Nodup ∧
      (∀ a ∈ rows, ∀ b ∈ rows, a.isActive → b.isActive → a.fileId = b.fileId → a.id = b.id) ∧
      (∀ r ∈ rows, ∃ status ∈ JobStatus.all, r.status = status.name) ∧
      (∀ r ∈ rows, 0 ≤ r.attempts) ∧ ∀ r ∈ rows, 1 ≤ r.maxAttempts)
    ⟨fun ⟨h₁, h₂, h₃, h₄, h₅⟩ => ⟨h₁, h₂, h₃, h₄, h₅⟩,
      fun h => ⟨h.primaryKey, h.activeFile, h.status, h.attempts, h.maxAttempts⟩⟩

theorem Lawful.exists_toJob {rows : List JobRow} (h : Lawful rows) (hr : r ∈ rows) :
    ∃ job, r.toJob = .ok job := by
  obtain ⟨status, -, hs⟩ := h.status r hr
  exact ⟨r.withStatus status, by simp only [JobRow.toJob, hs, JobStatus.ofName?_name]⟩

theorem insert_results (t : Tables) (r : JobRow) :
    (t.hasActive r.fileId ∧ t.insert r = .ok ([], t)) ∨
    (¬ t.hasActive r.fileId ∧ (∀ o ∈ t.jobs, o.id ≠ r.id) ∧ 1 ≤ r.maxAttempts ∧
      t.insert r = .ok ([r], { t with jobs := t.jobs ++ [r] })) ∨
    ∃ v, t.insert r = .error v := by
  by_cases unstorable : !r.requestedBy.all isStorable
  · exact .inr (.inr ⟨_, if_pos unstorable⟩)
  by_cases few : r.maxAttempts < 1
  · exact .inr (.inr ⟨_, by rw [insert, if_neg unstorable, if_pos few]⟩)
  by_cases active : t.hasActive r.fileId
  · exact .inl ⟨active, by rw [insert, if_neg unstorable, if_neg few, if_pos active]⟩
  by_cases used : t.jobs.any (·.id = r.id)
  · exact .inr (.inr ⟨_, by rw [insert, if_neg unstorable, if_neg few, if_neg active, if_pos used]⟩)
  · refine .inr (.inl ⟨active, fun o ho hid => used ?_, Int32.not_lt.mp few, ?_⟩)
    · exact List.any_eq_true.mpr ⟨o, ho, decide_eq_true hid⟩
    · rw [insert, if_neg unstorable, if_neg few, if_neg active, if_neg used]

theorem Lawful.append (h : Lawful t.jobs) (free : ¬ t.hasActive r.fileId)
    (new : ∀ o ∈ t.jobs, o.id ≠ r.id) (status : r.status = JobStatus.pending.name)
    (attempts : r.attempts = 0) (maxAttempts : 1 ≤ r.maxAttempts) : Lawful (t.jobs ++ [r]) := by
  have apart : ∀ a ∈ t.jobs, a.fileId = r.fileId → ¬ a.isActive := fun a ha hfile hactive =>
    free (List.any_eq_true.mpr ⟨a, ha, by simp [hfile, hactive]⟩)
  constructor
  case primaryKey =>
    rw [List.map_append, List.nodup_append]
    refine ⟨h.primaryKey, List.nodup_singleton _, fun x hx y hy => ?_⟩
    obtain ⟨o, ho, rfl⟩ := List.mem_map.mp hx
    rw [List.mem_singleton.mp hy]
    exact new o ho
  case activeFile =>
    intro a ha b hb hactive hactive' hfile
    rw [List.mem_append, List.mem_singleton] at ha hb
    rcases ha with ha | ha <;> rcases hb with hb | hb
    · exact h.activeFile a ha b hb hactive hactive' hfile
    · exact absurd hactive (apart a ha (hb ▸ hfile))
    · exact absurd hactive' (apart b hb (ha ▸ hfile.symm))
    · rw [ha, hb]
  all_goals
    refine List.forall_mem_append.mpr ⟨?_, List.forall_mem_singleton.mpr ?_⟩
  case status.refine_1 => exact h.status
  case status.refine_2 => exact ⟨.pending, by decide, status⟩
  case attempts.refine_1 => exact h.attempts
  case attempts.refine_2 => exact Int32.le_of_eq attempts.symm
  case maxAttempts.refine_1 => exact h.maxAttempts
  case maxAttempts.refine_2 => exact maxAttempts

end Tables

structure Exchange extends Sent where
  found : Tables
  left : Tables

namespace Exchange

def isStatement (e : Exchange) : Bool :=
  match e.call with
  | .execute _ => true
  | .freshId => false

def changes (e : Exchange) : Bool :=
  e.left.jobs ≠ e.found.jobs

def IsInsert (e : Exchange) (fileId : Uuid) : Prop :=
  ∃ id maxAttempts requestedBy, e.call = .execute (.insertJob id fileId maxAttempts requestedBy)

structure Draws (e : Exchange) : Prop where
  call : e.call = .freshId
  same : e.left = e.found

structure Misses (e : Exchange) (fileId : Uuid) : Prop where
  call : e.call = .execute (.findInFlight fileId)
  none : ∀ r ∈ e.found.jobs, r.fileId = fileId → ¬ r.isInFlight
  same : e.left = e.found

structure Finds (e : Exchange) (fileId : Uuid) (r : JobRow) : Prop where
  call : e.call = .execute (.findInFlight fileId)
  row : r ∈ e.found.jobs ∧ r.fileId = fileId ∧ r.isInFlight
  same : e.left = e.found

structure Meets (e : Exchange) (fileId : Uuid) : Prop where
  call : e.IsInsert fileId
  active : e.found.hasActive fileId
  same : e.left = e.found

structure Adds (e : Exchange) (fileId : Uuid) (r : JobRow) : Prop where
  call : e.IsInsert fileId
  row : r.fileId = fileId ∧ r.status = JobStatus.pending.name ∧ r.attempts = 0
  added : e.left.jobs = e.found.jobs ++ [r]

variable {e : Exchange} {fileId : Uuid} {r r' : JobRow}

theorem isStatement_of_isInsert (h : e.IsInsert fileId) : e.isStatement := by
  obtain ⟨id, maxAttempts, requestedBy, call⟩ := h
  simp [isStatement, call]

theorem Adds.changes (h : e.Adds fileId r) : e.changes := by
  simp [Exchange.changes, h.added]

theorem Adds.unique (h : e.Adds fileId r) (h' : e.Adds fileId r') : r = r' := by
  simpa [h.added] using h'.added

theorem not_changes (h : e.left = e.found) : ¬ e.changes := by
  simp [Exchange.changes, h]

end Exchange

theorem Tables.answer_of_ok {t u : Tables} {clock : Instant} {s : Statement} {rows : s.Rows}
    (h : t.execute clock s = .ok (rows, u)) (freshId : Uuid) :
    t.answer clock freshId (.execute s) = (.ok rows, u) := by
  rw [answer, h]

theorem Tables.answer_of_error {t : Tables} {clock : Instant} {s : Statement} {v : TableViolation}
    (h : t.execute clock s = .error v) (freshId : Uuid) :
    t.answer clock freshId (.execute s) = (.error (.server v.message), t) := by
  rw [answer, h]

def Tables.exchange (t : Tables) (i : Nat) (clock : Instant) (freshId : Uuid) (c : DatabaseCall) :
    Exchange :=
  ⟨⟨i, c, (t.answer clock freshId c).1⟩, t, (t.answer clock freshId c).2⟩

structure Creation where
  fileId : Uuid
  requestedBy : Option String
  maxAttempts : Int32

namespace Creation

inductive Vain (fileId : Uuid) : Nat → List Exchange → Prop
  | look {look : Exchange} : look.Misses fileId → Vain fileId 0 [look]
  | round {n : Nat} {es : List Exchange} {draw insert look : Exchange} : Vain fileId n es →
      draw.Draws → insert.Meets fileId → look.Misses fileId →
      Vain fileId (n + 1) (es ++ [draw, insert, look])

def statementCount (es : List Exchange) : Nat :=
  es.countP (·.isStatement)

section Counting

variable {fileId : Uuid} {e : Exchange} {es es' : List Exchange} {n : Nat}

theorem statementCount_append :
    statementCount (es ++ es') = statementCount es + statementCount es' :=
  List.countP_append

theorem statementCount_of_draws (h : e.Draws) : statementCount [e] = 0 := by
  simp [statementCount, Exchange.isStatement, h.call]

theorem statementCount_of_misses (h : e.Misses fileId) : statementCount [e] = 1 := by
  simp [statementCount, Exchange.isStatement, h.call]

theorem statementCount_of_meets (h : e.Meets fileId) : statementCount [e] = 1 := by
  simp [statementCount, Exchange.isStatement_of_isInsert h.call]

theorem statementCount_singleton_le (e : Exchange) : statementCount [e] ≤ 1 :=
  List.countP_le_length

theorem Vain.count (h : Vain fileId n es) : statementCount es = 2 * n + 1 := by
  induction h with
  | look hl => exact statementCount_of_misses hl
  | round _ hd hi hl ih =>
    rw [← List.singleton_append, ← List.singleton_append (l := [_]), statementCount_append,
      statementCount_append, statementCount_append, ih, statementCount_of_draws hd,
      statementCount_of_meets hi, statementCount_of_misses hl]
    omega

def Quiet (es : List Exchange) : Prop :=
  ∀ e ∈ es, e.left = e.found

theorem quiet_nil : Quiet [] :=
  fun _ he => absurd he List.not_mem_nil

theorem quiet_singleton (h : e.left = e.found) : Quiet [e] :=
  List.forall_mem_singleton.mpr h

theorem Quiet.not_adds (h : Quiet es) (he : e ∈ es) {r : JobRow} : ¬ e.Adds fileId r :=
  fun hr => Exchange.not_changes (h e he) hr.changes

theorem Quiet.countP_changes (h : Quiet es) : es.countP (·.changes) = 0 :=
  List.countP_eq_zero.mpr fun e he => Exchange.not_changes (h e he)

theorem Vain.quiet (h : Vain fileId n es) : Quiet es := by
  induction h with
  | look hl => exact quiet_singleton hl.same
  | round _ hd hi hl ih =>
    refine List.forall_mem_append.mpr ⟨ih, ?_⟩
    simp [hd.same, hi.same, hl.same]

structure Early (es : List Exchange) : Prop where
  quiet : Quiet es
  few : statementCount es < 7

theorem Vain.early {es' : List Exchange} (h : Vain fileId n es)
    (hn : n < DatabaseStore.maxInserts) (quiet : Quiet es') (few : statementCount es' ≤ 1) :
    Early (es ++ es') := by
  refine ⟨List.forall_mem_append.mpr ⟨h.quiet, quiet⟩, ?_⟩
  rw [statementCount_append, h.count]
  simp only [DatabaseStore.maxInserts] at hn
  omega

end Counting

inductive Stage where
  | asked
  | missed (left : Nat)
  | drawn (left : Nat) (id : Uuid)
  | met (left : Nat)
  | ended (res : Except StoreError (Job × Bool))

def lookAgain (c : Creation) (left : Nat) : DatabaseProgram (Except StoreError (Job × Bool)) :=
  .call (.execute (.findInFlight c.fileId)) fun
    | .ok (row :: _) => .done (row.toJob.map (·, false))
    | .error e => .done (.error (.database e))
    | .ok [] => DatabaseStore.insertAgain c.fileId c.requestedBy c.maxAttempts left

def program (c : Creation) : Stage → DatabaseProgram (Except StoreError (Job × Bool))
  | .asked => DatabaseStore.create c.fileId c.requestedBy c.maxAttempts
  | .missed left => DatabaseStore.insertAgain c.fileId c.requestedBy c.maxAttempts left
  | .drawn left id =>
    .call (.execute (.insertJob id c.fileId c.maxAttempts c.requestedBy)) fun
      | .ok (row :: _) => .done (row.toJob.map (·, true))
      | .error e => .done (.error (.database e))
      | .ok [] => c.lookAgain left
  | .met left => c.lookAgain left
  | .ended res => .done res

inductive Decides (fileId : Uuid) (e : Exchange) : Except StoreError (Job × Bool) → Prop
  | joined {r : JobRow} {job : Job} : e.Finds fileId r → r.toJob = .ok job →
      Decides fileId e (.ok (job, false))
  | made {r : JobRow} {job : Job} : e.Adds fileId r → r.toJob = .ok job →
      Decides fileId e (.ok (job, true))
  | failed (cause : DatabaseError) : e.left = e.found → Decides fileId e (.error (.database cause))

def Stage.Follows (fileId : Uuid) : Stage → List Exchange → Prop
  | asked, es => es = []
  | missed left, es => ∃ n, n + left = DatabaseStore.maxInserts ∧ Vain fileId n es
  | drawn left _, es => ∃ n rounds draw, n + left + 1 = DatabaseStore.maxInserts ∧
      Vain fileId n rounds ∧ draw.Draws ∧ es = rounds ++ [draw]
  | met left, es => ∃ n rounds draw insert, n + left + 1 = DatabaseStore.maxInserts ∧
      Vain fileId n rounds ∧ draw.Draws ∧ insert.Meets fileId ∧ es = rounds ++ [draw, insert]
  | ended res, es => ∃ before last, Early before ∧ Decides fileId last res ∧ es = before ++ [last]

variable {c : Creation} {g : Stage} {t : Tables} {i left : Nat} {clock : Instant} {freshId : Uuid}
  {own : List Exchange} {call : DatabaseCall}
  {next : call.Reply → DatabaseProgram (Except StoreError (Job × Bool))}

theorem program_asked (c : Creation) : c.program .asked = c.lookAgain DatabaseStore.maxInserts := by
  refine congrArg (Program.call _) (funext fun r => ?_)
  rcases r with e | _ | ⟨row, rows⟩ <;> rfl

theorem program_missed_succ (c : Creation) (left : Nat) :
    c.program (.missed (left + 1)) = .call .freshId fun id => c.program (.drawn left id) := by
  refine congrArg (Program.call _) (funext fun id => congrArg (Program.call _) (funext fun r => ?_))
  rcases r with e | _ | ⟨row, rows⟩
  · rfl
  · refine congrArg (Program.call _) (funext fun r => ?_)
    rcases r with e | _ | ⟨row, rows⟩ <;> rfl
  · rfl

theorem Stage.Follows.early {fileId : Uuid} (hg : g.Follows fileId own)
    (h : ∃ call next, c.program g = .call call next) : Early own := by
  obtain ⟨call, next, hc⟩ := h
  cases g with
  | asked =>
    obtain rfl : own = [] := hg
    exact ⟨quiet_nil, Nat.succ_pos 6⟩
  | missed left =>
    obtain ⟨n, hn, rounds⟩ := hg
    cases left with
    | zero => cases hc
    | succ left =>
      have early := rounds.early (by omega) quiet_nil (Nat.zero_le 1)
      rwa [List.append_nil] at early
  | drawn left id =>
    obtain ⟨n, rounds, draw, hn, hr, hd, rfl⟩ := hg
    refine hr.early (by omega) (quiet_singleton hd.same) ?_
    rw [statementCount_of_draws hd]
    exact Nat.zero_le 1
  | met left =>
    obtain ⟨n, rounds, draw, insert, hn, hr, hd, hi, rfl⟩ := hg
    refine hr.early (by omega) (by simp [Quiet, hd.same, hi.same]) ?_
    rw [← List.singleton_append, statementCount_append, statementCount_of_draws hd,
      statementCount_of_meets hi]
  | ended res => cases hc

def GoesOn (c : Creation) (t : Tables) (own : List Exchange) (i : Nat) (clock : Instant)
    (freshId : Uuid) (call : DatabaseCall)
    (next : call.Reply → DatabaseProgram (Except StoreError (Job × Bool))) : Prop :=
  Tables.Lawful (t.answer clock freshId call).2.jobs ∧
    ∃ g', next (t.answer clock freshId call).1 = c.program g' ∧
      g'.Follows c.fileId (own ++ [t.exchange i clock freshId call])

theorem goesOn_lookAgain (h : Tables.Lawful t.jobs) (early : Early own)
    (hm : ∀ look, look.Misses c.fileId → (Stage.missed left).Follows c.fileId (own ++ [look]))
    (hc : c.lookAgain left = .call call next) : c.GoesOn t own i clock freshId call next := by
  cases hc
  have reply : (t.answer clock freshId (.execute (.findInFlight c.fileId))).1 =
    .ok (t.findInFlight c.fileId) := rfl
  refine ⟨h, ?_⟩
  rw [reply]
  rcases t.findInFlight_cases c.fileId with ⟨answer, none⟩ | ⟨r, hr, hfile, hin, answer⟩
  · rw [answer]
    exact ⟨.missed left, rfl, hm _ ⟨rfl, none, rfl⟩⟩
  · obtain ⟨job, hj⟩ := h.exists_toJob hr
    simp only [answer, hj]
    refine ⟨.ended (.ok (job, false)), rfl, own, _, early, .joined ?_ hj, rfl⟩
    exact ⟨rfl, ⟨hr, hfile, hin⟩, rfl⟩

theorem goesOn_drawn {id : Uuid} (h : Tables.Lawful t.jobs)
    (hg : (Stage.drawn left id).Follows c.fileId own) (early : Early own)
    (hc : c.program (.drawn left id) = .call call next) :
    c.GoesOn t own i clock freshId call next := by
  cases hc
  let insert : Statement := .insertJob id c.fileId c.maxAttempts c.requestedBy
  let r := Tables.newRow clock.floorToMicros id c.fileId c.maxAttempts c.requestedBy
  let e := t.exchange i clock freshId (.execute insert)
  have isInsert : e.IsInsert c.fileId := ⟨_, _, _, rfl⟩
  rcases t.insert_results r with ⟨active, he⟩ | ⟨free, new, limit, he⟩ | ⟨v, he⟩
  · have answer := Tables.answer_of_ok (s := insert) he freshId
    have meets : e.Meets c.fileId := ⟨isInsert, active, congrArg Prod.snd answer⟩
    obtain ⟨n, rounds, draw, hn, hr, hd, rfl⟩ := hg
    refine ⟨by rwa [answer], .met left, ?_, n, rounds, draw, e, hn, hr, hd, meets, ?_⟩
    · rw [answer]
      rfl
    · rw [List.append_assoc]
      rfl
  · have answer := Tables.answer_of_ok (s := insert) he freshId
    have adds : e.Adds c.fileId r := ⟨isInsert, ⟨rfl, rfl, rfl⟩, congrArg (Tables.jobs ·.2) answer⟩
    have job : r.toJob = .ok (.fresh id c.fileId c.requestedBy c.maxAttempts clock.floorToMicros) :=
      (congrArg JobRow.toJob Tables.newRow_eq).trans JobRow.toJob_ofJob
    refine ⟨?_, .ended (.ok (_, true)), ?_, own, e, early, .made adds job, rfl⟩
    · rw [answer]
      exact h.append free new rfl rfl limit
    · rw [answer]
      exact congrArg (fun j => Program.done (j.map (·, true))) job
  · have answer := Tables.answer_of_error (s := insert) he freshId
    have failed : Decides c.fileId e (.error (.database (.server v.message))) :=
      .failed _ (congrArg Prod.snd answer)
    refine ⟨by rwa [answer], .ended _, ?_, own, e, early, failed, rfl⟩
    rw [answer]
    rfl

theorem goesOn_of_follows (h : Tables.Lawful t.jobs) (hg : g.Follows c.fileId own)
    (hc : c.program g = .call call next) (i : Nat) (clock : Instant) (freshId : Uuid) :
    c.GoesOn t own i clock freshId call next := by
  have early : Early own := hg.early ⟨_, _, hc⟩
  cases g with
  | asked =>
    obtain rfl : own = [] := hg
    exact goesOn_lookAgain h early (fun look hl => ⟨0, rfl, .look hl⟩) (c.program_asked ▸ hc)
  | missed left =>
    cases left with
    | zero => cases hc
    | succ left =>
      rw [program_missed_succ] at hc
      cases hc
      obtain ⟨n, hn, rounds⟩ := hg
      exact ⟨h, .drawn left freshId, rfl, n, own, _, hn, rounds, ⟨rfl, rfl⟩, rfl⟩
  | drawn left id => exact goesOn_drawn h hg early hc
  | met left =>
    obtain ⟨n, rounds, draw, insert, hn, hr, hd, hi, rfl⟩ := hg
    refine goesOn_lookAgain h early (fun look hl => ⟨n + 1, by omega, ?_⟩) hc
    rw [List.append_assoc]
    exact .round hr hd hi hl
  | ended res => cases hc

structure Settles (fileId : Uuid) (own : List Exchange)
    (rest : DatabaseProgram (Except StoreError (Job × Bool))) : Prop where
  statements : statementCount own ≤ 7
  ends : (∃ res, rest = .done res) ∨
    statementCount own < 7 ∧ ∃ call next, rest = .call call next
  inserts : own.countP (·.changes) ≤ 1 ∧ ∀ e ∈ own, e.changes → ∃ r, e.Adds fileId r
  created : ∀ e ∈ own, ∀ r, e.Adds fileId r →
    ∃ job, r.toJob = .ok job ∧ rest = .done (.ok (job, true))
  made : ∀ job, rest = .done (.ok (job, true)) →
    ∃ e ∈ own, ∃ r, e.Adds fileId r ∧ r.toJob = .ok job
  joined : ∀ job, rest = .done (.ok (job, false)) →
    ∃ e ∈ own, ∃ r, e.Finds fileId r ∧ r.toJob = .ok job
  unsettled : ∀ message, rest = .done (.error (.corrupt message)) →
    Vain fileId DatabaseStore.maxInserts own

variable {c : Creation} {g : Stage} {fileId : Uuid} {own before : List Exchange} {last : Exchange}
  {rest : DatabaseProgram (Except StoreError (Job × Bool))} {res : Except StoreError (Job × Bool)}

theorem settles_of_quiet (quiet : Quiet own) (few : statementCount own ≤ 7)
    (ends : (∃ res, rest = .done res) ∨ statementCount own < 7 ∧
      ∃ call next, rest = .call call next)
    (none : ∀ v, rest ≠ .done (.ok v))
    (unsettled : ∀ message, rest = .done (.error (.corrupt message)) →
      Vain fileId DatabaseStore.maxInserts own) : Settles fileId own rest where
  statements := few
  ends := ends
  inserts := ⟨quiet.countP_changes ▸ Nat.zero_le 1,
    fun e he hc => absurd hc (Exchange.not_changes (quiet e he))⟩
  created := fun _ he _ hr => absurd hr (quiet.not_adds he)
  made := fun _ hd => absurd hd (none _)
  joined := fun _ hd => absurd hd (none _)
  unsettled := unsettled

theorem settles_of_decides (early : Early before) (h : Decides fileId last res) :
    Settles fileId (before ++ [last]) (.done res) := by
  have here : last ∈ before ++ [last] := by simp
  have decisive {e : Exchange} (he : e ∈ before ++ [last]) (hc : e.changes) : e = last := by
    rcases List.mem_append.mp he with he | he
    · exact absurd hc (Exchange.not_changes (early.quiet e he))
    · exact List.mem_singleton.mp he
  constructor
  case statements =>
    rw [statementCount_append]
    exact Nat.add_le_add (Nat.le_of_lt_succ early.few) (statementCount_singleton_le last)
  case ends => exact .inl ⟨res, rfl⟩
  case inserts =>
    constructor
    · rw [List.countP_append, early.quiet.countP_changes, Nat.zero_add]
      exact List.countP_le_length
    · intro e he hc
      obtain rfl := decisive he hc
      cases h with
      | made adds => exact ⟨_, adds⟩
      | joined finds => exact absurd hc (Exchange.not_changes finds.same)
      | failed cause same => exact absurd hc (Exchange.not_changes same)
  case created =>
    intro e he r hr
    obtain rfl := decisive he hr.changes
    cases h with
    | made adds hj => exact ⟨_, hr.unique adds ▸ hj, rfl⟩
    | joined finds => exact absurd hr.changes (Exchange.not_changes finds.same)
    | failed cause same => exact absurd hr.changes (Exchange.not_changes same)
  case made =>
    intro job hd
    cases h with
    | made adds hj =>
      cases hd
      exact ⟨last, here, _, adds, hj⟩
    | joined | failed => cases hd
  case joined =>
    intro job hd
    cases h with
    | joined finds hj =>
      cases hd
      exact ⟨last, here, _, finds, hj⟩
    | made | failed => cases hd
  case unsettled =>
    intro message hd
    cases h <;> cases hd

theorem settles_of_early (early : Early own) (h : ∃ call next, rest = .call call next) :
    Settles fileId own rest := by
  have unfinished : ∀ res, rest ≠ .done res := fun res hd => by
    obtain ⟨call, next, rfl⟩ := h
    cases hd
  exact settles_of_quiet early.quiet (Nat.le_of_lt early.few) (.inr ⟨early.few, h⟩)
    (fun v => unfinished _) fun message hd => absurd hd (unfinished _)

theorem Stage.Follows.settles (hg : g.Follows c.fileId own) :
    Settles c.fileId own (c.program g) := by
  rcases hp : c.program g with res | _ | ⟨call, next⟩
  case call => exact settles_of_early (hg.early ⟨_, _, hp⟩) ⟨_, _, rfl⟩
  case abort =>
    cases g with
    | missed left => cases left <;> cases hp
    | _ => cases hp
  case done =>
    cases g with
    | missed left =>
      cases left with
      | zero =>
        cases hp
        obtain ⟨n, rfl, rounds⟩ := hg
        exact settles_of_quiet rounds.quiet (Nat.le_of_eq rounds.count) (.inl ⟨_, rfl⟩)
          (fun _ hd => by cases hd) fun _ _ => rounds
      | succ left => cases hp
    | ended =>
      cases hp
      obtain ⟨before, last, early, decides, rfl⟩ := hg
      exact settles_of_decides early decides
    | asked | drawn | met => cases hp

end Creation

end DocumentPreview
