import DocumentPreview.Proofs.Database.Requeue
import Mathlib.Data.List.Induction

namespace DocumentPreview

def Tables.answer (t : Tables) (clock : Instant) (freshId : Uuid) :
    (c : DatabaseCall) → c.Reply × Tables
  | .freshId => (freshId, t)
  | .execute c =>
    match t.execute clock c with
    | .ok (rows, u) => (.ok rows, u)
    | .error v => (.error (.server v.message), t)

theorem Tables.Keeps.perm {t u : Tables} {s : MemoryStore} (h : t.Keeps s)
    (hp : u.jobs.Perm t.jobs) : ∃ s', u.Keeps s' ∧ s.rows.Perm s'.rows := by
  rw [h.jobs] at hp
  obtain ⟨rows, hrows, hp⟩ := JobRow.exists_of_perm hp
  exact ⟨⟨rows⟩, ⟨hrows, h.distinct.perm hp.symm, h.single.perm hp.symm⟩, hp.symm⟩

structure Session where
  op : StoreOp
  rest : DatabaseProgram (Except StoreError op.Result)

structure Sent where
  session : Nat
  call : DatabaseCall
  reply : call.Reply

structure Sessions where
  tables : Tables
  running : List Session
  past : List Sent

namespace Sessions

inductive Move where
  | start (op : StoreOp)
  | resume (i : Nat) (clock : Instant) (freshId : Uuid)
  | reorder (rows : List JobRow)

def idle : Sessions :=
  ⟨.empty, [], []⟩

def answered (s : Sessions) (i : Nat) (clock : Instant) (freshId : Uuid) (op : StoreOp)
    (c : DatabaseCall) (next : c.Reply → DatabaseProgram (Except StoreError op.Result)) :
    Sessions where
  tables := (s.tables.answer clock freshId c).2
  running := s.running.set i ⟨op, next (s.tables.answer clock freshId c).1⟩
  past := s.past ++ [⟨i, c, (s.tables.answer clock freshId c).1⟩]

def step (s : Sessions) : Move → Sessions
  | .start op => { s with running := s.running ++ [⟨op, DatabaseStore.run op⟩] }
  | .resume i clock freshId =>
    match s.running[i]? with
    | some ⟨op, .call c next⟩ => s.answered i clock freshId op c next
    | _ => s
  | .reorder rows =>
    if rows.Perm s.tables.jobs then { s with tables := { s.tables with jobs := rows } } else s

def run (s : Sessions) (ms : List Move) : Sessions :=
  ms.foldl step s

theorem run_snoc (s : Sessions) (ms : List Move) (m : Move) :
    s.run (ms ++ [m]) = (s.run ms).step m := by
  simp [run]

def statement? (s : Sessions) : Move → Option Statement
  | .resume i _ _ =>
    match s.running[i]? with
    | some ⟨_, .call (.execute c) _⟩ => some c
    | _ => none
  | .start _ | .reorder _ => none

theorem step_tables (s : Sessions) (m : Move) :
    (∃ clock c rows, s.statement? m = some c ∧
      s.tables.execute clock c = .ok (rows, (s.step m).tables)) ∨
    (s.step m).tables.jobs.Perm s.tables.jobs := by
  cases m with
  | start op => exact .inr (.refl _)
  | reorder rows =>
    simp only [step]
    split
    · exact .inr ‹_›
    · exact .inr (.refl _)
  | resume i clock freshId =>
    rcases hi : s.running[i]? with _ | ⟨op, _ | _ | ⟨c, next⟩⟩
    all_goals simp only [step, statement?, hi]
    · exact .inr (.refl _)
    · exact .inr (.refl _)
    · exact .inr (.refl _)
    cases c with
    | freshId => exact .inr (.refl _)
    | execute c =>
      simp only [answered, Tables.answer]
      cases he : s.tables.execute clock c with
      | error v => exact .inr (.refl _)
      | ok r => exact .inl ⟨clock, c, r.1, rfl, he⟩

def Uncrowded (ms : List Move) : Prop :=
  ∀ ps m, ps ++ [m] <+: ms → ∀ c, (idle.run ps).statement? m = some c →
    ¬ (idle.run ps).tables.Crowds c

theorem Uncrowded.init {ms : List Move} {m : Move} (h : Uncrowded (ms ++ [m])) : Uncrowded ms :=
  fun ps n hn => h ps n (hn.trans (List.prefix_append ms [m]))

theorem run_keeps (ms : List Move) :
    ∃ s : MemoryStore, (idle.run ms).tables.Keeps s ∧
      (Uncrowded ms → s.OneEach Job.isInFlight) := by
  induction ms using List.reverseRecOn with
  | nil =>
    have none : ∀ {P : Job → Bool}, MemoryStore.empty.OneEach P := fun _ ha =>
      absurd ha List.not_mem_nil
    exact ⟨.empty, ⟨rfl, MemoryStore.distinct_empty, none⟩, fun _ => none⟩
  | append_singleton ms m ih =>
    obtain ⟨s, keeps, flight⟩ := ih
    rw [run_snoc]
    rcases (idle.run ms).step_tables m with ⟨clock, c, rows, hc, he⟩ | hp
    · obtain ⟨s', keeps', turns⟩ := keeps.execute he
      refine ⟨s', keeps', fun clear => keeps.oneInFlight turns ?_ (flight clear.init)⟩
      exact clear ms m (List.prefix_refl _) c hc
    · obtain ⟨s', keeps', hp⟩ := keeps.perm hp
      exact ⟨s', keeps', fun clear => (flight clear.init).perm hp⟩

theorem requeue_unblocked_iff (ms : List Move) (clock now : Instant) {limit : Int} (hl : 1 ≤ limit) :
    ((idle.run ms).tables.Requeues clock now limit ↔
      ((idle.run ms).tables.batch now.cutToMicros limit).Pairwise (·.fileId ≠ ·.fileId)) ∧
    (Uncrowded ms → (idle.run ms).tables.Requeues clock now limit) := by
  obtain ⟨s, keeps, flight⟩ := run_keeps ms
  have unblocked := keeps.requeues_iff clock now hl
  exact ⟨unblocked, fun clear => unblocked.mpr (keeps.batch_of_oneInFlight (flight clear))⟩

def alone (i : Nat) (op : StoreOp) (freshId : Nat) : List Move :=
  .start op :: List.replicate 3 (.resume i .epoch (.ofNat freshId))

def failing (i id : Nat) (next : Option Instant) : List Move :=
  alone i (.claim (.ofNat id) .epoch) 0 ++ alone (i + 1) (.recordFailure (.ofNat id) "" next) 0

def awaiting : List Move :=
  alone 0 (.create (.ofNat 9) none 2) 1 ++ failing 1 1 (some .epoch)

theorem requeue_unblocked_awaiting :
    (1 : Int) ≤ 500 ∧ (idle.run awaiting).tables.Requeues .epoch .epoch 500 :=
  ⟨by decide, (requeue_unblocked_iff awaiting .epoch .epoch (by decide)).1.mpr (by decide +kernel)⟩

def rivals : List Move :=
  awaiting ++ alone 3 (.requeueDue .epoch 500) 0 ++ failing 4 1 none ++
  alone 6 (.create (.ofNat 9) none 2) 2 ++ failing 7 2 (some .epoch) ++
  alone 9 (.reset (.ofNat 1)) 0 ++ failing 10 1 (some .epoch)

theorem blocked_rivals : ∃ ms clock now limit, (1 : Int) ≤ limit ∧
    ¬ (idle.run ms).tables.Requeues clock now limit := by
  refine ⟨rivals, .epoch, .epoch, 500, by decide, ?_⟩
  obtain ⟨s, keeps, -⟩ := run_keeps rivals
  have two : ∃ a ∈ (idle.run rivals).tables.jobs, ∃ b ∈ (idle.run rivals).tables.jobs,
      a ≠ b ∧ a.fileId = b.fileId ∧ a.isDue .epoch ∧ b.isDue .epoch ∧
        ¬ (idle.run rivals).tables.hasActive a.fileId := by decide +kernel
  obtain ⟨a, ha, b, hb, hne, hfile, hda, hdb, hfree⟩ := two
  exact keeps.not_requeues (by decide) (by decide +kernel) ha hb hne hfile hda hdb hfree

end Sessions

end DocumentPreview
