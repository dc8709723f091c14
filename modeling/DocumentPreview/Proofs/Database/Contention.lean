import DocumentPreview.Proofs.Database.Settling
import DocumentPreview.Proofs.Sequence

namespace DocumentPreview

structure Creating extends Creation where
  rest : DatabaseProgram (Except StoreError (Job × Bool))

def Creating.result? (c : Creating) : Option (Except StoreError (Job × Bool)) :=
  match c.rest with
  | .done res => some res
  | _ => none

theorem Creating.rest_of_result? {c : Creating} {res : Except StoreError (Job × Bool)}
    (h : c.result? = some res) : c.rest = .done res := by
  unfold result? at h
  split at h
  · rwa [← Option.some.inj h]
  · cases h

def Creation.creating (c : Creation × Creation.Stage) : Creating :=
  ⟨c.1, c.1.program c.2⟩

structure Creations where
  tables : Tables
  running : List Creating
  past : List Exchange

namespace Creations

inductive Move where
  | start (c : Creation)
  | resume (i : Nat) (clock : Instant) (freshId : Uuid)
  | change (rows : List JobRow)

def idle : Creations :=
  ⟨.empty, [], []⟩

def answered (s : Creations) (i : Nat) (clock : Instant) (freshId : Uuid) (c : Creation)
    (call : DatabaseCall) (next : call.Reply → DatabaseProgram (Except StoreError (Job × Bool))) :
    Creations where
  tables := (s.tables.answer clock freshId call).2
  running := s.running.set i ⟨c, next (s.tables.answer clock freshId call).1⟩
  past := s.past ++ [s.tables.exchange i clock freshId call]

def step (s : Creations) : Move → Creations
  | .start c =>
    { s with running := s.running ++
        [⟨c, DatabaseStore.create c.fileId c.requestedBy c.maxAttempts⟩] }
  | .resume i clock freshId =>
    match s.running[i]? with
    | some ⟨c, .call call next⟩ => s.answered i clock freshId c call next
    | _ => s
  | .change rows =>
    if Tables.Lawful rows then { s with tables := { s.tables with jobs := rows } } else s

def run (s : Creations) (ms : List Move) : Creations :=
  ms.foldl step s

def own (s : Creations) (i : Nat) : List Exchange :=
  s.past.filter (·.session = i)

structure Joint (s : Creations) (callers : List (Creation × Creation.Stage)) : Prop where
  running : s.running = callers.map Creation.creating
  lawful : Tables.Lawful s.tables.jobs
  follows : ∀ i c g, callers[i]? = some (c, g) → Creation.Stage.Follows c.fileId g (s.own i)
  past : ∀ e ∈ s.past, e.session < callers.length

variable {s : Creations} {callers : List (Creation × Creation.Stage)} {i : Nat}

theorem joint_idle : Joint idle [] where
  running := rfl
  lawful := by decide
  follows := fun _ _ _ hc => by simp at hc
  past := fun _ he => absurd he List.not_mem_nil

theorem Joint.start (h : Joint s callers) (c : Creation) :
    Joint (s.step (.start c)) (callers ++ [(c, .asked)]) where
  running := by
    rw [List.map_append, ← h.running]
    rfl
  lawful := h.lawful
  follows := fun i d g hd => by
    rcases getElem?_snoc hd with hd | ⟨rfl, ⟨⟩⟩
    · exact h.follows i d g hd
    · refine List.filter_eq_nil_iff.mpr fun e he => ?_
      simpa using Nat.ne_of_lt (h.past e he)
  past := fun e he => by
    rw [List.length_append]
    exact Nat.lt_succ_of_lt (h.past e he)

theorem Joint.answered {c : Creation} {g : Creation.Stage} {call : DatabaseCall}
    {next : call.Reply → DatabaseProgram (Except StoreError (Job × Bool))} (h : Joint s callers)
    (hi : callers[i]? = some (c, g)) (hc : c.program g = .call call next) (clock : Instant)
    (freshId : Uuid) :
    ∃ g', Joint (s.answered i clock freshId c call next) (callers.set i (c, g')) := by
  obtain ⟨lawful, g', goes, follows⟩ :=
    Creation.goesOn_of_follows h.lawful (h.follows i c g hi) hc i clock freshId
  refine ⟨g', ?_, lawful, fun k d f hd => ?_, fun e he => ?_⟩
  · rw [List.map_set, ← h.running]
    exact congrArg (s.running.set i ⟨c, ·⟩) goes
  · rcases getElem?_set_cases hd with ⟨rfl, same⟩ | ⟨hk, hd⟩
    · cases same
      simpa [own, Creations.answered, Tables.exchange] using follows
    · simpa [own, Creations.answered, Tables.exchange, hk] using h.follows k d f hd
  · rw [List.length_set]
    rcases List.mem_append.mp he with he | he
    · exact h.past e he
    · rw [List.mem_singleton.mp he]
      exact (List.getElem?_eq_some_iff.mp hi).1

theorem Joint.step (h : Joint s callers) (m : Move) : ∃ callers, Joint (s.step m) callers := by
  cases m with
  | start c => exact ⟨_, h.start c⟩
  | resume i clock freshId =>
    simp only [Creations.step, h.running, List.getElem?_map]
    rcases hi : callers[i]? with _ | ⟨c, g⟩
    · exact ⟨callers, h⟩
    · simp only [Option.map_some, Creation.creating]
      rcases hc : c.program g with res | _ | ⟨call, next⟩
      · exact ⟨callers, h⟩
      · exact ⟨callers, h⟩
      · obtain ⟨g', joint⟩ := h.answered hi hc clock freshId
        exact ⟨_, joint⟩
  | change rows =>
    simp only [Creations.step]
    split
    · exact ⟨callers, h.running, ‹_›, h.follows, h.past⟩
    · exact ⟨callers, h⟩

theorem exists_joint (ms : List Move) : ∃ callers, Joint (idle.run ms) callers := by
  induction ms using List.reverseRecOn with
  | nil => exact ⟨[], joint_idle⟩
  | append_singleton ms m ih =>
    obtain ⟨callers, joint⟩ := ih
    simp only [run, List.foldl_append, List.foldl_cons, List.foldl_nil]
    exact joint.step m

theorem creations_settle (ms : List Move) {c : Creating} (hi : (idle.run ms).running[i]? = some c) :
    Creation.Settles c.fileId ((idle.run ms).own i) c.rest := by
  obtain ⟨callers, joint⟩ := exists_joint ms
  rw [joint.running, List.getElem?_map] at hi
  obtain ⟨⟨c, g⟩, hc, rfl⟩ := Option.map_eq_some_iff.mp hi
  exact (joint.follows i c g hc).settles

def outrun : List Move :=
  let occupied := [JobRow.ofJob (.fresh (.ofNat 1) (.ofNat 9) none 2 .epoch)]
  let next (i : Nat) := Move.resume i .epoch (.ofNat 2)
  let lost := [.change occupied, next 0, next 0, .change [], next 0]
  [.start ⟨.ofNat 9, none, 2⟩, next 0] ++ lost ++ lost ++ lost ++
    [.start ⟨.ofNat 9, none, 2⟩, next 1, next 1, next 1]

theorem creations_settle_outrun :
    (∃ c, (idle.run outrun).running[0]? = some c ∧
      c.rest = .done (.error (DatabaseStore.unsettled c.fileId)) ∧
      Creation.Vain c.fileId 3 ((idle.run outrun).own 0)) ∧
    ∃ c job, (idle.run outrun).running[1]? = some c ∧ c.rest = .done (.ok (job, true)) ∧
      ∃ e ∈ (idle.run outrun).own 1, ∃ r, e.Adds c.fileId r ∧ r.toJob = .ok job := by
  have ended : (idle.run outrun).running.map (fun c => (c.fileId, c.result?)) =
      [(.ofNat 9, some (.error (DatabaseStore.unsettled (.ofNat 9)))),
        (.ofNat 9, some (.ok (.fresh (.ofNat 2) (.ofNat 9) none 2 .epoch, true)))] := by
    decide +kernel
  obtain ⟨c, cs, running, hc, hcs⟩ := List.map_eq_cons_iff.mp ended
  obtain ⟨d, ds, rfl, hd, -⟩ := List.map_eq_cons_iff.mp hcs
  obtain ⟨hfile, hc⟩ := Prod.mk.inj hc
  have first : (idle.run outrun).running[0]? = some c := congrArg (·[0]?) running
  have second : (idle.run outrun).running[1]? = some d := congrArg (·[1]?) running
  have lost := Creating.rest_of_result? hc
  have made := Creating.rest_of_result? (Prod.mk.inj hd).2
  refine ⟨⟨c, first, hfile ▸ lost, (creations_settle outrun first).unsettled _ lost⟩, ?_⟩
  exact ⟨d, _, second, made, (creations_settle outrun second).made _ made⟩

end Creations

end DocumentPreview
