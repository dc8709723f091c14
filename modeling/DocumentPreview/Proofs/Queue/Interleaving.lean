import DocumentPreview.Proofs.Queue.Admission

namespace DocumentPreview

inductive Stage where
  | offering (id : Uuid)
  | checking (id : Uuid)
  | sending (id : Uuid)
  | recording (id : Uuid)
  | answering (a : Admission)
  | answered (a : Admission)
  | awaiting
  | received (id : Uuid)
  | erasing (id : Uuid)
  | releasing (id : Uuid)
  | delivered (id : Uuid)
  | abandoned
  deriving DecidableEq, Repr

namespace Stage

def locked : Stage → Bool
  | checking _ | sending _ | recording _ | answering _ | erasing _ | releasing _ => true
  | _ => false

def sent : Stage → List Uuid
  | recording id => [id]
  | _ => []

def held : Stage → List Uuid
  | received id | erasing id => [id]
  | _ => []

def resting : Stage → Bool
  | offering _ | answered _ | awaiting | delivered _ | abandoned => true
  | _ => false

def next (q : JobQueue) : Stage → JobQueue × Stage
  | offering id => (q, checking id)
  | checking id => (q, if q.isQueued id then answering .alreadyQueued else sending id)
  | sending id =>
    match q.channel.trySend id with
    | .ok sent => ({ q with buffer := sent.buffer }, recording id)
    | .error .full => (q, answering .full)
    | .error .closed => (q, answering .closed)
  | recording id => ({ q with admitted := id :: q.admitted }, answering .admitted)
  | answering a => (q, answered a)
  | awaiting =>
    match q.buffer with
    | [] => (q, awaiting)
    | id :: rest => ({ q with buffer := rest }, received id)
  | received id => (q, erasing id)
  | erasing id => ({ q with admitted := q.admitted.filter (· ≠ id) }, releasing id)
  | releasing id => (q, delivered id)
  | c => (q, c)

variable {q : JobQueue} {c d : Stage} {id : Uuid}

theorem sent_of_not_locked (h : ¬ c.locked) : c.sent = [] := by
  cases c <;> first | rfl | exact absurd rfl h

theorem not_locked_of_resting (h : c.resting) : ¬ c.locked := by
  cases c <;> first | exact Bool.false_ne_true | cases h

theorem held_of_resting (h : c.resting) : c.held = [] := by
  cases c <;> first | rfl | cases h

theorem mem_held_iff : id ∈ c.held ↔ c = received id ∨ c = erasing id := by
  cases c <;> simp [Stage.held, eq_comm]

inductive Effect (q : JobQueue) : Stage → JobQueue × Stage → Prop
  | quiet {c d : Stage} : d.held = c.held → d.sent = c.sent →
      (∀ id, d = sending id → id ∉ q.admitted) → Effect q c (q, d)
  | send (id : Uuid) :
      Effect q (sending id) ({ q with buffer := q.buffer ++ [id] }, recording id)
  | record (id : Uuid) :
      Effect q (recording id) ({ q with admitted := id :: q.admitted }, answering .admitted)
  | receive {id : Uuid} {rest : List Uuid} : q.buffer = id :: rest →
      Effect q awaiting ({ q with buffer := rest }, received id)
  | erase (id : Uuid) :
      Effect q (erasing id) ({ q with admitted := q.admitted.filter (· ≠ id) }, releasing id)

theorem effect_next (q : JobQueue) (c : Stage) : Effect q c (c.next q) := by
  have same {c d : Stage} (hh : d.held = c.held) (hs : d.sent = c.sent)
      (hd : ∀ id, d ≠ sending id) : Effect q c (q, d) :=
    .quiet hh hs fun id h => absurd h (hd id)
  cases c with
  | offering id => exact same rfl rfl nofun
  | checking id =>
    by_cases hq : q.isQueued id
    · rw [next, if_pos hq]
      exact same rfl rfl nofun
    · rw [next, if_neg hq]
      refine .quiet rfl rfl fun i hi ha => hq ?_
      obtain rfl := sending.inj hi
      exact List.contains_iff_mem.mpr ha
  | sending id =>
    by_cases hd : q.depth < q.capacity
    · rw [next, JobQueue.trySend_channel, if_pos hd]
      exact .send id
    · rw [next, JobQueue.trySend_channel, if_neg hd]
      exact same rfl rfl nofun
  | recording id => exact .record id
  | answering a => exact same rfl rfl nofun
  | answered a => exact same rfl rfl nofun
  | awaiting =>
    rw [next]
    split
    · exact same rfl rfl nofun
    · exact .receive ‹_›
  | received id => exact same rfl rfl nofun
  | erasing id => exact .erase id
  | releasing id => exact same rfl rfl nofun
  | delivered id => exact same rfl rfl nofun
  | abandoned => exact same rfl rfl nofun

end Stage

structure SharedQueue where
  queue : JobQueue
  holder : Option Nat
  calls : List Stage

namespace SharedQueue

inductive Move where
  | offer (id : Uuid)
  | dequeue
  | resume (i : Nat)
  | abandon (i : Nat)

def opening (q : JobQueue) : SharedQueue :=
  ⟨q, none, []⟩

def OpenTo (s : SharedQueue) (i : Nat) : Prop :=
  s.holder = none ∨ s.holder = some i

instance (s : SharedQueue) (i : Nat) : Decidable (s.OpenTo i) :=
  inferInstanceAs (Decidable (_ ∨ _))

def changed (s : SharedQueue) (i : Nat) (c : Stage) (after : JobQueue × Stage) : SharedQueue where
  queue := after.1
  holder := if after.2.locked then some i else if c.locked then none else s.holder
  calls := s.calls.set i after.2

def step (s : SharedQueue) : Move → SharedQueue
  | .offer id => { s with calls := s.calls ++ [.offering id] }
  | .dequeue => { s with calls := s.calls ++ [.awaiting] }
  | .resume i =>
    match s.calls[i]? with
    | some c => if (c.next s.queue).2.locked → s.OpenTo i then s.changed i c (c.next s.queue) else s
    | none => s
  | .abandon i =>
    if s.calls[i]? = some .awaiting then s.changed i .awaiting (s.queue, .abandoned) else s

def run (s : SharedQueue) (ms : List Move) : SharedQueue :=
  ms.foldl step s

inductive Leads (s : SharedQueue) : SharedQueue → Prop
  | stay : Leads s s
  | come {c : Stage} : c.resting → Leads s { s with calls := s.calls ++ [c] }
  | changed {i : Nat} {c : Stage} {after : JobQueue × Stage} : s.calls[i]? = some c →
      c.Effect s.queue after → (after.2.locked → s.OpenTo i) → Leads s (s.changed i c after)

theorem step_leads (s : SharedQueue) (m : Move) : s.Leads (s.step m) := by
  cases m with
  | offer id => exact .come (c := .offering id) rfl
  | dequeue => exact .come (c := .awaiting) rfl
  | resume i =>
    simp only [step]
    split
    · split
      · exact .changed ‹_› (Stage.effect_next _ _) ‹_›
      · exact .stay
    · exact .stay
  | abandon i =>
    simp only [step]
    split
    · exact .changed ‹_› (.quiet rfl rfl nofun) nofun
    · exact .stay

theorem run_invariant {P : SharedQueue → Prop} {s : SharedQueue} (h0 : P s)
    (hs : ∀ s t, P s → s.Leads t → P t) (ms : List Move) : P (s.run ms) := by
  induction ms generalizing s with
  | nil => exact h0
  | cons m ms ih => exact ih (hs s _ h0 (s.step_leads m))

variable {s t : SharedQueue} {i j : Nat} {c d : Stage} {after : JobQueue × Stage} {id : Uuid}

@[simp] theorem queue_changed : (s.changed i c after).queue = after.1 :=
  rfl

def held (s : SharedQueue) : List Uuid :=
  s.calls.flatMap Stage.held

def sent (s : SharedQueue) : List Uuid :=
  s.calls.flatMap Stage.sent

def Guarded (s : SharedQueue) : Prop :=
  ∀ i, s.holder = some i ↔ ∃ c, s.calls[i]? = some c ∧ c.locked

theorem getElem?_come {cs : List Stage} {p : Stage → Prop} (hc : ¬ p c) :
    (∃ d, (cs ++ [c])[j]? = some d ∧ p d) ↔ ∃ d, cs[j]? = some d ∧ p d := by
  rcases Nat.lt_trichotomy j cs.length with hj | rfl | hj
  · rw [List.getElem?_append_left hj]
  · simp [hc]
  · have outside : (cs ++ [c]).length ≤ j := by simp; omega
    rw [List.getElem?_eq_none outside, List.getElem?_eq_none (Nat.le_of_lt hj)]

theorem Guarded.come (h : s.Guarded) (hc : c.resting) :
    Guarded { s with calls := s.calls ++ [c] } := fun j =>
  (h j).trans (getElem?_come (Stage.not_locked_of_resting hc)).symm

theorem Guarded.changed (h : s.Guarded) (hc : s.calls[i]? = some c)
    (ho : after.2.locked → s.OpenTo i) : (s.changed i c after).Guarded := by
  have inside : i < s.calls.length := (List.getElem?_eq_some_iff.mp hc).1
  have mine : s.holder = some i ↔ c.locked := by simp [h i, hc]
  intro j
  simp only [SharedQueue.changed]
  by_cases hj : i = j
  · subst hj
    rw [List.getElem?_set_self inside]
    by_cases hd : after.2.locked
    · simp [hd]
    · by_cases hl : c.locked
      · simp [hd, hl]
      · simp [hd, hl, mine]
  · rw [List.getElem?_set_ne hj, ← h j]
    by_cases hd : after.2.locked
    · rcases ho hd with hn | hi
      · simp [hd, hj, hn]
      · simp [hd, hi]
    · by_cases hl : c.locked
      · simp [hd, hl, mine.mpr hl, hj]
      · simp [hd, hl]

theorem Guarded.sent_eq_nil (h : s.Guarded)
    (hs : ∀ i c, s.holder = some i → s.calls[i]? = some c → c.sent = []) : s.sent = [] := by
  refine List.flatMap_eq_nil_iff.mpr fun c hc => ?_
  obtain ⟨i, hi⟩ := List.mem_iff_getElem?.mp hc
  by_cases hl : c.locked
  · exact hs i c ((h i).mpr ⟨c, hi, hl⟩) hi
  · exact Stage.sent_of_not_locked hl

theorem Guarded.sent_of_locked (h : s.Guarded) (hc : s.calls[i]? = some c) (hl : c.locked)
    (hn : c.sent = []) : s.sent = [] := by
  refine h.sent_eq_nil fun j d hj hd => ?_
  obtain rfl : i = j := Option.some.inj (((h i).mpr ⟨c, hc, hl⟩).symm.trans hj)
  rwa [← Option.some.inj (hc.symm.trans hd)]

theorem Guarded.sent_of_free (h : s.Guarded) (hn : s.holder = none) : s.sent = [] :=
  h.sent_eq_nil fun _ _ hi => nomatch hn.symm.trans hi

theorem count_flatMap_set {cs : List Stage} (f : Stage → List Uuid) (hc : cs[i]? = some c)
    (d : Stage) (id : Uuid) :
    ((cs.set i d).flatMap f).count id + (f c).count id =
      (cs.flatMap f).count id + (f d).count id := by
  induction cs generalizing i with
  | nil => cases hc
  | cons b cs ih =>
    cases i with
    | zero =>
      obtain rfl := Option.some.inj hc
      simp only [List.set_cons_zero, List.flatMap_cons, List.count_append]
      omega
    | succ i =>
      have rest := ih hc
      simp only [List.set_cons_succ, List.flatMap_cons, List.count_append]
      omega

structure Accounted (s : SharedQueue) (id : Uuid) : Prop where
  matched : s.queue.buffer.count id + s.held.count id = s.queue.admitted.count id + s.sent.count id
  once : s.queue.buffer.count id + s.held.count id ≤ 1

structure Balanced (s : SharedQueue) : Prop where
  guarded : s.Guarded
  accounted : ∀ id, s.Accounted id
  fresh : ∀ (i : Nat) (id : Uuid), s.calls[i]? = some (.sending id) → id ∉ s.queue.admitted

namespace Balanced

theorem opening {capacity : Nat} : (SharedQueue.opening ⟨capacity, [], []⟩).Balanced where
  guarded _ := by simp [SharedQueue.opening]
  accounted _ := ⟨rfl, Nat.zero_le _⟩
  fresh _ _ h := by simp [SharedQueue.opening] at h

theorem come (h : s.Balanced) (hc : c.resting) :
    Balanced { s with calls := s.calls ++ [c] } where
  guarded := h.guarded.come hc
  accounted id := by
    have held : SharedQueue.held { s with calls := s.calls ++ [c] } = s.held := by
      simp [SharedQueue.held, Stage.held_of_resting hc]
    have sent : SharedQueue.sent { s with calls := s.calls ++ [c] } = s.sent := by
      simp [SharedQueue.sent, Stage.sent_of_not_locked (Stage.not_locked_of_resting hc)]
    exact ⟨by rw [held, sent, (h.accounted id).matched], by rw [held]; exact (h.accounted id).once⟩
  fresh i id hi := by
    have other : c ≠ .sending id := fun he => by
      subst he
      cases hc
    obtain ⟨d, hd, rfl⟩ := (getElem?_come (p := (· = .sending id)) other).mp ⟨_, hi, rfl⟩
    exact h.fresh i id hd

theorem accounted_changed (h : s.Balanced) (hc : s.calls[i]? = some c)
    (he : c.Effect s.queue after) (id : Uuid) : (s.changed i c after).Accounted id := by
  have held : (s.changed i c after).held.count id + c.held.count id =
      s.held.count id + after.2.held.count id := count_flatMap_set _ hc _ _
  have sent : (s.changed i c after).sent.count id + c.sent.count id =
      s.sent.count id + after.2.sent.count id := count_flatMap_set _ hc _ _
  obtain ⟨matched, once⟩ := h.accounted id
  cases he with
  | quiet hh hs =>
    rw [hh] at held
    rw [hs] at sent
    constructor <;> simp only [queue_changed] <;> omega
  | send x =>
    -- What was not recorded when the call looked is not recorded yet: it has had the lock since.
    have none_sent : s.sent = [] := h.guarded.sent_of_locked hc rfl rfl
    have grown : (s.queue.buffer ++ [x]).count id = s.queue.buffer.count id + [x].count id :=
      List.count_append
    rw [none_sent] at matched sent
    simp only [Stage.held, Stage.sent, List.count_nil] at held sent matched
    have room : s.queue.admitted.count id + [x].count id ≤ 1 := by
      by_cases hx : x = id
      · subst hx
        simp [List.count_eq_zero.mpr (h.fresh i x hc)]
      · have other : [x].count id = 0 := by simp [hx]
        omega
    constructor <;> simp only [queue_changed] <;> omega
  | record x =>
    have grown : (x :: s.queue.admitted).count id = [x].count id + s.queue.admitted.count id := by
      simp [List.count_cons, Nat.add_comm]
    simp only [Stage.held, Stage.sent, List.count_nil] at held sent
    constructor <;> simp only [queue_changed] <;> omega
  | @receive x rest hb =>
    have shrunk : s.queue.buffer.count id = [x].count id + rest.count id := by
      simp [hb, List.count_cons, Nat.add_comm]
    simp only [Stage.held, Stage.sent, List.count_nil] at held sent
    constructor <;> simp only [queue_changed] <;> omega
  | erase x =>
    -- The record is whole while this call has the lock, and so what it erases was there once.
    have none_sent : s.sent = [] := h.guarded.sent_of_locked hc rfl rfl
    rw [none_sent] at matched sent
    simp only [Stage.held, Stage.sent, List.count_nil] at held sent matched
    by_cases hx : x = id
    · subst hx
      have erased : (s.queue.admitted.filter (· ≠ x)).count x = 0 := by simp [List.count_eq_zero]
      rw [List.count_singleton_self] at held
      constructor <;> simp only [queue_changed] <;> omega
    · have kept : (s.queue.admitted.filter (· ≠ x)).count id = s.queue.admitted.count id :=
        List.count_filter (by simp [Ne.symm hx])
      have other : [x].count id = 0 := by simp [hx]
      constructor <;> simp only [queue_changed] <;> omega

theorem fresh_changed (h : s.Balanced) (hc : s.calls[i]? = some c) (he : c.Effect s.queue after)
    (hj : (s.changed i c after).calls[j]? = some (.sending id)) : id ∉ after.1.admitted := by
  by_cases hij : i = j
  · have inside : i < s.calls.length := (List.getElem?_eq_some_iff.mp hc).1
    rw [SharedQueue.changed, ← hij, List.getElem?_set_self inside] at hj
    have now : after.2 = .sending id := Option.some.inj hj
    cases he with
    | quiet _ _ hf => exact hf id now
    | send | record | receive | erase => cases now
  · rw [SharedQueue.changed, List.getElem?_set_ne hij] at hj
    have unrecorded := h.fresh j id hj
    cases he with
    | record x =>
      have mine := (h.guarded i).mpr ⟨_, hc, rfl⟩
      have theirs := (h.guarded j).mpr ⟨_, hj, rfl⟩
      exact absurd (Option.some.inj (mine.symm.trans theirs)) hij
    | erase x => exact fun ha => unrecorded (List.mem_filter.mp ha).1
    | quiet | send | receive => exact unrecorded

theorem leads (h : s.Balanced) (hl : s.Leads t) : t.Balanced := by
  cases hl with
  | stay => exact h
  | come hc => exact h.come hc
  | changed hc he ho =>
    exact ⟨h.guarded.changed hc ho, h.accounted_changed hc he, fun _ _ => h.fresh_changed hc he⟩

theorem run {capacity : Nat} (ms : List Move) :
    ((SharedQueue.opening ⟨capacity, [], []⟩).run ms).Balanced :=
  run_invariant opening (fun _ _ => leads) ms

theorem nodup (h : s.Balanced) : s.queue.buffer.Nodup :=
  List.nodup_iff_count.mpr fun id => by
    have once := (h.accounted id).once
    omega

theorem recorded (h : s.Balanced) (hn : s.holder = none) (hb : id ∈ s.queue.buffer) :
    id ∈ s.queue.admitted := by
  have matched := (h.accounted id).matched
  rw [h.guarded.sent_of_free hn, List.count_nil] at matched
  have buffered := List.count_pos_iff.mpr hb
  exact List.count_pos_iff.mp (by omega)

theorem held_of_admitted (h : s.Balanced) (ha : id ∈ s.queue.admitted)
    (hb : id ∉ s.queue.buffer) : id ∈ s.held := by
  have matched := (h.accounted id).matched
  have admitted := List.count_pos_iff.mpr ha
  rw [List.count_eq_zero.mpr hb] at matched
  exact List.count_pos_iff.mp (by omega)

theorem free_of_resting (h : s.Balanced) (hr : ∀ c ∈ s.calls, c.resting) : s.holder = none := by
  cases hn : s.holder with
  | none => rfl
  | some i =>
    obtain ⟨c, hc, hl⟩ := (h.guarded i).mp hn
    exact absurd hl (Stage.not_locked_of_resting (hr c (List.mem_of_getElem? hc)))

theorem faithful_of_resting (h : s.Balanced) (hr : ∀ c ∈ s.calls, c.resting) :
    s.queue.Faithful where
  nodup := h.nodup
  recorded id := by
    refine ⟨fun ha => ?_, h.recorded (h.free_of_resting hr)⟩
    by_cases hb : id ∈ s.queue.buffer
    · exact hb
    · obtain ⟨c, hc, hi⟩ := List.mem_flatMap.mp (h.held_of_admitted ha hb)
      rw [Stage.held_of_resting (hr c hc)] at hi
      cases hi

end Balanced

def admission (i : Nat) (id : Uuid) : List Move :=
  .offer id :: List.replicate 5 (.resume i)

theorem step_last {q : JobQueue} {h : Option Nat} {cs : List Stage}
    (ho : h = none ∨ h = some cs.length) :
    (⟨q, h, cs ++ [c]⟩ : SharedQueue).step (.resume cs.length) =
      ⟨(c.next q).1, if (c.next q).2.locked then some cs.length else if c.locked then none else h,
        cs ++ [(c.next q).2]⟩ := by
  have unlocked : SharedQueue.OpenTo ⟨q, h, cs ++ [c]⟩ cs.length := ho
  simp only [step, List.getElem?_concat_length]
  rw [if_pos fun _ => unlocked]
  simp [changed]

theorem run_admission (hs : s.holder = none) (id : Uuid) :
    s.run (admission s.calls.length id) =
      ⟨(s.queue.tryAdmit id).2, none, s.calls ++ [.answered (s.queue.tryAdmit id).1]⟩ := by
  obtain ⟨q, h, cs⟩ := s
  obtain rfl : h = none := hs
  have come : step ⟨q, none, cs⟩ (.offer id) = ⟨q, none, cs ++ [.offering id]⟩ := rfl
  simp only [run, admission, List.replicate, List.foldl_cons, List.foldl_nil, come]
  by_cases hq : q.isQueued id
  · simp [step_last, Stage.next, Stage.locked, JobQueue.tryAdmit, hq]
  · have sent := q.trySend_channel id
    by_cases hd : q.depth < q.capacity
    · rw [if_pos hd] at sent
      simp [step_last, Stage.next, Stage.locked, JobQueue.tryAdmit, hq, sent]
    · rw [if_neg hd] at sent
      simp [step_last, Stage.next, Stage.locked, JobQueue.tryAdmit, hq, sent]

theorem ids_never_stuck {capacity : Nat} {q : JobQueue} (h : JobQueue.new? capacity = some q)
    (ms : List Move) :
    let s := (opening q).run ms
    s.queue.buffer.Nodup ∧
      (s.holder = none → ∀ id ∈ s.queue.buffer, id ∈ s.queue.admitted) ∧
      (∀ id ∈ s.queue.admitted, id ∉ s.queue.buffer →
        ∃ i : Nat, s.calls[i]? = some (.received id) ∨ s.calls[i]? = some (.erasing id)) ∧
      ((∀ c ∈ s.calls, c.resting) →
        (∀ id, id ∈ s.queue.admitted ↔ id ∈ s.queue.buffer) ∧
        ∀ id, id ∉ s.queue.buffer → s.queue.depth < s.queue.capacity →
          s.run (admission s.calls.length id) =
            ⟨⟨s.queue.capacity, s.queue.buffer ++ [id], id :: s.queue.admitted⟩, none,
              s.calls ++ [.answered .admitted]⟩) := by
  intro s
  obtain rfl := JobQueue.new?_eq_some h
  have balanced : s.Balanced := .run ms
  refine ⟨balanced.nodup, ?_, ?_, ?_⟩
  · exact fun hn _ => balanced.recorded hn
  · intro id ha hb
    obtain ⟨c, hc, hi⟩ := List.mem_flatMap.mp (balanced.held_of_admitted ha hb)
    obtain ⟨i, hi'⟩ := List.mem_iff_getElem?.mp hc
    rcases Stage.mem_held_iff.mp hi with rfl | rfl
    · exact ⟨i, .inl hi'⟩
    · exact ⟨i, .inr hi'⟩
  · intro hr
    have faithful := balanced.faithful_of_resting hr
    refine ⟨faithful.recorded, fun id hb hd => ?_⟩
    have unqueued : ¬ s.queue.isQueued id := fun hi => hb ((JobQueue.isQueued_iff faithful).mp hi)
    rw [run_admission (balanced.free_of_resting hr) id, JobQueue.tryAdmit, if_neg unqueued,
      JobQueue.trySend_channel, if_pos hd]

def early : List Move :=
  [.offer (.ofNat 1), .dequeue, .offer (.ofNat 1), .resume 0, .resume 0, .resume 0, .resume 1,
    .resume 1, .resume 2, .resume 0, .resume 0, .resume 2, .resume 2]

def late : List Move :=
  early ++ [.resume 2, .resume 1, .resume 1, .resume 1]

theorem ids_never_stuck_early : ∃ q, JobQueue.new? 1 = some q ∧
    (∃ i : Nat, ((opening q).run early).calls[i]? = some (.received (.ofNat 1)) ∨
      ((opening q).run early).calls[i]? = some (.erasing (.ofNat 1))) ∧
    ((opening q).run late).calls =
      [.answered .admitted, .delivered (.ofNat 1), .answered .alreadyQueued] ∧
    ((opening q).run late).run (admission 3 (.ofNat 1)) =
      ⟨⟨1, [.ofNat 1], [.ofNat 1]⟩, none, [.answered .admitted, .delivered (.ofNat 1),
        .answered .alreadyQueued, .answered .admitted]⟩ := by
  have made : JobQueue.new? 1 = some ⟨1, [], []⟩ := rfl
  refine ⟨_, made, ?_, by decide, ?_⟩
  · exact (ids_never_stuck made early).2.2.1 (.ofNat 1) (by decide) (by decide)
  · have resting : ∀ c ∈ ((opening ⟨1, [], []⟩).run late).calls, c.resting := by decide
    exact ((ids_never_stuck made late).2.2.2 resting).2 (.ofNat 1) (by decide) (by decide)

end SharedQueue

end DocumentPreview
