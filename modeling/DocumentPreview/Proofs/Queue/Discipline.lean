import DocumentPreview.Proofs.Queue.Admission

namespace DocumentPreview

inductive QueueCall where
  | offer (id : Uuid)
  | dequeue
  deriving DecidableEq

inductive QueueEvent where
  | offered (id : Uuid) (answer : Admission)
  | delivered (id : Uuid)
  | waited
  deriving DecidableEq

namespace QueueEvent

def entered : QueueEvent → List Uuid
  | offered id .admitted => [id]
  | _ => []

def left : QueueEvent → List Uuid
  | delivered id => [id]
  | _ => []

end QueueEvent

namespace JobQueue

variable {q : JobQueue} {id : Uuid}

def perform (q : JobQueue) : QueueCall → QueueEvent × JobQueue
  | .offer id => (.offered id (q.tryAdmit id).1, (q.tryAdmit id).2)
  | .dequeue =>
    match q.dequeue? with
    | some (id, rest) => (.delivered id, rest)
    | none => (.waited, q)

def performAll (q : JobQueue) : List QueueCall → List QueueEvent × JobQueue
  | [] => ([], q)
  | c :: cs => ((q.perform c).1 :: ((q.perform c).2.performAll cs).1, ((q.perform c).2.performAll cs).2)

def deliveries (es : List QueueEvent) : List Uuid :=
  es.flatMap QueueEvent.left

def admissions (es : List QueueEvent) : List Uuid :=
  es.flatMap QueueEvent.entered

structure Sound (capacity : Nat) (q : JobQueue) : Prop extends q.Faithful where
  sized : q.capacity = capacity
  bounded : q.depth ≤ capacity

theorem sound_new {capacity : Nat} : Sound capacity ⟨capacity, [], []⟩ where
  toFaithful := faithful_new
  sized := rfl
  bounded := Nat.zero_le _

theorem dequeue?_cons {rest : List Uuid} (h : q.buffer = id :: rest) : q.dequeue? =
    some (id, { q with buffer := rest, admitted := q.admitted.filter (· ≠ id) }) := by
  rw [dequeue?, h]

namespace Sound

variable {capacity : Nat}

theorem tryAdmit (h : Sound capacity q) (id : Uuid) : Sound capacity (q.tryAdmit id).2 where
  toFaithful := h.toFaithful.tryAdmit id
  sized := capacity_tryAdmit.trans h.sized
  bounded := by
    have bounded : (q.tryAdmit id).2.depth ≤ (q.tryAdmit id).2.capacity :=
      depth_tryAdmit_le (h.sized.symm ▸ h.bounded)
    rwa [capacity_tryAdmit, h.sized] at bounded

theorem dequeue {rest : JobQueue} (h : Sound capacity q) (hd : q.dequeue? = some (id, rest)) :
    Sound capacity rest := by
  obtain ⟨buffer, -, same⟩ := dequeue?_eq_some hd
  refine ⟨h.toFaithful.dequeue hd, same.trans h.sized, Nat.le_trans ?_ h.bounded⟩
  rw [depth, depth, buffer]
  exact Nat.le_succ _

theorem perform (h : Sound capacity q) (c : QueueCall) : Sound capacity (q.perform c).2 := by
  cases c with
  | offer id => exact h.tryAdmit id
  | dequeue =>
    simp only [JobQueue.perform]
    split
    · exact h.dequeue ‹_›
    · exact h

theorem performAll (h : Sound capacity q) (cs : List QueueCall) :
    Sound capacity (q.performAll cs).2 := by
  induction cs generalizing q with
  | nil => exact h
  | cons c cs ih => exact ih (h.perform c)

theorem full_iff (h : Sound capacity q) :
    (q.tryAdmit id).1 = .full ↔ id ∉ q.buffer ∧ q.depth = capacity := by
  have bounded := h.bounded
  rcases tryAdmit_cases h.toFaithful id with ⟨hq, he⟩ | ⟨hn, room, he⟩ | ⟨hn, full, he⟩
  · simp [he, hq]
  · rw [h.sized] at room
    simp [he, Nat.ne_of_lt room]
  · rw [h.sized] at full
    simp [he, hn, Nat.le_antisymm bounded full]

theorem admitted_iff (h : Sound capacity q) :
    (q.tryAdmit id).1 = .admitted ↔ id ∉ q.buffer ∧ q.depth < capacity := by
  rcases tryAdmit_cases h.toFaithful id with ⟨hq, he⟩ | ⟨hn, room, he⟩ | ⟨hn, full, he⟩
  · simp [he, hq]
  · rw [h.sized] at room
    simp [he, hn, room]
  · rw [h.sized] at full
    simp [he, Nat.not_lt.mpr full]

end Sound

theorem alreadyQueued_iff (h : q.Faithful) : (q.tryAdmit id).1 = .alreadyQueued ↔ id ∈ q.buffer := by
  rcases tryAdmit_cases h id with ⟨hq, he⟩ | ⟨hn, room, he⟩ | ⟨hn, full, he⟩ <;> simp [*]

theorem tryAdmit_of_ne_admitted (h : (q.tryAdmit id).1 ≠ .admitted) : (q.tryAdmit id).2 = q := by
  rcases q.tryAdmit_results id with ⟨-, he⟩ | ⟨-, -, he⟩ | ⟨-, -, he⟩
  · rw [he]
  · exact absurd (congrArg Prod.fst he) h
  · rw [he]

theorem order_perform (q : JobQueue) (c : QueueCall) :
    (q.perform c).1.left ++ (q.perform c).2.buffer = q.buffer ++ (q.perform c).1.entered := by
  cases c with
  | offer id =>
    rcases q.tryAdmit_results id with ⟨-, he⟩ | ⟨-, -, he⟩ | ⟨-, -, he⟩
    all_goals simp [perform, he, QueueEvent.left, QueueEvent.entered]
  | dequeue =>
    cases hb : q.buffer with
    | nil => simp [perform, dequeue?_eq_none_iff.mpr hb, hb, QueueEvent.left, QueueEvent.entered]
    | cons id rest => simp [perform, dequeue?_cons hb, QueueEvent.left, QueueEvent.entered]

theorem order_performAll (q : JobQueue) (cs : List QueueCall) :
    deliveries (q.performAll cs).1 ++ (q.performAll cs).2.buffer =
      q.buffer ++ admissions (q.performAll cs).1 := by
  induction cs generalizing q with
  | nil => exact (List.append_nil _).symm
  | cons c cs ih =>
    simp only [performAll, deliveries, admissions, List.flatMap_cons] at ih ⊢
    rw [List.append_assoc, ih, ← List.append_assoc, order_perform, List.append_assoc]

structure Disciplined (capacity : Nat) (es : List QueueEvent) (q : JobQueue) : Prop where
  order : deliveries es ++ q.buffer = admissions es
  nodup : q.buffer.Nodup
  bounded : q.buffer.length ≤ capacity
  depth : q.depth = q.buffer.length
  queued : ∀ id, q.isQueued id ↔ id ∈ q.buffer
  alreadyQueued : ∀ id, (q.tryAdmit id).1 = .alreadyQueued ↔ id ∈ q.buffer
  full : ∀ id, (q.tryAdmit id).1 = .full ↔ id ∉ q.buffer ∧ q.depth = capacity
  admitted : ∀ id, (q.tryAdmit id).1 = .admitted ↔ id ∉ q.buffer ∧ q.depth < capacity
  refused : ∀ id, (q.tryAdmit id).1 ≠ .admitted → (q.tryAdmit id).2 = q
  neverClosed : ∀ id, (q.tryAdmit id).1 ≠ .closed
  delivers : ∀ id rest, q.buffer = id :: rest → ∃ q', q.dequeue? = some (id, q') ∧ q'.buffer = rest

theorem deliveries_follow_admissions {capacity : Nat} (hc : 1 ≤ capacity) :
    ∃ q, new? capacity = some q ∧ ∀ cs : List QueueCall,
      Disciplined capacity (q.performAll cs).1 (q.performAll cs).2 := by
  refine ⟨⟨capacity, [], []⟩, if_neg (Nat.ne_of_gt hc), fun cs => ?_⟩
  have sound : Sound capacity (performAll ⟨capacity, [], []⟩ cs).2 := sound_new.performAll cs
  constructor
  case order => exact order_performAll _ cs
  case nodup => exact sound.nodup
  case bounded => exact sound.bounded
  case depth => rfl
  case queued => exact fun id => isQueued_iff sound.toFaithful
  case alreadyQueued => exact fun id => alreadyQueued_iff sound.toFaithful
  case full => exact fun id => sound.full_iff
  case admitted => exact fun id => sound.admitted_iff
  case refused => exact fun id => tryAdmit_of_ne_admitted
  case neverClosed => exact tryAdmit_ne_closed _
  case delivers => exact fun id rest hb => ⟨_, dequeue?_cons hb, rfl⟩

def returning : List QueueCall :=
  [.offer (.ofNat 1), .offer (.ofNat 2), .offer (.ofNat 1), .dequeue, .offer (.ofNat 2),
    .offer (.ofNat 1), .dequeue, .dequeue, .offer (.ofNat 1)]

theorem deliveries_follow_admissions_returning : 1 ≤ 1 ∧ ∃ q, new? 1 = some q ∧
    (q.performAll returning).1 =
      [.offered (.ofNat 1) .admitted, .offered (.ofNat 2) .full, .offered (.ofNat 1) .alreadyQueued,
        .delivered (.ofNat 1), .offered (.ofNat 2) .admitted, .offered (.ofNat 1) .full,
        .delivered (.ofNat 2), .waited, .offered (.ofNat 1) .admitted] ∧
    deliveries (q.performAll returning).1 ++ (q.performAll returning).2.buffer =
      admissions (q.performAll returning).1 := by
  obtain ⟨q, made, disciplined⟩ := deliveries_follow_admissions (Nat.le_refl 1)
  refine ⟨Nat.le_refl 1, q, made, ?_, (disciplined returning).order⟩
  obtain rfl := new?_eq_some made
  decide

end JobQueue

end DocumentPreview
