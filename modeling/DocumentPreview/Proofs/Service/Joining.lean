import DocumentPreview.Proofs.Service.Enqueue
import DocumentPreview.Proofs.Service.Interleaving

namespace DocumentPreview

namespace Request

def Stage.Joins (m : MemoryStore) (fileId : Uuid) : Stage → Prop
  | .asked | .found => True
  | .ended out => m.inFlight? fileId = some out.job ∧ out.created = false
  | .made _ | .offering _ | .refused _ => False

def Stage.Makes (s : Shared) (q : JobQueue) (j : Job) : Stage → Prop
  | .asked | .found => False
  | .made k | .offering k => k = j ∧ q = s.queue
  | .refused k => k = j ∧ q = s.queue
  | .ended out => out.job = j ∧ (q = s.queue ∨ q.buffer = s.queue.buffer ++ [j.id])

def Stage.calls : Stage → Nat
  | .asked => 0
  | .found => 1
  | .made _ => 2
  | .offering _ => 3
  | .refused _ => 4
  | .ended _ => 5

variable {r : Request} {fileId : Uuid} {o : Outside} {s t u : Shared} {g g' : Stage} {i : Nat}

theorem Stage.calls_lt (h : ∀ out, g ≠ .ended out) : g.calls < 5 := by
  cases g with
  | ended out => exact absurd rfl (h out)
  | _ => simp [calls]

theorem Turns.calls_lt (h : Turns r fileId o s g g' t) : g.calls < g'.calls := by
  cases h <;> simp [Stage.calls]

theorem Stage.Makes.queue {q : JobQueue} {j : Job} (h : g.Makes s q j) :
    q = s.queue ∨ q.buffer = s.queue.buffer ++ [j.id] := by
  cases g with
  | asked | found => exact h.elim
  | made | offering | refused => exact .inl h.2
  | ended => exact h.2

theorem Stage.Joins.of_none {m m' : MemoryStore} (h : g.Joins m fileId)
    (hn : m.inFlight? fileId = none) : g.Joins m' fileId := by
  cases g with
  | asked | found => trivial
  | ended out => cases hn.symm.trans h.1
  | made | offering | refused => exact h.elim

inductive Phase (fileId : Uuid) (s t : Shared) (callers : List (Request × Stage)) : Prop
  | unmade : t.store = s.store → t.queue = s.queue →
      (∀ c ∈ callers, c.2.Joins t.store fileId) → Phase fileId s t callers
  | made (i : Nat) (r : Request) (g : Stage) (o : Outside) : s.store.inFlight? fileId = none →
      o.Serves fileId s → t.store = s.store.put (r.fresh fileId o) → callers[i]? = some (r, g) →
      g.Makes s t.queue (r.fresh fileId o) →
      (∀ k c, k ≠ i → callers[k]? = some c → c.2.Joins t.store fileId) → Phase fileId s t callers

theorem inFlight?_made (hn : s.store.inFlight? fileId = none) (ho : o.Serves fileId s)
    (ht : t.store = s.store.put (r.fresh fileId o)) :
    t.store.inFlight? fileId = some (r.fresh fileId o) :=
  ht ▸ MemoryStore.inFlight?_put hn ho.unused rfl rfl

theorem Turns.makes {j : Job} (h : Turns r fileId o t g g' u) (hm : g.Makes s t.queue j)
    (hn : ¬ s.queue.isQueued j.id) : u.store = t.store ∧ g'.Makes s u.queue j := by
  cases h with
  | found | joined | made => exact hm.elim
  | counted => exact ⟨rfl, hm⟩
  | recorded queued =>
    obtain ⟨rfl, hq⟩ := hm
    exact absurd (hq ▸ queued) hn
  | queued =>
    obtain ⟨rfl, hq⟩ := hm
    exact ⟨rfl, rfl, .inr (by rw [hq])⟩
  | refused => exact ⟨rfl, hm⟩
  | ended =>
    obtain ⟨rfl, hq⟩ := hm
    exact ⟨rfl, rfl, .inl hq⟩

theorem Turns.joins {j : Job} (h : Turns r fileId o t g g' u) (hg : g.Joins t.store fileId)
    (hj : t.store.inFlight? fileId = some j) :
    u.store = t.store ∧ u.queue = t.queue ∧ g'.Joins t.store fileId := by
  cases h with
  | found => exact ⟨rfl, rfl, trivial⟩
  | joined hk => exact ⟨rfl, rfl, hk, rfl⟩
  | made hn => cases hn.symm.trans hj
  | counted | recorded | queued | refused | ended => exact hg.elim

theorem Phase.turn {callers : List (Request × Stage)} (h : Phase fileId s t callers)
    (hi : callers[i]? = some (r, g)) (ho : o.Serves fileId s) (ht : Turns r fileId o t g g' u) :
    Phase fileId s u (callers.set i (r, g')) := by
  have here : (callers.set i (r, g'))[i]? = some (r, g') := by
    rw [List.getElem?_set_self' , hi]
    rfl
  have there : ∀ k, k ≠ i → (callers.set i (r, g'))[k]? = callers[k]? := fun k hk =>
    List.getElem?_set_ne hk.symm
  cases h with
  | unmade hs hq joins =>
    have joining := joins (r, g) (List.mem_of_getElem? hi)
    have all (hg : g'.Joins t.store fileId) :
        ∀ c ∈ callers.set i (r, g'), c.2.Joins t.store fileId := fun c hc => by
      rcases List.mem_or_eq_of_mem_set hc with hc | rfl
      · exact joins c hc
      · exact hg
    cases ht with
    | found => exact .unmade hs hq (all trivial)
    | joined hj => exact .unmade hs hq (all ⟨hj, rfl⟩)
    | made hn =>
      refine .made i r _ o (hs ▸ hn) ho (by rw [← hs]) here ⟨rfl, hq⟩ fun k c hk hc => ?_
      rw [there k hk] at hc
      exact (joins c (List.mem_of_getElem? hc)).of_none hn
    | counted | recorded | queued | refused | ended => exact joining.elim
  | made k r₁ g₁ p hn hp hs hk makes joins =>
    by_cases hik : i = k
    · subst hik
      obtain ⟨rfl, rfl⟩ := Prod.mk.inj (Option.some.inj (hi.symm.trans hk))
      obtain ⟨same, makes⟩ := ht.makes makes hp.unqueued
      refine .made i r g' p hn hp (same.trans hs) here makes fun k c hk hc => ?_
      rw [there k hk] at hc
      exact same ▸ joins k c hk hc
    · obtain ⟨same, queue, joined⟩ := ht.joins (joins i _ hik hi) (inFlight?_made hn hp hs)
      refine .made k r₁ g₁ p hn hp (same.trans hs) ((there k (Ne.symm hik)).trans hk)
        (queue ▸ makes) fun l c hl hc => ?_
      rw [same]
      by_cases hli : l = i
      · subst hli
        exact Option.some.inj (here.symm.trans hc) ▸ joined
      · rw [there l hli] at hc
        exact joins l c hl hc

def strand (fileId : Uuid) (c : Request × Stage) : Strand :=
  ⟨.enqueue c.1.maxAttempts fileId c.1.requestedBy, c.1.program fileId c.2⟩

structure Joint (fileId : Uuid) (s : Shared) (t : System) (callers : List (Request × Stage)) :
    Prop where
  strands : t.strands = callers.map (strand fileId)
  phase : Phase fileId s t.shared callers
  past : ∀ e ∈ t.past, e.strand < callers.length
  calls : ∀ i c, callers[i]? = some c → t.past.countP (·.strand = i) ≤ c.2.calls

end Request

def Move.Requests (fileId : Uuid) (s : Shared) : Move → Prop
  | .start (.enqueue _ f _) => f = fileId
  | .resume _ o => o.Serves fileId s
  | .start _ | .reorder _ => False

namespace Request

variable {fileId : Uuid} {s : Shared} {t : System} {callers : List (Request × Stage)}

theorem Phase.start {u : Shared} (h : Phase fileId s u callers) (r : Request) :
    Phase fileId s u (callers ++ [(r, .asked)]) := by
  cases h with
  | unmade hs hq joins =>
    refine .unmade hs hq fun c hc => ?_
    rcases List.mem_append.mp hc with hc | hc
    · exact joins c hc
    · exact List.mem_singleton.mp hc ▸ trivial
  | made i r₁ g o hn ho hs hi makes joins =>
    have kept : (callers ++ [(r, Stage.asked)])[i]? = some (r₁, g) := by
      rw [List.getElem?_append_left (List.getElem?_eq_some_iff.mp hi).1, hi]
    refine .made i r₁ g o hn ho hs kept makes fun k c hk hc => ?_
    rcases getElem?_snoc hc with hc | ⟨-, rfl⟩
    · exact joins k c hk hc
    · trivial

theorem Joint.start (h : Joint fileId s t callers) (r : Request) :
    Joint fileId s (t.step (.start (.enqueue r.maxAttempts fileId r.requestedBy)))
      (callers ++ [(r, .asked)]) where
  strands := by
    rw [List.map_append, ← h.strands]
    rfl
  phase := h.phase.start r
  past := fun e he => by
    rw [List.length_append]
    exact Nat.lt_succ_of_lt (h.past e he)
  calls := fun i c hc => by
    rcases getElem?_snoc hc with hc | ⟨rfl, rfl⟩
    · exact h.calls i c hc
    · have none : t.past.countP (·.strand = callers.length) = 0 :=
        List.countP_eq_zero.mpr fun e he => by simpa using Nat.ne_of_lt (h.past e he)
      exact Nat.le_of_eq none

theorem Joint.answered {i : Nat} {r : Request} {g : Stage} {o : Outside} {c : ServiceCall}
    {next : c.Reply → ServiceProgram (Except PreviewError EnqueueOutcome)}
    (h : Joint fileId s t callers) (hi : callers[i]? = some (r, g)) (ho : o.Serves fileId s)
    (hc : r.program fileId g = .call c next) :
    ∃ g', Joint fileId s
      (t.answered i o (.enqueue r.maxAttempts fileId r.requestedBy) c next)
      (callers.set i (r, g')) := by
  obtain ⟨g', hnext, turns⟩ := turns_answered (s := t.shared) ho.finds hc
  refine ⟨g', ?_⟩
  constructor
  case strands =>
    rw [List.map_set, ← h.strands]
    exact congrArg (t.strands.set i ⟨_, ·⟩) hnext
  case phase => exact h.phase.turn hi ho turns
  case past =>
    intro e he
    rw [List.length_set]
    rcases List.mem_append.mp he with he | he
    · exact h.past e he
    · rw [List.mem_singleton.mp he]
      exact (List.getElem?_eq_some_iff.mp hi).1
  case calls =>
    intro k d hd
    simp only [System.answered, List.countP_append, List.countP_singleton]
    rcases getElem?_set_cases hd with ⟨rfl, rfl⟩ | ⟨hk, hd⟩
    · have before : t.past.countP (·.strand = i) ≤ g.calls := h.calls i _ hi
      rw [if_pos (decide_eq_true rfl)]
      exact Nat.lt_of_le_of_lt before turns.calls_lt
    · simpa [hk] using h.calls k d hd

theorem Joint.step (h : Joint fileId s t callers) {m : Move} (hm : m.Requests fileId s) :
    ∃ callers, Joint fileId s (t.step m) callers := by
  cases m with
  | start a =>
    cases a with
    | enqueue m f b =>
      obtain rfl := hm
      exact ⟨_, h.start ⟨m, b⟩⟩
    | work | sweep | retry => exact hm.elim
  | reorder => exact hm.elim
  | resume i o =>
    simp only [System.step, h.strands, List.getElem?_map]
    rcases hi : callers[i]? with _ | ⟨r, g⟩
    · exact ⟨callers, h⟩
    · by_cases hg : ∃ out, g = .ended out
      · obtain ⟨out, rfl⟩ := hg
        exact ⟨callers, h⟩
      · obtain ⟨c, next, hc⟩ := r.exists_call fileId fun out he => hg ⟨out, he⟩
        simp only [Option.map_some, strand, hc]
        split
        · obtain ⟨g', joint⟩ := h.answered hi hm hc
          exact ⟨_, joint⟩
        · exact ⟨callers, h⟩

theorem joint_idle (fileId : Uuid) (s : Shared) : Joint fileId s (.idle s) [] where
  strands := rfl
  phase := .unmade rfl rfl fun _ hc => absurd hc List.not_mem_nil
  past := fun _ he => absurd he List.not_mem_nil
  calls := fun _ _ hc => by simp at hc

theorem Joint.run {ms : List Move} (h : Joint fileId s t callers)
    (hm : ∀ m ∈ ms, m.Requests fileId s) : ∃ callers, Joint fileId s (t.run ms) callers := by
  induction ms generalizing t callers with
  | nil => exact ⟨callers, h⟩
  | cons m ms ih =>
    obtain ⟨callers, joint⟩ := h.step (hm m List.mem_cons_self)
    exact ih joint fun m' hm' => hm m' (List.mem_cons_of_mem m hm')

end Request

def System.Returns (t : System) (i : Nat) (r : Except PreviewError EnqueueOutcome) : Prop :=
  ∃ maxAttempts fileId requestedBy,
    t.strands[i]? = some ⟨.enqueue maxAttempts fileId requestedBy, .done r⟩

structure OneJob (fileId : Uuid) (s : Shared) (t : System) : Prop where
  inFlight : ∀ i r, t.Returns i r → ∃ out, r = .ok out ∧
    out.job ∈ t.store.rows ∧ out.job.fileId = fileId ∧ out.job.isInFlight
  same : ∀ i k a b, t.Returns i (.ok a) → t.Returns k (.ok b) → a.job = b.job
  maker : ∀ i k a b, t.Returns i (.ok a) → t.Returns k (.ok b) → a.created → b.created → i = k
  added : t.store = s.store ∧ t.shared.queue = s.queue ∨
    (∀ j ∈ s.store.rows, j.fileId = fileId → ¬ j.isInFlight) ∧
      ∃ j, t.store.rows = s.store.rows ++ [j] ∧ j.fileId = fileId ∧ j.status = .pending ∧
        j.attempts = 0 ∧
        (t.shared.queue = s.queue ∨ t.shared.queue.buffer = s.queue.buffer ++ [j.id])
  ends : ∀ i < t.strands.length, (∃ r, t.Returns i r) ∨
    t.past.countP (·.strand = i) < 5 ∧
      ∃ a c next, t.strands[i]? = some ⟨a, .call c next⟩

namespace Request

variable {fileId : Uuid} {s : Shared} {t : System} {callers : List (Request × Stage)} {i : Nat}

theorem Joint.ended_of_returns (h : Joint fileId s t callers)
    {res : Except PreviewError EnqueueOutcome} (hr : t.Returns i res) :
    ∃ r out, res = .ok out ∧ callers[i]? = some (r, .ended out) := by
  obtain ⟨m, f, b, hi⟩ := hr
  rw [h.strands, List.getElem?_map] at hi
  obtain ⟨⟨r, g⟩, hc, he⟩ := Option.map_eq_some_iff.mp hi
  cases g with
  | ended out =>
    cases he
    exact ⟨r, out, rfl, hc⟩
  | _ => cases he

theorem Phase.job_of_ended {u : Shared} {r : Request} {out : EnqueueOutcome}
    (h : Phase fileId s u callers) (hi : callers[i]? = some (r, .ended out)) :
    u.store.inFlight? fileId = some out.job := by
  cases h with
  | unmade hs hq joins => exact (joins _ (List.mem_of_getElem? hi)).1
  | made k r₁ g o hn ho hs hk makes joins =>
    by_cases hik : i = k
    · subst hik
      obtain ⟨rfl, rfl⟩ := Prod.mk.inj (Option.some.inj (hi.symm.trans hk))
      rw [makes.1]
      exact inFlight?_made hn ho hs
    · exact (joins i _ hik hi).1

theorem Phase.maker_of_created {u : Shared} {r r' : Request} {a b : EnqueueOutcome} {k : Nat}
    (h : Phase fileId s u callers) (hi : callers[i]? = some (r, .ended a))
    (hk : callers[k]? = some (r', .ended b)) (ha : a.created) (hb : b.created) : i = k := by
  cases h with
  | unmade hs hq joins => simp [(joins _ (List.mem_of_getElem? hi)).2] at ha
  | made l r₁ g o hn ho hs hl makes joins =>
    have mine : ∀ n r c, callers[n]? = some (r, Stage.ended c) → c.created → n = l := by
      intro n r c hc created
      by_contra hnl
      simp [(joins n _ hnl hc).2] at created
    rw [mine i r a hi ha, mine k r' b hk hb]

theorem Joint.oneJob (h : Joint fileId s t callers) : OneJob fileId s t := by
  constructor
  case inFlight =>
    intro i res hr
    obtain ⟨r, out, rfl, hi⟩ := h.ended_of_returns hr
    exact ⟨out, rfl, MemoryStore.of_inFlight? (h.phase.job_of_ended hi)⟩
  case same =>
    intro i k a b ha hb
    obtain ⟨_, _, ⟨⟩, hi⟩ := h.ended_of_returns ha
    obtain ⟨_, _, ⟨⟩, hk⟩ := h.ended_of_returns hb
    exact Option.some.inj ((h.phase.job_of_ended hi).symm.trans (h.phase.job_of_ended hk))
  case maker =>
    intro i k a b ha hb created created'
    obtain ⟨_, _, ⟨⟩, hi⟩ := h.ended_of_returns ha
    obtain ⟨_, _, ⟨⟩, hk⟩ := h.ended_of_returns hb
    exact h.phase.maker_of_created hi hk created created'
  case added =>
    cases h.phase with
    | unmade hs hq => exact .inl ⟨hs, hq⟩
    | made i r g o hn ho hs hi makes =>
      exact .inr ⟨MemoryStore.inFlight?_eq_none_iff.mp hn, r.fresh fileId o,
        (congrArg MemoryStore.rows hs).trans (MemoryStore.rows_put_of_unused ho.unused),
        rfl, rfl, rfl, makes.queue⟩
  case ends =>
    intro i hi
    rw [h.strands, List.length_map] at hi
    obtain ⟨⟨r, g⟩, here⟩ : ∃ c, callers[i]? = some c := ⟨_, List.getElem?_eq_getElem hi⟩
    have stands : t.strands[i]? = some (strand fileId (r, g)) := by
      rw [h.strands, List.getElem?_map, here, Option.map_some]
    by_cases hg : ∃ out, g = .ended out
    · obtain ⟨out, rfl⟩ := hg
      exact .inl ⟨.ok out, r.maxAttempts, fileId, r.requestedBy, stands⟩
    · replace hg : ∀ out, g ≠ .ended out := fun out he => hg ⟨out, he⟩
      obtain ⟨c, next, hc⟩ := r.exists_call fileId hg
      refine .inr ⟨Nat.lt_of_le_of_lt (h.calls i _ here) (Stage.calls_lt hg),
        .enqueue r.maxAttempts fileId r.requestedBy, c, next, ?_⟩
      exact stands.trans
        (congrArg (some <| Strand.mk (.enqueue r.maxAttempts fileId r.requestedBy) ·) hc)

end Request

theorem enqueue_single_flight (fileId : Uuid) (s : Shared) :
    (∀ (maxAttempts : Int32) (requestedBy : Option String) (o : ServiceCall → Outside),
      (∀ c, (o c).Serves fileId s) →
      ∃ out t, (Previews.enqueue maxAttempts fileId requestedBy).run
          (fun c s => s.answer (o c) c) s = (some (.ok out), t) ∧ Enqueued fileId s t out) ∧
    ∀ ms : List Move, (∀ m ∈ ms, m.Requests fileId s) →
      OneJob fileId s ((System.idle s).run ms) := by
  refine ⟨fun maxAttempts requestedBy o ho => ?_, fun ms hm => ?_⟩
  · exact Request.enqueued_alone (r := ⟨maxAttempts, requestedBy⟩) ho
  · obtain ⟨callers, joint⟩ := (Request.joint_idle fileId s).run hm
    exact joint.oneJob

def vacant : Shared :=
  ⟨.empty, ⟨1, [], []⟩, .epoch⟩

def twoCallers : List Move :=
  [.start (.enqueue 3 (.ofNat 7) none), .start (.enqueue 3 (.ofNat 7) none)] ++
    System.resumed 1 0 10 (.ofNat 1) ++ System.resumed 2 1 10 (.ofNat 2) ++
    System.resumed 1 0 11 (.ofNat 3) ++ System.resumed 2 1 12 (.ofNat 3)

theorem slow_serves (time : Instant) (id : Uuid) :
    (Outside.slow time id).Serves (.ofNat 7) vacant where
  finds := ⟨_, rfl⟩
  unused := fun _ hj => absurd hj List.not_mem_nil
  unqueued := by simp [JobQueue.isQueued, vacant]

theorem enqueue_single_flight_twoCallers :
    (∃ out t, (Previews.enqueue 3 (.ofNat 7) none).run
        (fun c (s : Shared) => s.answer (.slow .epoch (.ofNat 1)) c) vacant = (some (.ok out), t) ∧
      out.created = true) ∧
    ∃ a b, ((System.idle vacant).run twoCallers).Returns 0 (.ok a) ∧
      ((System.idle vacant).run twoCallers).Returns 1 (.ok b) ∧ a.job = b.job ∧
      a.created = false ∧ b.created = true := by
  obtain ⟨alone, together⟩ := enqueue_single_flight (.ofNat 7) vacant
  constructor
  · obtain ⟨out, t, run, enqueued⟩ :=
      alone 3 none (fun _ => .slow .epoch (.ofNat 1)) fun _ => slow_serves _ _
    have free : ∀ j ∈ vacant.store.rows, j.fileId = .ofNat 7 → ¬ j.isInFlight :=
      fun _ hj => absurd hj List.not_mem_nil
    exact ⟨out, t, run, (enqueued.made free).2.2.2.1⟩
  · have requests : ∀ m ∈ twoCallers, m.Requests (.ofNat 7) vacant := by
      simp [twoCallers, System.resumed, Move.Requests, slow_serves]
    have first : ((System.idle vacant).run twoCallers).Returns 0 (.ok ⟨_, false, false⟩) :=
      ⟨3, .ofNat 7, none, rfl⟩
    have second : ((System.idle vacant).run twoCallers).Returns 1 (.ok ⟨_, true, false⟩) :=
      ⟨3, .ofNat 7, none, rfl⟩
    exact ⟨_, _, first, second, (together twoCallers requests).same 0 1 _ _ first second, rfl, rfl⟩

end DocumentPreview
