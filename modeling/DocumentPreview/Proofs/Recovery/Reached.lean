import DocumentPreview.Proofs.Recovery.Pass

namespace DocumentPreview

open Program Shared

namespace Previews

variable {cfg : PipelineSettings} {s : Shared}

theorem ensures_offer (hm : 0 < cfg.maxAttempts.toInt) (hs : s.Sound cfg) {job : Job}
    (hj : job.id ∈ s.store.rows.map (·.id)) (created : Bool) :
    (offer job created).Ensures (Sound cfg) (fun _ _ => True) s := by
  refine .of_any_reply fun o ha => ?_
  have sound := hs.answer hm ha (c := .offer job.id) hj
  refine ⟨sound, fun r => ?_⟩
  cases r with
  | full => exact fun o ha => ⟨sound, trivial⟩
  | admitted | alreadyQueued | closed => trivial

theorem ensures_create (hm : 0 < cfg.maxAttempts.toInt) (hs : s.Sound cfg) (fileId : Uuid)
    (requestedBy : Option String) :
    (create cfg.maxAttempts fileId requestedBy).Ensures (Sound cfg) (fun _ _ => True) s := by
  intro o ha
  have sound := hs.answer hm ha (c := .store (.create fileId requestedBy cfg.maxAttempts)) rfl
  refine ⟨sound, ?_⟩
  rcases s.store.create_cases o.time o.freshId fileId requestedBy cfg.maxAttempts with
    ⟨j, -, he⟩ | ⟨-, he⟩
  · rw [answer_store_eq (.create fileId requestedBy cfg.maxAttempts) he]
    trivial
  · rw [answer_store_eq (.create fileId requestedBy cfg.maxAttempts) he] at sound ⊢
    have row : Job.fresh o.freshId fileId requestedBy cfg.maxAttempts o.time ∈
        (s.store.put (Job.fresh o.freshId fileId requestedBy cfg.maxAttempts o.time)).rows :=
      MemoryStore.mem_put.mpr (.inr rfl)
    exact fun o ha => ⟨sound, ensures_offer hm sound (List.mem_map_of_mem row) true⟩

theorem ensures_enqueue (hm : 0 < cfg.maxAttempts.toInt) (hs : s.Sound cfg) (fileId : Uuid)
    (requestedBy : Option String) :
    (enqueue cfg.maxAttempts fileId requestedBy).Ensures (Sound cfg) (fun _ _ => True) s := by
  refine .of_any_reply fun o ha => ⟨hs, fun r => ?_⟩
  rcases r with _ | _ | file
  · trivial
  · trivial
  · exact ensures_create hm hs fileId requestedBy

theorem ensures_reset (hm : 0 < cfg.maxAttempts.toInt) (hs : s.Sound cfg) {latest : Job}
    (hl : latest ∈ s.store.rows) (hn : s.store.Newest latest) :
    (reset latest).Ensures (Sound cfg) (fun _ _ => True) s := by
  intro o ha
  have heeds : s.Heeds cfg.maxAttempts (.store (.reset latest.id)) := by
    intro j hj
    rw [MemoryStore.get?_self hs.orderly.distinct hl] at hj
    exact Option.some.inj hj ▸ hn
  have sound := hs.answer hm ha heeds
  refine ⟨sound, ?_⟩
  rcases s.store.reset_cases o.time latest.id with ⟨-, he⟩ | ⟨j, hj, -, -, he⟩
  · rw [answer_store_eq (.reset latest.id) he] at sound ⊢
    refine .of_any_reply fun o' ha' => ⟨sound.answer hm ha' trivial, fun r => ?_⟩
    rcases r with _ | _ | job <;> trivial
  · rw [answer_store_eq (.reset latest.id) he] at sound ⊢
    have row := MemoryStore.get?_changeRow_self hs.orderly.distinct
      (f := (·.restarted o.time)) (fun _ => rfl) hj
    exact ensures_offer hm sound (List.mem_map_of_mem (MemoryStore.mem_of_get? row).1) false

theorem ensures_retry (hm : 0 < cfg.maxAttempts.toInt) (hs : s.Sound cfg) (fileId : Uuid) :
    (retry fileId).Ensures (Sound cfg) (fun _ _ => True) s := by
  intro o ha
  have sound := hs.answer hm ha (c := .store (.latest fileId)) trivial
  refine ⟨sound, ?_⟩
  rw [answer_store_eq (.latest fileId) rfl] at sound ⊢
  cases hl : s.store.latest? fileId with
  | none => trivial
  | some latest =>
    obtain ⟨hrow, -, hnew⟩ := MemoryStore.newest_of_latest? hl
    dsimp only
    split
    · exact ensures_reset hm sound hrow hnew
    · trivial

end Previews

inductive Begun (cfg : PipelineSettings) (s : Shared) : Activity → Shared → Prop
  | enqueue (fileId : Uuid) (requestedBy : Option String) :
      Begun cfg s (.enqueue cfg.maxAttempts fileId requestedBy) s
  | retry (fileId : Uuid) : Begun cfg s (.retry fileId) s
  | sweep : Begun cfg s (.sweep cfg.staleAfter) s
  | work {id : Uuid} {q : JobQueue} : s.queue.dequeue? = some (id, q) →
      Begun cfg s (.work ⟨cfg.retry, cfg.conversionTimeout⟩ id) { s with queue := q }

inductive Reached (cfg : PipelineSettings) : Shared → Prop
  | start {q : JobQueue} (clock : Instant) : JobQueue.new? cfg.queueCapacity = some q →
      Reached cfg ⟨.empty, q, clock⟩
  | ended {s u t : Shared} {a : Activity} {r : Option a.Outcome} : Reached cfg s →
      Begun cfg s a u → a.program.Performs u r t → Reached cfg t
  | crashed {s u t : Shared} {a : Activity} : Reached cfg s →
      Begun cfg s a u → a.program.Begins u t → Reached cfg t
  | reordered {s : Shared} {rows : List Job} : Reached cfg s → s.store.rows.Perm rows →
      Reached cfg { s with store := ⟨rows⟩ }

variable {cfg : PipelineSettings} {s u t : Shared} {a : Activity}

theorem Begun.sound (h : Begun cfg s a u) (hs : s.Sound cfg) : u.Sound cfg := by
  cases h with
  | enqueue | retry | sweep => exact hs
  | work hd => exact hs.dequeue hd

theorem Begun.keeps_sound (h : Begun cfg s a u) (hm : 0 < cfg.maxAttempts.toInt) (hs : s.Sound cfg)
    (ht : a.program.Begins u t) : t.Sound cfg := by
  have hu := h.sound hs
  cases h with
  | enqueue fileId requestedBy =>
    exact (Previews.ensures_enqueue hm hs fileId requestedBy).begins hs ht
  | retry fileId => exact (Previews.ensures_retry hm hs fileId).begins hs ht
  | sweep => exact (Sweep.ensures_runOnce hm hs cfg.staleAfter).begins hs ht
  | work hd => exact ((Worker.ensures_process hm hu _).begins ⟨hu, .refl _ _⟩ ht).sound

theorem Reached.sound (h : Reached cfg s) (hm : 0 < cfg.maxAttempts.toInt) : s.Sound cfg := by
  induction h with
  | start clock hq => exact sound_start hq
  | ended _ hb hp ih => exact hb.keeps_sound hm ih hp.begins
  | crashed _ hb hp ih => exact hb.keeps_sound hm ih hp
  | reordered _ hp ih => exact ih.perm hp

end DocumentPreview
