import DocumentPreview.Proofs.Service.Interleaving
import DocumentPreview.Proofs.Store.InFlight
import Mathlib.Data.List.Induction

namespace DocumentPreview

def ServiceCall.operation? : ServiceCall → Option StoreOp
  | .store op => some op
  | _ => none

namespace System

open MemoryStore

variable {s : System}

def operation? (s : System) : Move → Option StoreOp
  | .resume i o =>
    match s.strands[i]? with
    | some ⟨_, .call c _⟩ => if s.store.Unused o.freshId then c.operation? else none
    | _ => none
  | .start _ | .reorder _ => none

theorem answer_store (s : Shared) (o : Outside) (c : ServiceCall) :
    (∃ op, c.operation? = some op ∧ (s.answer o c).2.store = (s.store.run o.time o.freshId op).2) ∨
    (c.operation? = none ∧ (s.answer o c).2.store = s.store) := by
  cases c with
  | store op => exact .inl ⟨op, rfl, rfl⟩
  | _ => exact .inr ⟨rfl, rfl⟩

theorem step_store (s : System) (m : Move) :
    (∃ clock freshId op, s.operation? m = some op ∧ s.store.Unused freshId ∧
      (s.step m).store = (s.store.run clock freshId op).2) ∨
    (s.operation? m = none ∧ s.store.rows.Perm (s.step m).store.rows) := by
  cases m with
  | start a => exact .inr ⟨rfl, .refl _⟩
  | reorder rows =>
    refine .inr ⟨rfl, ?_⟩
    simp only [step]
    split
    · exact List.Perm.symm ‹_›
    · exact .refl _
  | resume i o =>
    rcases ht : s.strands[i]? with _ | ⟨a, _ | _ | ⟨c, next⟩⟩
    all_goals simp only [step, operation?, ht]
    · exact .inr ⟨trivial, .refl _⟩
    · exact .inr ⟨trivial, .refl _⟩
    · exact .inr ⟨trivial, .refl _⟩
    · by_cases hu : s.store.Unused o.freshId
      · simp only [if_pos hu]
        rcases answer_store s.shared o c with ⟨op, hop, he⟩ | ⟨hn, he⟩
        · exact .inl ⟨o.time, o.freshId, op, hop, hu, he⟩
        · exact .inr ⟨hn, .of_eq (congrArg MemoryStore.rows he.symm)⟩
      · simp only [if_neg hu]
        exact .inr ⟨trivial, .refl _⟩

theorem run_reaches (queue : JobQueue) (clock : Instant) (ms : List Move) :
    Reaches ((idle ⟨.empty, queue, clock⟩).run ms).store := by
  induction ms using List.reverseRecOn with
  | nil => exact .empty
  | append_singleton ms m ih =>
    rw [run_snoc]
    rcases step_store ((idle ⟨.empty, queue, clock⟩).run ms) m with
      ⟨clock, freshId, op, -, hu, he⟩ | ⟨-, hp⟩
    · rw [he]
      exact ih.run clock freshId op hu
    · exact ih.reorder hp

theorem oneInFlight_step_iff (h : s.store.Distinct) (ho : s.store.OneEach Job.isInFlight)
    (m : Move) : (s.step m).store.OneEach Job.isInFlight ↔
      ∀ op, s.operation? m = some op → ¬ s.store.Crowds op := by
  rcases s.step_store m with ⟨clock, freshId, op, hop, -, he⟩ | ⟨hop, hp⟩
  · simp only [he, oneInFlight_run_iff h ho, hop, Option.some.injEq, forall_eq']
  · exact iff_of_true (ho.perm hp) fun op h => nomatch hop.symm.trans h

theorem oneInFlight_iff_no_crowding (queue : JobQueue) (clock : Instant) (ms : List Move) :
    (∀ ps, ps <+: ms →
      ((idle ⟨.empty, queue, clock⟩).run ps).store.OneEach Job.isInFlight) ↔
      ∀ ps m, ps ++ [m] <+: ms → ∀ op,
        ((idle ⟨.empty, queue, clock⟩).run ps).operation? m = some op →
          ¬ ((idle ⟨.empty, queue, clock⟩).run ps).store.Crowds op := by
  have distinct ps := (run_reaches queue clock ps).distinct
  constructor
  · intro one ps m hm
    have before := one ps ((List.prefix_append ps [m]).trans hm)
    have after := one (ps ++ [m]) hm
    rw [run_snoc] at after
    exact (oneInFlight_step_iff (distinct ps) before m).mp after
  · intro clear ps hps
    induction ps using List.reverseRecOn with
    | nil => exact fun a ha => absurd ha List.not_mem_nil
    | append_singleton ps m ih =>
      have before := ih ((List.prefix_append ps [m]).trans hps)
      rw [run_snoc]
      exact (oneInFlight_step_iff (distinct ps) before m).mpr (clear ps m hps)

def crowding : List Move :=
  [.start (.enqueue 2 (.ofNat 9) none), .start (.work ⟨.default, .ofSeconds 120⟩ (.ofNat 1)),
    .start (.sweep (.ofSeconds 900)), .start (.work ⟨.default, .ofSeconds 120⟩ (.ofNat 1)),
    .start (.retry (.ofNat 9)), .start (.enqueue 2 (.ofNat 9) none),
    .start (.work ⟨.default, .ofSeconds 120⟩ (.ofNat 2))] ++
  resumed 4 0 0 (.ofNat 1) ++ resumed 8 1 0 (.ofNat 2) ++ resumed 3 2 1000 (.ofNat 2) ++
  resumed 7 3 1000 (.ofNat 2) ++ resumed 1 4 1000 (.ofNat 2) ++ resumed 4 5 1000 (.ofNat 2) ++
  resumed 8 6 1000 (.ofNat 3) ++ resumed 1 4 1000 (.ofNat 3)

theorem not_oneInFlight_crowding :
    ∃ queue clock ms,
      ((idle ⟨.empty, queue, clock⟩).run ms).store.rows.Pairwise (·.createdAt < ·.createdAt) ∧
      ¬ ((idle ⟨.empty, queue, clock⟩).run ms).store.OneEach Job.isInFlight := by
  refine ⟨⟨4, [], []⟩, .epoch, crowding, by decide +kernel, fun one => ?_⟩
  have shapes : ((idle ⟨.empty, ⟨4, [], []⟩, .epoch⟩).run crowding).store.rows.map
      (fun j => (j.id, j.fileId, j.isInFlight)) =
        [(.ofNat 1, .ofNat 9, true), (.ofNat 2, .ofNat 9, true)] := by decide +kernel
  obtain ⟨a, l, hrows, ha, hl⟩ := List.map_eq_cons_iff.mp shapes
  obtain ⟨b, t, rfl, hb, -⟩ := List.map_eq_cons_iff.mp hl
  simp only [Prod.mk.injEq] at ha hb
  have same := one a (by simp [hrows]) b (by simp [hrows]) ha.2.2 hb.2.2 (ha.2.1.trans hb.2.1.symm)
  rw [ha.1, hb.1] at same
  exact absurd same (by decide)

end System

end DocumentPreview
