import DocumentPreview.Proofs.Service.Verdicts

namespace DocumentPreview

inductive Beat where
  | move (m : Move)
  | deliver (w : Worker)

namespace System

variable {s : System}

def withQueue (s : System) (queue : JobQueue) : System :=
  { s with shared := { s.shared with queue } }

def deliver (s : System) (w : Worker) : System :=
  match s.shared.queue.dequeue? with
  | some (id, queue) => (s.withQueue queue).step (.start (.work w id))
  | none => s

def beat (s : System) : Beat → System
  | .move m => s.step m
  | .deliver w => s.deliver w

def play (s : System) (bs : List Beat) : System :=
  bs.foldl beat s

theorem beat_cases (s : System) (b : Beat) :
    s.Leads (s.beat b) ∨ ∃ queue, (s.withQueue queue).Leads (s.beat b) := by
  cases b with
  | move m => exact .inl (s.step_leads m)
  | deliver w =>
    simp only [beat, deliver]
    split
    · exact .inr ⟨_, step_leads _ _⟩
    · exact .inl .stay

theorem play_invariant {P : System → Prop} (h0 : P s)
    (hq : ∀ s queue, P s → P (s.withQueue queue)) (hs : ∀ s t, P s → s.Leads t → P t)
    (bs : List Beat) : P (s.play bs) := by
  induction bs generalizing s with
  | nil => exact h0
  | cons b bs ih =>
    refine ih ?_
    rcases s.beat_cases b with hl | ⟨queue, hl⟩
    · exact hs s _ h0 hl
    · exact hs _ _ (hq s queue h0) hl

theorem Judged.withQueue (h : s.Judged) (queue : JobQueue) : (s.withQueue queue).Judged where
  tracked := ⟨h.tracked.distinct, h.tracked.own, h.tracked.standing⟩
  own := h.own
  asClaimed := h.asClaimed

end System

end DocumentPreview
