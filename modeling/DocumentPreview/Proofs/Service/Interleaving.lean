import DocumentPreview.Proofs.Sequence
import DocumentPreview.Proofs.Service.Shared

namespace DocumentPreview

structure Strand where
  activity : Activity
  rest : ServiceProgram activity.Outcome

structure Event where
  strand : Nat
  call : ServiceCall
  reply : call.Reply

structure System where
  shared : Shared
  strands : List Strand
  past : List Event

inductive Move where
  | start (a : Activity)
  | resume (i : Nat) (o : Outside)
  | reorder (rows : List Job)

namespace System

def idle (shared : Shared) : System :=
  ⟨shared, [], []⟩

def store (s : System) : MemoryStore :=
  s.shared.store

def answered (s : System) (i : Nat) (o : Outside) (a : Activity) (c : ServiceCall)
    (next : c.Reply → ServiceProgram a.Outcome) : System where
  shared := (s.shared.answer o c).2
  strands := s.strands.set i ⟨a, next (s.shared.answer o c).1⟩
  past := s.past ++ [⟨i, c, (s.shared.answer o c).1⟩]

def step (s : System) : Move → System
  | .start a => { s with strands := s.strands ++ [⟨a, a.program⟩] }
  | .resume i o =>
    match s.strands[i]? with
    | some ⟨a, .call c next⟩ => if s.store.Unused o.freshId then s.answered i o a c next else s
    | _ => s
  | .reorder rows =>
    if rows.Perm s.store.rows then { s with shared := { s.shared with store := ⟨rows⟩ } } else s

def run (s : System) (ms : List Move) : System :=
  ms.foldl step s

theorem run_snoc (s : System) (ms : List Move) (m : Move) :
    s.run (ms ++ [m]) = (s.run ms).step m := by
  simp [run]

def resumed (n i seconds : Nat) (freshId : Uuid) : List Move :=
  List.replicate n (.resume i (.slow ((Instant.ofUnixSeconds? seconds).getD .epoch) freshId))

inductive Leads (s : System) : System → Prop
  | stay : Leads s s
  | start (a : Activity) : Leads s { s with strands := s.strands ++ [⟨a, a.program⟩] }
  | answered {i : Nat} {a : Activity} {c : ServiceCall} {next : c.Reply → ServiceProgram a.Outcome}
      (o : Outside) :
      s.strands[i]? = some ⟨a, .call c next⟩ → s.store.Unused o.freshId →
        Leads s (s.answered i o a c next)
  | reorder {rows : List Job} :
      s.store.rows.Perm rows → Leads s { s with shared := { s.shared with store := ⟨rows⟩ } }

theorem step_leads (s : System) (m : Move) : s.Leads (s.step m) := by
  cases m with
  | start a => exact .start a
  | resume i o =>
    simp only [step]
    split
    · split
      · exact .answered o ‹_› ‹_›
      · exact .stay
    · exact .stay
  | reorder rows =>
    simp only [step]
    split
    · exact .reorder (List.Perm.symm ‹_›)
    · exact .stay

structure View (σ : Type) where
  of : Nat → List Event → σ
  note : σ → (c : ServiceCall) → c.Reply → σ
  of_snoc : ∀ i past e, of i (past ++ [e]) =
    if e.strand = i then note (of i past) e.call e.reply else of i past

namespace View

variable {σ : Type} (v : View σ) {Q : σ → Strand → Prop} {s t : System}

theorem follows_answered {i : Nat} {a : Activity} {c : ServiceCall}
    {next : c.Reply → ServiceProgram a.Outcome} {o : Outside}
    (h : ∀ k w, s.strands[k]? = some w → Q (v.of k s.past) w)
    (here : ∀ r, Q (v.note (v.of i s.past) c r) ⟨a, next r⟩) (k : Nat) (w : Strand)
    (hk : (s.answered i o a c next).strands[k]? = some w) :
    Q (v.of k (s.answered i o a c next).past) w := by
  simp only [answered, v.of_snoc]
  rcases getElem?_set_cases hk with ⟨rfl, rfl⟩ | ⟨hik, hk⟩
  · rw [if_pos rfl]
    exact here _
  · rw [if_neg hik]
    exact h k w hk

theorem follows_leads (start : ∀ q a, Q q ⟨a, a.program⟩)
    (answered : ∀ {q a c next}, Q q ⟨a, .call c next⟩ → ∀ r, Q (v.note q c r) ⟨a, next r⟩)
    (h : ∀ k w, s.strands[k]? = some w → Q (v.of k s.past) w) (hl : s.Leads t) (k : Nat)
    (w : Strand) (hk : t.strands[k]? = some w) : Q (v.of k t.past) w := by
  cases hl with
  | stay | reorder => exact h k w hk
  | start a =>
    rcases getElem?_snoc hk with hk | ⟨-, rfl⟩
    · exact h k w hk
    · exact start _ a
  | answered o ht => exact v.follows_answered h (answered (h _ _ ht)) k w hk

end View

theorem run_invariant {P : System → Prop} {s : System} (h0 : P s)
    (hs : ∀ s t, P s → s.Leads t → P t) (ms : List Move) : P (s.run ms) := by
  induction ms generalizing s with
  | nil => exact h0
  | cons m ms ih => exact ih (hs s _ h0 (s.step_leads m))

end System

end DocumentPreview
