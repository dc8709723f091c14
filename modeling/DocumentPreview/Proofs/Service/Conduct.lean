import DocumentPreview.Proofs.Access.Race
import DocumentPreview.Proofs.Service.Traffic

namespace DocumentPreview.Traffic

open Program
open Entrance (own follows_append follows_set)

abbrev Conduct : Type :=
  Nat → (e : Errand) → List Event → ServiceProgram e.Outcome → Prop

structure Conducted (Q : Conduct) (s : Traffic) : Prop where
  follows : ∀ (i : Nat) (r : Runner), s.runners[i]? = some r → Q i r.errand (own i s.past) r.rest
  present : ∀ e ∈ s.past, e.strand < s.runners.length
  asked : ∀ a d b, s.past = a ++ d :: b → ∃ (e : Errand) (next : d.call.Reply → ServiceProgram e.Outcome),
    Q d.strand e (own d.strand a) (.call d.call next)

structure Conduct.Kept (issuer : TokenIssuer) (Q : Conduct) : Prop where
  start : ∀ i e, Q i e [] (e.program issuer)
  answered : ∀ {i : Nat} {e : Errand} {own : List Event} {c : ServiceCall}
    {next : c.Reply → ServiceProgram e.Outcome},
    Q i e own (.call c next) → ∀ r, Q i e (own ++ [⟨i, c, r⟩]) (next r)

namespace Conducted

variable {Q : Conduct} {issuer : TokenIssuer} {s t : Traffic}

theorem idle (backend : Backend) : Conducted Q ⟨backend, [], []⟩ where
  follows _ _ h := nomatch h
  present _ h := absurd h List.not_mem_nil
  asked a _ _ h := by cases a <;> cases h

theorem start (h : s.Conducted Q) (hQ : Q.Kept issuer) (e : Errand) :
    Conducted Q { s with runners := s.runners ++ [⟨e, e.program issuer⟩] } where
  follows := follows_append (Q := fun i (r : Runner) own => Q i r.errand own r.rest)
    h.follows h.present (hQ.start _ e)
  present d hd := by
    have := h.present d hd
    simp
    omega
  asked := h.asked

section Answered

variable {i : Nat} {e : Errand} {c : ServiceCall} {next : c.Reply → ServiceProgram e.Outcome}
  {o : Outside}

theorem present_answered (h : s.Conducted Q) (hr : s.runners[i]? = some ⟨e, .call c next⟩)
    {d : Event} (hd : d ∈ (s.answered i o e c next).past) :
    d.strand < (s.answered i o e c next).runners.length := by
  have hi : i < s.runners.length := (List.getElem?_eq_some_iff.mp hr).1
  rw [Traffic.answered, List.length_set]
  rcases List.mem_append.mp hd with hd | hd
  · exact h.present d hd
  · exact List.mem_singleton.mp hd ▸ hi

theorem answered (h : s.Conducted Q) (hQ : Q.Kept issuer)
    (hr : s.runners[i]? = some ⟨e, .call c next⟩) : (s.answered i o e c next).Conducted Q where
  follows := follows_set (Q := fun i (r : Runner) own => Q i r.errand own r.rest)
    (e := ⟨i, c, (s.backend.answer o c).1⟩) h.follows (hQ.answered (h.follows i _ hr) _)
  present d := h.present_answered hr
  asked a d b hp := by
    rcases snoc_eq_append_cons hp with ⟨-, rfl, rfl⟩ | ⟨b, -, hpast⟩
    · exact ⟨e, next, h.follows i _ hr⟩
    · exact h.asked a d b hpast

end Answered

theorem leads (h : s.Conducted Q) (hQ : Q.Kept issuer) (hl : s.Leads issuer t) :
    t.Conducted Q := by
  cases hl with
  | stay => exact h
  | start e => exact h.start hQ e
  | answered o hr => exact h.answered hQ hr
  | reordered | deposited => exact ⟨h.follows, h.present, h.asked⟩

theorem run (hQ : Q.Kept issuer) (backend : Backend) (ms : List Move) :
    (Traffic.run issuer ⟨backend, [], []⟩ ms).Conducted Q :=
  run_invariant (idle backend) (fun _ _ h => h.leads hQ) ms

end Conducted

end DocumentPreview.Traffic
