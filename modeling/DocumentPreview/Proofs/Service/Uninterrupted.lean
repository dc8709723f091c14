import DocumentPreview.Proofs.Recovery.Operations
import DocumentPreview.Proofs.Service.Shared

namespace DocumentPreview

variable {α : Type}

def ServiceCall.Creates : ServiceCall → Prop
  | .store (.create ..) => True
  | _ => False

def Shared.Allows (s : Shared) (o : Outside) (c : ServiceCall) : Prop :=
  s.clock ≤ o.time ∧
    match c with
    | .store op => s.store.Admits o.time o.freshId op
    | _ => True

namespace Shared

variable {s : Shared} {o : Outside}

theorem allows_of_le {c : ServiceCall} (h : ¬ c.Creates) (ho : s.clock ≤ o.time) :
    s.Allows o c := by
  refine ⟨ho, ?_⟩
  cases c with
  | store op =>
    cases op with
    | create => exact absurd trivial h
    | _ => trivial
  | _ => trivial

theorem clock_answer_le (ho : s.clock ≤ o.time) (c : ServiceCall) :
    (s.answer o c).2.clock ≤ o.time := by
  cases c with
  | clock | store => exact Int.le_refl _
  | _ => exact ho

end Shared

namespace Program

def Performs : ServiceProgram α → Shared → Option α → Shared → Prop
  | done a, s, r, t => r = some a ∧ t = s
  | abort, s, r, t => r = none ∧ t = s
  | call c next, s, r, t =>
    ∃ o, s.Allows o c ∧ Performs (next (s.answer o c).1) (s.answer o c).2 r t

def Begins : ServiceProgram α → Shared → Shared → Prop
  | done _, s, t => t = s
  | abort, s, t => t = s
  | call c next, s, t =>
    t = s ∨ ∃ o, s.Allows o c ∧ Begins (next (s.answer o c).1) (s.answer o c).2 t

def Ensures (mid : Shared → Prop) (post : Option α → Shared → Prop) :
    ServiceProgram α → Shared → Prop
  | done a, s => post (some a) s
  | abort, s => post none s
  | call c next, s => ∀ o, s.Allows o c →
    mid (s.answer o c).2 ∧ Ensures mid post (next (s.answer o c).1) (s.answer o c).2

variable {p : ServiceProgram α} {s t : Shared} {r : Option α} {mid : Shared → Prop}
  {post : Option α → Shared → Prop}

theorem Ensures.of_any_reply {c : ServiceCall} {next : c.Reply → ServiceProgram α}
    (h : ∀ o, s.Allows o c → mid (s.answer o c).2 ∧
      ∀ r, (next r).Ensures mid post (s.answer o c).2) :
    (call c next).Ensures mid post s := fun o ha =>
  ⟨(h o ha).1, (h o ha).2 _⟩

theorem Performs.begins (h : p.Performs s r t) : p.Begins s t := by
  induction p generalizing s with
  | done a => exact h.2
  | abort => exact h.2
  | call c next ih =>
    obtain ⟨o, ha, hp⟩ := h
    exact .inr ⟨o, ha, ih _ hp⟩

theorem Ensures.performs (h : p.Ensures mid post s) (hp : p.Performs s r t) : post r t := by
  induction p generalizing s with
  | done a =>
    obtain ⟨rfl, rfl⟩ := hp
    exact h
  | abort =>
    obtain ⟨rfl, rfl⟩ := hp
    exact h
  | call c next ih =>
    obtain ⟨o, ha, hp⟩ := hp
    exact ih _ (h o ha).2 hp

theorem Ensures.begins (h : p.Ensures mid post s) (hs : mid s) (hb : p.Begins s t) : mid t := by
  induction p generalizing s with
  | done a => exact hb ▸ hs
  | abort => exact hb ▸ hs
  | call c next ih =>
    rcases hb with rfl | ⟨o, ha, hb⟩
    · exact hs
    · exact ih _ (h o ha).2 (h o ha).1 hb

theorem Ensures.imp {post' : Option α → Shared → Prop} (h : p.Ensures mid post s)
    (hpost : ∀ r t, post r t → post' r t) : p.Ensures mid post' s := by
  induction p generalizing s with
  | done a => exact hpost _ _ h
  | abort => exact hpost _ _ h
  | call c next ih => exact fun o ha => ⟨(h o ha).1, ih _ (h o ha).2⟩

theorem performs_run (h : p.Every fun (c : ServiceCall) => ¬ c.Creates) {o : Outside}
    (ho : s.clock ≤ o.time) :
    p.Performs s (p.run (fun c s => s.answer o c) s).1 (p.run (fun c s => s.answer o c) s).2 := by
  induction p generalizing s with
  | done a => exact ⟨rfl, rfl⟩
  | abort => exact ⟨rfl, rfl⟩
  | call c next ih => exact ⟨o, Shared.allows_of_le h.1 ho, ih _ (h.2 _) (Shared.clock_answer_le ho c)⟩

theorem exists_performs (h : p.Every fun (c : ServiceCall) => ¬ c.Creates) (s : Shared) :
    ∃ r t, p.Performs s r t :=
  ⟨_, _, performs_run (o := .slow s.clock default) h (Int.le_refl _)⟩

end Program

end DocumentPreview
