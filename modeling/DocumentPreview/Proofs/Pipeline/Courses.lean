import DocumentPreview.Proofs.Queue.Admission
import DocumentPreview.Proofs.Service.Ownership
import DocumentPreview.Simulation.Background

namespace DocumentPreview.Simulation

structure World.LeadsTo (w v : World) : Prop where
  buffer : w.queue.buffer <+: v.queue.buffer
  faults : v.faults ⊆ w.faults

namespace World

variable {u v w : World}

theorem LeadsTo.refl (w : World) : w.LeadsTo w :=
  ⟨List.prefix_refl _, List.Subset.refl _⟩

theorem LeadsTo.trans (h : u.LeadsTo v) (h' : v.LeadsTo w) : u.LeadsTo w :=
  ⟨h.buffer.trans h'.buffer, List.Subset.trans h'.faults h.faults⟩

theorem leadsTo_of_eq (hq : v.queue = w.queue) (hf : v.faults = w.faults) : w.LeadsTo v :=
  ⟨hq ▸ List.prefix_refl _, hf ▸ List.Subset.refl _⟩

end World

namespace Course

variable {α β : Type} {u v w : World} {c : Course α}

def LeadsOn (w : World) : Course α → Prop
  | ended _ v => w.LeadsTo v
  | waiting _ v next => w.LeadsTo v ∧ ∀ u, LeadsOn u (next u)
  | stuck v => w.LeadsTo v

def Ends : Course α → Prop
  | ended .. => True
  | waiting _ _ next => ∀ w, Ends (next w)
  | stuck _ => False

def world : Course α → World
  | ended _ w | waiting _ w _ | stuck w => w

theorem LeadsOn.world (h : c.LeadsOn w) : w.LeadsTo c.world := by
  cases c with
  | ended | stuck => exact h
  | waiting => exact h.1

theorem LeadsOn.of_leadsTo (h : c.LeadsOn v) (hu : u.LeadsTo v) : c.LeadsOn u := by
  cases c with
  | ended | stuck => exact hu.trans h
  | waiting => exact ⟨hu.trans h.1, h.2⟩

theorem LeadsOn.bind {f : α → World → Course β} (h : c.LeadsOn w)
    (hf : ∀ a v, (f a v).LeadsOn v) : (c.bind f).LeadsOn w := by
  induction c generalizing w with
  | ended a v => exact (hf a v).of_leadsTo h
  | waiting d v next ih => exact ⟨h.1, fun u => ih u (h.2 u)⟩
  | stuck v => exact h

theorem leadsOn_after {delay : Nat} {next : World → Course α} (hu : u.LeadsTo v)
    (hn : ∀ w, (next w).LeadsOn w) : (after delay v next).LeadsOn u := by
  unfold after
  split
  · exact (hn v).of_leadsTo hu
  · exact ⟨hu, hn⟩

theorem Ends.bind {f : α → World → Course β} (h : c.Ends) (hf : ∀ a v, (f a v).Ends) :
    (c.bind f).Ends := by
  induction c with
  | ended a v => exact hf a v
  | waiting d v next ih => exact fun u => ih u (h u)
  | stuck v => exact h.elim

theorem ends_after {delay : Nat} {next : World → Course α} (hn : ∀ w, (next w).Ends) :
    (after delay w next).Ends := by
  unfold after
  split
  · exact hn w
  · exact hn

end Course

namespace World

variable {α : Type} {w : World}

theorem apply_leadsTo (w : World) (e : Effect) : w.LeadsTo (w.apply e) := by
  cases e <;> exact leadsTo_of_eq rfl rfl

theorem effects_leadsTo (w : World) (effects : List Effect) :
    w.LeadsTo (effects.foldl apply w) := by
  induction effects generalizing w with
  | nil => exact .refl w
  | cons e effects ih => exact (w.apply_leadsTo e).trans (ih _)

theorem buffer_tryAdmit (q : JobQueue) (id : Uuid) :
    q.buffer <+: (q.tryAdmit id).2.buffer := by
  rcases q.tryAdmit_results id with ⟨-, he⟩ | ⟨-, -, he⟩ | ⟨-, -, he⟩ <;> rewrite [he]
  · exact List.prefix_refl _
  · exact List.prefix_append _ _
  · exact List.prefix_refl _

theorem offer_leadsTo (w : World) (id : Uuid) : w.LeadsTo (w.offer id).2 :=
  ⟨buffer_tryAdmit w.queue id, List.Subset.refl _⟩

theorem subset_of_takeFirst? {κ β : Type} [DecidableEq κ] {k : κ} {l rest : List (κ × β)} {b : β}
    (h : takeFirst? k l = some (b, rest)) : rest ⊆ l := by
  induction l generalizing b rest with
  | nil => cases h
  | cons entry l ih =>
    unfold takeFirst? at h
    split at h
    · obtain ⟨rfl, rfl⟩ := Prod.mk.inj (Option.some.inj h)
      exact List.subset_cons_self _ _
    · obtain ⟨⟨b', rest'⟩, hr, same⟩ := Option.map_eq_some_iff.mp h
      obtain ⟨rfl, rfl⟩ := Prod.mk.inj same
      exact List.cons_subset_cons _ (ih hr)

theorem exposed_leadsOn {target : Target} {fail : Failure → α} {perform : World → α × World}
    (hp : ∀ w : World, w.LeadsTo (perform w).2) : (w.exposed target fail perform).LeadsOn w := by
  unfold exposed
  split
  · exact hp w
  · rename_i fault faults taken
    refine Course.leadsOn_after ⟨List.prefix_refl _, subset_of_takeFirst? taken⟩ fun w => ?_
    have befalls := w.effects_leadsTo fault.effects
    dsimp only
    split
    · exact befalls
    · exact befalls.trans (hp _)

theorem exposed_ends {target : Target} {fail : Failure → α} {perform : World → α × World} :
    (w.exposed target fail perform).Ends := by
  unfold exposed
  split
  · trivial
  · refine Course.ends_after fun w => ?_
    dsimp only
    split <;> trivial

theorem convert_leadsOn (w : World) (name : String) (source : Bytes) :
    (w.convert name source).LeadsOn w := by
  have taken : w.LeadsTo (w.takeConversion name).2 := by
    unfold takeConversion
    split
    · exact leadsTo_of_eq rfl rfl
    · split <;> exact leadsTo_of_eq rfl rfl
  unfold convert
  refine Course.leadsOn_after (taken.trans (leadsTo_of_eq rfl rfl)) fun w => ?_
  have befalls := w.effects_leadsTo (w.takeConversion name).1.effects
  dsimp only
  split
  · exact w.effects_leadsTo _
  · exact w.effects_leadsTo _

theorem documents_leadsOn (w : World) (c : DocumentCall) : (w.documents c).LeadsOn w := by
  unfold documents
  cases c with
  | find | download => exact exposed_leadsOn LeadsTo.refl
  | convert name source => exact w.convert_leadsOn name source
  | upload => exact exposed_leadsOn fun w => leadsTo_of_eq rfl rfl

theorem withDeadline_leadsOn {c : Course α} (h : c.LeadsOn w) (deadline : Int) :
    (withDeadline deadline c).LeadsOn w := by
  induction c generalizing w with
  | ended a v => exact h
  | waiting delay v next ih =>
    unfold withDeadline
    dsimp only
    split
    · exact ⟨h.1, fun u => ih u (h.2 u)⟩
    · exact Course.leadsOn_after h.1 LeadsTo.refl
  | stuck v => exact Course.leadsOn_after h LeadsTo.refl

theorem withDeadline_ends (deadline : Int) (c : Course α) : (withDeadline deadline c).Ends := by
  induction c with
  | ended a v => trivial
  | waiting delay v next ih =>
    unfold withDeadline
    dsimp only
    split
    · exact ih
    · exact Course.ends_after fun _ => trivial
  | stuck v => exact Course.ends_after fun _ => trivial

theorem answer_leadsOn (w : World) (c : ServiceCall) : (w.answer c).LeadsOn w := by
  unfold answer
  cases c with
  | store op => exact exposed_leadsOn fun w => leadsTo_of_eq rfl rfl
  | documents c => exact w.documents_leadsOn c
  | within deadline c => exact withDeadline_leadsOn (w.documents_leadsOn c) deadline
  | consume | purge => exact exposed_leadsOn fun w => leadsTo_of_eq rfl rfl
  | offer id => exact w.offer_leadsTo id
  | _ => exact leadsTo_of_eq rfl rfl

theorem follow_leadsOn (p : ServiceProgram α) (w : World) : (follow p w).LeadsOn w := by
  induction p generalizing w with
  | done a => exact .refl w
  | abort => exact .refl w
  | call c next ih => exact (w.answer_leadsOn c).bind ih

def Answered : ServiceCall → Prop
  | .documents (.convert ..) => False
  | _ => True

theorem documents_ends {c : DocumentCall} (h : Answered (.documents c)) (w : World) :
    (w.documents c).Ends := by
  unfold documents
  cases c with
  | find | download | upload => exact exposed_ends
  | convert => exact h.elim

theorem answer_ends {c : ServiceCall} (h : Answered c) (w : World) : (w.answer c).Ends := by
  unfold answer
  cases c with
  | store | consume | purge => exact exposed_ends
  | documents c => exact documents_ends h w
  | within deadline c => exact withDeadline_ends deadline _
  | _ => trivial

theorem follow_ends {p : ServiceProgram α} (h : p.Every Answered) (w : World) :
    (follow p w).Ends := by
  induction p generalizing w with
  | done a => trivial
  | abort => trivial
  | call c next ih => exact (answer_ends h.1 w).bind fun r v => ih r (h.2 r) v

def Faultless (w : World) : Prop :=
  ∀ f ∈ w.faults, ∀ method, f.1 ≠ .store method

theorem Faultless.leads (hw : w.Faultless) {v : World} (h : w.LeadsTo v) : v.Faultless :=
  fun f hf => hw f (h.faults hf)

theorem takeFirst?_eq_none {κ β : Type} [DecidableEq κ] {k : κ} {l : List (κ × β)}
    (h : ∀ entry ∈ l, entry.1 ≠ k) : takeFirst? k l = none := by
  induction l with
  | nil => rfl
  | cons entry l ih =>
    rw [takeFirst?, if_neg (h entry (.head _)), ih fun e he => h e (.tail _ he)]
    rfl

theorem Faultless.answer_store (h : w.Faultless) (op : StoreOp) :
    w.answer (.store op) = .ended (.ok (w.runStore op).1) (w.runStore op).2 := by
  have none_taken : takeFirst? (.store (.of op)) w.faults = none :=
    takeFirst?_eq_none fun f hf => h f hf _
  simp only [answer, exposed, none_taken]

end World

end DocumentPreview.Simulation
