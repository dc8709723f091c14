import DocumentPreview.Proofs.Config.Limits
import DocumentPreview.Proofs.Recovery.Lease
import DocumentPreview.Proofs.Worker.Schedule

namespace DocumentPreview

open Config

namespace Config.Draft

variable {d d' : Draft} {f g : Field} {key value : String}

theorem set_self (d : Draft) (f : Field) (v : f.Value) : d.set f v f = some v := by
  simp [set]

theorem set_of_ne (h : g ≠ f) (d : Draft) (v : f.Value) : d.set f v g = d g := by
  simp [set, h]

theorem set_comm (h : f ≠ g) (d : Draft) (v : f.Value) (w : g.Value) :
    (d.set f v).set g w = (d.set g w).set f v := by
  funext k
  by_cases hf : k = f
  · subst hf
    rw [set_of_ne h, set_self, set_self]
  · by_cases hg : k = g
    · subst hg
      rw [set_self, set_of_ne hf, set_self]
    · rw [set_of_ne hg, set_of_ne hf, set_of_ne hf, set_of_ne hg]

theorem take_of_irrelevant (h : Field.ofVariable? key = none) (d : Draft) (value : String) :
    d.take key value = .ok d := by
  simp only [take, h]

theorem take_eq_ok_iff (hf : Field.ofVariable? key = some f) :
    d.take key value = .ok d' ↔ d f = none ∧ ∃ v, f.kind.read value = .ok v ∧ d' = d.set f v := by
  simp only [take, hf]
  cases hd : d f with
  | some u => simp
  | none =>
    cases hv : f.kind.read value with
    | error e => simp
    | ok v => simp [eq_comm]

theorem take_take_eq_ok {key' value' : String} (hf : Field.ofVariable? key = some f)
    (hg : Field.ofVariable? key' = some g)
    (h : d.take key value >>= (fun d => take d key' value') = .ok d') :
    d.take key' value' >>= (fun d => take d key value) = .ok d' := by
  obtain ⟨d₁, h₁, h₂⟩ := Except.bind_eq_ok_iff.mp h
  obtain ⟨freeF, v, hv, rfl⟩ := (take_eq_ok_iff hf).mp h₁
  obtain ⟨freeG, w, hw, rfl⟩ := (take_eq_ok_iff hg).mp h₂
  have other : f ≠ g := by
    rintro rfl
    rw [set_self] at freeG
    cases freeG
  rw [set_of_ne other.symm] at freeG
  refine Except.bind_eq_ok_iff.mpr ⟨_, (take_eq_ok_iff hg).mpr ⟨freeG, w, hw, rfl⟩, ?_⟩
  refine (take_eq_ok_iff hf).mpr ⟨?_, v, hv, set_comm other d v w⟩
  rwa [set_of_ne other]

abbrev takeAll (d : Draft) (vs : List (String × String)) : Except ConfigError Draft :=
  vs.foldlM (fun d v => d.take v.1 v.2) d

theorem takeAll_relevant (d : Draft) (vs : List (String × String)) :
    d.takeAll vs = d.takeAll (vs.filter fun v => (Field.ofVariable? v.1).isSome) := by
  induction vs generalizing d with
  | nil => rfl
  | cons v vs ih =>
    cases hf : Field.ofVariable? v.1 with
    | none =>
      rw [List.filter_cons_of_neg (by simp [hf]), ← ih, takeAll, List.foldlM_cons,
        take_of_irrelevant hf]
      rfl
    | some f =>
      rw [List.filter_cons_of_pos (by simp [hf]), takeAll, List.foldlM_cons, takeAll,
        List.foldlM_cons]
      exact congrArg (d.take v.1 v.2 >>= ·) (funext ih)

theorem takeAll_perm {vs ws : List (String × String)} (h : vs.Perm ws)
    (hv : ∀ v ∈ vs, (Field.ofVariable? v.1).isSome) (hd : d.takeAll vs = .ok d') :
    d.takeAll ws = .ok d' := by
  induction h generalizing d with
  | nil => exact hd
  | cons v h ih =>
    rw [takeAll, List.foldlM_cons] at hd ⊢
    obtain ⟨e, he, hd⟩ := Except.bind_eq_ok_iff.mp hd
    exact Except.bind_eq_ok_iff.mpr ⟨e, he, ih (fun w hw => hv w (.tail _ hw)) hd⟩
  | swap v w vs =>
    obtain ⟨f, hf⟩ := Option.isSome_iff_exists.mp (hv w (.head _))
    obtain ⟨g, hg⟩ := Option.isSome_iff_exists.mp (hv v (.tail _ (.head _)))
    simp only [takeAll, List.foldlM_cons, ← bind_assoc] at hd ⊢
    obtain ⟨e, he, hd⟩ := Except.bind_eq_ok_iff.mp hd
    exact Except.bind_eq_ok_iff.mpr ⟨e, take_take_eq_ok hf hg he, hd⟩
  | trans h _ ih ih' => exact ih' (fun v hm => hv v (h.mem_iff.mpr hm)) (ih hv hd)

end Config.Draft

namespace Environment

def relevant (e : Environment) : List (String × String) :=
  e.bindings.filter fun v => (Field.ofVariable? v.1).isSome

end Environment

namespace AppConfig

variable {e e' : Environment} {c : AppConfig}

theorem draft_ofEnvironment (e : Environment) :
    Draft.ofEnvironment e = Draft.empty.takeAll e.relevant :=
  Draft.takeAll_relevant _ _

theorem ofEnvironment_of_perm (h : e.relevant.Perm e'.relevant) (hc : ofEnvironment e = .ok c) :
    ofEnvironment e' = .ok c := by
  obtain ⟨d, hd, hc⟩ := Except.bind_eq_ok_iff.mp hc
  rw [draft_ofEnvironment] at hd
  refine Except.bind_eq_ok_iff.mpr ⟨d, ?_, hc⟩
  rw [draft_ofEnvironment]
  exact Draft.takeAll_perm h (fun v hv => (List.mem_filter.mp hv).2) hd

end AppConfig

structure PipelineSettings.Workable (p : PipelineSettings) (delaysSecs : List Nat) : Prop where
  queueCapacity : 1 ≤ p.queueCapacity
  conversionTimeout : p.conversionTimeout ≠ .zero
  sweepInterval : p.sweepInterval ≠ .zero
  replayCleanupInterval : p.replayCleanupInterval ≠ .zero
  staleAfter : p.staleAfter ≠ .zero
  delays : p.retry.delays = delaysSecs.map .ofSeconds
  nonempty : p.retry.delays ≠ []
  short : ∀ d ∈ p.retry.delays, d.nanos ≤ (Span.ofSeconds 86400).nanos
  delayAfter : ∀ attempts, p.retry.delayAfter attempts ∈ p.retry.delays

namespace AppConfig

variable {e e' : Environment} {c : AppConfig}

theorem Limited.workable (h : c.Limited) : c.pipelineSettings.Workable c.retryDelaysSecs where
  queueCapacity := h.queueCapacity
  conversionTimeout := Span.ofSeconds_ne_zero h.conversionTimeout
  sweepInterval := Span.ofSeconds_ne_zero h.sweepInterval
  replayCleanupInterval := Span.ofSeconds_ne_zero h.replayCleanupInterval
  staleAfter := Span.ofSeconds_ne_zero h.staleProcessing
  delays := rfl
  nonempty := h.delays_ne_nil
  short := h.nanos_le
  delayAfter := RetrySchedule.delayAfter_mem h.delays_ne_nil

theorem accepted_by_relevant_variables (h : e.relevant.Perm e'.relevant) :
    (∀ c, ofEnvironment e = .ok c ↔ ofEnvironment e' = .ok c) ∧
    ∀ c, ofEnvironment e = .ok c → c.pipelineSettings.Workable c.retryDelaysSecs :=
  ⟨fun _ => ⟨ofEnvironment_of_perm h, ofEnvironment_of_perm h.symm⟩,
    fun _ hc => (limited_of_ofEnvironment hc).workable⟩

def reversedDeployment : Environment :=
  ⟨("PATH", "/usr/bin") :: (deployment "120" "900").bindings.reverse ++
    [("HOME", "/root"), ("home", "/")]⟩

theorem accepted_by_relevant_variables_reversed :
    (deployment "120" "900").relevant.Perm reversedDeployment.relevant ∧
      ∃ c, ofEnvironment (deployment "120" "900") = .ok c ∧
        ofEnvironment reversedDeployment = .ok c ∧
        c.pipelineSettings.Workable c.retryDelaysSecs := by
  have reversed : reversedDeployment.relevant = (deployment "120" "900").relevant.reverse := rfl
  have same : (deployment "120" "900").relevant.Perm reversedDeployment.relevant := by
    rw [reversed]
    exact (List.reverse_perm _).symm
  have accepted : ofEnvironment (deployment "120" "900") = .ok _ := rfl
  obtain ⟨iff, workable⟩ := accepted_by_relevant_variables same
  exact ⟨same, _, accepted, (iff _).mp accepted, workable _ accepted⟩

end AppConfig

end DocumentPreview
