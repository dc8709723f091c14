import DocumentPreview.Proofs.Pipeline.Restarts

namespace DocumentPreview.Simulation

def left (s : Simulation) (b : Background) (w : World) : Simulation :=
  { s with world := w, pipeline := some b }

namespace Account

variable {l : Account}

def Between : Happening → Prop
  | .start | .shutdown => False
  | _ => True

def Leads (l : Account) (s : Simulation) : Prop :=
  ∃ hs, (l.happens hs).sim = s ∧ ∀ e ∈ hs, Between e

theorem Leads.refl (l : Account) : l.Leads l.sim :=
  ⟨[], rfl, nofun⟩

theorem Leads.of_happen {e : Happening} {s : Simulation} (he : Between e)
    (h : (l.happen e).Leads s) : l.Leads s := by
  obtain ⟨hs, hsim, between⟩ := h
  exact ⟨e :: hs, hsim, List.forall_mem_cons.mpr ⟨he, between⟩⟩

theorem happens_append (l : Account) (hs later : List Happening) :
    l.happens (hs ++ later) = (l.happens hs).happens later :=
  List.foldl_append

theorem Leads.then {s t : Simulation} (h : l.Leads s)
    (ht : ∀ l : Account, l.sim = s → l.Leads t) : l.Leads t := by
  obtain ⟨hs, hsim, between⟩ := h
  obtain ⟨later, hlater, between'⟩ := ht _ hsim
  refine ⟨hs ++ later, by rw [happens_append, hlater], fun e he => ?_⟩
  rcases List.mem_append.mp he with he | he
  · exact between e he
  · exact between' e he

variable {s : Simulation} {b : Background} {w : World}

theorem look_sim (h : l.sim = s.left b w) : (l.happen .look).sim = s.left (b.callIfWork w) w := by
  simp [happen, h, Simulation.left]

theorem wake_sim (h : l.sim = s.left b w) (now : Nat) :
    (l.happen (.wake now)).sim = s.left (b.wake now) { w with elapsed := now } := by
  simp [happen, h, Simulation.left]

theorem turn_sim {task : Task} {turn : Turn} {ready : List (Task × Turn)} (h : l.sim = s.left b w)
    (hr : b.ready = (task, turn) :: ready) :
    (l.happen (.turn 0)).sim =
      s.left ({ b with ready := ready }.run s.settings w task turn).1
        ({ b with ready := ready }.run s.settings w task turn).2 := by
  simp [happen, h, hr, turned, Simulation.left]

theorem wake_of_nobody_asleep (hn : b.nextDue? = none) (now : Nat) : b.wake now = b := by
  have asleep : b.sleeping = [] := by
    simpa [Background.nextDue?, List.min?_eq_none_iff] using hn
  obtain ⟨ready, sleeping, idle, firstCalled⟩ := b
  obtain rfl : sleeping = [] := asleep
  simp [Background.wake]

theorem leads_runUntil (limit : Nat) (inclusive : Bool) (steps : Nat) (h : l.sim = s.left b w) :
    l.Leads (s.left (b.runUntil s.settings limit inclusive steps w).1
      (b.runUntil s.settings limit inclusive steps w).2) := by
  induction steps generalizing l b w with
  | zero => exact h ▸ .refl l
  | succ steps ih =>
    have looked := look_sim h
    refine Leads.of_happen (e := .look) trivial ?_
    rw [Background.runUntil]
    generalize b.callIfWork w = b at looked ⊢
    dsimp only
    split
    · rename_i task turn ready hr
      refine Leads.of_happen (e := .turn 0) trivial ?_
      exact ih (turn_sim looked hr)
    · rename_i hr
      split
      · rename_i due hd
        split
        · refine Leads.of_happen (e := .wake due) trivial ?_
          exact ih (wake_sim looked due)
        · refine Leads.of_happen (e := .wake limit) trivial ?_
          exact wake_sim looked limit ▸ .refl _
      · rename_i hd
        refine Leads.of_happen (e := .wake limit) trivial ?_
        have woken := wake_sim looked limit
        rw [wake_of_nobody_asleep hd] at woken
        exact woken ▸ .refl _

theorem leads_pass (l : Account) (delay : Nat) (inclusive : Bool) :
    l.Leads (l.sim.pass delay inclusive) := by
  unfold Simulation.pass
  dsimp only
  split
  · rename_i hp
    refine Leads.of_happen (e := .wake (l.sim.world.elapsed + delay)) trivial ?_
    refine ⟨[], ?_, nofun⟩
    simp [happens, happen, hp]
  · rename_i b hp
    have here : l.sim = l.sim.left b l.sim.world := by
      simp [Simulation.left, ← hp]
    exact leads_runUntil _ _ _ here

theorem served_sim {α : Type} {next : World → Course (Option α)} (h : Arises next) (l : Account)
    {c : Course (Option α)} (hc : next l.sim.world = c) :
    (l.happen (.serve next h)).sim = { l.sim with world := c.world } := by
  rw [← hc]
  rfl

theorem leads_await {α : Type} {next : World → Course (Option α)} {c : Course (Option α)}
    (h : Arises next) (hc : next l.sim.world = c) : l.Leads (Simulation.await c l.sim).2 := by
  induction c generalizing l next with
  | ended | stuck => exact ⟨[.serve next h], served_sim h l hc, by simp [Between]⟩
  | waiting delay v later ih =>
    -- While the caller waits the tasks go on; then its program does.
    have passed := leads_pass (l.happen (.serve next h)) delay false
    rw [served_sim h l hc] at passed
    refine Leads.of_happen (e := .serve next h) trivial (passed.then fun l' hl => ?_)
    have rest := ih l'.sim.world (.goesOn h hc) rfl
    rw [hl] at rest
    exact rest

theorem leads_perform {α : Type} (l : Account) (p : ServiceProgram α) :
    l.Leads (l.sim.perform p).2 :=
  leads_await (.begins p) rfl

theorem leads_elapse (l : Account) (delay : Nat) : l.Leads (l.sim.elapse delay) := by
  unfold Simulation.elapse
  split
  · exact .refl l
  · exact leads_pass l delay true

end Account

inductive Use where
  | start
  | shutdown
  | elapse (delay : Nat)
  | perform {α : Type} (p : ServiceProgram α)

def use (s : Simulation) : Use → Simulation
  | .start => s.start
  | .shutdown => s.shutdown
  | .elapse delay => s.elapse delay
  | .perform p => (s.perform p).2

def uses (s : Simulation) (us : List Use) : Simulation :=
  us.foldl use s

def Use.runs (before : Bool) : Use → Bool
  | start => true
  | shutdown => false
  | _ => before

namespace Account

variable {l : Account}

theorem runs_of_between {hs : List Happening} (h : ∀ e ∈ hs, Between e) (before : Bool) :
    hs.foldl Happening.runs before = before := by
  induction hs with
  | nil => rfl
  | cons e hs ih =>
    have same : e.runs before = before := by
      have between := h e (.head _)
      cases e with
      | start | shutdown => exact between.elim
      | _ => rfl
    rw [List.foldl_cons, same]
    exact ih fun f hf => h f (.tail _ hf)

theorem exists_happens_uses (l : Account) (us : List Use) (before : Bool) :
    ∃ hs, (l.happens hs).sim = uses l.sim us ∧
      hs.foldl Happening.runs before = us.foldl Use.runs before := by
  induction us generalizing l before with
  | nil => exact ⟨[], rfl, rfl⟩
  | cons u us ih =>
    have step : ∃ hs, (l.happens hs).sim = l.sim.use u ∧
        hs.foldl Happening.runs before = u.runs before := by
      have led {s : Simulation} (h : l.Leads s) :
          ∃ hs, (l.happens hs).sim = s ∧ hs.foldl Happening.runs before = before := by
        obtain ⟨hs, hsim, between⟩ := h
        exact ⟨hs, hsim, runs_of_between between before⟩
      cases u with
      | start => exact ⟨[.start], rfl, rfl⟩
      | shutdown => exact ⟨[.shutdown], rfl, rfl⟩
      | elapse delay => exact led (leads_elapse l delay)
      | perform p => exact led (leads_perform l p)
    obtain ⟨hs, hsim, hruns⟩ := step
    obtain ⟨later, hlater, hruns'⟩ := ih (l.happens hs) (u.runs before)
    refine ⟨hs ++ later, ?_, ?_⟩
    · rw [happens_append, hlater, hsim]
      rfl
    · rw [List.foldl_append, hruns, hruns']
      rfl

end Account

end DocumentPreview.Simulation
