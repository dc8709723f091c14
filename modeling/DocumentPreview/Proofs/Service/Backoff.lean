import DocumentPreview.Proofs.Recovery.Lease
import DocumentPreview.Proofs.Service.Conforming
import DocumentPreview.Proofs.Store.Budget
import DocumentPreview.Proofs.Worker.Schedule
import Mathlib.Data.List.Pairwise

namespace DocumentPreview

open Program MemoryStore

theorem Job.Turns.maxAttempts {k : JobChange} {j j' : Job} (h : Turns k j j') :
    j'.maxAttempts = j.maxAttempts := by
  cases h <;> rfl

theorem MemoryStore.due_of_requeued {s : MemoryStore} {clock : Instant} {freshId id : Uuid}
    {op : StoreOp} (h : s.Distinct) (hk : (id, .requeued) ∈ op.changes (s.run clock freshId op).1) :
    ∃ now limit, op = .requeueDue now limit ∧ ∃ j, s.get? id = some j ∧ j.isDue now := by
  have hkind := StoreOp.change?_of_mem_changes hk
  cases op with
  | requeueDue now limit =>
    refine ⟨now, limit, rfl, ?_⟩
    obtain ⟨-, j, hj, hid⟩ := StoreOp.mem_changedTo.mp hk
    have cs := candidates_due h now limit
    rcases get?_requeueEach h cs id with ⟨hn, -⟩ | ⟨c, hc, rfl, -, -⟩
    · exact absurd hid (hn j hj)
    · exact ⟨c, cs.row c hc, cs.due c hc⟩
  | _ => cases hkind

namespace ServiceCall

def failure? : (c : ServiceCall) → c.Reply → Option (Uuid × Option Instant)
  | .store (.recordFailure id _ next), .ok (some _) => some (id, next)
  | _, _ => none

def claimedAt? : (c : ServiceCall) → c.Reply → Option (Uuid × Instant)
  | .store (.claim id now), .ok (some _) => some (id, now)
  | _, _ => none

end ServiceCall

abbrev logOf (past : List Event) : List (Uuid × JobChange) :=
  past.flatMap Event.changes

def SetBy (cfg : PipelineSettings) (id : Uuid) (past : List Event) (next : Option Instant) : Prop :=
  ∃ job : Job, job.WithinBudget ∧ job.maxAttempts = cfg.maxAttempts ∧ 1 ≤ job.attempts.toInt ∧
    job.attempts.toInt = attemptsSpent id (logOf past) ∧ cfg.retry.Sets job past next

def Shown (next : Option Instant) (past : List Event) : Prop :=
  ∃ u t, next = some u ∧ t ∈ readings past ∧ u ≤ t

theorem Shown.snoc {next : Option Instant} {past : List Event} (h : Shown next past) (e : Event) :
    Shown next (past ++ [e]) :=
  have ⟨u, t, hu, ht, hle⟩ := h
  ⟨u, t, hu, mem_readings_snoc ht e, hle⟩

def Unreset (id : Uuid) (past : List Event) : Prop :=
  ∀ f ∈ past, (id, .reset) ∉ f.changes

structure Paced (cfg : PipelineSettings) (s : Shared) (past : List Event) : Prop where
  logged : Logged (logOf past) s.store
  limit : ∀ j ∈ s.store.rows, j.maxAttempts = cfg.maxAttempts
  set : ∀ a e b id next, past = a ++ e :: b → e.call.failure? e.reply = some (id, next) →
    SetBy cfg id a next
  waits : ∀ a e b id next, past = a ++ e :: b → e.call.failure? e.reply = some (id, next) →
    Unreset id b →
    (∃ j, s.store.get? id = some j ∧ j.status = .failed ∧ j.nextRetryAt = next) ∨ Shown next past
  heeded : ∀ a e b c d id next now, past = a ++ e :: b ++ c :: d →
    e.call.failure? e.reply = some (id, next) → Unreset id b →
    c.call.claimedAt? c.reply = some (id, now) →
    Shown next (a ++ e :: b) ∧ (readings (a ++ e :: b)).getLast? = some now

namespace Paced

variable {cfg : PipelineSettings} {s : Shared} {past : List Event} {o : Outside} {c : ServiceCall}

theorem empty (cfg : PipelineSettings) (queue : JobQueue) (clock : Instant) :
    Paced cfg ⟨.empty, queue, clock⟩ [] where
  logged := .empty
  limit _ hj := absurd hj List.not_mem_nil
  set a _ _ _ _ hp := by cases a <;> cases hp
  waits a _ _ _ _ hp := by cases a <;> cases hp
  heeded a _ _ _ _ _ _ _ hp := by cases a <;> cases hp

theorem logged_answer (h : Paced cfg s past) (hm : 0 < cfg.maxAttempts.toInt)
    (hc : Conforms cfg s past c) (i : Nat) :
    Logged (logOf (past ++ [⟨i, c, (s.answer o c).1⟩])) (s.answer o c).2.store := by
  have log : logOf (past ++ [⟨i, c, (s.answer o c).1⟩]) =
      logOf past ++ c.changes (s.answer o c).1 := by simp [logOf, Event.changes]
  rw [log]
  cases c with
  | store op =>
    refine h.logged.run o.time o.freshId op ?_
    cases op with
    | create fileId requestedBy maxAttempts =>
      obtain rfl : maxAttempts = cfg.maxAttempts := hc
      exact hm
    | _ => trivial
  | _ =>
    show Logged (logOf past ++ []) s.store
    rw [List.append_nil]
    exact h.logged

theorem limit_answer (h : Paced cfg s past) (hc : Conforms cfg s past c) (j : Job)
    (hj : j ∈ (s.answer o c).2.store.rows) : j.maxAttempts = cfg.maxAttempts := by
  have distinct := h.logged.distinct
  cases c with
  | store op =>
    by_cases hop : ∃ fileId requestedBy maxAttempts, op = .create fileId requestedBy maxAttempts
    · obtain ⟨fileId, requestedBy, maxAttempts, rfl⟩ := hop
      obtain rfl : maxAttempts = cfg.maxAttempts := hc
      rcases s.store.create_cases o.time o.freshId fileId requestedBy cfg.maxAttempts with
        ⟨_, -, he⟩ | ⟨-, he⟩
      · rw [Shared.answer_store_eq (.create fileId requestedBy cfg.maxAttempts) he] at hj
        exact h.limit j hj
      · rw [Shared.answer_store_eq (.create fileId requestedBy cfg.maxAttempts) he] at hj
        rcases mem_put.mp hj with ⟨hj, -⟩ | rfl
        · exact h.limit j hj
        · rfl
    · obtain ⟨r, hr, -, -, -, rfl | ⟨k, -, ht⟩⟩ :=
        origin_of_mem_run distinct (fun _ _ _ he => hop ⟨_, _, _, he⟩) hj
      · exact h.limit j hr
      · exact ht.maxAttempts.trans (h.limit r hr)
  | _ => exact h.limit j hj

theorem exists_of_failure? {s : Shared} {id : Uuid} {next : Option Instant}
    (hf : c.failure? (s.answer o c).1 = some (id, next)) :
    ∃ error, c = .store (.recordFailure id error next) ∧
      ∃ j, s.store.get? id = some j ∧ (s.answer o c).2.store =
        s.store.changeRow id (·.failedWith error next o.time) := by
  cases c with
  | store op =>
    cases op with
    | recordFailure target error at' =>
      rcases s.store.transition_cases target .processing (·.failedWith error at' o.time) with
        ⟨-, he⟩ | ⟨j, hj, -, he⟩
      · rw [Shared.answer_store_eq (.recordFailure target error at') he] at hf
        cases hf
      · rw [Shared.answer_store_eq (.recordFailure target error at') he] at hf ⊢
        obtain ⟨rfl, rfl⟩ := Prod.mk.inj (Option.some.inj hf)
        exact ⟨error, rfl, j, hj, rfl⟩
    | _ => cases hf
  | _ => cases hf

theorem exists_of_claimedAt? {s : Shared} {id : Uuid} {now : Instant}
    (hc : c.claimedAt? (s.answer o c).1 = some (id, now)) :
    c = .store (.claim id now) ∧ ∃ j, s.store.get? id = some j ∧ j.status = .pending := by
  cases c with
  | store op =>
    cases op with
    | claim target now =>
      rcases s.store.transition_cases target .pending (·.claimed now o.time) with
        ⟨-, he⟩ | ⟨j, hj, hs, he⟩
      · rw [Shared.answer_store_eq (.claim target now) he] at hc
        cases hc
      · rw [Shared.answer_store_eq (.claim target now) he] at hc
        obtain ⟨rfl, rfl⟩ := Prod.mk.inj (Option.some.inj hc)
        exact ⟨rfl, j, hj, hs⟩
    | _ => cases hc
  | _ => cases hc

theorem set_answer (h : Paced cfg s past) (hc : Conforms cfg s past c) {id : Uuid}
    {next : Option Instant} (hf : c.failure? (s.answer o c).1 = some (id, next)) :
    SetBy cfg id past next := by
  obtain ⟨error, rfl, -⟩ := exists_of_failure? hf
  obtain ⟨job, hrow, hs, hset⟩ := hc
  obtain ⟨budget, spent⟩ := h.logged.kept id job hrow
  have begun := budget.begun (by rw [hs]; decide)
  exact ⟨job, budget, h.limit job (mem_of_get? hrow).1, begun, spent, hset⟩

theorem waits_answer (h : Paced cfg s past) (hc : Conforms cfg s past c)
    (hu : s.store.Unused o.freshId) {id : Uuid} {j : Job} (hj : s.store.get? id = some j)
    (hs : j.status = .failed) (hr : (id, .reset) ∉ c.changes (s.answer o c).1) :
    (s.answer o c).2.store.get? id = some j ∨ Shown j.nextRetryAt past := by
  have hrow := Shared.answer_row h.logged.distinct hu c id
  rw [hj] at hrow
  generalize hafter : (s.answer o c).2.store.get? id = after at hrow ⊢
  cases hrow with
  | same => exact .inl rfl
  | turned hk _ ht =>
    cases ht with
    | reset => exact absurd hk hr
    | requeued =>
      cases c with
      | store op =>
        obtain ⟨now, limit, rfl, k, hk, hd⟩ := due_of_requeued h.logged.distinct hk
        obtain rfl := Option.some.inj (hj.symm.trans hk)
        obtain ⟨-, -, u, hu, hle⟩ := Job.isDue_iff.mp hd
        exact .inr ⟨u, now, hu, hc, hle⟩
      | _ => exact absurd hk List.not_mem_nil
    | claimed _ _ _ hp | completed _ _ _ hp | failed _ _ _ _ hp => exact nomatch hs.symm.trans hp
    | reaped _ _ _ hp => exact nomatch hs.symm.trans (Job.isStale_iff.mp hp).1

theorem answer (h : Paced cfg s past) (hm : 0 < cfg.maxAttempts.toInt) (i : Nat)
    (hc : Conforms cfg s past c) (hu : s.store.Unused o.freshId) :
    Paced cfg (s.answer o c).2 (past ++ [⟨i, c, (s.answer o c).1⟩]) where
  logged := h.logged_answer hm hc i
  limit := h.limit_answer hc
  set a e b id next hp hf := by
    rcases snoc_eq_append_cons hp with ⟨-, rfl, rfl⟩ | ⟨b, -, hpast⟩
    · exact h.set_answer hc hf
    · exact h.set a e b id next hpast hf
  waits a e b id next hp hf hb := by
    rcases snoc_eq_append_cons hp with ⟨-, rfl, rfl⟩ | ⟨b, rfl, hpast⟩
    · obtain ⟨error, rfl, j, hj, he⟩ := exists_of_failure? hf
      have row := get?_changeRow_self (f := (·.failedWith error next o.time)) h.logged.distinct
        (fun _ => rfl) hj
      exact .inl ⟨_, he ▸ row, rfl, rfl⟩
    · have earlier : Unreset id b := fun f hf => hb f (List.mem_append_left _ hf)
      rcases h.waits a e b id next hpast hf earlier with ⟨j, hj, hs, rfl⟩ | shown
      · have here := hb _ (List.mem_append_right _ (List.mem_singleton_self _))
        rcases h.waits_answer hc hu hj hs here with hj | shown
        · exact .inl ⟨j, hj, hs, rfl⟩
        · exact .inr (shown.snoc _)
      · exact .inr (shown.snoc _)
  heeded a e b c' d id next now hp hf hb hn := by
    rcases snoc_eq_append_cons hp with ⟨-, rfl, rfl⟩ | ⟨d, -, hpast⟩
    · obtain ⟨rfl, j, hj, hpending⟩ := exists_of_claimedAt? hn
      refine ⟨?_, hc⟩
      -- The job is pending by now, so it does not wait any more.
      rcases h.waits a e b id next rfl hf hb with ⟨k, hk, hs, -⟩ | shown
      · obtain rfl := Option.some.inj (hj.symm.trans hk)
        exact nomatch hs.symm.trans hpending
      · exact shown
    · exact h.heeded a e b c' d id next now hpast hf hb hn

theorem withQueue (h : Paced cfg s past) (queue : JobQueue) : Paced cfg { s with queue } past :=
  ⟨h.logged, h.limit, h.set, h.waits, h.heeded⟩

theorem perm (h : Paced cfg s past) {rows : List Job} (hp : s.store.rows.Perm rows) :
    Paced cfg { s with store := ⟨rows⟩ } past where
  logged := h.logged.reorder hp
  limit j hj := h.limit j (hp.mem_iff.mpr hj)
  set := h.set
  waits a e b id next hpast hf hb := by
    rw [get?_perm h.logged.distinct hp]
    exact h.waits a e b id next hpast hf hb
  heeded := h.heeded

theorem keeps (hm : 0 < cfg.maxAttempts.toInt) : CallRule.Keeps (Conforms cfg) (Paced cfg) where
  answer i h hc hu := h.answer hm i hc hu
  queue queue h := h.withQueue queue
  reorder hp h := h.perm hp

end Paced

def Turn.Fits (cfg : PipelineSettings) (t : Turn) : Prop :=
  ∀ a, t.Performs a → a.Fits cfg

theorem System.turns_paced {cfg : PipelineSettings} (hm : 0 < cfg.maxAttempts.toInt)
    (queue : JobQueue) (clock : Instant) {ts : List Turn} (hts : ∀ t ∈ ts, t.Fits cfg) :
    Paced cfg ((idle ⟨.empty, queue, clock⟩).turns ts).shared
      ((idle ⟨.empty, queue, clock⟩).turns ts).past :=
  turns_invariant (Paced.keeps hm) (.empty cfg queue clock)
    fun t ht a ha _ _ _ h => (hts t ht a ha).respects h.logged.distinct

namespace AppConfig

variable {env : Environment} {c : AppConfig}

theorem accepted_nextRetryAt? (h : ofEnvironment env = .ok c) {attempts : Int32} {t u : Instant}
    (ha : 1 ≤ attempts.toInt)
    (hu : c.pipelineSettings.retry.nextRetryAt? attempts t = some u) :
    ∃ delay, c.retryDelaysSecs[min attempts.toInt.toNat c.retryDelaysSecs.length - 1]? =
      some delay ∧ u.nanos = t.nanos + delay * 1_000_000_000 := by
  have limited := limited_of_ofEnvironment h
  have spans : c.pipelineSettings.retry.delays = c.retryDelaysSecs.map Span.ofSeconds := rfl
  have nanos := (RetrySchedule.nextRetryAt?_eq_some_iff limited.nanos_le (by decide)).mp hu
  have index := RetrySchedule.getElem?_delays limited.delays_ne_nil ha
  rw [spans, List.getElem?_map, List.length_map] at index
  obtain ⟨delay, hdelay, hspan⟩ := Option.map_eq_some_iff.mp index
  refine ⟨delay, hdelay, ?_⟩
  rw [nanos, ← hspan]
  exact congrArg (t.nanos + ·) (Int.natCast_mul _ _)

end AppConfig

def BacksOff (c : AppConfig) (past : List Event) : Prop :=
  ∀ a e b id next, past = a ++ e :: b → e.call.failure? e.reply = some (id, next) →
    1 ≤ attemptsSpent id (logOf a) ∧ attemptsSpent id (logOf a) ≤ c.maxAttempts.toInt ∧
    ∀ b' d b'' now, b = b' ++ d :: b'' → d.call.claimedAt? d.reply = some (id, now) →
      Unreset id b' → attemptsSpent id (logOf a) < c.maxAttempts.toInt ∧
        ∃ t delay, (readings a).getLast? = some t ∧
          c.retryDelaysSecs[min (attemptsSpent id (logOf a)) c.retryDelaysSecs.length - 1]? =
            some delay ∧ t.nanos + delay * 1_000_000_000 ≤ now.nanos

theorem le_of_getLast? {l : List Instant} (hl : l.Pairwise (· ≤ ·)) {t now : Instant} (ht : t ∈ l)
    (hn : l.getLast? = some now) : t ≤ now := by
  have last := hl.rel_getLast_of_rel_getLast_getLast ht (Int.le_refl _)
  rw [List.getLast?_eq_some_getLast (List.ne_nil_of_mem ht)] at hn
  exact Option.some.inj hn ▸ last

theorem SetBy.delayed {env : Environment} {c : AppConfig} (hc : AppConfig.ofEnvironment env = .ok c)
    {id : Uuid} {past : List Event} {u : Instant} (h : SetBy c.pipelineSettings id past (some u)) :
    attemptsSpent id (logOf past) < c.maxAttempts.toInt ∧
      ∃ t delay, (readings past).getLast? = some t ∧
        c.retryDelaysSecs[min (attemptsSpent id (logOf past)) c.retryDelaysSecs.length - 1]? =
          some delay ∧ u.nanos = t.nanos + delay * 1_000_000_000 := by
  obtain ⟨job, -, hmax, hone, spent, hset⟩ := h
  have left : job.hasAttemptsLeft := hset.isSome_iff.mpr rfl
  rw [RetrySchedule.Sets, if_pos left] at hset
  obtain ⟨t, v, ht, hv, huv⟩ := hset
  obtain rfl := Option.some.inj huv
  obtain ⟨delay, hdelay, hu⟩ := AppConfig.accepted_nextRetryAt? hc hone hv
  -- The counter of the job agrees with its history.
  have count : job.attempts.toInt.toNat = attemptsSpent id (logOf past) := by omega
  refine ⟨?_, t, delay, ht, count ▸ hdelay, hu⟩
  rw [← spent]
  exact (show c.pipelineSettings.maxAttempts = c.maxAttempts from rfl) ▸ hmax ▸
    Job.hasAttemptsLeft_iff.mp left

theorem backoff_honoured {env : Environment} {c : AppConfig}
    (hc : AppConfig.ofEnvironment env = .ok c) (queue : JobQueue) (clock : Instant)
    {ts : List Turn} (hts : ∀ t ∈ ts, t.Fits c.pipelineSettings)
    (hr : (readings ((System.idle ⟨.empty, queue, clock⟩).turns ts).past).Pairwise (· ≤ ·)) :
    BacksOff c ((System.idle ⟨.empty, queue, clock⟩).turns ts).past := by
  have limit : 0 < c.pipelineSettings.maxAttempts.toInt := (AppConfig.limited_of_ofEnvironment hc).maxAttempts
  have paced := System.turns_paced limit queue clock hts
  intro a e b id next hp hf
  have hset := paced.set a e b id next hp hf
  refine ⟨?_, ?_, ?_⟩
  · obtain ⟨job, -, -, hone, spent, -⟩ := hset
    omega
  · obtain ⟨job, budget, hmax, -, spent, -⟩ := hset
    rw [← spent]
    exact (show c.pipelineSettings.maxAttempts = c.maxAttempts from rfl) ▸ hmax ▸ budget.le_max
  · rintro b' d b'' now rfl hd hb
    have hp' : ((System.idle ⟨.empty, queue, clock⟩).turns ts).past = a ++ e :: b' ++ d :: b'' := by
      rw [hp, List.append_assoc, List.cons_append]
    obtain ⟨⟨u, shown, rfl, hshown, hle⟩, hlast⟩ := paced.heeded a e b' d b'' id next now hp' hf hb hd
    obtain ⟨left, t, delay, ht, hdelay, hu⟩ := hset.delayed hc
    refine ⟨left, t, delay, ht, hdelay, ?_⟩
    rw [hp', readings, List.filterMap_append] at hr
    have inOrder : shown ≤ now := le_of_getLast? (List.pairwise_append.mp hr).1 hshown hlast
    rw [← hu]
    exact Int.le_trans hle inOrder

def twoFailures : List Turn :=
  [.perform (.enqueue 3 (.ofNat 9) none) (slowAnswers 2 0 1 ++ slowAnswers 2 0 2),
    .deliver ⟨.default, .ofSeconds 120⟩ (slowAnswers 8 1 2),
    .perform (.sweep (.ofSeconds 900)) (slowAnswers 5 31 2),
    .deliver ⟨.default, .ofSeconds 120⟩ (slowAnswers 8 32 2)]

theorem backoff_honoured_twoFailures :
    ∃ c, AppConfig.ofEnvironment (deployment "120" "900") = .ok c ∧
      (∀ t ∈ twoFailures, t.Fits c.pipelineSettings) ∧
      (readings ((System.idle ⟨.empty, ⟨4, [], []⟩, .epoch⟩).turns twoFailures).past).Pairwise
        (· ≤ ·) ∧
      attemptsSpent (.ofNat 1)
        (logOf ((System.idle ⟨.empty, ⟨4, [], []⟩, .epoch⟩).turns twoFailures).past) = 2 ∧
      BacksOff c ((System.idle ⟨.empty, ⟨4, [], []⟩, .epoch⟩).turns twoFailures).past := by
  have accepted : AppConfig.ofEnvironment (deployment "120" "900") = .ok _ := rfl
  have inOrder : (readings ((System.idle ⟨.empty, ⟨4, [], []⟩, .epoch⟩).turns
      twoFailures).past).Pairwise (· ≤ ·) := by decide +kernel
  refine ⟨_, accepted, ?fits, inOrder, by decide +kernel, backoff_honoured accepted _ _ ?fits inOrder⟩
  intro t ht a ha
  simp only [twoFailures, List.mem_cons, List.not_mem_nil, or_false] at ht
  rcases ht with rfl | rfl | rfl | rfl
  · obtain rfl := ha
    rfl
  · obtain ⟨id, rfl⟩ := ha
    rfl
  · obtain rfl := ha
    rfl
  · obtain ⟨id, rfl⟩ := ha
    rfl

end DocumentPreview
