import DocumentPreview.Proofs.Config.Limits
import DocumentPreview.Proofs.Recovery.Pass
import DocumentPreview.Proofs.Recovery.Undisturbed

namespace DocumentPreview

variable {o : Outside} {s : Shared} {now cutoff : Instant} {staleAfter : Span} {j : Job}

theorem Instant.shift?_eq_some_iff {t u : Instant} {n : Int} :
    t.shift? n = some u ↔ u.nanos = t.nanos + n := by
  have := u.least_le
  have := u.lt_end
  unfold shift? ofNanos?
  constructor
  · intro h
    split at h
    · rw [← Option.some.inj h]
    · cases h
  · intro h
    rw [dif_pos (by omega)]
    cases u
    congr
    exact h.symm

theorem Instant.exists_shift?_iff {t : Instant} {n : Int} (hn : 0 ≤ n) :
    (∃ u, t.shift? (-n) = some u) ↔ n ≤ t.nanos - least.nanos := by
  have hend := t.lt_end
  constructor
  · rintro ⟨u, h⟩
    have := u.least_le
    rw [shift?_eq_some_iff] at h
    show n ≤ t.nanos - -8334601228800 * 1_000_000_000
    omega
  · intro h
    replace h : n ≤ t.nanos - -8334601228800 * 1_000_000_000 := h
    exact ⟨⟨t.nanos + -n, by omega, by omega⟩, shift?_eq_some_iff.mpr rfl⟩

namespace Sweep

theorem lease_ofSeconds (n : Nat) : lease (.ofSeconds n) =
    if n ≤ 9_223_372_036_854_775 then (n : Int) * 1_000_000_000 else 86400 * 1_000_000_000 := by
  unfold lease Span.difference? Span.ofSeconds
  dsimp only
  by_cases h : n ≤ 9_223_372_036_854_775
  · rw [if_pos h, if_pos (by omega)]
    exact Int.natCast_mul n 1_000_000_000
  · rw [if_neg h, if_neg (by omega)]
    rfl

theorem run_runOnce_swept (h : o.time.shift? (-lease staleAfter) = some cutoff) :
    ∃ report t, (runOnce staleAfter).run (fun c s => s.answer o c) s = (some (.ok report), t) ∧
      t.store = ((s.store.reapStale cutoff o.time).2.requeueDue o.time batch).2 ∧
      t.queue = s.queue.admitEach ((t.store.pending batch).map (·.id)) :=
  ⟨_, _, run_runOnce h, rfl, rfl⟩

end Sweep

namespace MemoryStore

variable {m : MemoryStore}

theorem mem_reapStale_of_processing (hp : j.status = .processing) :
    j ∈ (m.reapStale cutoff now).2.rows ↔ j ∈ m.rows ∧ ¬ j.isStale cutoff := by
  refine mem_change.trans ⟨?_, fun ⟨hj, hs⟩ => ⟨j, hj, if_neg hs⟩⟩
  rintro ⟨r, hr, rfl⟩
  by_cases hs : r.isStale cutoff
  · rw [if_pos hs] at hp
    cases hp
  · rw [if_neg hs]
    exact ⟨hr, hs⟩

theorem mem_requeueDue_of_processing {limit : Int} (h : m.Distinct) (hp : j.status = .processing) :
    j ∈ (m.requeueDue now limit).2.rows ↔ j ∈ m.rows := by
  have hc := candidates_due h now limit
  have after : (m.requeueDue now limit).2.Distinct := distinct_requeueEach now h _
  have same : ∀ t : MemoryStore, t.Distinct → (j ∈ t.rows ↔ t.get? j.id = some j) := fun t ht =>
    ⟨get?_self ht, fun hg => (mem_of_get? hg).1⟩
  rw [same _ after, same _ h]
  rcases get?_requeueEach h hc j.id with ⟨-, hg⟩ | ⟨c, hm, hid, -, hg⟩
  · rw [requeueDue, hg]
  · -- A candidate is failed before and pending after, so it is neither time the job in work.
    rw [requeueDue, hg, ← hid, hc.row c hm]
    constructor
    · rintro ⟨⟩
      cases hp
    · rintro ⟨⟩
      cases (Job.isDue_iff.mp (hc.due j hm)).1.symm.trans hp

theorem mem_swept_of_processing {limit : Int} (h : m.Distinct) (hp : j.status = .processing) :
    j ∈ ((m.reapStale cutoff now).2.requeueDue now limit).2.rows ↔
      j ∈ m.rows ∧ ¬ j.isStale cutoff := by
  have reaped : (m.reapStale cutoff now).2.Distinct := h.change fun _ _ _ => rfl
  rw [mem_requeueDue_of_processing reaped hp, mem_reapStale_of_processing hp]

end MemoryStore

def PipelineSettings.SparesAttempts (p : PipelineSettings) (now : Instant) : Prop :=
  ∀ (s : Shared) (o : Outside), s.store.Distinct → o.time = now →
    ∃ report t,
      (Sweep.runOnce p.staleAfter).run (fun c s => s.answer o c) s = (some (.ok report), t) ∧
      ∀ j ∈ s.store.rows, j.status = .processing → ∀ started, j.startedAt = some started →
        now.nanos - p.conversionTimeout.nanos ≤ started.nanos → j ∈ t.store.rows

def Job.inWorkSince (started : Instant) : Job :=
  (Job.fresh (.ofNat 1) (.ofNat 2) none 1 started).claimed started started

namespace PipelineSettings

variable {p : PipelineSettings}

theorem sparesAttempts_of_le (hcut : now.shift? (-Sweep.lease p.staleAfter) = some cutoff)
    (hle : (p.conversionTimeout.nanos : Int) ≤ Sweep.lease p.staleAfter) : p.SparesAttempts now := by
  rintro s o hs rfl
  obtain ⟨report, t, hrun, hstore, -⟩ := Sweep.run_runOnce_swept (s := s) hcut
  refine ⟨report, t, hrun, fun j hj hp started hstart hlate => ?_⟩
  rw [hstore, MemoryStore.mem_swept_of_processing hs hp]
  refine ⟨hj, fun hstale => ?_⟩
  obtain ⟨-, b, hb, hearly⟩ := Job.isStale_iff.mp hstale
  obtain rfl := Option.some.inj (hstart.symm.trans hb)
  have hn := Instant.shift?_eq_some_iff.mp hcut
  replace hearly : started.nanos < cutoff.nanos := hearly
  omega

theorem SparesAttempts.exists_cutoff (h : p.SparesAttempts now) :
    ∃ cutoff, now.shift? (-Sweep.lease p.staleAfter) = some cutoff := by
  cases hcut : now.shift? (-Sweep.lease p.staleAfter) with
  | some cutoff => exact ⟨cutoff, rfl⟩
  | none =>
    obtain ⟨report, t, hrun, -⟩ :=
      h ⟨.empty, ⟨1, [], []⟩, .epoch⟩ (.slow now (.ofNat 3)) MemoryStore.distinct_empty rfl
    cases (Sweep.run_runOnce_cut (o := .slow now (.ofNat 3)) hcut).symm.trans hrun

theorem SparesAttempts.lease_not_over (h : p.SparesAttempts now) (started : Instant)
    (hlate : now.nanos - p.conversionTimeout.nanos ≤ started.nanos) :
    now.nanos - Sweep.lease p.staleAfter ≤ started.nanos := by
  obtain ⟨cutoff, hcut⟩ := h.exists_cutoff
  have distinct : (⟨[.inWorkSince started]⟩ : MemoryStore).Distinct := List.nodup_singleton _
  obtain ⟨_, t, hrun, kept⟩ :=
    h ⟨⟨[.inWorkSince started]⟩, ⟨1, [], []⟩, .epoch⟩ (.slow now (.ofNat 3)) distinct rfl
  obtain ⟨_, _, hswept, hstore, -⟩ :=
    Sweep.run_runOnce_swept (o := .slow now (.ofNat 3)) hcut
  obtain ⟨-, rfl⟩ := Prod.mk.inj (hrun.symm.trans hswept)
  have row := kept (.inWorkSince started) (.head _) rfl started rfl hlate
  rw [hstore] at row
  have fresh := ((MemoryStore.mem_swept_of_processing distinct rfl).mp row).2
  have hn := Instant.shift?_eq_some_iff.mp hcut
  have notOver : ¬ started.nanos < cutoff.nanos := fun hc =>
    fresh (Job.isStale_iff.mpr ⟨rfl, started, rfl, hc⟩)
  omega

end PipelineSettings

theorem sparesAttempts_iff_lease {e : Environment} {c : AppConfig}
    (h : AppConfig.ofEnvironment e = .ok c) (hnow : Instant.epoch ≤ now) :
    c.pipelineSettings.SparesAttempts now ↔
      (c.staleProcessingSecs * 1_000_000_000 : Int) ≤ now.nanos - Instant.least.nanos ∨
        9_223_372_036_854_775 < c.staleProcessingSecs ∧ c.conversionTimeoutSecs ≤ 86400 := by
  have longer := AppConfig.timeout_lt_lease h
  have timeout : (c.pipelineSettings.conversionTimeout.nanos : Int) =
      c.conversionTimeoutSecs * 1_000_000_000 := Int.natCast_mul _ _
  have lease : Sweep.lease c.pipelineSettings.staleAfter = _ :=
    Sweep.lease_ofSeconds c.staleProcessingSecs
  have representable := Instant.exists_shift?_iff (t := now)
    (Sweep.lease_nonneg c.pipelineSettings.staleAfter)
  have least : Instant.least.nanos = -8334601228800 * 1_000_000_000 := rfl
  have early : 0 ≤ now.nanos := hnow
  have hend := now.lt_end
  rw [lease] at representable
  constructor
  · intro spared
    have fits := representable.mp (lease ▸ spared.exists_cutoff)
    split at fits
    · exact .inl fits
    · rename_i day
      refine .inr ⟨Nat.not_le.mp day, Nat.not_lt.mp fun long => ?_⟩
      -- A job that has been in work for a day and a second is within its conversion's time.
      have inTime := spared.lease_not_over ⟨now.nanos - 86401 * 1_000_000_000, by omega, by omega⟩
        (by dsimp only; omega)
      rw [lease, if_neg day] at inTime
      dsimp only at inTime
      omega
  · intro fits
    have cut : ∃ u, now.shift? (-Sweep.lease c.pipelineSettings.staleAfter) = some u := by
      rw [lease]
      refine representable.mpr ?_
      split <;> omega
    obtain ⟨cutoff, hcut⟩ := cut
    refine PipelineSettings.sparesAttempts_of_le hcut ?_
    rw [lease, timeout]
    split <;> omega

def deployment (timeout lease : String) : Environment :=
  .ofList [("DATABASE_URL", "postgres://localhost/previews"),
    ("CONVERTER_URL", "http://localhost:3001"), ("R2_BUCKET", "previews"),
    ("R2_ACCESS_KEY", "key"), ("R2_SECRET_KEY", "secret"), ("R2_ENDPOINT", "http://localhost:9000"),
    ("PREVIEW_TOKEN_SECRET", "token"), ("CONVERSION_TIMEOUT_SECS", timeout),
    ("STALE_PROCESSING_SECS", lease)]

def newYear : Instant :=
  { nanos := 1767225600 * 1_000_000_000 }

theorem sparesAttempts_quarterHour :
    ∃ c, AppConfig.ofEnvironment (deployment "120" "900") = .ok c ∧ Instant.epoch ≤ newYear ∧
      c.pipelineSettings.SparesAttempts newYear :=
  have accepted : AppConfig.ofEnvironment (deployment "120" "900") = .ok _ := rfl
  ⟨_, accepted, by decide, (sparesAttempts_iff_lease accepted (by decide)).mpr (.inl (by decide))⟩

theorem not_sparesAttempts_endless :
    (∃ c, AppConfig.ofEnvironment (deployment "120" "10000000000000") = .ok c ∧
      Instant.epoch ≤ newYear ∧ ¬ c.pipelineSettings.SparesAttempts newYear) ∧
    ∃ c, AppConfig.ofEnvironment (deployment "172800" "10000000000000000") = .ok c ∧
      Instant.epoch ≤ newYear ∧ ¬ c.pipelineSettings.SparesAttempts newYear := by
  refine ⟨⟨_, rfl, by decide, fun spared => ?_⟩, _, rfl, by decide, fun spared => ?_⟩
  · obtain ⟨cutoff, hcut⟩ := spared.exists_cutoff
    have cut : newYear.shift? (-Sweep.lease (.ofSeconds 10000000000000)) = none := by decide
    cases cut.symm.trans hcut
  · have inTime :=
      spared.lease_not_over { nanos := (1767225600 - 129600) * 1_000_000_000 } (by decide)
    exact absurd inTime (by decide)

end DocumentPreview
