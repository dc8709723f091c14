import DocumentPreview.Config.Basic
import Mathlib.Data.List.Basic

namespace DocumentPreview

theorem Except.bind_eq_ok_iff {ε α β : Type} {x : Except ε α} {f : α → Except ε β} {b : β} :
    x >>= f = .ok b ↔ ∃ a, x = .ok a ∧ f a = .ok b := by
  constructor
  · intro h
    cases x with
    | error e => cases h
    | ok a => exact ⟨a, rfl, h⟩
  · rintro ⟨a, rfl, h⟩
    exact h

theorem Span.ofSeconds_ne_zero {n : Nat} (h : 1 ≤ n) : Span.ofSeconds n ≠ .zero := by
  simp only [ofSeconds, zero, ne_eq, mk.injEq]
  omega

namespace AppConfig

variable {e : Environment} {c : AppConfig}

theorem check_of_ofEnvironment (h : ofEnvironment e = .ok c) : c.check = .ok () := by
  obtain ⟨d, -, h⟩ := Except.bind_eq_ok_iff.mp h
  obtain ⟨accepted, -, h⟩ := Except.bind_eq_ok_iff.mp h
  obtain ⟨⟨⟩, hc, h⟩ := Except.bind_eq_ok_iff.mp h
  obtain rfl := Except.ok.inj h
  exact hc

theorem check_eq_ok_iff :
    c.check = .ok () ↔ c.violations = [] ∧ c.conversionTimeoutSecs < c.staleProcessingSecs := by
  unfold check
  by_cases clean : c.violations = []
  · by_cases short : c.staleProcessingSecs ≤ c.conversionTimeoutSecs
    · simp [clean, short]
    · simp [clean, short, Nat.not_le.mp short]
  · simp [clean]

theorem timeout_lt_lease (h : ofEnvironment e = .ok c) :
    c.conversionTimeoutSecs < c.staleProcessingSecs :=
  (check_eq_ok_iff.mp (check_of_ofEnvironment h)).2

theorem violations_eq_nil (h : ofEnvironment e = .ok c) : c.violations = [] :=
  (check_eq_ok_iff.mp (check_of_ofEnvironment h)).1

theorem bounds_of_within {f : Config.Field} {least greatest : Nat} {n : Int}
    (h : within f least greatest n = []) : (least : Int) ≤ n ∧ n ≤ greatest := by
  unfold within at h
  split at h
  · cases h
  · split at h
    · cases h
    · omega

theorem le_of_atLeast {f : Config.Field} {least n : Nat} (h : atLeast f least n = []) :
    least ≤ n := by
  unfold atLeast at h
  split at h
  · cases h
  · exact Nat.not_lt.mp ‹_›

theorem accepted_delays {delays : List Nat} (h : delayViolations delays = []) :
    delays ≠ [] ∧ ∀ d ∈ delays, d ≤ 86400 := by
  unfold delayViolations at h
  split at h
  · cases h
  · rename_i hne
    refine ⟨fun he => hne (by simp [he]), fun d hd => Nat.not_lt.mp fun hlong => ?_⟩
    obtain ⟨i, hi, rfl⟩ := List.getElem_of_mem hd
    have long : (delays[i], i) ∈ delays.zipIdx.filter fun d => 86400 < d.1 :=
      List.mem_filter.mpr ⟨List.mk_mem_zipIdx_iff_getElem?.mpr (List.getElem?_eq_getElem hi),
        decide_eq_true hlong⟩
    rw [List.map_eq_nil_iff.mp h] at long
    exact absurd long List.not_mem_nil

structure Limited (c : AppConfig) : Prop where
  maxAttempts : 1 ≤ c.maxAttempts.toInt
  queueCapacity : 1 ≤ c.queueCapacity
  delays : c.retryDelaysSecs ≠ []
  delay_le : ∀ d ∈ c.retryDelaysSecs, d ≤ 86400
  conversionTimeout : 1 ≤ c.conversionTimeoutSecs
  sweepInterval : 1 ≤ c.sweepIntervalSecs
  replayCleanupInterval : 1 ≤ c.replayCleanupIntervalSecs
  staleProcessing : 1 ≤ c.staleProcessingSecs

theorem limited_of_ofEnvironment (h : ofEnvironment e = .ok c) : c.Limited := by
  have clean := violations_eq_nil h
  simp only [violations, List.append_eq_nil_iff] at clean
  have limit : within .maxAttempts 1 50 c.maxAttempts.toInt = [] := by simp only [clean]
  have room : within .queueCapacity 1 100000 c.queueCapacity = [] := by simp only [clean]
  have delays : delayViolations c.retryDelaysSecs = [] := by simp only [clean]
  have timeout : atLeast .conversionTimeoutSecs 1 c.conversionTimeoutSecs = [] := by
    simp only [clean]
  have sweeps : atLeast .sweepIntervalSecs 1 c.sweepIntervalSecs = [] := by simp only [clean]
  have cleanups : atLeast .replayCleanupIntervalSecs 1 c.replayCleanupIntervalSecs = [] := by
    simp only [clean]
  have lease : atLeast .staleProcessingSecs 1 c.staleProcessingSecs = [] := by simp only [clean]
  obtain ⟨hne, hshort⟩ := accepted_delays delays
  exact ⟨(bounds_of_within limit).1, by have := (bounds_of_within room).1; omega, hne, hshort,
    le_of_atLeast timeout, le_of_atLeast sweeps, le_of_atLeast cleanups, le_of_atLeast lease⟩

theorem Limited.delays_ne_nil (h : c.Limited) : c.pipelineSettings.retry.delays ≠ [] := by
  simpa [pipelineSettings, RetrySchedule.ofSeconds] using h.delays

theorem Limited.nanos_le (h : c.Limited) :
    ∀ d ∈ c.pipelineSettings.retry.delays, d.nanos ≤ 86400 * 1_000_000_000 := by
  intro d hd
  obtain ⟨n, hn, rfl⟩ := List.mem_map.mp hd
  exact Nat.mul_le_mul_right _ (h.delay_le n hn)

end AppConfig

end DocumentPreview
