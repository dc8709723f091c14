import DocumentPreview.Time.Calendar
import Mathlib.Data.Nat.Basic
import Mathlib.Tactic.IntervalCases

namespace DocumentPreview.Date

def yearStart (year : Nat) : Nat :=
  365 * year + year / 4 - year / 100

def withoutLeapDays (day : Nat) : Nat :=
  day - day / 1460 + day / 36524 - day / 146096

theorem withoutLeapDays_mono {m n : Nat} (h : m ≤ n) (hn : n < 146097) :
    withoutLeapDays m ≤ withoutLeapDays n := by
  simp only [withoutLeapDays]
  by_cases last : n = 146096
  · subst last
    omega
  · have first : n / 146096 = 0 := Nat.div_eq_of_lt (by omega)
    have first' : m / 146096 = 0 := Nat.div_eq_of_lt (by omega)
    rw [first, first']
    omega

theorem withoutLeapDays_yearStart : ∀ year < 400,
    365 * year ≤ withoutLeapDays (yearStart year) ∧
      (0 < year → withoutLeapDays (yearStart year - 1) < 365 * year) := by
  decide +kernel

variable {day year : Nat}

theorem year_lt (h : day < 146097) : withoutLeapDays day / 365 < 400 := by
  have last : withoutLeapDays 146096 = 145999 := rfl
  have := withoutLeapDays_mono (Nat.le_of_lt_succ h) (by decide)
  omega

theorem yearStart_le (h : day < 146097) (hy : withoutLeapDays day / 365 = year) :
    yearStart year ≤ day := by
  have bound := hy ▸ year_lt h
  by_contra late
  have positive : 0 < year := Nat.pos_of_ne_zero fun hz => late (by simp [hz, yearStart])
  have before := (withoutLeapDays_yearStart year bound).2 positive
  have mono := withoutLeapDays_mono (m := day) (n := yearStart year - 1) (by omega)
    (by simp only [yearStart]; omega)
  omega

theorem lt_yearStart_succ (h : day < 146097) (hy : withoutLeapDays day / 365 = year)
    (hl : year < 399) : day < yearStart (year + 1) := by
  by_contra late
  have after := (withoutLeapDays_yearStart (year + 1) (by omega)).1
  have mono := withoutLeapDays_mono (Nat.not_lt.mp late) h
  omega

def LeapAt (year : Nat) : Prop :=
  year % 4 = 0 ∧ (year % 100 ≠ 0 ∨ year % 400 = 0)

structure InYear (day year dayOfYear : Nat) : Prop where
  year_lt : year < 400
  day_eq : day = yearStart year + dayOfYear
  short : dayOfYear ≤ 365
  leap : dayOfYear = 365 → LeapAt (year + 1)

theorem inYear (h : day < 146097) (hy : withoutLeapDays day / 365 = year) :
    InYear day year (day - yearStart year) := by
  have bound := hy ▸ year_lt h
  have start := yearStart_le h hy
  have next : day - yearStart year ≤ 365 ∧ (day - yearStart year = 365 → LeapAt (year + 1)) := by
    by_cases hl : year < 399
    · have after := lt_yearStart_succ h hy hl
      have fourth : (year + 1) / 4 = year / 4 ∨
          (year + 1) / 4 = year / 4 + 1 ∧ (year + 1) % 4 = 0 := by omega
      have hundredth : (year + 1) / 100 = year / 100 ∧ (year + 1) % 100 ≠ 0 ∨
          (year + 1) / 100 = year / 100 + 1 := by omega
      simp only [yearStart, LeapAt] at *
      omega
    · obtain rfl : year = 399 := by omega
      have start : yearStart 399 = 145731 := rfl
      rw [start]
      exact ⟨by omega, fun _ => ⟨rfl, .inr rfl⟩⟩
  exact ⟨bound, by omega, next.1, next.2⟩

def ofMarch (cycle : Int) (year month dayOfYear : Nat) : Date :=
  let m := if month < 10 then month + 3 else month - 9
  ⟨year + cycle * 400 + (if m ≤ 2 then 1 else 0), m, dayOfYear - (153 * month + 2) / 5 + 1⟩

structure InMonth (month dayOfYear : Nat) : Prop where
  month_le : month ≤ 11
  start_le : 153 * month ≤ 5 * dayOfYear + 2
  lt_end : 5 * dayOfYear + 2 < 153 * month + 153

variable {month dayOfYear : Nat} {cycle : Int}

theorem inMonth (h : dayOfYear ≤ 365) : InMonth ((5 * dayOfYear + 2) / 153) dayOfYear :=
  ⟨by omega, by omega, by omega⟩

theorem exists_inYear (days : Int) : ∃ cycle day year month dayOfYear,
    InYear day year dayOfYear ∧ InMonth month dayOfYear ∧
      days = cycle * 146097 + day - 719468 ∧ ofDays days = ofMarch cycle year month dayOfYear := by
  have below : ((days + 719468) % 146097).toNat < 146097 := by omega
  have year := inYear below rfl
  exact ⟨(days + 719468) / 146097, _, _, _, _, year, inMonth year.short, by omega, rfl⟩

theorem isLeap_iff : isLeap (year + cycle * 400) ↔ LeapAt year := by
  simp only [isLeap, LeapAt, Bool.and_eq_true, Bool.or_eq_true, decide_eq_true_eq]
  omega

theorem ofMarch_of_lt (h : month < 10) : ofMarch cycle year month dayOfYear =
    ⟨year + cycle * 400, month + 3, dayOfYear - (153 * month + 2) / 5 + 1⟩ := by
  simp [ofMarch, h]

theorem ofMarch_of_ge (h : 10 ≤ month) (hm : month ≤ 11) : ofMarch cycle year month dayOfYear =
    ⟨year + cycle * 400 + 1, month - 9, dayOfYear - (153 * month + 2) / 5 + 1⟩ := by
  have early : month - 9 ≤ 2 := by omega
  simp [ofMarch, Nat.not_lt.mpr h, early]

theorem toDays_ofMarch (h : InYear day year dayOfYear) (hm : InMonth month dayOfYear) :
    (ofMarch cycle year month dayOfYear).toDays = cycle * 146097 + day - 719468 := by
  obtain ⟨bound, rfl, -, -⟩ := h
  obtain ⟨last, first, -⟩ := hm
  by_cases spring : month < 10
  · have back : (month + 3 + 9) % 12 = month := by omega
    rw [ofMarch_of_lt spring]
    simp only [toDays, yearStart, back]
    rw [if_neg (by omega)]
    omega
  · have back : (month - 9 + 9) % 12 = month := by omega
    rw [ofMarch_of_ge (Nat.not_lt.mp spring) last]
    simp only [toDays, yearStart, back]
    rw [if_pos (by omega)]
    omega

theorem isValid_ofMarch (h : InYear day year dayOfYear) (hm : InMonth month dayOfYear) :
    (ofMarch cycle year month dayOfYear).IsValid := by
  have next : (year : Int) + cycle * 400 + 1 = ((year + 1 : Nat) : Int) + cycle * 400 := by omega
  obtain ⟨-, -, short, leap⟩ := h
  obtain ⟨last, first, after⟩ := hm
  by_cases spring : month < 10
  · rw [ofMarch_of_lt spring]
    interval_cases month <;> simp [IsValid, daysIn] <;> omega
  · have leapDay : dayOfYear = 365 → isLeap (((year + 1 : Nat) : Int) + cycle * 400) :=
      fun h => isLeap_iff.mpr (leap h)
    rw [ofMarch_of_ge (Nat.not_lt.mp spring) last, next]
    generalize ((year + 1 : Nat) : Int) + cycle * 400 = y at leapDay
    have winter : month = 10 ∨ month = 11 := by omega
    rcases winter with rfl | rfl
    · simp [IsValid, daysIn]
      omega
    · cases hl : isLeap y with
      | true =>
        simp [IsValid, daysIn, hl]
        omega
      | false =>
        have common : dayOfYear ≠ 365 := fun h => by simp [hl] at leapDay; exact leapDay h
        simp [IsValid, daysIn, hl]
        omega

theorem toDays_ofDays (days : Int) : (ofDays days).toDays = days := by
  obtain ⟨cycle, day, year, month, dayOfYear, h, hm, rfl, hd⟩ := exists_inYear days
  rw [hd, toDays_ofMarch h hm]

theorem isValid_ofDays (days : Int) : (ofDays days).IsValid := by
  obtain ⟨cycle, day, year, month, dayOfYear, h, hm, -, hd⟩ := exists_inYear days
  exact hd ▸ isValid_ofMarch h hm

end DocumentPreview.Date
