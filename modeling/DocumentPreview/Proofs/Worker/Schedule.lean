import DocumentPreview.Proofs.Recovery.Lease
import DocumentPreview.RetrySchedule

namespace DocumentPreview.RetrySchedule

variable {r : RetrySchedule} {attempts : Int32} {t u : Instant}

theorem getElem?_delays (hr : r.delays ≠ []) (ha : 1 ≤ attempts.toInt) :
    r.delays[min attempts.toInt.toNat r.delays.length - 1]? = some (r.delayAfter attempts) := by
  have index : (max attempts.toInt 1 - 1).toNat = attempts.toInt.toNat - 1 := by
    rw [Int.max_eq_left ha]
    omega
  have hlen : 0 < r.delays.length := List.length_pos_iff.mpr hr
  rw [delayAfter, index]
  by_cases hn : attempts.toInt.toNat ≤ r.delays.length
  · have inside : attempts.toInt.toNat - 1 < r.delays.length := by omega
    rw [Nat.min_eq_left hn, List.getElem?_eq_getElem inside]
  · have beyond : r.delays[attempts.toInt.toNat - 1]? = none := List.getElem?_eq_none (by omega)
    rw [Nat.min_eq_right (Nat.le_of_not_le hn), beyond, ← List.getLast?_eq_getElem?,
      List.getLast?_eq_some_getLast hr]
    rfl

def delayOf (r : RetrySchedule) (attempts : Nat) : Span :=
  (r.delays[min attempts r.delays.length - 1]?).getD .zero

theorem delayAfter_eq_delayOf (ha : 1 ≤ attempts.toInt) :
    r.delayAfter attempts = r.delayOf attempts.toInt.toNat := by
  by_cases hr : r.delays = []
  · simp [delayAfter, delayOf, hr]
  · rw [delayOf, getElem?_delays hr ha]
    rfl

theorem delayAfter_mem (hr : r.delays ≠ []) (attempts : Int32) :
    r.delayAfter attempts ∈ r.delays := by
  unfold delayAfter
  split
  · exact List.mem_of_getElem? ‹_›
  · rw [List.getLast?_eq_some_getLast hr]
    exact List.getLast_mem hr

theorem nextRetryAt?_eq_some_iff {n : Nat} (hd : ∀ d ∈ r.delays, d.nanos ≤ n)
    (hn : n ≤ 0x7FFF_FFFF_FFFF_FFFF * 1_000_000) :
    r.nextRetryAt? attempts t = some u ↔ u.nanos = t.nanos + (r.delayAfter attempts).nanos := by
  have short : (r.delayAfter attempts).nanos ≤ n := by
    by_cases hr : r.delays = []
    · simp [delayAfter, hr, Span.zero]
    · exact hd _ (delayAfter_mem hr attempts)
  rw [nextRetryAt?, Span.difference?, if_pos (Nat.le_trans short hn)]
  exact Instant.shift?_eq_some_iff

end DocumentPreview.RetrySchedule
