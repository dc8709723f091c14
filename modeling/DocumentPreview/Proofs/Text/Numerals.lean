import DocumentPreview.Text.Numeral
import Mathlib.Algebra.Group.Nat.Defs
import Mathlib.Data.List.Basic

namespace DocumentPreview.Text

theorem hexDigit?_digitChar : ∀ d < 16, hexDigit? (digitChar d) = some d := by
  decide

theorem decimalDigit?_digitChar : ∀ d < 10, decimalDigit? (digitChar d) = some d := by
  decide

def digitsOf (base : Nat) : Nat → Nat → List Nat
  | 0, _ => []
  | width + 1, n => digitsOf base width (n / base) ++ [n % base]

theorem fixedDigits_eq (base width n : Nat) :
    fixedDigits base width n = (digitsOf base width n).map digitChar := by
  induction width generalizing n with
  | zero => rfl
  | succ width ih => simp [fixedDigits, digitsOf, ih]

theorem length_digitsOf (base width n : Nat) : (digitsOf base width n).length = width := by
  induction width generalizing n with
  | zero => rfl
  | succ width ih => simp [digitsOf, ih]

theorem length_fixedDigits (base width n : Nat) : (fixedDigits base width n).length = width := by
  rw [fixedDigits_eq, List.length_map, length_digitsOf]

theorem lt_of_mem_digitsOf {base width n d : Nat} (hb : 0 < base) (h : d ∈ digitsOf base width n) :
    d < base := by
  induction width generalizing n with
  | zero => exact absurd h List.not_mem_nil
  | succ width ih =>
    rcases List.mem_append.mp h with h | h
    · exact ih h
    · rw [List.mem_singleton.mp h]
      exact Nat.mod_lt _ hb

theorem ofDigits_snoc (base : Nat) (ds : List Nat) (d : Nat) :
    ofDigits base (ds ++ [d]) = ofDigits base ds * base + d := by
  simp [ofDigits]

theorem ofDigits_digitsOf (base width n : Nat) :
    ofDigits base (digitsOf base width n) = n % base ^ width := by
  induction width generalizing n with
  | zero => rw [Nat.pow_zero, Nat.mod_one]; rfl
  | succ width ih =>
    rw [digitsOf, ofDigits_snoc, ih, Nat.pow_succ, Nat.mul_comm (base ^ width) base,
      Nat.mod_mul, Nat.mul_comm, Nat.add_comm]

theorem mapM_digits {read : Char → Option Nat} {ds : List Nat}
    (h : ∀ d ∈ ds, read (digitChar d) = some d) : (ds.map digitChar).mapM read = some ds := by
  induction ds with
  | nil => rfl
  | cons d ds ih =>
    rw [List.map_cons, List.mapM_cons, h d (.head _), ih fun e he => h e (.tail _ he)]
    rfl

theorem decimalWidth_pos (n : Nat) : 0 < decimalWidth n := by
  rw [decimalWidth]
  split <;> omega

theorem lt_pow_decimalWidth (n : Nat) : n < 10 ^ decimalWidth n := by
  induction n using decimalWidth.induct with
  | case1 n h =>
    rw [decimalWidth, if_pos h]
    exact h
  | case2 n h ih =>
    rw [decimalWidth, if_neg h, Nat.pow_succ]
    omega

theorem decimalWidth_le {n k : Nat} (h : n < 10 ^ (k + 1)) : decimalWidth n ≤ k + 1 := by
  induction k generalizing n with
  | zero =>
    replace h : n < 10 := h
    rw [decimalWidth]
    split <;> omega
  | succ k ih =>
    rw [decimalWidth]
    split
    · omega
    · have tenth : n / 10 < 10 ^ (k + 1) := by
        rw [Nat.div_lt_iff_lt_mul (by decide)]
        exact h
      exact Nat.succ_le_succ (ih tenth)

def decimalDigits (n : Nat) : List Nat :=
  digitsOf 10 (decimalWidth n) n

theorem decimal_eq (n : Nat) : decimal n = (decimalDigits n).map digitChar :=
  fixedDigits_eq 10 _ n

theorem lt_ten_of_mem_decimalDigits {n d : Nat} (h : d ∈ decimalDigits n) : d < 10 :=
  lt_of_mem_digitsOf (by decide) h

theorem ofDigits_decimalDigits (n : Nat) : ofDigits 10 (decimalDigits n) = n := by
  rw [decimalDigits, ofDigits_digitsOf, Nat.mod_eq_of_lt (lt_pow_decimalWidth n)]

theorem decimalDigits_ne_nil (n : Nat) : decimalDigits n ≠ [] := by
  have hl : (decimalDigits n).length = decimalWidth n := length_digitsOf _ _ _
  have hw := decimalWidth_pos n
  intro h
  rw [h] at hl
  exact absurd hl.symm (Nat.ne_of_gt hw)

theorem natural?_decimal (n : Nat) : natural? (decimal n) = some n := by
  have read : decimalDigits? (decimal n) = some (decimalDigits n) := by
    rw [decimal_eq]
    exact mapM_digits fun d hd => decimalDigit?_digitChar d (lt_ten_of_mem_decimalDigits hd)
  have nonempty : (decimal n).isEmpty = false := by
    rw [decimal_eq, List.isEmpty_map, List.isEmpty_eq_false_iff]
    exact decimalDigits_ne_nil n
  rw [natural?, nonempty, read]
  exact congrArg some (ofDigits_decimalDigits n)

theorem decimalDigits_head (n : Nat) {ds : List Nat} (h : decimalDigits n = 0 :: ds) : ds = [] := by
  induction n using decimalWidth.induct generalizing ds with
  | case1 n hn =>
    rw [decimalDigits, decimalWidth, if_pos hn] at h
    exact (List.cons.inj h).2.symm
  | case2 n hn ih =>
    have snoc : decimalDigits n = decimalDigits (n / 10) ++ [n % 10] := by
      rw [decimalDigits, decimalWidth, if_neg hn]
      rfl
    obtain ⟨e, es, he⟩ := List.exists_cons_of_ne_nil (decimalDigits_ne_nil (n / 10))
    rw [snoc, he] at h
    obtain ⟨rfl, -⟩ := List.cons.inj h
    -- Only zero has the numeral zero, and a tenth of this number is at least one.
    have hz := ofDigits_decimalDigits (n / 10)
    rw [he, ih he] at hz
    have : n / 10 = 0 := hz.symm
    omega

end DocumentPreview.Text
