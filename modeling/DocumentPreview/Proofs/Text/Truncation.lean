import DocumentPreview.Proofs.Text.Utf8
import DocumentPreview.Text.Truncation
import Mathlib.Data.Nat.Find

namespace DocumentPreview

namespace Utf8

variable {cs ds : List Char} {limit : Nat}

def cut (limit : Nat) : List Char → List Char
  | [] => []
  | c :: r => if charSize c ≤ limit then c :: cut (limit - charSize c) r else []

theorem size_le_of_isPrefix (h : cs <+: ds) : size cs ≤ size ds := by
  obtain ⟨rest, rfl⟩ := h
  rw [size_append]
  exact Nat.le_add_right _ _

theorem cut_isPrefix (limit : Nat) (cs : List Char) : cut limit cs <+: cs := by
  fun_induction cut limit cs with
  | case1 => exact List.nil_prefix
  | case2 limit c r fits ih => exact List.cons_prefix_cons.mpr ⟨rfl, ih⟩
  | case3 => exact List.nil_prefix

theorem size_cut_le (limit : Nat) (cs : List Char) : size (cut limit cs) ≤ limit := by
  fun_induction cut limit cs with
  | case1 => exact Nat.zero_le _
  | case2 limit c r fits ih =>
    rw [size_cons]
    omega
  | case3 => exact Nat.zero_le _

theorem isPrefix_cut (hp : ds <+: cs) (fits : size ds ≤ limit) : ds <+: cut limit cs := by
  induction cs generalizing ds limit with
  | nil => exact hp
  | cons c r ih =>
    cases ds with
    | nil => exact List.nil_prefix
    | cons d ds =>
      obtain ⟨rfl, hr⟩ := List.cons_prefix_cons.mp hp
      rw [size_cons] at fits
      rw [cut, if_pos (by omega)]
      exact List.cons_prefix_cons.mpr ⟨rfl, ih hr (by omega)⟩

theorem cut_of_size_le (h : size cs ≤ limit) : cut limit cs = cs :=
  have whole : cs <+: cut limit cs := isPrefix_cut (List.prefix_refl cs) h
  (cut_isPrefix limit cs).eq_of_length_le whole.length_le

theorem lt_size_cut (h : limit < size cs) : limit < size (cut limit cs) + 4 := by
  fun_induction cut limit cs with
  | case1 limit => exact absurd h (Nat.not_lt_zero limit)
  | case2 limit c r fits ih =>
    rw [size_cons] at h ⊢
    have room := ih (by omega)
    omega
  | case3 limit c r tooLarge =>
    have width := charSize_le_four c
    omega

end Utf8

namespace Text

variable {text : String} {cs : List Char}

theorem atBoundary_iff {i : Nat} :
    AtBoundary text i ↔ ∃ cs, cs <+: text.toList ∧ Utf8.size cs = i := by
  rw [AtBoundary, String.Pos.Raw.isValid_iff_exists_take_toList]
  constructor
  · rintro ⟨n, rfl⟩
    exact ⟨text.toList.take n, List.take_prefix n _, Utf8.size_eq_utf8ByteSize _⟩
  · rintro ⟨cs, hcs, rfl⟩
    refine ⟨cs.length, ?_⟩
    rw [← List.prefix_iff_eq_take.mp hcs, Utf8.size_eq_utf8ByteSize]

theorem truncate?_size (h : cs <+: text.toList) :
    truncate? text (Utf8.size cs) = some (String.ofList cs) := by
  have boundary : AtBoundary text (Utf8.size cs) := atBoundary_iff.mpr ⟨cs, h, rfl⟩
  obtain ⟨rest, hrest⟩ := h
  have whole : text = String.ofList cs ++ String.ofList rest := by
    rw [← String.ofList_append, hrest, String.ofList_toList]
  have splits : (⟨⟨Utf8.size cs⟩, boundary⟩ : text.Pos).Splits (.ofList cs) (.ofList rest) :=
    ⟨whole, congrArg String.Pos.Raw.mk (Utf8.size_eq_utf8ByteSize cs)⟩
  rw [truncate?, dif_pos boundary, splits.copy_sliceTo_eq]

example : truncate? "é€" 2 = some "é" ∧ truncate? "é€" 4 = none := by decide +kernel

theorem lastBoundary_eq_findGreatest (text : String) (limit : Nat) :
    lastBoundary text limit = Nat.findGreatest (AtBoundary text) limit := by
  induction limit with
  | zero => rfl
  | succ i ih => rw [lastBoundary, Nat.findGreatest_succ, ih]

theorem lastBoundary_eq (text : String) (limit : Nat) :
    lastBoundary text limit = Utf8.size (Utf8.cut limit text.toList) := by
  refine Nat.le_antisymm ?_ ?_
  · obtain ⟨cs, hcs, hsize⟩ := atBoundary_iff.mp (atBoundary_lastBoundary text limit)
    have fits : Utf8.size cs ≤ limit := by
      rw [hsize, lastBoundary_eq_findGreatest]
      exact Nat.findGreatest_le limit
    exact hsize ▸ Utf8.size_le_of_isPrefix (Utf8.isPrefix_cut hcs fits)
  · rw [lastBoundary_eq_findGreatest]
    exact Nat.le_findGreatest (Utf8.size_cut_le limit _)
      (atBoundary_iff.mpr ⟨_, Utf8.cut_isPrefix limit _, rfl⟩)

theorem shorten?_eq_cut (limit : Nat) (text : String) :
    shorten? limit text = some (String.ofList (Utf8.cut limit text.toList)) := by
  rw [shorten?]
  split
  case isTrue =>
    rw [lastBoundary_eq, truncate?_size (Utf8.cut_isPrefix limit _)]
  case isFalse small =>
    have fits : Utf8.size text.toList ≤ limit := by
      rw [Utf8.size_toList]
      exact Nat.not_lt.mp small
    rw [Utf8.cut_of_size_le fits, String.ofList_toList]

theorem toList_shorten (limit : Nat) (text : String) :
    (shorten limit text).toList = Utf8.cut limit text.toList := by
  rw [shorten, Option.get_of_eq_some _ (shorten?_eq_cut limit text), String.toList_ofList]

end Text

end DocumentPreview
