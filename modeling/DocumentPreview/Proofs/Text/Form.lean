import DocumentPreview.Proofs.Text.Split
import DocumentPreview.Proofs.Text.Utf8
import DocumentPreview.Text.Form

namespace DocumentPreview

namespace Percent

theorem decode_cons {b : UInt8} (h : b ≠ 0x25) (bs : Bytes) : decode (b :: bs) = b :: decode bs := by
  match bs with
  | [] | [_] => rfl
  | _ :: _ :: _ => rw [decode, if_neg h]

theorem decode_of_not_mem {bs : Bytes} (h : 0x25 ∉ bs) : decode bs = bs := by
  induction bs with
  | nil => rfl
  | cons b bs ih =>
    obtain ⟨hb, hbs⟩ := not_or.mp (mt List.mem_cons.mpr h)
    rw [decode_cons (Ne.symm hb), ih hbs]

end Percent

namespace Form

variable {cs name value r : List Char}

def Plain (cs : List Char) : Prop :=
  ∀ c ∈ cs, c ∉ ['&', '+', '%', '#']

instance (cs : List Char) : Decidable (Plain cs) :=
  List.decidableBAll (· ∉ ['&', '+', '%', '#']) cs

theorem Plain.not_mem (h : Plain cs) {c : Char} (hc : c ∈ ['&', '+', '%', '#']) : c ∉ cs :=
  fun hm => h c hm hc

theorem percent_not_mem_encode (h : Plain cs) : 0x25 ∉ Utf8.encode cs := by
  intro hb
  obtain ⟨c, hc, hb⟩ := List.mem_flatMap.mp hb
  have percent : c.toNat = 0x25 := Utf8.toNat_of_mem_utf8EncodeChar hb (by decide)
  obtain rfl : c = '%' := Char.toNat_inj.mp percent
  exact h.not_mem (by decide) hc

theorem decodePart_of_plain (h : Plain cs) : decodePart cs = String.ofList cs := by
  have blanks : cs.map (fun c => if c = '+' then ' ' else c) = cs.map id := by
    refine List.map_congr_left fun c hc => if_neg ?_
    rintro rfl
    exact h.not_mem (by decide) hc
  have pieces : (cs.map some).map (·.getD Utf8.replacement) = cs := by
    rw [List.map_map]
    exact List.map_id _
  rw [decodePart, blanks, List.map_id, Percent.decode_of_not_mem (percent_not_mem_encode h),
    Utf8.decodeLossy, Utf8.pieces_encode, pieces]

def written : List (List Char × List Char) → List Char
  | [] => []
  | [f] => f.1 ++ '=' :: f.2
  | f :: g :: fs => f.1 ++ '=' :: f.2 ++ '&' :: written (g :: fs)

structure PlainField (f : List Char × List Char) : Prop where
  name : Plain f.1
  value : Plain f.2
  point : '=' ∉ f.1

theorem PlainField.pair {f : List Char × List Char} (h : PlainField f) :
    pair (f.1 ++ '=' :: f.2) = (String.ofList f.1, String.ofList f.2) := by
  rw [Form.pair, Text.splitFirst?_append h.point]
  exact Prod.ext (decodePart_of_plain h.name) (decodePart_of_plain h.value)

theorem PlainField.not_mem {f : List Char × List Char} (h : PlainField f) :
    '&' ∉ f.1 ++ '=' :: f.2 := by
  rw [List.mem_append, List.mem_cons, not_or, not_or]
  exact ⟨h.name.not_mem (by decide), by decide, h.value.not_mem (by decide)⟩

theorem pairs_append (h : '&' ∉ cs) (hne : cs ≠ []) (r : List Char) :
    pairs (cs ++ '&' :: r) = Form.pair cs :: pairs r := by
  rw [pairs, Text.splitOn_append h, List.filter_cons_of_pos (by simpa using hne), List.map_cons,
    ← pairs]

theorem pairs_of_not_mem (h : '&' ∉ cs) (hne : cs ≠ []) : pairs cs = [Form.pair cs] := by
  rw [pairs, Text.splitOn_of_not_mem h, List.filter_cons_of_pos (by simpa using hne)]
  rfl

theorem pairs_written {fields : List (List Char × List Char)} (h : ∀ f ∈ fields, PlainField f) :
    pairs (written fields) = fields.map fun f => (String.ofList f.1, String.ofList f.2) := by
  induction fields with
  | nil => rfl
  | cons f fields ih =>
    obtain ⟨hf, hfs⟩ := List.forall_mem_cons.mp h
    have nonempty : f.1 ++ '=' :: f.2 ≠ [] := by simp
    cases fields with
    | nil =>
      rw [written, pairs_of_not_mem hf.not_mem nonempty, hf.pair]
      rfl
    | cons g fs =>
      rw [written, pairs_append hf.not_mem nonempty, ih hfs, hf.pair]
      rfl

theorem hash_not_mem_written {fields : List (List Char × List Char)}
    (h : ∀ f ∈ fields, PlainField f) : '#' ∉ written fields := by
  induction fields with
  | nil => exact List.not_mem_nil
  | cons f fields ih =>
    obtain ⟨hf, hfs⟩ := List.forall_mem_cons.mp h
    have name : '#' ∉ f.1 := hf.name.not_mem (by decide)
    have value : '#' ∉ f.2 := hf.value.not_mem (by decide)
    cases fields with
    | nil => simp [written, name, value]
    | cons g fs => simp [written, name, value, ih hfs]

end Form

end DocumentPreview
