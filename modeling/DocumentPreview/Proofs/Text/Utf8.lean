import DocumentPreview.Text.Utf8
import Mathlib.Data.List.Basic

namespace DocumentPreview.Utf8

theorem toNat_ofNat_lt {n : Nat} (h : n < 256) : (UInt8.ofNat n).toNat = n := by
  simp [Nat.mod_eq_of_lt h]

theorem pieces_ascii {n : Nat} (h : n < 0x80) (r : Bytes) :
    pieces none (UInt8.ofNat n :: r) = some (Char.ofNat n) :: pieces none r := by
  have hn : (UInt8.ofNat n).toNat = n := toNat_ofNat_lt (by omega)
  simp [pieces, beginPiece, hn, h]

theorem pieces_lead {n : Nat} {p : Pending} (h : 0x80 ≤ n) (hn : n < 256)
    (hp : Pending.ofLead? n = some p) (r : Bytes) :
    pieces none (UInt8.ofNat n :: r) = pieces (some p) r := by
  have hb : (UInt8.ofNat n).toNat = n := toNat_ofNat_lt hn
  have hbegin : beginPiece (UInt8.ofNat n) = (none, some p) := by
    rw [beginPiece, if_neg (by omega), hb, hp]
  rw [pieces, hbegin]
  rfl

theorem pieces_next {n : Nat} {p : Pending} (hl : p.low ≤ n) (hh : n ≤ p.high) (hn : n < 256)
    (hd : 1 < p.due) (r : Bytes) :
    pieces (some p) (UInt8.ofNat n :: r) =
      pieces (some ⟨p.due - 1, p.payload * 64 + (n - 0x80), 0x80, 0xBF⟩) r := by
  simp [pieces, toNat_ofNat_lt hn, hl, hh, Nat.not_le.mpr hd]

theorem pieces_last {n : Nat} {p : Pending} (hl : p.low ≤ n) (hh : n ≤ p.high) (hn : n < 256)
    (hd : p.due = 1) (r : Bytes) :
    pieces (some p) (UInt8.ofNat n :: r) =
      some (Char.ofNat (p.payload * 64 + (n - 0x80))) :: pieces none r := by
  simp [pieces, toNat_ofNat_lt hn, hl, hh, hd]

theorem pieces_utf8EncodeChar (c : Char) (r : Bytes) :
    pieces none (String.utf8EncodeChar c ++ r) = some c :: pieces none r := by
  have hc : Char.ofNat c.val.toNat = c := Char.ofNat_toNat c
  have hvalid : c.val.toNat < 0xD800 ∨ 0xDFFF < c.val.toNat ∧ c.val.toNat < 0x110000 := c.valid
  generalize hv : c.val.toNat = v at hc hvalid
  simp only [String.utf8EncodeChar, hv]
  split
  · rw [List.singleton_append, pieces_ascii (by omega), hc]
  split
  · have lead : Pending.ofLead? (v / 64 % 32 + 192) = some ⟨1, v / 64, 0x80, 0xBF⟩ := by
      rw [Pending.ofLead?, if_neg (by omega), if_pos (by omega)]
      simp only [Option.some.injEq, Pending.mk.injEq, and_true, true_and]
      omega
    have whole : v / 64 * 64 + (v % 64 + 128 - 0x80) = v := by omega
    simp only [List.cons_append, List.nil_append]
    rw [pieces_lead (by omega) (by omega) lead, pieces_last (by simp) (by simp; omega) (by omega) rfl,
      whole, hc]
  split
  · have lead : Pending.ofLead? (v / 4096 % 16 + 224) =
        some ⟨2, v / 4096, if v / 4096 = 0 then 0xA0 else 0x80,
          if v / 4096 = 13 then 0x9F else 0xBF⟩ := by
      rw [Pending.ofLead?, if_neg (by omega), if_neg (by omega), if_pos (by omega)]
      simp only [Option.some.injEq, Pending.mk.injEq, true_and]
      refine ⟨by omega, ?_, ?_⟩ <;> congr 1 <;> simp <;> omega
    have whole : (v / 4096 * 64 + (v / 64 % 64 + 128 - 0x80)) * 64 + (v % 64 + 128 - 0x80) = v := by
      omega
    simp only [List.cons_append, List.nil_append]
    rw [pieces_lead (by omega) (by omega) lead,
      pieces_next (by simp only; split <;> omega) (by simp only; split <;> omega) (by omega)
        (by simp),
      pieces_last (by simp) (by simp; omega) (by omega) rfl, whole, hc]
  · have lead : Pending.ofLead? (v / 262144 % 8 + 240) =
        some ⟨3, v / 262144, if v / 262144 = 0 then 0x90 else 0x80,
          if v / 262144 = 4 then 0x8F else 0xBF⟩ := by
      rw [Pending.ofLead?, if_neg (by omega), if_neg (by omega), if_neg (by omega),
        if_pos (by omega)]
      simp only [Option.some.injEq, Pending.mk.injEq, true_and]
      refine ⟨by omega, ?_, ?_⟩ <;> congr 1 <;> simp <;> omega
    have whole : ((v / 262144 * 64 + (v / 4096 % 64 + 128 - 0x80)) * 64 +
        (v / 64 % 64 + 128 - 0x80)) * 64 + (v % 64 + 128 - 0x80) = v := by
      omega
    simp only [List.cons_append, List.nil_append]
    rw [pieces_lead (by omega) (by omega) lead,
      pieces_next (by simp only; split <;> omega) (by simp only; split <;> omega) (by omega)
        (by simp),
      pieces_next (by simp) (by simp; omega) (by omega) (by simp),
      pieces_last (by simp) (by simp; omega) (by omega) rfl, whole, hc]

theorem pieces_encode (cs : List Char) : pieces none (encode cs) = cs.map some := by
  induction cs with
  | nil => rfl
  | cons c cs ih => rw [encode, List.flatMap_cons, pieces_utf8EncodeChar, ← encode, ih]; rfl

theorem allSome_map (cs : List Char) : allSome (cs.map some) = some cs := by
  induction cs with
  | nil => rfl
  | cons c cs ih => simp [allSome, ih]

theorem decode?_encode (cs : List Char) : decode? (encode cs) = some cs := by
  rw [decode?, pieces_encode, allSome_map]

theorem toString?_encode (s : String) : toString? (encode s.toList) = some s := by
  rw [toString?, decode?_encode, Option.map_some, String.ofList_toList]

theorem encode_append (cs ds : List Char) : encode (cs ++ ds) = encode cs ++ encode ds :=
  List.flatMap_append

theorem encode_cons (c : Char) (cs : List Char) :
    encode (c :: cs) = String.utf8EncodeChar c ++ encode cs :=
  rfl

theorem utf8EncodeChar_ascii {c : Char} (h : c.toNat < 0x80) :
    String.utf8EncodeChar c = [UInt8.ofNat c.toNat] := by
  have hc : c.val.toNat ≤ 0x7f := by
    change c.toNat ≤ 0x7f
    omega
  simp only [String.utf8EncodeChar, hc, if_true]
  rfl

theorem le_of_mem_utf8EncodeChar {c : Char} (h : 0x80 ≤ c.toNat) {b : UInt8}
    (hb : b ∈ String.utf8EncodeChar c) : 0x80 ≤ b.toNat := by
  have hc : ¬ c.val.toNat ≤ 0x7f := by
    change ¬ c.toNat ≤ 0x7f
    omega
  have marked (n m : Nat) (hm : 0x80 ≤ m) (hn : n + m < 256) : 0x80 ≤ (UInt8.ofNat (n + m)).toNat := by
    rw [toNat_ofNat_lt hn]
    omega
  simp only [String.utf8EncodeChar, if_neg hc] at hb
  split at hb
  · simp only [List.mem_cons, List.not_mem_nil, or_false] at hb
    rcases hb with rfl | rfl <;> exact marked _ _ (by omega) (by omega)
  split at hb
  · simp only [List.mem_cons, List.not_mem_nil, or_false] at hb
    rcases hb with rfl | rfl | rfl <;> exact marked _ _ (by omega) (by omega)
  · simp only [List.mem_cons, List.not_mem_nil, or_false] at hb
    rcases hb with rfl | rfl | rfl | rfl <;> exact marked _ _ (by omega) (by omega)

theorem toNat_of_mem_utf8EncodeChar {c : Char} {b : UInt8} (h : b ∈ String.utf8EncodeChar c)
    (hb : b.toNat < 0x80) : c.toNat = b.toNat := by
  have hc : c.toNat < 0x80 := Nat.not_le.mp fun hc =>
    Nat.not_le.mpr hb (le_of_mem_utf8EncodeChar hc h)
  rw [utf8EncodeChar_ascii hc, List.mem_singleton] at h
  rw [h, toNat_ofNat_lt (by omega)]

theorem charSize_le_four (c : Char) : charSize c ≤ 4 := by
  rw [charSize, String.length_utf8EncodeChar]
  exact Char.utf8Size_le_four c

theorem size_append (cs ds : List Char) : size (cs ++ ds) = size cs + size ds := by
  rw [size, encode_append, List.length_append, size, size]

theorem size_cons (c : Char) (cs : List Char) : size (c :: cs) = charSize c + size cs :=
  List.length_append

theorem length_encode_le (cs : List Char) : (encode cs).length ≤ 4 * cs.length := by
  induction cs with
  | nil => exact Nat.le_refl _
  | cons c cs ih =>
    have one := charSize_le_four c
    have both : (encode (c :: cs)).length = charSize c + (encode cs).length := size_cons c cs
    rw [both, List.length_cons]
    omega

theorem size_eq_length {cs : List Char} (h : ∀ c ∈ cs, charSize c = 1) : size cs = cs.length := by
  induction cs with
  | nil => rfl
  | cons c cs ih =>
    obtain ⟨hc, hcs⟩ := List.forall_mem_cons.mp h
    rw [size_cons, hc, ih hcs, List.length_cons, Nat.add_comm]

theorem size_eq_utf8ByteSize (cs : List Char) : size cs = (String.ofList cs).utf8ByteSize := by
  rw [size, encode, ← String.size_toByteArray, String.toByteArray_ofList, List.utf8Encode,
    List.size_toByteArray]

theorem size_toList (s : String) : size s.toList = s.utf8ByteSize := by
  rw [size_eq_utf8ByteSize, String.ofList_toList]

end DocumentPreview.Utf8
