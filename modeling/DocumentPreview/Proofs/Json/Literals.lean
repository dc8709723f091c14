import DocumentPreview.Json.Reader
import DocumentPreview.Json.Writer
import DocumentPreview.Proofs.Text.Numerals
import DocumentPreview.Proofs.Text.Utf8

namespace DocumentPreview

namespace Json

theorem readPieces_quote (r : Bytes) : readPieces (0x22 :: r) = some ([], r) := by
  rw [readPieces.eq_def]
  rfl

theorem readPieces_short {e b : UInt8} (he : e ≠ 0x75) (hb : shortEscape? e = some b) (r : Bytes) :
    readPieces (0x5C :: e :: r) = (readPieces r).map fun p => (.byte b :: p.1, p.2) := by
  have quote : ¬ (0x5C : UInt8) = 0x22 := by decide
  rw [readPieces.eq_def]
  simp only [quote, if_false, if_true, he, hb]
  cases readPieces r <;> rfl

theorem readPieces_unit {a b c d : UInt8} {u : Nat} (hu : hexUnit? a b c d = some u) (r : Bytes) :
    readPieces (0x5C :: 0x75 :: a :: b :: c :: d :: r) =
      (readPieces r).map fun p => (.escaped u :: p.1, p.2) := by
  have quote : ¬ (0x5C : UInt8) = 0x22 := by decide
  rw [readPieces.eq_def]
  simp only [quote, if_false, if_true, hu]
  cases readPieces r <;> rfl

def Plain (b : UInt8) : Prop :=
  b ≠ 0x22 ∧ b ≠ 0x5C ∧ ¬ b < 0x20

theorem readPieces_plain {bs : Bytes} (h : ∀ b ∈ bs, Plain b) (r : Bytes) :
    readPieces (bs ++ r) = (readPieces r).map fun p => (bs.map .byte ++ p.1, p.2) := by
  induction bs with
  | nil => cases hr : readPieces r <;> simp [hr]
  | cons b bs ih =>
    obtain ⟨hquote, hescape, hcontrol⟩ := h b (.head _)
    rw [List.cons_append, readPieces.eq_def]
    simp only [hquote, hescape, hcontrol, if_false, ih fun c hc => h c (.tail _ hc)]
    cases readPieces r <;> rfl

theorem piecesBytes?_plain (bs : Bytes) (ps : List Piece) :
    piecesBytes? (bs.map .byte ++ ps) = (piecesBytes? ps).map (bs ++ ·) := by
  induction bs with
  | nil => cases hp : piecesBytes? ps <;> simp [hp]
  | cons b bs ih =>
    rw [List.map_cons, List.cons_append, piecesBytes?, ih]
    cases piecesBytes? ps <;> rfl

theorem hexValue?_digitChar :
    ∀ d < 16, hexValue? (UInt8.ofNat (Text.digitChar d).toNat) = some d := by
  decide

theorem utf8EncodeChar_digitChar :
    ∀ d < 16, String.utf8EncodeChar (Text.digitChar d) = [UInt8.ofNat (Text.digitChar d).toNat] := by
  decide

theorem readPieces_escapedUnit {n : Nat} (hn : n < 16 ^ 4) (r : Bytes) :
    readPieces (0x5C :: 0x75 :: (Utf8.encode (Text.fixedDigits 16 4 n) ++ r)) =
      (readPieces r).map fun p => (.escaped n :: p.1, p.2) := by
  have small (m : Nat) : m % 16 < 16 := Nat.mod_lt m (by decide)
  have value : Text.ofDigits 16 (Text.digitsOf 16 4 n) = n := by
    rw [Text.ofDigits_digitsOf, Nat.mod_eq_of_lt hn]
  simp only [Text.digitsOf, List.nil_append, List.cons_append] at value
  simp only [Text.fixedDigits_eq, Text.digitsOf, List.nil_append, List.cons_append, List.map_cons,
    List.map_nil, Utf8.encode, List.flatMap_cons, List.flatMap_nil,
    utf8EncodeChar_digitChar _ (small _)]
  refine readPieces_unit ?_ r
  simp only [hexUnit?, hexValue?_digitChar _ (small _), value]

theorem plain_of_le {b : UInt8} (h : 0x80 ≤ b.toNat) : Plain b := by
  refine ⟨?_, ?_, ?_⟩
  · rintro rfl
    exact absurd h (by decide)
  · rintro rfl
    exact absurd h (by decide)
  · rw [UInt8.lt_iff_toNat_lt]
    simp
    omega

theorem plain_of_mem_utf8EncodeChar {c : Char} (hquote : c ≠ '"') (hescape : c ≠ '\\')
    (hcontrol : ¬ c.toNat < 0x20) {b : UInt8} (hb : b ∈ String.utf8EncodeChar c) : Plain b := by
  by_cases hc : c.toNat < 0x80
  · rw [Utf8.utf8EncodeChar_ascii hc, List.mem_singleton] at hb
    have same : b.toNat = c.toNat := by
      rw [hb, Utf8.toNat_ofNat_lt (by omega)]
    have differs {d : Char} (hd : c ≠ d) : b.toNat ≠ d.toNat := fun h =>
      hd (Char.toNat_inj.mp (same.symm.trans h))
    refine ⟨?_, ?_, ?_⟩
    · rintro rfl
      exact differs hquote rfl
    · rintro rfl
      exact differs hescape rfl
    · rw [UInt8.lt_iff_toNat_lt, same]
      exact hcontrol
  · exact plain_of_le (Utf8.le_of_mem_utf8EncodeChar (by omega) hb)

def Spells (bs : Bytes) (c : Char) : Prop :=
  ∃ ps, (∀ r, readPieces (bs ++ r) = (readPieces r).map fun p => (ps ++ p.1, p.2)) ∧
    ∀ qs, piecesBytes? (ps ++ qs) = (piecesBytes? qs).map (String.utf8EncodeChar c ++ ·)

theorem spells_short {e b : UInt8} {c : Char} (he : e ≠ 0x75) (hb : shortEscape? e = some b)
    (hc : String.utf8EncodeChar c = [b]) : Spells [0x5C, e] c := by
  refine ⟨[.byte b], fun r => readPieces_short he hb r, fun qs => ?_⟩
  rw [hc]
  exact piecesBytes?_plain [b] qs

theorem spells_escapeChar (c : Char) : Spells (Utf8.encode (escapeChar c)) c := by
  unfold escapeChar
  split_ifs with hquote hescape hn hr ht hb hf hcontrol
  · subst hquote
    exact spells_short (e := 0x22) (by decide) rfl rfl
  · subst hescape
    exact spells_short (e := 0x5C) (by decide) rfl rfl
  · subst hn
    exact spells_short (e := 0x6E) (by decide) rfl rfl
  · subst hr
    exact spells_short (e := 0x72) (by decide) rfl rfl
  · subst ht
    exact spells_short (e := 0x74) (by decide) rfl rfl
  · subst hb
    exact spells_short (e := 0x62) (by decide) rfl rfl
  · subst hf
    exact spells_short (e := 0x66) (by decide) rfl rfl
  · refine ⟨[.escaped c.toNat], fun r => readPieces_escapedUnit (by omega) r, fun qs => ?_⟩
    have high : isHighSurrogate c.toNat = false := by simp [isHighSurrogate]; omega
    have low : isLowSurrogate c.toNat = false := by simp [isLowSurrogate]; omega
    rw [List.singleton_append, piecesBytes?.eq_def]
    simp [low, high, Char.ofNat_toNat]
  · refine ⟨(String.utf8EncodeChar c).map .byte, fun r => ?_, piecesBytes?_plain _⟩
    simp only [Utf8.encode, List.flatMap_cons, List.flatMap_nil, List.append_nil]
    exact readPieces_plain (fun b => plain_of_mem_utf8EncodeChar hquote hescape hcontrol) r

theorem readPieces_escaped (cs : List Char) (r : Bytes) :
    ∃ ps, readPieces (Utf8.encode (cs.flatMap escapeChar) ++ 0x22 :: r) = some (ps, r) ∧
      piecesBytes? ps = some (Utf8.encode cs) := by
  induction cs with
  | nil => exact ⟨[], readPieces_quote r, rfl⟩
  | cons c cs ih =>
    obtain ⟨qs, hread, hbytes⟩ := ih
    obtain ⟨ps, spelled, stands⟩ := spells_escapeChar c
    refine ⟨ps ++ qs, ?_, ?_⟩
    · rw [List.flatMap_cons, Utf8.encode_append, List.append_assoc, spelled, hread]
      rfl
    · rw [stands, hbytes]
      rfl

theorem encode_quoted (cs : List Char) (r : Bytes) :
    Utf8.encode (quoted cs) ++ r =
      0x22 :: (Utf8.encode (cs.flatMap escapeChar) ++ 0x22 :: r) := by
  rw [quoted, List.cons_append, Utf8.encode_cons, Utf8.encode_append]
  simp only [List.append_assoc]
  rfl

theorem readString_renderString (s : Option String) (r : Bytes) :
    ∃ t, Utf8.encode (renderString s) ++ r = 0x22 :: t ∧ readString t = some (s, r) := by
  cases s with
  | none =>
    have unit : hexUnit? 0x64 0x38 0x30 0x30 = some 0xD800 := by decide
    refine ⟨0x5C :: 0x75 :: 0x64 :: 0x38 :: 0x30 :: 0x30 :: 0x22 :: r, rfl, ?_⟩
    rw [readString, readPieces_unit unit, readPieces_quote]
    rfl
  | some s =>
    obtain ⟨ps, hread, hbytes⟩ := readPieces_escaped s.toList r
    refine ⟨_, encode_quoted s.toList r, ?_⟩
    simp [readString, hread, piecesText?, hbytes, Utf8.toString?_encode]

end Json

end DocumentPreview
