import DocumentPreview.Text.Base64
import Mathlib.Data.List.Basic

namespace DocumentPreview.Base64.Alphabet

def Faithful (a : Alphabet) : Prop :=
  ∀ n < 64, a.value? (a.symbol n) = some n ∧ a.symbol n ≠ '='

theorem faithful_standard : standard.Faithful := by
  unfold Faithful
  decide

theorem faithful_urlSafe : urlSafe.Faithful := by
  unfold Faithful
  decide

variable {a : Alphabet}

theorem one?_symbols (h : a.Faithful) (x : UInt8) :
    a.one? (a.symbol (x.toNat / 4)) (a.symbol (x.toNat % 4 * 16)) = some [x] := by
  have hx := x.toNat_lt
  have low : x.toNat % 4 * 16 % 16 = 0 := by omega
  have whole : x.toNat / 4 * 4 + x.toNat % 4 * 16 / 16 = x.toNat := by omega
  simp only [one?, (h (x.toNat / 4) (by omega)).1, (h (x.toNat % 4 * 16) (by omega)).1,
    Option.bind_eq_bind, Option.bind_some, low, whole, if_true, UInt8.ofNat_toNat]

theorem two?_symbols (h : a.Faithful) (x y : UInt8) :
    a.two? (a.symbol (x.toNat / 4)) (a.symbol (x.toNat % 4 * 16 + y.toNat / 16))
      (a.symbol (y.toNat % 16 * 4)) = some [x, y] := by
  have hx := x.toNat_lt
  have hy := y.toNat_lt
  have low : y.toNat % 16 * 4 % 4 = 0 := by omega
  have first : x.toNat / 4 * 4 + (x.toNat % 4 * 16 + y.toNat / 16) / 16 = x.toNat := by omega
  have second : (x.toNat % 4 * 16 + y.toNat / 16) % 16 * 16 + y.toNat % 16 * 4 / 4 = y.toNat := by
    omega
  simp only [two?, (h (x.toNat / 4) (by omega)).1,
    (h (x.toNat % 4 * 16 + y.toNat / 16) (by omega)).1, (h (y.toNat % 16 * 4) (by omega)).1,
    Option.bind_eq_bind, Option.bind_some, low, first, second, if_true, UInt8.ofNat_toNat]

theorem three?_symbols (h : a.Faithful) (x y z : UInt8) :
    a.three? (a.symbol (x.toNat / 4)) (a.symbol (x.toNat % 4 * 16 + y.toNat / 16))
      (a.symbol (y.toNat % 16 * 4 + z.toNat / 64)) (a.symbol (z.toNat % 64)) = some [x, y, z] := by
  have hx := x.toNat_lt
  have hy := y.toNat_lt
  have hz := z.toNat_lt
  have first : x.toNat / 4 * 4 + (x.toNat % 4 * 16 + y.toNat / 16) / 16 = x.toNat := by omega
  have second : (x.toNat % 4 * 16 + y.toNat / 16) % 16 * 16 +
      (y.toNat % 16 * 4 + z.toNat / 64) / 4 = y.toNat := by omega
  have third : (y.toNat % 16 * 4 + z.toNat / 64) % 4 * 64 + z.toNat % 64 = z.toNat := by omega
  simp only [three?, (h (x.toNat / 4) (by omega)).1,
    (h (x.toNat % 4 * 16 + y.toNat / 16) (by omega)).1,
    (h (y.toNat % 16 * 4 + z.toNat / 64) (by omega)).1, (h (z.toNat % 64) (by omega)).1,
    Option.bind_eq_bind, Option.bind_some, first, second, third, UInt8.ofNat_toNat]

theorem encode_ne_nil (x : UInt8) (r : Bytes) : a.encode (x :: r) ≠ [] := by
  match r with
  | [] | [_] | _ :: _ :: _ => simp [encode]

theorem decode?_encode (h : a.Faithful) (bs : Bytes) : a.decode? (a.encode bs) = some bs := by
  induction bs using encode.induct with
  | case1 => rfl
  | case2 x =>
    cases hp : a.padded
    · simp [encode, pad, decode?, hp, one?_symbols h]
    · simp [encode, pad, decode?, last?, hp, one?_symbols h]
  | case3 x y =>
    have hy := y.toNat_lt
    have marked : a.symbol (y.toNat % 16 * 4) ≠ '=' := (h _ (by omega)).2
    cases hp : a.padded
    · simp [encode, pad, decode?, hp, two?_symbols h]
    · simp [encode, pad, decode?, last?, hp, two?_symbols h, marked]
  | case4 x y z r ih =>
    match r with
    | [] =>
      have marked : a.symbol (z.toNat % 64) ≠ '=' := (h _ (by omega)).2
      simp [encode, decode?, last?, marked, three?_symbols h]
    | w :: r =>
      obtain ⟨t, u, ht⟩ := List.exists_cons_of_ne_nil (encode_ne_nil (a := a) w r)
      rw [ht] at ih
      rw [encode, ht, decode?, three?_symbols h, ih]
      rfl

theorem symbol_of_value? (h : a.symbols.length = 64) {c : Char} {n : Nat} (hc : a.value? c = some n) :
    n < 64 ∧ a.symbol n = c := by
  obtain ⟨hn, hget, -⟩ := List.idxOf?_eq_some_iff.mp hc
  rw [h] at hn
  refine ⟨hn, ?_⟩
  rw [symbol, Nat.mod_eq_of_lt hn, List.getD_eq_getElem?_getD, List.getElem?_eq_getElem (by omega)]
  exact hget

theorem symbols_of_one? (h : a.symbols.length = 64) {p q : Char} {bs : Bytes}
    (hd : a.one? p q = some bs) :
    ∃ x : UInt8, bs = [x] ∧ [p, q] = [a.symbol (x.toNat / 4), a.symbol (x.toNat % 4 * 16)] := by
  simp only [one?, Option.bind_eq_bind, Option.bind_eq_some_iff] at hd
  obtain ⟨i, hi, j, hj, hd⟩ := hd
  obtain ⟨hil, rfl⟩ := symbol_of_value? h hi
  obtain ⟨hjl, rfl⟩ := symbol_of_value? h hj
  split at hd
  · rename_i unused
    have value : (UInt8.ofNat (i * 4 + j / 16)).toNat = i * 4 + j / 16 :=
      UInt8.toNat_ofNat'.trans (Nat.mod_eq_of_lt (by omega))
    refine ⟨_, (Option.some.inj hd).symm, ?_⟩
    rw [value, show (i * 4 + j / 16) / 4 = i by omega, show (i * 4 + j / 16) % 4 * 16 = j by omega]
  · cases hd

theorem symbols_of_two? (h : a.symbols.length = 64) {p q r : Char} {bs : Bytes}
    (hd : a.two? p q r = some bs) :
    ∃ x y : UInt8, bs = [x, y] ∧ [p, q, r] = [a.symbol (x.toNat / 4),
      a.symbol (x.toNat % 4 * 16 + y.toNat / 16), a.symbol (y.toNat % 16 * 4)] := by
  simp only [two?, Option.bind_eq_bind, Option.bind_eq_some_iff] at hd
  obtain ⟨i, hi, j, hj, k, hk, hd⟩ := hd
  obtain ⟨hil, rfl⟩ := symbol_of_value? h hi
  obtain ⟨hjl, rfl⟩ := symbol_of_value? h hj
  obtain ⟨hkl, rfl⟩ := symbol_of_value? h hk
  split at hd
  · rename_i unused
    have first : (UInt8.ofNat (i * 4 + j / 16)).toNat = i * 4 + j / 16 :=
      UInt8.toNat_ofNat'.trans (Nat.mod_eq_of_lt (by omega))
    have second : (UInt8.ofNat (j % 16 * 16 + k / 4)).toNat = j % 16 * 16 + k / 4 :=
      UInt8.toNat_ofNat'.trans (Nat.mod_eq_of_lt (by omega))
    refine ⟨_, _, (Option.some.inj hd).symm, ?_⟩
    rw [first, second, show (i * 4 + j / 16) / 4 = i by omega,
      show (i * 4 + j / 16) % 4 * 16 + (j % 16 * 16 + k / 4) / 16 = j by omega,
      show (j % 16 * 16 + k / 4) % 16 * 4 = k by omega]
  · cases hd

theorem symbols_of_three? (h : a.symbols.length = 64) {p q r s : Char} {bs : Bytes}
    (hd : a.three? p q r s = some bs) :
    ∃ x y z : UInt8, bs = [x, y, z] ∧ [p, q, r, s] = [a.symbol (x.toNat / 4),
      a.symbol (x.toNat % 4 * 16 + y.toNat / 16), a.symbol (y.toNat % 16 * 4 + z.toNat / 64),
      a.symbol (z.toNat % 64)] := by
  simp only [three?, Option.bind_eq_bind, Option.bind_eq_some_iff] at hd
  obtain ⟨i, hi, j, hj, k, hk, l, hl, hd⟩ := hd
  obtain ⟨hil, rfl⟩ := symbol_of_value? h hi
  obtain ⟨hjl, rfl⟩ := symbol_of_value? h hj
  obtain ⟨hkl, rfl⟩ := symbol_of_value? h hk
  obtain ⟨hll, rfl⟩ := symbol_of_value? h hl
  have first : (UInt8.ofNat (i * 4 + j / 16)).toNat = i * 4 + j / 16 :=
    UInt8.toNat_ofNat'.trans (Nat.mod_eq_of_lt (by omega))
  have second : (UInt8.ofNat (j % 16 * 16 + k / 4)).toNat = j % 16 * 16 + k / 4 :=
    UInt8.toNat_ofNat'.trans (Nat.mod_eq_of_lt (by omega))
  have third : (UInt8.ofNat (k % 4 * 64 + l)).toNat = k % 4 * 64 + l :=
    UInt8.toNat_ofNat'.trans (Nat.mod_eq_of_lt (by omega))
  refine ⟨_, _, _, (Option.some.inj hd).symm, ?_⟩
  rw [first, second, third, show (i * 4 + j / 16) / 4 = i by omega,
    show (i * 4 + j / 16) % 4 * 16 + (j % 16 * 16 + k / 4) / 16 = j by omega,
    show (j % 16 * 16 + k / 4) % 16 * 4 + (k % 4 * 64 + l) / 64 = k by omega,
    show (k % 4 * 64 + l) % 64 = l by omega]

theorem encode_of_last? (h : a.symbols.length = 64) {p q r s : Char} {bs : Bytes}
    (hd : a.last? p q r s = some bs) : [p, q, r, s] = a.encode bs := by
  rw [last?] at hd
  split at hd
  · rename_i marked
    obtain ⟨padded, rfl⟩ := marked
    split at hd
    · rename_i hr
      obtain ⟨x, rfl, hs⟩ := symbols_of_one? h hd
      simp only [encode, pad, padded, if_true, ← hs, hr]
      rfl
    · obtain ⟨x, y, rfl, hs⟩ := symbols_of_two? h hd
      simp only [encode, pad, padded, if_true, ← hs]
      rfl
  · obtain ⟨x, y, z, rfl, hs⟩ := symbols_of_three? h hd
    exact hs

theorem encode_of_decode? (h : a.symbols.length = 64) {cs : List Char} {bs : Bytes}
    (hd : a.decode? cs = some bs) : cs = a.encode bs := by
  induction cs using decode?.induct a generalizing bs with
  | case1 =>
    obtain rfl := Option.some.inj hd
    rfl
  | case2 => cases hd
  | case3 p q hp =>
    rw [decode?, if_pos hp] at hd
    cases hd
  | case4 p q hp =>
    rw [decode?, if_neg hp] at hd
    obtain ⟨x, rfl, hs⟩ := symbols_of_one? h hd
    simp [encode, pad, hp, hs]
  | case5 p q r hp =>
    rw [decode?, if_pos hp] at hd
    cases hd
  | case6 p q r hp =>
    rw [decode?, if_neg hp] at hd
    obtain ⟨x, y, rfl, hs⟩ := symbols_of_two? h hd
    simp [encode, pad, hp, hs]
  | case7 p q r s => exact encode_of_last? h hd
  | case8 p q r s t u ih =>
    simp only [decode?, Option.bind_eq_bind, Option.bind_eq_some_iff] at hd
    obtain ⟨group, hgroup, rest, hrest, hd⟩ := hd
    obtain ⟨x, y, z, rfl, hs⟩ := symbols_of_three? h hgroup
    obtain rfl := Option.some.inj hd
    have front := congrArg (· ++ a.encode rest) hs
    rw [ih hrest]
    exact front

theorem decode?_eq_some_iff (h : a.Faithful) (hl : a.symbols.length = 64) {cs : List Char}
    {bs : Bytes} : a.decode? cs = some bs ↔ cs = a.encode bs :=
  ⟨encode_of_decode? hl, fun he => he ▸ decode?_encode h bs⟩

theorem symbol_ne_of_value?_eq_none (h : a.Faithful) {c : Char} (hc : a.value? c = none) (n : Nat) :
    a.symbol n ≠ c := by
  intro hn
  have read := (h (n % 64) (Nat.mod_lt n (by decide))).1
  rw [symbol, Nat.mod_mod, ← symbol, hn, hc] at read
  exact nomatch read

theorem not_mem_encode (h : a.Faithful) (hp : a.padded = false) {c : Char} (hc : a.value? c = none)
    (bs : Bytes) : c ∉ a.encode bs := by
  have distinct (n : Nat) : c ≠ a.symbol n := (symbol_ne_of_value?_eq_none h hc n).symm
  induction bs using encode.induct with
  | case1 => exact List.not_mem_nil
  | case2 x => simp [encode, pad, hp, distinct]
  | case3 x y => simp [encode, pad, hp, distinct]
  | case4 x y z r ih => simp [encode, distinct, ih]

theorem mem_encode {bs : Bytes} {c : Char} (h : c ∈ a.encode bs) :
    c = '=' ∨ ∃ n < 64, c = a.symbol n := by
  have padding {n : Nat} (hc : c ∈ a.pad n) : c = '=' := by
    rw [pad] at hc
    split at hc
    · exact List.eq_of_mem_replicate hc
    · exact absurd hc List.not_mem_nil
  have symbol (n : Nat) : ∃ m < 64, a.symbol n = a.symbol m :=
    ⟨n % 64, Nat.mod_lt n (by decide), by simp [Alphabet.symbol]⟩
  induction bs using encode.induct with
  | case1 => exact absurd h List.not_mem_nil
  | case2 x =>
    simp only [encode, List.mem_append, List.mem_cons, List.not_mem_nil, or_false] at h
    rcases h with (rfl | rfl) | h
    · exact .inr (symbol _)
    · exact .inr (symbol _)
    · exact .inl (padding h)
  | case3 x y =>
    simp only [encode, List.mem_append, List.mem_cons, List.not_mem_nil, or_false] at h
    rcases h with (rfl | rfl | rfl) | h
    · exact .inr (symbol _)
    · exact .inr (symbol _)
    · exact .inr (symbol _)
    · exact .inl (padding h)
  | case4 x y z r ih =>
    simp only [encode, List.mem_cons] at h
    rcases h with rfl | rfl | rfl | rfl | h
    · exact .inr (symbol _)
    · exact .inr (symbol _)
    · exact .inr (symbol _)
    · exact .inr (symbol _)
    · exact ih h

theorem length_encode (h : a.padded = false) (bs : Bytes) :
    (a.encode bs).length = (4 * bs.length + 2) / 3 := by
  induction bs using encode.induct with
  | case1 => rfl
  | case2 x => simp [encode, pad, h]
  | case3 x y => simp [encode, pad, h]
  | case4 x y z r ih =>
    simp only [encode, List.length_cons, ih]
    omega

end DocumentPreview.Base64.Alphabet
