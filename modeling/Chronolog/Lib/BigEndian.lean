import Mathlib.Data.Nat.Digits.Lemmas

/-!
# Numbers as byte strings

Numbers written as bytes with the most significant byte first: in a given number of bytes
(`toBytes`), or in as many as it takes (`minimalBytes`). The number is read back by `ofBytes`.
-/

namespace BigEndian

open List

/-- The number that bytes are the digits of. -/
def ofBytes (bytes : List UInt8) : ℕ := bytes.foldl (fun n byte => n <<< 8 ||| byte.toNat) 0

/-- The last digits of a number, as so many bytes. -/
def toBytes : (width n : ℕ) → List UInt8
  | 0, _ => []
  | width + 1, n => toBytes width (n >>> 8) ++ [UInt8.ofNat (n &&& 0xff)]

/-- The digits of a number, without leading zeros. -/
def minimalBytes (n : ℕ) : List UInt8 := ((Nat.digits 256 n).map UInt8.ofNat).reverse

theorem shiftLeft_or_toNat (n : ℕ) (byte : UInt8) :
    n <<< 8 ||| byte.toNat = n * 256 + byte.toNat := by
  rw [← Nat.shiftLeft_add_eq_or_of_lt byte.toNat_lt, Nat.shiftLeft_eq]

theorem ofBytes_append_singleton (bytes : List UInt8) (byte : UInt8) :
    ofBytes (bytes ++ [byte]) = ofBytes bytes * 256 + byte.toNat := by
  rw [ofBytes, foldl_append]
  exact shiftLeft_or_toNat (ofBytes bytes) byte

theorem ofBytes_eq_ofDigits (bytes : List UInt8) :
    ofBytes bytes = Nat.ofDigits 256 (bytes.reverse.map UInt8.toNat) := by
  induction bytes using reverseRecOn with
  | nil => rfl
  | append_singleton bytes byte ih =>
    rw [ofBytes_append_singleton, ih, reverse_concat, map_cons, Nat.ofDigits_cons,
      Nat.mul_comm, Nat.add_comm]

theorem ofBytes_lt (bytes : List UInt8) : ofBytes bytes < 256 ^ bytes.length := by
  rw [ofBytes_eq_ofDigits]
  refine (Nat.ofDigits_lt_base_pow_length (by decide) ?_).trans_eq (by simp)
  intro digit hdigit
  obtain ⟨byte, _, rfl⟩ := mem_map.1 hdigit
  exact byte.toNat_lt

@[simp]
theorem length_toBytes (width n : ℕ) : (toBytes width n).length = width := by
  induction width generalizing n with
  | zero => rfl
  | succ width ih => rw [toBytes, length_append, ih, length_singleton]

theorem ofBytes_toBytes {width n : ℕ} (h : n < 256 ^ width) : ofBytes (toBytes width n) = n := by
  induction width generalizing n with
  | zero => exact (Nat.lt_one_iff.1 h).symm
  | succ width ih =>
    have hquot : n >>> 8 < 256 ^ width := by
      rw [Nat.shiftRight_eq_div_pow]
      exact Nat.div_lt_of_lt_mul (h.trans_eq (Nat.pow_succ'))
    have hmod : n &&& 0xff = n % 256 := Nat.and_two_pow_sub_one_eq_mod n 8
    rw [toBytes, ofBytes_append_singleton, ih hquot, Nat.shiftRight_eq_div_pow, hmod,
      UInt8.toNat_ofNat_of_lt' (Nat.mod_lt n (by decide))]
    exact Nat.div_add_mod' n 256

theorem toBytes_ofBytes (bytes : List UInt8) : toBytes bytes.length (ofBytes bytes) = bytes := by
  induction bytes using reverseRecOn with
  | nil => rfl
  | append_singleton bytes byte ih =>
    have hlt := byte.toNat_lt
    have hmod : (ofBytes bytes * 256 + byte.toNat) &&& 0xff = byte.toNat :=
      (Nat.and_two_pow_sub_one_eq_mod _ 8).trans (by omega)
    have hdiv : (ofBytes bytes * 256 + byte.toNat) >>> 8 = ofBytes bytes := by
      omega
    rw [length_append, length_singleton, toBytes, ofBytes_append_singleton, hdiv, hmod,
      ih, UInt8.ofNat_toNat]

/-! ## Minimal bytes -/

theorem map_toNat_map_ofNat {digits : List ℕ} (h : ∀ digit ∈ digits, digit < 256) :
    (digits.map UInt8.ofNat).map UInt8.toNat = digits := by
  rw [map_map]
  refine (map_congr_left fun digit hdigit => ?_).trans digits.map_id
  exact UInt8.toNat_ofNat_of_lt' (h digit hdigit)

theorem ofBytes_minimalBytes (n : ℕ) : ofBytes (minimalBytes n) = n := by
  have hdigits := map_toNat_map_ofNat fun _ => Nat.digits_lt_base (b := 256) (m := n) (by decide)
  rw [ofBytes_eq_ofDigits, minimalBytes, reverse_reverse, hdigits, Nat.ofDigits_digits]

/-- Bytes without a leading zero are the minimal ones of their number. -/
theorem minimalBytes_ofBytes {byte : UInt8} {bytes : List UInt8} (h : byte ≠ 0) :
    minimalBytes (ofBytes (byte :: bytes)) = byte :: bytes := by
  have hdigits : Nat.digits 256 (ofBytes (byte :: bytes)) =
      (byte :: bytes).reverse.map UInt8.toNat := by
    rw [ofBytes_eq_ofDigits]
    refine Nat.digits_ofDigits 256 (by decide) _ (fun digit hdigit => ?_) fun _ => ?_
    · obtain ⟨byte, _, rfl⟩ := mem_map.1 hdigit
      exact byte.toNat_lt
    · rw [getLast_map, getLast_reverse]
      exact fun hzero => h (UInt8.toNat_inj.1 hzero)
  have hinverse : (UInt8.ofNat ∘ UInt8.toNat) = id := funext fun _ => UInt8.ofNat_toNat
  rw [minimalBytes, hdigits, map_map, hinverse, map_id, reverse_reverse]

/-- A number that takes more than so many bytes takes more. -/
theorem lt_length_minimalBytes {width n : ℕ} (h : 256 ^ width ≤ n) :
    width < (minimalBytes n).length := by
  by_contra hle
  have hlt := ofBytes_lt (minimalBytes n)
  rw [ofBytes_minimalBytes] at hlt
  have := Nat.pow_le_pow_right (by decide : 0 < 256) (Nat.not_lt.1 hle)
  omega

theorem head_minimalBytes_ne_zero {n : ℕ} {byte : UInt8} {bytes : List UInt8}
    (h : minimalBytes n = byte :: bytes) : byte ≠ 0 := by
  rintro rfl
  have hne : n ≠ 0 := by
    rintro rfl
    cases h
  have hlast := Nat.getLast_digit_ne_zero 256 hne
  have hdigits : Nat.digits 256 n = ((0 :: bytes : List UInt8).map UInt8.toNat).reverse := by
    rw [← h, minimalBytes, ← map_reverse, reverse_reverse,
      map_toNat_map_ofNat fun _ => Nat.digits_lt_base (by decide)]
  apply hlast
  simp [hdigits]

end BigEndian
