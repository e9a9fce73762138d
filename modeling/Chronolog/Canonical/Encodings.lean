import Chronolog.Canonical.Heads
import Chronolog.Lib.Pointwise

/-!
# What an encoding is made of

When a value has an encoding, and of which words the encoding is made: one lemma for each kind
of value. The words of the entries of a map are in strict order.
-/

namespace Chronolog.Canonical

open Procedure List

variable {word : Bytes} {entries : List (CborMapKey × CborValue)} {words : List (Bytes × Bytes)}

/-! ## Integers, texts and bytes -/

theorem encodeBytes_eq_ok_iff {value word : Bytes} : encodeBytes value = .ok word ↔
      ∃ head, encodeHead 2 value.length = .ok head ∧ head ++ value = word := by
  simp [encodeBytes]

theorem encodeText_eq_ok_iff {value : String} :
    encodeText value = .ok word ↔ ∃ bytes, utf8 value = .ok bytes ∧
      ∃ head, encodeHead 3 bytes.length = .ok head ∧ head ++ bytes = word := by
  simp [encodeText]

/-- How a number of a sign and a magnitude is encoded. -/
theorem encodeBigint_signed (negative : Bool) (magnitude : ℕ) :
    encodeBigint (signed negative magnitude) =
      if magnitude ≤ maxUint64 then encodeHead (if negative then 1 else 0) magnitude else do
        let bytes ← magnitudeBytes magnitude
        return (← encodeHead 6 (if negative then negativeBignumTag else positiveBignumTag)) ++
          (← encodeHead 2 bytes.length) ++ bytes := by
  have hsign : decide (signed negative magnitude < 0) = negative := by
    cases negative with
    | true => exact decide_eq_true (show -1 - (magnitude : ℤ) < 0 by omega)
    | false => exact decide_eq_false (show ¬(magnitude : ℤ) < 0 by omega)
  have hmagnitude : (if negative then -1 - signed negative magnitude
      else signed negative magnitude).toNat = magnitude := by
    cases negative with
    | true => exact show (-1 - (-1 - (magnitude : ℤ))).toNat = magnitude by omega
    | false => exact show (magnitude : ℤ).toNat = magnitude by omega
  rw [encodeBigint, hsign, hmagnitude]

theorem exists_signed (value : ℤ) : ∃ negative magnitude, signed negative magnitude = value := by
  rcases lt_or_ge value 0 with hneg | hpos
  · exact ⟨true, (-1 - value).toNat, show -1 - ((-1 - value).toNat : ℤ) = value by omega⟩
  · exact ⟨false, value.toNat, show (value.toNat : ℤ) = value by omega⟩

/-- The two forms of integers. -/
theorem encodeBigint_eq_ok_iff {negative : Bool} {magnitude : ℕ} :
    encodeBigint (signed negative magnitude) = .ok word ↔
      (magnitude ≤ maxUint64 ∧ encodeHead (if negative then 1 else 0) magnitude = .ok word) ∨
      (maxUint64 < magnitude ∧ ∃ tag,
        encodeHead 6 (if negative then negativeBignumTag else positiveBignumTag) = .ok tag ∧
        ∃ head, encodeHead 2 (BigEndian.minimalBytes magnitude).length = .ok head ∧
          tag ++ (head ++ BigEndian.minimalBytes magnitude) = word) := by
  rw [encodeBigint_signed]
  by_cases h : magnitude ≤ maxUint64
  · rw [if_pos h]
    exact ⟨fun h' => .inl ⟨h, h'⟩, fun h' => h'.elim And.right fun h' => absurd h'.1 (by omega)⟩
  · have hbytes : magnitudeBytes magnitude = .ok (BigEndian.minimalBytes magnitude) := by
      rw [magnitudeBytes, canonicalInvariant, if_pos (decide_eq_true (Nat.not_le.1 h))]
      rfl
    rw [if_neg h, hbytes]
    simp [h, Nat.not_le.1 h]

theorem encodeCanonicalCbor_toValue (key : CborMapKey) :
    encodeCanonicalCbor key.toValue = encodeKey key := by
  cases key with
  | integer value | text value | bytes value => rfl

/-! ## Arrays and maps -/

/-- The word is the encoding of the item. -/
abbrev EncodesItem (item : CborValue) (word : Bytes) : Prop := encodeCanonicalCbor item = .ok word

/-- The words are the encodings of the key and the value of the entry. -/
abbrev EncodesEntry (entry : CborMapKey × CborValue) (word : Bytes × Bytes) : Prop :=
  encodeKey entry.1 = .ok word.1 ∧ encodeCanonicalCbor entry.2 = .ok word.2

theorem encodeItems_eq_ok_iff {items : List CborValue} {words : List Bytes} :
    encodeItems items = .ok words ↔ Forall₂ EncodesItem items words := by
  refine Pointwise.traverse_eq_ok_iff (g := encodeItems) rfl fun item items words => ?_
  simp [encodeItems]

theorem encodeEntries_eq_ok_iff :
    encodeEntries entries = .ok words ↔ Forall₂ EncodesEntry entries words := by
  refine Pointwise.traverse_eq_ok_iff (g := encodeEntries) rfl fun entry entries words => ?_
  simp [encodeEntries, and_assoc]

/-- How an array is encoded. -/
theorem encode_array_eq_ok_iff {items : List CborValue} :
    encodeCanonicalCbor (.array items) = .ok word ↔ ∃ head, encodeHead 4 items.length = .ok head ∧
        ∃ words, Forall₂ EncodesItem items words ∧ head ++ words.flatten = word := by
  simp [encodeCanonicalCbor, encodeItems_eq_ok_iff]

/-- The order of the entries of a map. -/
abbrev sortEntries (words : List (Bytes × Bytes)) : List (Bytes × Bytes) :=
  words.insertionSort fun a b => KeyLe a.1 b.1

/-- How a map is encoded. -/
theorem encode_map_eq_ok_iff : encodeCanonicalCbor (.map entries) = .ok word ↔
      ∃ words, Forall₂ EncodesEntry entries words ∧ distinctKeys (sortEntries words) = true ∧
        ∃ head, encodeHead 5 (sortEntries words).length = .ok head ∧
          head ++ (sortEntries words).flatMap (fun entry => entry.1 ++ entry.2) = word := by
  rw [encodeCanonicalCbor, bind_eq_ok_iff]
  refine exists_congr fun words => and_congr encodeEntries_eq_ok_iff ?_
  rw [canonicalInvariant_bind_eq_ok_iff]
  refine and_congr_right fun _ => ?_
  rw [bind_eq_ok_iff]
  exact exists_congr fun _ => and_congr_right fun _ => ⟨Except.ok.inj, congrArg _⟩

/-! ## The order of keys -/

/-- The strict order of encoded keys. -/
abbrev KeyLt (left right : Bytes) : Prop := KeyLe left right ∧ left ≠ right

instance : Std.Total KeyLe where
  total left right := by
    rcases Nat.lt_trichotomy left.length right.length with hlt | heq | hgt
    · exact .inl (.inl hlt)
    · rcases Std.Total.total (r := BytesLe) left right with h | h
      · exact .inl (.inr ⟨heq, h⟩)
      · exact .inr (.inr ⟨heq.symm, h⟩)
    · exact .inr (.inl hgt)

instance : IsTrans Bytes KeyLe where
  trans a b c := by
    rintro (hab | ⟨hab, hab'⟩) (hbc | ⟨hbc, hbc'⟩)
    · exact .inl (hab.trans hbc)
    · exact .inl (hbc ▸ hab)
    · exact .inl (hab ▸ hbc)
    · exact .inr ⟨hab.trans hbc, IsTrans.trans a b c hab' hbc'⟩

instance : Std.Antisymm KeyLe where
  antisymm a b := by
    rintro (hab | ⟨hab, hab'⟩) (hba | ⟨hba, hba'⟩)
    · omega
    · omega
    · omega
    · exact Std.Antisymm.antisymm a b hab' hba'

instance : IsTrans Bytes KeyLt where
  trans a b c := by
    rintro ⟨hab, hne⟩ ⟨hbc, hne'⟩
    refine ⟨IsTrans.trans a b c hab hbc, ?_⟩
    rintro rfl
    exact hne (Std.Antisymm.antisymm a b hab hbc)

/-- Sorted words with different neighbours are in strict order. -/
theorem distinctKeys_eq_true_iff (h : words.Pairwise fun a b => KeyLe a.1 b.1) :
    distinctKeys words = true ↔ (words.map Prod.fst).Pairwise KeyLt := by
  rw [← isChain_iff_pairwise]
  fun_induction distinctKeys words with
  | case1 => exact iff_of_true rfl .nil
  | case2 word => exact iff_of_true rfl (.singleton _)
  | case3 first second words ih =>
    obtain ⟨hfirst, hwords⟩ := pairwise_cons.1 h
    rw [Bool.and_eq_true, decide_eq_true_iff, ih hwords]
    constructor
    · rintro ⟨hne, hchain⟩
      exact .cons_cons ⟨hfirst second mem_cons_self, hne⟩ hchain
    · intro hchain
      obtain ⟨hlt, hchain⟩ := isChain_cons_cons.1 hchain
      exact ⟨hlt.2, hchain⟩

/-- Words in strict order are not moved by the sort. -/
theorem sortEntries_eq_self (h : (words.map Prod.fst).Pairwise KeyLt) : sortEntries words = words :=
  ((pairwise_map.1 h).imp And.left).insertionSort_eq

theorem pairwise_sortEntries (words : List (Bytes × Bytes)) :
    (sortEntries words).Pairwise fun a b => KeyLe a.1 b.1 :=
  haveI : Std.Total fun a b : Bytes × Bytes => KeyLe a.1 b.1 :=
    ⟨fun a b => Std.Total.total (r := KeyLe) a.1 b.1⟩
  haveI : IsTrans (Bytes × Bytes) fun a b => KeyLe a.1 b.1 :=
    ⟨fun a b c => IsTrans.trans (r := KeyLe) a.1 b.1 c.1⟩
  pairwise_insertionSort _ words

/-- Different words are the encodings of different keys. -/
theorem nodup_keys (h : Forall₂ EncodesEntry entries words)
    (hwords : (words.map Prod.fst).Pairwise KeyLt) : (entries.map Prod.fst).Nodup := by
  refine Pointwise.nodup_of_pairwise_ne h ?_ (pairwise_map.1 hwords)
  rintro entry word entry' word' ⟨hkey, _⟩ ⟨hkey', _⟩ hlt heq
  rw [heq] at hkey
  exact hlt.2 (Except.ok.inj (hkey.symm.trans hkey'))

end Chronolog.Canonical
