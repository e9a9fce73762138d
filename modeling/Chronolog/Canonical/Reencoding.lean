import Chronolog.Canonical.Encodings

/-!
# Values with the same encoding

A codec that reads a value and writes it again need not write the same value: the entries of a
map may come in another order, and equal rows may be exchanged. What matters is that the encoding
is the same (`Reencodes`). It is if the encodings of the parts are, whatever the order of the
entries of a map.
-/

namespace Chronolog.Canonical

open Procedure

/-- What is written has the encoding of what was read, if that has one. -/
def Reencodes (read written : CborValue) : Prop :=
  ∀ word, encodeCanonicalCbor read = .ok word → encodeCanonicalCbor written = .ok word

theorem Reencodes.refl (value : CborValue) : Reencodes value value := fun _ h => h

theorem reencodes_array {read written : List CborValue} (h : List.Forall₂ Reencodes read written) :
    Reencodes (.array read) (.array written) := by
  intro word hword
  obtain ⟨head, hhead, words, hwords, rfl⟩ := encode_array_eq_ok_iff.1 hword
  rw [h.length_eq] at hhead
  refine encode_array_eq_ok_iff.2 ⟨head, hhead, words, ?_, rfl⟩
  clear hword hhead
  induction h generalizing words with
  | nil => exact hwords
  | cons hitem _ ih =>
    cases hwords with
    | cons hword hwords => exact .cons (hitem _ hword) (ih _ hwords)

/-- The keys of a map with an encoding are different. -/
theorem nodup_keys_of_encode_map {entries : List (CborMapKey × CborValue)} {word : Bytes}
    (h : encodeCanonicalCbor (.map entries) = .ok word) : (entries.map Prod.fst).Nodup := by
  obtain ⟨words, hwords, hdistinct, _⟩ := encode_map_eq_ok_iff.1 h
  have hperm : words.Perm (sortEntries words) := (List.perm_insertionSort _ words).symm
  obtain ⟨sorted, hsorted, hencodes⟩ := Pointwise.exists_perm_left hwords hperm
  have hpairwise := (distinctKeys_eq_true_iff (pairwise_sortEntries words)).1 hdistinct
  exact ((hsorted.map Prod.fst).nodup_iff).2 (nodup_keys hencodes hpairwise)

/-- Words that are sorted with different keys are determined by their set. -/
theorem sortEntries_eq_of_perm {words words' : List (Bytes × Bytes)} (h : words.Perm words')
    (hdistinct : distinctKeys (sortEntries words) = true) :
    sortEntries words' = sortEntries words := by
  have hperm : (sortEntries words').Perm (sortEntries words) :=
    (List.perm_insertionSort _ words').trans (h.symm.trans (List.perm_insertionSort _ words).symm)
  have hpairwise := (distinctKeys_eq_true_iff (pairwise_sortEntries words)).1 hdistinct
  -- Words with the same key are the same word, so the order of keys is one of words.
  refine hperm.eq_of_pairwise ?_ (pairwise_sortEntries words') (pairwise_sortEntries words)
  intro a b ha hb hab hba
  have hkey : a.1 = b.1 := Std.Antisymm.antisymm a.1 b.1 hab hba
  have hnodup : ((sortEntries words).map Prod.fst).Nodup := hpairwise.imp And.right
  exact List.inj_on_of_nodup_map hnodup (hperm.mem_iff.1 ha) hb hkey

variable {read written : List (CborMapKey × CborValue)}

/-- The order of the entries does not matter. -/
theorem reencodes_map_perm (h : read.Perm written) : Reencodes (.map read) (.map written) := by
  intro word hword
  obtain ⟨words, hwords, hdistinct, head, hhead, rfl⟩ := encode_map_eq_ok_iff.1 hword
  obtain ⟨words', hperm, hwords'⟩ := Pointwise.exists_perm_right hwords h
  have hsort := sortEntries_eq_of_perm hperm hdistinct
  refine encode_map_eq_ok_iff.2 ⟨words', hwords', ?_, head, ?_, ?_⟩
  · rw [hsort]
    exact hdistinct
  · rw [hsort]
    exact hhead
  · rw [hsort]

/-- An entry with the same key, and a value with the same encoding. -/
abbrev ReencodesEntry (read written : CborMapKey × CborValue) : Prop :=
  read.1 = written.1 ∧ Reencodes read.2 written.2

theorem reencodes_map_entries (h : List.Forall₂ ReencodesEntry read written) :
    Reencodes (.map read) (.map written) := by
  intro word hword
  obtain ⟨words, hwords, hrest⟩ := encode_map_eq_ok_iff.1 hword
  refine encode_map_eq_ok_iff.2 ⟨words, ?_, hrest⟩
  clear hrest hword
  induction h generalizing words with
  | nil => exact hwords
  | cons hentry _ ih =>
    cases hwords with
    | cons hencodes hwords =>
      exact .cons ⟨hentry.1 ▸ hencodes.1, hentry.2 _ hencodes.2⟩ (ih _ hwords)

theorem Reencodes.trans {first second third : CborValue} (h : Reencodes first second)
    (h' : Reencodes second third) : Reencodes first third :=
  fun word hword => h' word (h word hword)

end Chronolog.Canonical
