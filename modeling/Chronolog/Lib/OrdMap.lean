import Mathlib.Data.List.Nodup

/-!
# Insertion-ordered maps

A finite map that remembers the order in which its keys were first set: the
maps of scripting languages. Setting a key that is present replaces its value
in place, setting a new key appends an entry. The keys of the entries are
pairwise different by construction, so an entry is determined by its key
(`mem_entries_iff`), and a map is used through `get?`, `set` and `erase`.

A `KeyedMap` is such a map whose values name the key they are stored under: a
value is only ever put under its own key (`KeyedMap.put`), so what is found
under a key has that key (`KeyedMap.key_eq`).
-/

/-- A finite map that remembers the order in which its keys were first set. -/
@[ext]
structure OrdMap (κ υ : Type*) where
  /-- The entries, in the order in which their keys were first set. -/
  entries : List (κ × υ)
  nodup_keys : (entries.map Prod.fst).Nodup
  deriving DecidableEq

namespace OrdMap

open List

variable {κ υ : Type*}
variable {l : List (κ × υ)} {k : κ} {v : υ} {m : OrdMap κ υ}

/-- The map without entries. -/
def empty : OrdMap κ υ := ⟨[], nodup_nil⟩

instance : Inhabited (OrdMap κ υ) := ⟨empty⟩

/-- The values, in the order of their keys. -/
def values (m : OrdMap κ υ) : List υ := m.entries.map Prod.snd

/-- The map with other values under the same keys. -/
def mapValues (f : υ → υ) (m : OrdMap κ υ) : OrdMap κ υ where
  entries := m.entries.map (Prod.map id f)
  nodup_keys := by
    rw [map_map]
    exact m.nodup_keys

/-- The number of entries. -/
def size (m : OrdMap κ υ) : ℕ := m.entries.length

variable [DecidableEq κ]

/-- The value of the first entry with the key `k`. -/
def lookup (k : κ) : List (κ × υ) → Option υ
  | [] => none
  | e :: l => if e.1 = k then some e.2 else lookup k l

/-- The entries with the value of `k` replaced, or appended if there is none. -/
def upsert (k : κ) (v : υ) : List (κ × υ) → List (κ × υ)
  | [] => [(k, v)]
  | e :: l => if e.1 = k then (k, v) :: l else e :: upsert k v l

theorem keys_upsert (k : κ) (v : υ) (l : List (κ × υ)) : (upsert k v l).map Prod.fst =
      if k ∈ l.map Prod.fst then l.map Prod.fst else l.map Prod.fst ++ [k] := by
  induction l with
  | nil => simp [upsert]
  | cons e l ih =>
    by_cases h : e.1 = k
    · simp [upsert, h]
    · have h' : ¬ k = e.1 := fun e' => h e'.symm
      simp only [upsert, if_neg h, map_cons, ih, mem_cons, h', false_or]
      split_ifs <;> simp

section

variable (m : OrdMap κ υ) (k : κ)

/-- The value of `k`. -/
def get? : Option υ := lookup k m.entries

/-- Is there an entry for `k`? -/
def has : Bool := (m.get? k).isSome

/-- The map with the value of `k` set to `v`. -/
def set (v : υ) : OrdMap κ υ where
  entries := upsert k v m.entries
  nodup_keys := by
    rw [keys_upsert]
    split_ifs with h
    · exact m.nodup_keys
    · exact nodup_append.2 ⟨m.nodup_keys, nodup_singleton k,
        fun a ha b hb => by rintro rfl; exact h (mem_singleton.1 hb ▸ ha)⟩

/-- The map without the entry of `k`. -/
def erase : OrdMap κ υ where
  entries := m.entries.filter fun e => e.1 ≠ k
  nodup_keys := m.nodup_keys.sublist (filter_sublist.map _)

end

/-- The map setting the entries of `l` in turn. -/
def ofList (l : List (κ × υ)) : OrdMap κ υ := l.foldl (fun m e => m.set e.1 e.2) empty

/-! ## Lookups -/

theorem lookup_upsert_self (k : κ) (v : υ) (l : List (κ × υ)) :
    lookup k (upsert k v l) = some v := by
  induction l with
  | nil => simp [upsert, lookup]
  | cons e l ih => by_cases h : e.1 = k <;> simp [upsert, lookup, h, ih]

theorem lookup_upsert_of_ne {k k' : κ} (h : k' ≠ k) (v : υ) (l : List (κ × υ)) :
    lookup k' (upsert k v l) = lookup k' l := by
  induction l with
  | nil => simp [upsert, lookup, h.symm]
  | cons e l ih =>
    by_cases he : e.1 = k
    · simp [upsert, lookup, he, h.symm]
    · simp only [upsert, if_neg he, lookup, ih]

theorem lookup_eq_some_iff (hl : (l.map Prod.fst).Nodup) : lookup k l = some v ↔ (k, v) ∈ l := by
  induction l with
  | nil => simp [lookup]
  | cons e l ih =>
    obtain ⟨hk, hl⟩ := nodup_cons.1 hl
    by_cases h : e.1 = k
    · subst h
      have hnot : ∀ w, (e.1, w) ∉ l := fun w hw => hk (mem_map.2 ⟨_, hw, rfl⟩)
      simp only [lookup, if_pos, Option.some.injEq, mem_cons, hnot v, or_false]
      exact ⟨fun h => by rw [← h], fun h => by rw [← h]⟩
    · simp only [lookup, if_neg h, ih hl, mem_cons]
      exact ⟨.inr, fun h' => h'.resolve_left fun e' => h (by rw [← e'])⟩

@[simp]
theorem get?_empty (k : κ) : (empty : OrdMap κ υ).get? k = none := rfl

@[simp]
theorem get?_set_self (m : OrdMap κ υ) (k : κ) (v : υ) : (m.set k v).get? k = some v :=
  lookup_upsert_self k v m.entries

theorem get?_set_of_ne {k k' : κ} (h : k' ≠ k) (m : OrdMap κ υ) (v : υ) :
    (m.set k v).get? k' = m.get? k' :=
  lookup_upsert_of_ne h v m.entries

theorem get?_set (m : OrdMap κ υ) (k k' : κ) (v : υ) :
    (m.set k v).get? k' = if k' = k then some v else m.get? k' := by
  split_ifs with h
  · rw [h, get?_set_self]
  · exact get?_set_of_ne h m v

theorem mem_entries_iff : (k, v) ∈ m.entries ↔ m.get? k = some v :=
  (lookup_eq_some_iff m.nodup_keys).symm

theorem get?_mapValues {f : υ → υ} (h : m.get? k = some v) : (m.mapValues f).get? k = some (f v) :=
  mem_entries_iff.1 (mem_map.2 ⟨(k, v), mem_entries_iff.2 h, rfl⟩)

theorem mem_values_iff : v ∈ m.values ↔ ∃ k, m.get? k = some v := by
  rw [values, mem_map]
  constructor
  · rintro ⟨⟨k, w⟩, hm, rfl⟩
    exact ⟨k, mem_entries_iff.1 hm⟩
  · rintro ⟨k, hk⟩
    exact ⟨(k, v), mem_entries_iff.2 hk, rfl⟩

theorem has_iff : m.has k = true ↔ ∃ v, m.get? k = some v :=
  Option.isSome_iff_exists

theorem has_eq_false_iff : m.has k = false ↔ m.get? k = none := by
  simp [has]

/-- A map with the same entries in another order. -/
theorem get?_of_perm {m m' : OrdMap κ υ} (h : m'.entries.Perm m.entries) (k : κ) :
    m'.get? k = m.get? k := by
  ext v
  rw [← mem_entries_iff, ← mem_entries_iff]
  exact h.mem_iff

theorem has_set (h : m.has k) (k' : κ) (v : υ) : (m.set k' v).has k := by
  obtain ⟨w, hw⟩ := has_iff.1 h
  refine has_iff.2 ?_
  rw [get?_set]
  split_ifs
  · exact ⟨v, rfl⟩
  · exact ⟨w, hw⟩

theorem get?_erase (m : OrdMap κ υ) (k k' : κ) :
    (m.erase k).get? k' = if k' = k then none else m.get? k' := by
  refine Option.ext fun v => ?_
  rw [← mem_entries_iff]
  split_ifs with h
  · simp [erase, h]
  · simp [erase, h, ← mem_entries_iff]

theorem find?_entries (m : OrdMap κ υ) (k : κ) :
    m.entries.find? (fun e => e.1 = k) = (m.get? k).map (k, ·) := by
  have h (l : List (κ × υ)) : l.find? (fun e => e.1 = k) = (lookup k l).map (k, ·) := by
    induction l with
    | nil => rfl
    | cons e l ih =>
      by_cases hk : e.1 = k
      · subst hk
        simp [lookup]
      · simp [lookup, hk, ih]
  exact h m.entries

/-- What is computed of a map, if only one of its entries counts. -/
theorem filterMap_entries_eq_singleton {β : Type*} {f : κ × υ → Option β}
    {b : β} (hget : m.get? k = some v) (hf : f (k, v) = some b)
    (hother : ∀ k' v', m.get? k' = some v' → k' ≠ k → f (k', v') = none) :
    m.entries.filterMap f = [b] := by
  obtain ⟨l, l', hentries⟩ := append_of_mem (mem_entries_iff.2 hget)
  have hnodup := m.nodup_keys
  rw [hentries, map_append, map_cons, nodup_middle, nodup_cons] at hnodup
  have hnone : ∀ e ∈ l ++ l', f e = none := by
    intro e he
    have hmem : e ∈ m.entries := by
      rw [hentries]
      exact mem_append.2 ((mem_append.1 he).imp_right (mem_cons_of_mem _))
    refine hother e.1 e.2 (mem_entries_iff.1 hmem) fun hk => hnodup.1 ?_
    rw [← map_append, ← hk]
    exact mem_map.2 ⟨e, he, rfl⟩
  rw [hentries, filterMap_append, filterMap_cons_some hf,
    filterMap_eq_nil_iff.2 fun e he => hnone e (mem_append_left _ he),
    filterMap_eq_nil_iff.2 fun e he => hnone e (mem_append_right _ he), nil_append]

/-- What a map made of a list has for a key is one of the list's values for it. -/
theorem mem_of_get?_ofList (h : (ofList l).get? k = some v) : (k, v) ∈ l := by
  have key : ∀ (l : List (κ × υ)) (m : OrdMap κ υ),
      (l.foldl (fun m e => m.set e.1 e.2) m).get? k = some v → (k, v) ∈ l ∨ m.get? k = some v := by
    intro l
    induction l with
    | nil => exact fun m h => Or.inr h
    | cons e l ih =>
      intro m h
      rcases ih _ h with h | h
      · exact Or.inl (mem_cons_of_mem e h)
      · rw [get?_set] at h
        split_ifs at h with hk
        · cases h
          exact Or.inl (hk ▸ mem_cons_self)
        · exact Or.inr h
  exact (key l empty h).resolve_right nofun

/-- Setting a key to its value changes nothing. -/
theorem set_of_get?_eq_some (h : m.get? k = some v) : m.set k v = m := by
  have key : ∀ l : List (κ × υ), lookup k l = some v → upsert k v l = l := by
    intro l
    induction l with
    | nil => exact fun h => absurd h (by simp [lookup])
    | cons e l ih =>
      intro h
      rw [lookup] at h
      rw [upsert]
      split_ifs at h ⊢ with hk
      · rw [← hk, ← Option.some.inj h]
      · rw [ih h]
  exact OrdMap.ext (key m.entries h)

theorem upsert_of_not_mem (h : k ∉ l.map Prod.fst) (v : υ) : upsert k v l = l ++ [(k, v)] := by
  induction l with
  | nil => rfl
  | cons e l ih =>
    rw [map_cons, mem_cons, not_or] at h
    rw [upsert, if_neg (Ne.symm h.1), ih h.2, cons_append]

theorem entries_set_of_get?_eq_none (h : m.get? k = none) (v : υ) :
    (m.set k v).entries = m.entries ++ [(k, v)] := by
  refine upsert_of_not_mem (fun hmem => ?_) v
  obtain ⟨e, he, rfl⟩ := mem_map.1 hmem
  exact Option.some_ne_none _ ((mem_entries_iff.1 he).symm.trans h)

/-- Entries with new keys are appended. -/
theorem foldl_upsert {l l' : List (κ × υ)} (h : ((l ++ l').map Prod.fst).Nodup) :
    l'.foldl (fun m e => upsert e.1 e.2 m) l = l ++ l' := by
  induction l' generalizing l with
  | nil => exact l.append_nil.symm
  | cons e l' ih =>
    have hnew : e.1 ∉ l.map Prod.fst := by
      intro hmem
      rw [map_append, nodup_append] at h
      exact h.2.2 _ hmem _ mem_cons_self rfl
    rw [foldl_cons, upsert_of_not_mem hnew, ih]
    · exact append_assoc ..
    · rwa [append_assoc]

end OrdMap

/-- An insertion-ordered map storing every value under its own key. -/
@[ext]
structure KeyedMap {κ υ : Type*} (key : υ → κ) extends OrdMap κ υ where
  keyed : ∀ e ∈ entries, key e.2 = e.1
  deriving DecidableEq

namespace KeyedMap

variable {κ υ : Type*} {key : υ → κ}
variable {m : KeyedMap key} {v : υ}

/-- The map without values. -/
def empty : KeyedMap key := ⟨OrdMap.empty, fun _ h => absurd h List.not_mem_nil⟩

instance : Inhabited (KeyedMap key) := ⟨empty⟩

variable [DecidableEq κ]

/-- The value with the key `k`. -/
def get? (m : KeyedMap key) (k : κ) : Option υ := m.toOrdMap.get? k

/-- Is there a value with the key `k`? -/
def has (m : KeyedMap key) (k : κ) : Bool := m.toOrdMap.has k

/-- The values, in the order in which their keys were first put. -/
def values (m : KeyedMap key) : List υ := m.toOrdMap.values

variable {k : κ}

theorem key_eq (h : m.get? k = some v) : key v = k :=
  m.keyed _ (OrdMap.mem_entries_iff.2 h)

theorem keyed_upsert {l : List (κ × υ)} (h : ∀ e ∈ l, key e.2 = e.1) (v : υ) :
    ∀ e ∈ OrdMap.upsert (key v) v l, key e.2 = e.1 := by
  induction l with
  | nil => simp [OrdMap.upsert]
  | cons e l ih =>
    have hl : ∀ e ∈ l, key e.2 = e.1 := fun e' he' => h e' (List.mem_cons_of_mem _ he')
    by_cases he : e.1 = key v
    · simpa [OrdMap.upsert, he] using hl
    · intro e' he'
      rw [OrdMap.upsert, if_neg he] at he'
      rcases List.mem_cons.1 he' with rfl | he'
      · exact h _ List.mem_cons_self
      · exact ih hl e' he'

/-- The map with `v` put under its key. -/
def put (m : KeyedMap key) (v : υ) : KeyedMap key :=
  ⟨m.toOrdMap.set (key v) v, keyed_upsert m.keyed v⟩

@[simp]
theorem get?_empty (k : κ) : (empty : KeyedMap key).get? k = none := rfl

theorem get?_put (m : KeyedMap key) (k : κ) (v : υ) :
    (m.put v).get? k = if k = key v then some v else m.get? k :=
  OrdMap.get?_set m.toOrdMap (key v) k v

@[simp]
theorem get?_put_self (m : KeyedMap key) (v : υ) : (m.put v).get? (key v) = some v :=
  OrdMap.get?_set_self m.toOrdMap (key v) v

theorem get?_put_of_ne (h : k ≠ key v) (m : KeyedMap key) : (m.put v).get? k = m.get? k :=
  OrdMap.get?_set_of_ne h m.toOrdMap v

theorem mem_values_iff : v ∈ m.values ↔ m.get? (key v) = some v := by
  rw [values, OrdMap.mem_values_iff]
  refine ⟨fun ⟨k, hk⟩ => ?_, fun h => ⟨_, h⟩⟩
  rwa [key_eq hk]

theorem mem_values_put {v w : υ} (h : w ∈ (m.put v).values) : w = v ∨ w ∈ m.values := by
  rw [mem_values_iff, get?_put] at h
  split_ifs at h
  · exact .inl (Option.some.inj h).symm
  · exact .inr (mem_values_iff.2 h)

theorem mem_values_of_get? (h : m.get? k = some v) : v ∈ m.values :=
  OrdMap.mem_values_iff.2 ⟨k, h⟩

/-- The map with `v` put under its key, unless there is a value with that key. -/
def putNew (m : KeyedMap key) (v : υ) : KeyedMap key := if m.has (key v) then m else m.put v

theorem get?_putNew (m : KeyedMap key) (k : κ) (v : υ) :
    (m.putNew v).get? k = (m.get? k).or (if key v = k then some v else none) := by
  unfold putNew
  split_ifs with h hk hk
  · obtain ⟨w, hw⟩ := OrdMap.has_iff.1 h
    have hw' : m.get? k = some w := hk ▸ hw
    rw [hw', Option.some_or]
  · rw [Option.or_none]
  · have hnone : m.get? k = none := hk ▸ OrdMap.has_eq_false_iff.1 (Bool.not_eq_true _ ▸ h)
    rw [hnone, Option.none_or, ← hk, get?_put_self]
  · rw [Option.or_none, get?_put_of_ne (Ne.symm hk)]

/-- Putting the values of a list in turn keeps the first of every key. -/
theorem get?_foldl_putNew (l : List υ) (m : KeyedMap key) (k : κ) :
    (l.foldl putNew m).get? k = (m.get? k).or (l.find? fun v => key v = k) := by
  induction l generalizing m with
  | nil => rw [List.foldl_nil, List.find?_nil, Option.or_none]
  | cons v l ih =>
    rw [List.foldl_cons, ih, get?_putNew, List.find?_cons]
    by_cases hk : key v = k <;> simp [hk]

variable {l : List υ}

theorem entries_foldl_put (h : (m.entries.map Prod.fst ++ l.map key).Nodup) :
    (l.foldl put m).entries = m.entries ++ l.map fun v => (key v, v) := by
  induction l generalizing m with
  | nil => exact (List.append_nil _).symm
  | cons v l ih =>
    have hnew : m.toOrdMap.get? (key v) = none := by
      rw [Option.eq_none_iff_forall_ne_some]
      intro w hw
      have hmem : key v ∈ m.entries.map Prod.fst :=
        List.mem_map.2 ⟨(key v, w), OrdMap.mem_entries_iff.2 hw, rfl⟩
      exact (List.nodup_append.1 h).2.2 _ hmem _ List.mem_cons_self rfl
    have hput : (m.put v).entries = m.entries ++ [(key v, v)] :=
      OrdMap.entries_set_of_get?_eq_none hnew v
    rw [List.foldl_cons, ih, hput, List.append_assoc]
    · rfl
    · rw [hput, List.map_append, List.append_assoc]
      exact h

omit [DecidableEq κ] in
theorem nodup_values_map_key (m : KeyedMap key) : (m.values.map key).Nodup := by
  have h : m.values.map key = m.entries.map Prod.fst := by
    rw [values, OrdMap.values, List.map_map]
    exact List.map_congr_left fun e he => m.keyed e he
  exact h ▸ m.nodup_keys

/-- Putting values with different keys in turn keeps them all. -/
theorem values_foldl_put (h : (l.map key).Nodup) :
    (l.foldl put (empty : KeyedMap key)).values = l := by
  rw [values, OrdMap.values, entries_foldl_put (by exact h), List.map_append, List.map_map]
  exact List.map_id l

theorem get?_eq_some_iff : m.get? k = some v ↔ key v = k ∧ v ∈ m.values := by
  constructor
  · intro h
    exact ⟨key_eq h, mem_values_of_get? h⟩
  · rintro ⟨rfl, h⟩
    exact mem_values_iff.1 h

/-- Of the values with one key that are put in turn the last one stays. -/
theorem get?_foldl_put (l : List υ) (m : KeyedMap key) (k : κ) :
    (l.foldl put m).get? k = (l.reverse.find? fun v => key v = k).or (m.get? k) := by
  induction l generalizing m with
  | nil => rw [List.foldl_nil, List.reverse_nil, List.find?_nil, Option.none_or]
  | cons v l ih =>
    rw [List.foldl_cons, ih, List.reverse_cons, List.find?_append, get?_put]
    by_cases hk : k = key v
    · simp [hk]
    · simp [hk, Ne.symm hk]

/-- Putting values of which no two share a key keeps them all. -/
theorem mem_values_foldl_put (h : ∀ v ∈ l, ∀ w ∈ l, key v = key w → v = w) :
    v ∈ (l.foldl put (empty : KeyedMap key)).values ↔ v ∈ l := by
  rw [mem_values_iff, get?_foldl_put, get?_empty, Option.or_none]
  refine ⟨fun hv => List.mem_reverse.1 (List.mem_of_find?_eq_some hv), fun hv => ?_⟩
  cases hw : l.reverse.find? fun w => key w = key v with
  | none => simpa using List.find?_eq_none.1 hw v (List.mem_reverse.2 hv)
  | some w =>
    have hkey := List.find?_some hw
    rw [h w (List.mem_reverse.1 (List.mem_of_find?_eq_some hw)) v hv (by simpa using hkey)]

/-- Putting the values of a map in another order keeps them all. -/
theorem get?_foldl_put_of_perm (h : l.Perm m.values) (k : κ) :
    (l.foldl put (empty : KeyedMap key)).get? k = m.get? k := by
  have hnodup : (l.map key).Nodup := (h.map key).nodup_iff.2 (nodup_values_map_key m)
  ext v
  rw [get?_eq_some_iff, get?_eq_some_iff, values_foldl_put hnodup, h.mem_iff]

/-- Putting the values of a map in turn makes the map. -/
theorem foldl_put_values (m : KeyedMap key) : m.values.foldl put empty = m := by
  have hentries : m.values.map (fun v => (key v, v)) = m.entries := by
    rw [values, OrdMap.values, List.map_map]
    conv_rhs => rw [← List.map_id m.entries]
    refine List.map_congr_left fun e he => ?_
    exact Prod.ext (m.keyed e he) rfl
  refine KeyedMap.ext ((entries_foldl_put (l := m.values) ?_).trans hentries)
  exact nodup_values_map_key m

end KeyedMap
