import Chronolog.Lib.OrdMap
import Mathlib.Data.List.Induction

/-!
# Searching sublists up to a key

A dynamic programme over the sublists of a list of items. Selections with the
same key are interchangeable, so one of them is retained for each key: a round
(`extend`) adds an item to every retained selection and keeps, for each key, the
better of the selections at hand.

If appending an item respects the key (`RightCongruent`), nothing is lost:
every sublist of the items has a retained selection with its key
(`exists_get?_retained`), and every retained selection is a sublist of the
items stored under its key (`get?_retained`).
-/

namespace Search

open OrdMap List

variable {α κ : Type*} [DecidableEq κ] (key : List α → κ) (better : List α → List α → Bool)
variable {states : OrdMap κ (List α)} {k : κ}

/-- Appending an item to selections of the same key gives selections of the same key. -/
def RightCongruent : Prop :=
  ∀ ⦃s t : List α⦄, key s = key t → ∀ x, key (s ++ [x]) = key (t ++ [x])

/-- Retains the selection `c`, unless one of its key is retained that it does not improve on. -/
def offer (states : OrdMap κ (List α)) (c : List α) : OrdMap κ (List α) :=
  match states.get? (key c) with
  | none => states.set (key c) c
  | some existing => if better c existing then states.set (key c) c else states

/-- A round: every retained selection is offered with the item `x` appended. -/
def extend (states : OrdMap κ (List α)) (x : α) : OrdMap κ (List α) :=
  states.values.foldl (fun next s => offer key better next (s ++ [x])) states

/-- The selections retained after a round for every item, starting from the empty selection. -/
def retained (items : List α) : OrdMap κ (List α) :=
  items.foldl (extend key better) (OrdMap.empty.set (key []) [])

variable {key better}

theorem get?_offer_self (states : OrdMap κ (List α)) (c : List α) :
    ∃ s, (offer key better states c).get? (key c) = some s := by
  unfold offer
  split
  · exact ⟨c, get?_set_self ..⟩
  · next existing h =>
    split
    · exact ⟨c, get?_set_self ..⟩
    · exact ⟨existing, h⟩

theorem get?_offer_mono (h : ∃ s, states.get? k = some s)
    (c : List α) : ∃ s, (offer key better states c).get? k = some s := by
  by_cases hk : k = key c
  · exact hk ▸ get?_offer_self states c
  · unfold offer
    split
    · rwa [get?_set_of_ne hk]
    · split
      · rwa [get?_set_of_ne hk]
      · exact h

theorem eq_or_get?_of_get?_offer {c s : List α} (h : (offer key better states c).get? k = some s) :
    (s = c ∧ k = key c) ∨ states.get? k = some s := by
  have hset : (states.set (key c) c).get? k = some s →
      (s = c ∧ k = key c) ∨ states.get? k = some s := by
    rw [get?_set]
    split_ifs with hk
    · exact fun h => .inl ⟨(Option.some.inj h).symm, hk⟩
    · exact .inr
  unfold offer at h
  split at h
  · exact hset h
  · split at h
    · exact hset h
    · exact .inr h

theorem get?_offers_mono (h : ∃ s, states.get? k = some s)
    (cs : List (List α)) : ∃ s, (cs.foldl (offer key better) states).get? k = some s := by
  induction cs generalizing states with
  | nil => exact h
  | cons c cs ih => exact ih (get?_offer_mono h c)

variable {cs : List (List α)}

theorem get?_offers_mem {c : List α} (hc : c ∈ cs) (states : OrdMap κ (List α)) :
    ∃ s, (cs.foldl (offer key better) states).get? (key c) = some s := by
  induction cs generalizing states with
  | nil => cases hc
  | cons d cs ih =>
    rcases mem_cons.1 hc with rfl | hc
    · exact get?_offers_mono (get?_offer_self states c) cs
    · exact ih hc _

theorem mem_or_get?_of_get?_offers {s : List α}
    (h : (cs.foldl (offer key better) states).get? k = some s) :
    (s ∈ cs ∧ k = key s) ∨ states.get? k = some s := by
  induction cs generalizing states with
  | nil => exact .inr h
  | cons c cs ih =>
    rcases ih h with ⟨hs, hk⟩ | h
    · exact .inl ⟨mem_cons_of_mem _ hs, hk⟩
    · rcases eq_or_get?_of_get?_offer h with ⟨rfl, hk⟩ | h
      · exact .inl ⟨mem_cons_self, hk⟩
      · exact .inr h

theorem extend_eq (states : OrdMap κ (List α)) (x : α) : extend key better states x =
      (states.values.map (· ++ [x])).foldl (offer key better) states := by
  rw [extend, foldl_map]

theorem retained_append (items : List α) (x : α) :
    retained key better (items ++ [x]) = extend key better (retained key better items) x := by
  rw [retained, foldl_append]
  rfl

/-- A retained selection is a sublist of the items, retained under its key. -/
theorem get?_retained {items s : List α} (h : (retained key better items).get? k = some s) :
    key s = k ∧ s.Sublist items := by
  induction items using reverseRecOn generalizing s k with
  | nil =>
    rw [retained, foldl_nil, get?_set] at h
    split_ifs at h with hk
    · cases h
      exact ⟨hk.symm, Sublist.refl _⟩
    · cases h
  | append_singleton items x ih =>
    rw [retained_append, extend_eq] at h
    rcases mem_or_get?_of_get?_offers h with ⟨hs, hk⟩ | h
    · -- A selection of this round: a retained one with `x` appended.
      obtain ⟨t, ht, rfl⟩ := mem_map.1 hs
      obtain ⟨k', hk'⟩ := mem_values_iff.1 ht
      exact ⟨hk.symm, (ih hk').2.append (Sublist.refl [x])⟩
    · exact ⟨(ih h).1, (ih h).2.trans (sublist_append_left items [x])⟩

/-- Every sublist of the items has a retained selection of its key. -/
theorem exists_get?_retained (hkey : RightCongruent key) {items t : List α}
    (ht : t.Sublist items) : ∃ s, (retained key better items).get? (key t) = some s := by
  induction items using reverseRecOn generalizing t with
  | nil =>
    rw [sublist_nil.1 ht]
    exact ⟨[], get?_set_self ..⟩
  | append_singleton items x ih =>
    rw [retained_append, extend_eq]
    obtain ⟨t₁, t₂, rfl, ht₁, ht₂⟩ := sublist_append_iff.1 ht
    obtain ⟨s, hs⟩ := ih ht₁
    rcases sublist_singleton.1 ht₂ with rfl | rfl
    · rw [append_nil]
      exact get?_offers_mono ⟨s, hs⟩ _
    · -- The selection retained for `t₁` is offered with `x` appended.
      rw [← hkey (get?_retained hs).1 x]
      exact get?_offers_mem (mem_map_of_mem (mem_values_iff.2 ⟨_, hs⟩)) _

end Search
