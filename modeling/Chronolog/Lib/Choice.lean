import Mathlib.Data.List.Nodup
import Mathlib.Data.List.Perm.Subperm

/-!
# One item for every key

Reading a list and keeping the first item of every key is a choice of one item
for every key, and every such choice is what is kept of the list in some order.
-/

namespace Chronolog

open List

namespace Choice

variable {α κ : Type*} {key : α → κ}

/-- `chosen` has one item of `l` for every key of an item of `l`. -/
structure IsChoice (key : α → κ) (l chosen : List α) : Prop where
  subset : chosen ⊆ l
  nodup : (chosen.map key).Nodup
  covers : ∀ a ∈ l, ∃ b ∈ chosen, key b = key a

variable [DecidableEq κ]

/-- The first item of every key that is not one of those passed. -/
def firsts (key : α → κ) : (passed : List κ) → List α → List α
  | _, [] => []
  | passed, a :: l =>
    if key a ∈ passed then firsts key passed l else a :: firsts key (key a :: passed) l

theorem firsts_subset (passed : List κ) (l : List α) : firsts key passed l ⊆ l := by
  induction l generalizing passed with
  | nil => exact Subset.refl _
  | cons a l ih =>
    rw [firsts]
    split_ifs
    · exact subset_cons_of_subset _ (ih passed)
    · exact cons_subset_cons _ (ih _)

variable {passed : List κ}

/-- No key of an item kept was passed before. -/
theorem notMem_of_mem_firsts {l : List α} {a : α} (h : a ∈ firsts key passed l) :
    key a ∉ passed := by
  induction l generalizing passed with
  | nil => cases h
  | cons b l ih =>
    rw [firsts] at h
    split_ifs at h with hb
    · exact ih h
    · rcases mem_cons.1 h with rfl | h
      · exact hb
      · exact fun hpassed => ih h (mem_cons_of_mem _ hpassed)

theorem nodup_map_firsts (passed : List κ) (l : List α) :
    ((firsts key passed l).map key).Nodup := by
  induction l generalizing passed with
  | nil => exact nodup_nil
  | cons a l ih =>
    rw [firsts]
    split_ifs
    · exact ih passed
    · refine nodup_cons.2 ⟨fun ha => ?_, ih _⟩
      obtain ⟨b, hb, hkey⟩ := mem_map.1 ha
      exact notMem_of_mem_firsts hb (hkey ▸ mem_cons_self)

theorem exists_mem_firsts {l : List α} {a : α} (ha : a ∈ l) (hpassed : key a ∉ passed) :
    ∃ b ∈ firsts key passed l, key b = key a := by
  induction l generalizing passed with
  | nil => cases ha
  | cons b l ih =>
    rw [firsts]
    split_ifs with hb
    · rcases mem_cons.1 ha with rfl | ha
      · exact absurd hb hpassed
      · exact ih ha hpassed
    · by_cases hkey : key b = key a
      · exact ⟨b, mem_cons_self, hkey⟩
      · have ha' : a ∈ l := (mem_cons.1 ha).resolve_left fun h => hkey (h ▸ rfl)
        obtain ⟨c, hc, hca⟩ := ih ha' (not_mem_cons_of_ne_of_not_mem (Ne.symm hkey) hpassed)
        exact ⟨c, mem_cons_of_mem _ hc, hca⟩

/-- The first items of every key are a choice. -/
theorem isChoice_firsts (l : List α) : IsChoice key l (firsts key [] l) where
  subset := firsts_subset [] l
  nodup := nodup_map_firsts [] l
  covers _ ha := exists_mem_firsts ha not_mem_nil

/-- Items of different keys are kept; behind them, others of their keys are not. -/
theorem firsts_append {chosen rest : List α} (hnodup : (chosen.map key).Nodup)
    (hpassed : ∀ a ∈ chosen, key a ∉ passed)
    (hrest : ∀ a ∈ rest, key a ∈ passed ∨ ∃ b ∈ chosen, key b = key a) :
    firsts key passed (chosen ++ rest) = chosen := by
  induction chosen generalizing passed with
  | nil =>
    refine eq_nil_iff_forall_not_mem.2 fun a ha => notMem_of_mem_firsts ha ?_
    rcases hrest a (firsts_subset _ _ ha) with h | ⟨b, hb, -⟩
    · exact h
    · cases hb
  | cons a chosen ih =>
    rw [map_cons, nodup_cons] at hnodup
    rw [cons_append, firsts, if_neg (hpassed a mem_cons_self), ih hnodup.2]
    · intro b hb hmem
      rcases mem_cons.1 hmem with heq | hmem
      · exact hnodup.1 (heq ▸ mem_map_of_mem hb)
      · exact hpassed b (mem_cons_of_mem _ hb) hmem
    · intro b hb
      rcases hrest b hb with h | ⟨c, hc, hkey⟩
      · exact .inl (mem_cons_of_mem _ h)
      · rcases mem_cons.1 hc with rfl | hc
        · exact .inl (hkey ▸ mem_cons_self)
        · exact .inr ⟨c, hc, hkey⟩

/-- Every choice is kept of the list in some order. -/
theorem IsChoice.exists_perm {l chosen : List α} (h : IsChoice key l chosen) :
    ∃ l', l'.Perm l ∧ firsts key [] l' = chosen := by
  obtain ⟨l₁, hperm₁, hsub⟩ := subperm_of_subset h.nodup.of_map h.subset
  obtain ⟨rest, hrest⟩ := hsub.exists_perm_append
  have hperm : l.Perm (chosen ++ rest) := hrest.trans (hperm₁.append_right rest)
  refine ⟨chosen ++ rest, hperm.symm, firsts_append h.nodup (fun _ _ => not_mem_nil) ?_⟩
  intro a ha
  exact .inr (h.covers a (hperm.mem_iff.2 (mem_append_right _ ha)))

end Choice

end Chronolog
