import Mathlib.Data.List.Dedup
import Mathlib.Data.List.Sort
import Mathlib.Order.Bounds.Basic

/-!
# Cutoffs that block a family of sets

Every member `i` has reached a level or none (`level i`). A cutoff `T` blocks a
family of sets of members if every set of the family has a member whose level is
at least `T` (`cutoffs`).

* Two families whose sets contain sets of each other have the same cutoffs
  (`cutoffs_eq_of_contains`).
* A family with a set of members without levels has no cutoff (`cutoffs_eq_empty`), one without sets
  no greatest cutoff (`not_isGreatest_cutoffs_empty`).
* For the family of all sets of at least `k` members, the greatest cutoff is the `k`-th lowest
  level, members without a level coming first (`isGreatest_cutoffs_atLeast_iff`).

Sets of members are given as lists of them.
-/

namespace Blocking

open List

variable {ι α : Type*} [LinearOrder α]

/-- The level of `i` is known and at least `T`. -/
def Reaches (level : ι → Option α) (T : α) (i : ι) : Prop := ∃ c, level i = some c ∧ T ≤ c

/-- The cutoffs that a member of every set of the family has reached. -/
def cutoffs (F : Set (List ι)) (level : ι → Option α) : Set α :=
  {T | ∀ S ∈ F, ∃ i ∈ S, Reaches level T i}

variable {F G : Set (List ι)} {level : ι → Option α} {T : α}

/-- Families whose sets contain sets of each other have the same cutoffs. -/
theorem cutoffs_eq_of_contains (hFG : ∀ S ∈ F, ∃ P ∈ G, P ⊆ S) (hGF : ∀ P ∈ G, ∃ S ∈ F, S ⊆ P)
    (level : ι → Option α) : cutoffs F level = cutoffs G level := by
  have key : ∀ {F G : Set (List ι)}, (∀ S ∈ F, ∃ P ∈ G, P ⊆ S) →
      cutoffs G level ⊆ cutoffs F level := by
    intro F G hFG T h S hS
    obtain ⟨P, hP, hPS⟩ := hFG S hS
    obtain ⟨i, hi, hreach⟩ := h P hP
    exact ⟨i, hPS hi, hreach⟩
  exact (key hGF).antisymm (key hFG)

/-- A family with a set of members without levels has no cutoff. -/
theorem cutoffs_eq_empty {S : List ι} (hS : S ∈ F) (hnone : ∀ i ∈ S, level i = none) :
    cutoffs F level = ∅ := by
  refine Set.eq_empty_of_forall_notMem fun T hT => ?_
  obtain ⟨i, hi, c, hc, _⟩ := hT S hS
  exact absurd (hnone i hi) (by simp [hc])

/-- Without a set to block there is no greatest cutoff. -/
theorem not_isGreatest_cutoffs_empty [NoMaxOrder α] (hF : F = ∅) :
    ¬ IsGreatest (cutoffs F level) T := by
  rintro ⟨_, hT⟩
  obtain ⟨T', hT'⟩ := exists_gt T
  exact absurd (hT fun S hS => absurd (hF ▸ hS) (Set.notMem_empty S)) (not_le.2 hT')

/-! ## Sets of at least a number of members -/

section AtLeast

variable [DecidableEq ι]

/-- The sets of at least `k` of the members `V`. -/
def atLeast (V : List ι) (k : ℕ) : Set (List ι) := {S | S ⊆ V ∧ k ≤ S.dedup.length}

open Classical in
/-- A cutoff blocks all sets of at least `k` members if fewer than `k` of them
    have not reached it. -/
theorem mem_cutoffs_atLeast_iff {V : List ι} (hV : V.Nodup) {k : ℕ} :
    T ∈ cutoffs (atLeast V k) level ↔ (V.filter fun i => ¬ Reaches level T i).length < k := by
  constructor
  · intro h
    by_contra hk
    -- The members below `T` are themselves a set of the family.
    have hnodup : (V.filter fun i => ¬ Reaches level T i).Nodup := hV.filter _
    obtain ⟨i, hi, hreach⟩ := h (V.filter fun i => ¬ Reaches level T i)
      ⟨filter_sublist.subset, by rw [hnodup.dedup]; omega⟩
    exact absurd hreach (by simpa using (mem_filter.1 hi).2)
  · rintro h S ⟨hSV, hkS⟩
    by_contra hnone
    push Not at hnone
    have hsub : S.dedup ⊆ V.filter fun i => ¬ Reaches level T i := fun i hi => by
      have hiS := mem_dedup.1 hi
      exact mem_filter.2 ⟨hSV hiS, by simpa using hnone i hiS⟩
    have := (subperm_of_subset S.nodup_dedup hsub).length_le
    omega

/-- The element of a sorted list at a position is at least `T` if no more
    elements than the position are less. -/
theorem le_getElem_iff {l : List α} (hl : l.Pairwise (· ≤ ·)) {j : ℕ} (hj : j < l.length) :
    T ≤ l[j] ↔ (l.filter (· < T)).length ≤ j := by
  have hnil : ∀ {a : α} {l : List α}, (∀ b ∈ l, a ≤ b) → T ≤ a → l.filter (· < T) = [] :=
    fun hab hTa => filter_eq_nil_iff.2 fun b hb => by simpa using hTa.trans (hab b hb)
  induction l generalizing j with
  | nil => exact absurd hj (Nat.not_lt_zero j)
  | cons a l ih =>
    obtain ⟨hal, hl⟩ := pairwise_cons.1 hl
    rcases lt_or_ge a T with ha | ha
    · rw [filter_cons_of_pos (by simpa using ha)]
      cases j with
      | zero => simpa using ha
      | succ j => simpa using ih hl (j := j) (by simpa using hj)
    · have hall : T ≤ (a :: l)[j] := by
        rcases mem_cons.1 (getElem_mem hj) with h | h
        · exact ha.trans h.ge
        · exact ha.trans (hal _ h)
      rw [filter_cons_of_neg (by simpa using ha), hnil hal ha]
      exact ⟨fun _ => Nat.zero_le j, fun _ => hall⟩

omit [DecidableEq ι] in
open Classical in
theorem length_filter_not_reaches (level : ι → Option α) (T : α) (V : List ι) :
    (V.filter fun i => ¬ Reaches level T i).length + (V.filterMap level).length =
      V.length + ((V.filterMap level).filter (· < T)).length := by
  induction V with
  | nil => rfl
  | cons i V ih =>
    cases hi : level i with
    | none =>
      have hnot : ¬ Reaches level T i := fun ⟨c, hc, _⟩ => by simp [hi] at hc
      rw [filter_cons_of_pos (by simpa using hnot), filterMap_cons_none hi]
      simp only [length_cons]
      omega
    | some c =>
      rw [filterMap_cons_some hi]
      rcases lt_or_ge c T with hc | hc
      · have hnot : ¬ Reaches level T i := fun ⟨c', hc', hT⟩ => by
          rw [hi, Option.some.injEq] at hc'
          exact absurd (hc' ▸ hT) (not_le.2 hc)
        rw [filter_cons_of_pos (by simpa using hnot), filter_cons_of_pos (by simpa using hc)]
        simp only [length_cons]
        omega
      · have hreach : Reaches level T i := ⟨c, hi, hc⟩
        rw [filter_cons_of_neg (by simpa using hreach),
          filter_cons_of_neg (by simpa using hc)]
        simp only [length_cons]
        omega

/-- The greatest cutoff of the sets of at least `k` members is the `k`-th lowest
    level, members without a level coming first. -/
theorem isGreatest_cutoffs_atLeast_iff {V : List ι} (hV : V.Nodup) {k : ℕ} (hk : k ≤ V.length)
    {sorted : List α} (hsorted : sorted.Pairwise (· ≤ ·))
    (hperm : sorted.Perm (V.filterMap level)) : IsGreatest (cutoffs (atLeast V k) level) T ↔
      ∃ j, j + 1 + (V.length - sorted.length) = k ∧ sorted[j]? = some T := by
  have hle : sorted.length ≤ V.length := hperm.length_eq ▸ length_filterMap_le level V
  have hmem : ∀ T, T ∈ cutoffs (atLeast V k) level ↔
      (V.length - sorted.length) + (sorted.filter (· < T)).length < k := fun T => by
    have h := length_filter_not_reaches level T V
    rw [mem_cutoffs_atLeast_iff hV, (hperm.filter _).length_eq, hperm.length_eq]
    have := hperm.length_eq
    omega
  by_cases hmissing : k ≤ V.length - sorted.length
  · -- The members without a level are a set of the family.
    constructor
    · intro h
      have := (hmem T).1 h.1
      omega
    · omega
  · obtain ⟨j, hj⟩ : ∃ j, j + 1 + (V.length - sorted.length) = k :=
      ⟨k - 1 - (V.length - sorted.length), by omega⟩
    have hjl : j < sorted.length := by omega
    have hmem' : ∀ T, T ∈ cutoffs (atLeast V k) level ↔ T ≤ sorted[j] := fun T => by
      rw [hmem, le_getElem_iff hsorted hjl]
      omega
    have hgreatest : IsGreatest (cutoffs (atLeast V k) level) sorted[j] :=
      ⟨(hmem' _).2 le_rfl, fun T' hT' => (hmem' T').1 hT'⟩
    constructor
    · intro h
      exact ⟨j, hj, by rw [getElem?_eq_getElem hjl, h.unique hgreatest]⟩
    · rintro ⟨j', hj', hT⟩
      obtain rfl : j' = j := by omega
      rw [getElem?_eq_getElem hjl, Option.some.injEq] at hT
      exact hT ▸ hgreatest

end AtLeast

end Blocking
