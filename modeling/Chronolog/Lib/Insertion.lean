import Mathlib.Data.List.Basic

/-!
# Insertion by binary search

The loop of a binary search whose comparison may fail (`lowerBound`), and the
insertion of an element into a list at the position it finds (`insertAt`). If
the positions that come before the element are the first ones, the search finds
how many they are (`lowerBound_eq_ok`), and the insertion keeps a list sorted
(`pairwise_insertAt`).
-/

namespace Insertion

variable {ε α : Type*}

/-- At most `fuel` rounds of a binary search between `low` and `high` for the
    first position that is not `before` the one to insert at. -/
def lowerBound (before : ℕ → Except ε Bool) : (fuel low high : ℕ) → Except ε ℕ
  | 0, low, _ => .ok low
  | fuel + 1, low, high =>
    if low < high then do
      let middle := (low + high) / 2
      if ← before middle then lowerBound before fuel (middle + 1) high
      else lowerBound before fuel low middle
    else .ok low

/-- The search finds the number of positions that are before the one to insert
    at, if these are the first ones. -/
theorem lowerBound_eq_ok {before : ℕ → Except ε Bool} {p : ℕ → Bool} {n : ℕ}
    (hbefore : ∀ i < n, before i = .ok (p i)) (hmono : ∀ i j, i ≤ j → j < n → p j → p i)
    {fuel low high : ℕ} (hfuel : high - low ≤ fuel) (hle : low ≤ high) (hn : high ≤ n)
    (hlow : ∀ i < low, p i) (hhigh : ∀ i, high ≤ i → i < n → p i = false) :
    ∃ r ≤ n, lowerBound before fuel low high = .ok r ∧ (∀ i < r, p i) ∧
      ∀ i, r ≤ i → i < n → p i = false := by
  induction fuel generalizing low high with
  | zero =>
    have hlh : low = high := by omega
    exact ⟨low, by omega, rfl, hlow, fun i hi => hhigh i (hlh ▸ hi)⟩
  | succ fuel ih =>
    by_cases h : low < high
    · have hstep : lowerBound before (fuel + 1) low high =
          if p ((low + high) / 2) then lowerBound before fuel ((low + high) / 2 + 1) high
          else lowerBound before fuel low ((low + high) / 2) := by
        simp only [lowerBound, if_pos h, hbefore ((low + high) / 2) (by omega)]
        rfl
      rw [hstep]
      cases hp : p ((low + high) / 2) with
      | true =>
        -- Everything up to the middle is before; search the right half.
        refine ih (by omega) (by omega) hn (fun i hi => ?_) hhigh
        exact hmono i _ (by omega) (by omega) hp
      | false =>
        -- Nothing from the middle on is before; search the left half.
        refine ih (by omega) (by omega) (by omega) hlow fun i hi hin => ?_
        by_contra hi'
        have := hmono _ i hi hin (by simpa using hi')
        exact absurd this (by simp [hp])
    · have hlh : low = high := by omega
      rw [lowerBound, if_neg h]
      exact ⟨low, by omega, rfl, hlow, fun i hi => hhigh i (hlh ▸ hi)⟩

/-- The list with `x` inserted before its `n`th element. -/
def insertAt (l : List α) (n : ℕ) (x : α) : List α := l.take n ++ x :: l.drop n

theorem mem_insertAt {l : List α} {n : ℕ} {x y : α} : y ∈ insertAt l n x ↔ y = x ∨ y ∈ l := by
  conv_rhs => rw [← List.take_append_drop n l]
  simp only [insertAt, List.mem_append, List.mem_cons]
  tauto

/-- Inserting an element after all that relate to it and before all it relates
    to keeps a list sorted. -/
theorem pairwise_insertAt {R : α → α → Prop} {l : List α} {n : ℕ} {x : α} (hl : l.Pairwise R)
    (hbefore : ∀ y ∈ l.take n, R y x) (hafter : ∀ y ∈ l.drop n, R x y) :
    (insertAt l n x).Pairwise R := by
  rw [← List.take_append_drop n l, List.pairwise_append] at hl
  obtain ⟨htake, hdrop, hcross⟩ := hl
  refine List.pairwise_append.2 ⟨htake, List.pairwise_cons.2 ⟨hafter, hdrop⟩, fun y hy z hz => ?_⟩
  rcases List.mem_cons.1 hz with rfl | hz
  · exact hbefore y hy
  · exact hcross y hy z hz

end Insertion
