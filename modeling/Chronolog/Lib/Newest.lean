import Mathlib.Data.List.Induction
import Mathlib.Order.Lattice

/-!
# The newest of a list

Things that come one after the other, with a key and a rank. Of each key the first one of the highest
rank so far is kept (`newest`).
-/

namespace Newest

open List

variable {α κ ρ : Type*} [DecidableEq κ] [LinearOrder ρ] (key : α → κ) (rank : α → ρ)

/-- The newest one after one more. -/
def advance (k : κ) (current : Option α) (a : α) : Option α :=
  if key a = k then
    match current with
    | none => some a
    | some newest => if rank newest < rank a then some a else some newest
  else current

/-- The newest one of a key. -/
def newest (k : κ) (l : List α) : Option α := l.foldl (advance key rank k) none

variable {key rank} {k : κ} {l : List α} {a current : α}

theorem newest_concat :
    newest key rank k (l ++ [a]) = advance key rank k (newest key rank k l) a := by
  simp [newest]

theorem newest_concat_of_ne (h : key a ≠ k) :
    newest key rank k (l ++ [a]) = newest key rank k l := by
  rw [newest_concat]
  exact if_neg h

theorem newest_concat_of_none (h : newest key rank k l = none) (hkey : key a = k) :
    newest key rank k (l ++ [a]) = some a := by
  rw [newest_concat, h]
  exact if_pos hkey

theorem newest_concat_of_lt (h : newest key rank k l = some current) (hkey : key a = k)
    (hlt : rank current < rank a) : newest key rank k (l ++ [a]) = some a := by
  rw [newest_concat, h]
  exact (if_pos hkey).trans (if_pos hlt)

theorem newest_concat_of_le (h : newest key rank k l = some current) (hkey : key a = k)
    (hle : rank a ≤ rank current) : newest key rank k (l ++ [a]) = some current := by
  rw [newest_concat, h]
  exact (if_pos hkey).trans (if_neg (not_lt.2 hle))

theorem newest_eq_none (h : newest key rank k l = none) : ∀ a ∈ l, key a ≠ k := by
  induction l using reverseRecOn with
  | nil => exact nofun
  | append_singleton l last ih =>
    by_cases hkey : key last = k
    · subst hkey
      cases hl : newest key rank (key last) l with
      | none => cases (newest_concat_of_none hl rfl).symm.trans h
      | some current =>
        rcases lt_or_ge (rank current) (rank last) with hlt | hle
        · cases (newest_concat_of_lt hl rfl hlt).symm.trans h
        · cases (newest_concat_of_le hl rfl hle).symm.trans h
    · rw [newest_concat_of_ne hkey] at h
      simpa [or_imp, forall_and, hkey] using ih h

/-- The newest one is the first of its rank, and none has a higher one. -/
theorem newest_eq_some (h : newest key rank k l = some a) : key a = k ∧
    (∀ b ∈ l, key b = k → rank b ≤ rank a) ∧
    ∃ before after, l = before ++ a :: after ∧ ∀ b ∈ before, key b = k → rank b < rank a := by
  induction l using reverseRecOn generalizing a with
  | nil => cases h
  | append_singleton l last ih =>
    by_cases hkey : key last = k
    · subst hkey
      cases hl : newest key rank (key last) l with
      | none =>
        cases (newest_concat_of_none hl rfl).symm.trans h
        have hne := newest_eq_none hl
        refine ⟨rfl, fun b hb hkey => ?_, l, [], rfl, fun b hb hkey => absurd hkey (hne b hb)⟩
        rcases mem_append.1 hb with hb | hb
        · exact absurd hkey (hne b hb)
        · rw [mem_singleton.1 hb]
      | some current =>
        obtain ⟨hcurrent, hmax, before, after, rfl, hbefore⟩ := ih hl
        rcases lt_or_ge (rank current) (rank last) with hlt | hle
        · cases (newest_concat_of_lt hl rfl hlt).symm.trans h
          refine ⟨rfl, fun b hb hkey => ?_, _, [], rfl,
            fun b hb hkey => (hmax b hb hkey).trans_lt hlt⟩
          rcases mem_append.1 hb with hb | hb
          · exact (hmax b hb hkey).trans hlt.le
          · rw [mem_singleton.1 hb]
        · cases (newest_concat_of_le hl rfl hle).symm.trans h
          refine ⟨hcurrent, fun b hb hkey => ?_, before, after ++ [last], by simp, hbefore⟩
          rcases mem_append.1 hb with hb | hb
          · exact hmax b hb hkey
          · rwa [mem_singleton.1 hb]
    · rw [newest_concat_of_ne hkey] at h
      obtain ⟨ha, hmax, before, after, rfl, hbefore⟩ := ih h
      refine ⟨ha, fun b hb hkey' => ?_, before, after ++ [last], by simp, hbefore⟩
      rcases mem_append.1 hb with hb | hb
      · exact hmax b hb hkey'
      · exact absurd (mem_singleton.1 hb ▸ hkey') hkey

/-- A place in a list with one more is a place in the list, or the last. -/
theorem exists_split_concat_iff {P : List α → α → Prop} :
    (∃ before b after, l ++ [a] = before ++ b :: after ∧ P before b) ↔
      (∃ before b after, l = before ++ b :: after ∧ P before b) ∨ P l a := by
  constructor
  · rintro ⟨before, b, after, heq, h⟩
    rcases eq_nil_or_concat after with rfl | ⟨after, last, rfl⟩
    · obtain ⟨rfl, hlast⟩ := append_inj' heq rfl
      obtain rfl := singleton_inj.1 hlast
      exact .inr h
    · rw [concat_eq_append, ← cons_append, ← append_assoc] at heq
      exact .inl ⟨before, b, after, (append_inj' heq rfl).1, h⟩
  · rintro (⟨before, b, after, rfl, h⟩ | h)
    · exact ⟨before, b, after ++ [a], by simp, h⟩
    · exact ⟨l, a, [], rfl, h⟩

end Newest
