import Mathlib.Logic.Relation
import Mathlib.Order.Monotone.Basic
import Mathlib.Order.WellFounded

/-!
# Runs of a system of steps

What every step keeps, every run keeps.
-/

namespace Reachable

open Relation

variable {σ : Type*} {step : σ → σ → Prop} {P : σ → Prop} {s s' : σ}

/-- A property that every step keeps holds after a run. -/
theorem invariant (hstep : ∀ {s s'}, P s → step s s' → P s') (h : ReflTransGen step s s')
    (hs : P s) : P s' := by
  induction h with
  | refl => exact hs
  | tail _ hlast ih => exact hstep ih hlast

/-- A run without end whose rank never grows, and gets less at some later time as long as a property does
    not hold, comes to hold it. -/
theorem eventually_of_rank {trace : ℕ → σ} {rank : σ → ℕ}
    (hle : ∀ time, rank (trace (time + 1)) ≤ rank (trace time)) (hfair : ∀ time, ¬ P (trace time) →
      ∃ later, time ≤ later ∧ rank (trace (later + 1)) < rank (trace later)) :
    ∃ time, P (trace time) := by
  have hanti : Antitone fun time => rank (trace time) := antitone_nat_of_succ_le hle
  by_contra hnot
  push Not at hnot
  -- There would be a rank below every rank.
  have hbelow : ∀ time, ∃ later, rank (trace later) < rank (trace time) := fun time => by
    obtain ⟨later, hlater, hlt⟩ := hfair time (hnot time)
    exact ⟨later + 1, hlt.trans_le (hanti hlater)⟩
  obtain ⟨least, -, hleast⟩ := (InvImage.wf (rank ∘ trace) wellFounded_lt).has_min Set.univ
    ⟨0, trivial⟩
  obtain ⟨later, hlt⟩ := hbelow least
  exact hleast later trivial hlt

end Reachable
