import Mathlib.Order.Monotone.Basic

/-!
# Values read at two times

A call that reads one value now and another one later answers with a pair that may never have stood. For
values that do not come back once they have changed, the pair stood at some time exactly if the second
value does not change any more once the first one has (`exists_pair_iff`).
-/

namespace Reads

variable {α β : Type*} {a : ℕ → α} {b : ℕ → β} {i j : ℕ}

/-- A value that does not come back once it has changed. -/
def NeverReturns (a : ℕ → α) : Prop :=
  ∀ ⦃i j k⦄, i ≤ j → j ≤ k → a i = a k → a j = a i

/-- Once the first value has changed between two times, the second one does not change. -/
def Undisturbed (a : ℕ → α) (b : ℕ → β) (i j : ℕ) : Prop :=
  ∀ m n, i ≤ m → m ≤ n → n < j → a (m + 1) ≠ a m → b (n + 1) = b n

theorem eq_of_forall_succ (hij : i ≤ j) (h : ∀ m, i ≤ m → m < j → a (m + 1) = a m) : a j = a i := by
  induction j, hij using Nat.le_induction with
  | base => rfl
  | succ j hij ih =>
    rw [h j hij (Nat.lt_succ_self j)]
    exact ih fun m him hmj => h m him (Nat.lt_succ_of_lt hmj)

theorem Undisturbed.exists_pair (hij : i ≤ j) (h : Undisturbed a b i j) :
    ∃ k, a k = a i ∧ b k = b j := by
  induction j, hij using Nat.le_induction with
  | base => exact ⟨i, rfl, rfl⟩
  | succ j hij ih =>
    by_cases hb : b (j + 1) = b j
    · obtain ⟨k, hak, hbk⟩ := ih fun m n him hmn hnj => h m n him hmn (Nat.lt_succ_of_lt hnj)
      exact ⟨k, hak, hbk.trans hb.symm⟩
    -- The second value changes here, so the first one still stands.
    · refine ⟨j + 1, eq_of_forall_succ (Nat.le_succ_of_le hij) fun m him hmj => ?_, rfl⟩
      by_contra ha
      exact hb (h m j him (Nat.lt_succ_iff.1 hmj) (Nat.lt_succ_self j) ha)

theorem undisturbed_of_exists_pair (ha : NeverReturns a) (hb : NeverReturns b)
    (h : ∃ k, a k = a i ∧ b k = b j) : Undisturbed a b i j := by
  obtain ⟨k, hak, hbk⟩ := h
  intro m n him hmn hnj hchange
  -- The first value changes after the time `k` of the pair, from which on the second one stands.
  have hkm : k ≤ m := by
    by_contra hmk
    push Not at hmk
    have hm : a m = a i := ha him hmk.le hak.symm
    have hm' : a (m + 1) = a i := ha (Nat.le_succ_of_le him) hmk hak.symm
    exact hchange (hm'.trans hm.symm)
  have hn : b n = b k := hb (hkm.trans hmn) hnj.le hbk
  have hn' : b (n + 1) = b k := hb (Nat.le_succ_of_le (hkm.trans hmn)) hnj hbk
  exact hn'.trans hn.symm

/-- The value read at a time and another one read later stood together at some time exactly if the second
    one was undisturbed by a change of the first one. -/
theorem exists_pair_iff (ha : NeverReturns a) (hb : NeverReturns b) (hij : i ≤ j) :
    (∃ k, a k = a i ∧ b k = b j) ↔ Undisturbed a b i j :=
  ⟨undisturbed_of_exists_pair ha hb, Undisturbed.exists_pair hij⟩

/-- A value does not come back if it only moves on in a preorder that separates it. -/
theorem NeverReturns.of_le {σ : Type*} {r : σ → σ → Prop} {run : ℕ → σ} {f : σ → α}
    (hrun : ∀ ⦃i j⦄, i ≤ j → r (run i) (run j))
    (hf : ∀ ⦃s t u⦄, r s t → r t u → f s = f u → f t = f s) : NeverReturns fun n => f (run n) :=
  fun _ _ _ hij hjk h => hf (hrun hij) (hrun hjk) h

end Reads
