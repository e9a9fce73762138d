import Chronolog.Lib.Procedure

/-!
# Reading from an input

Procedures whose state is the part of an input that is left. A procedure *reads* a word as a
value if it takes the word off each input that begins with it (`Reads`): what an encoder has
written is read so. Conversely, whatever a procedure returns, it took a word off the input, and
that word is in a relation with the value (`Takes`): so a decoder accepts nothing that an encoder
does not write. Both are put together along a sequence of procedures.
-/

namespace Procedure

variable {ε τ α β : Type} {x : EStateM ε (List τ) α} {f : α → EStateM ε (List τ) β}
  {word word' : List τ} {a : α} {b : β}

/-! ## Reading words -/

/-- The procedure takes the word off each input that begins with it, as the value. -/
def Reads (x : EStateM ε (List τ) α) (word : List τ) (a : α) : Prop :=
  ∀ rest, x (word ++ rest) = .ok a rest

theorem reads_pure (a : α) : Reads (pure a : EStateM ε (List τ) α) [] a := fun _ => rfl

theorem Reads.bind (hx : Reads x word a) (hf : Reads (f a) word' b) :
    Reads (x >>= f) (word ++ word') b := by
  intro rest
  rw [List.append_assoc, bind_run_of_ok (hx (word' ++ rest))]
  exact hf rest

/-- Nothing more is read. -/
theorem Reads.bind_nil (hx : Reads x word a) (hf : Reads (f a) [] b) : Reads (x >>= f) word b := by
  have h := hx.bind hf
  rwa [List.append_nil] at h

/-! ## Taking words -/

/-- Whatever the procedure returns, it took a word in a relation with the value off the input. -/
def Takes (x : EStateM ε (List τ) α) (Q : α → List τ → Prop) : Prop :=
  ∀ input a rest, x input = .ok a rest → ∃ word, input = word ++ rest ∧ Q a word

variable {Q Q' : α → List τ → Prop} {R : β → List τ → Prop}

theorem Takes.weaken (hx : Takes x Q) (h : ∀ a word, Q a word → Q' a word) : Takes x Q' := by
  intro input a rest hrun
  obtain ⟨word, hinput, hQ⟩ := hx input a rest hrun
  exact ⟨word, hinput, h a word hQ⟩

theorem takes_pure (h : Q a []) : Takes (pure a : EStateM ε (List τ) α) Q := by
  intro input a' rest hrun
  cases hrun
  exact ⟨[], rfl, h⟩

theorem takes_throw (e : ε) : Takes (throw e : EStateM ε (List τ) α) Q :=
  fun _ _ _ hrun => absurd hrun nofun

theorem Takes.bind (hx : Takes x Q)
    (hf : ∀ a word, Q a word → Takes (f a) fun b word' => R b (word ++ word')) :
    Takes (x >>= f) R := by
  intro input b rest hrun
  obtain ⟨a, middle, hrun, hrun'⟩ := bind_run_eq_ok_iff.1 hrun
  obtain ⟨word, rfl, hQ⟩ := hx input a middle hrun
  obtain ⟨word', rfl, hR⟩ := hf a word hQ middle b rest hrun'
  exact ⟨word ++ word', (List.append_assoc ..).symm, hR⟩

theorem takes_ite {c : Prop} [Decidable c] {y : EStateM ε (List τ) α} (hx : c → Takes x Q)
    (hy : ¬c → Takes y Q) : Takes (if c then x else y) Q := by
  split
  · exact hx ‹c›
  · exact hy ‹¬c›

end Procedure
