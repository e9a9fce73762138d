import Mathlib.Logic.Basic

/-!
# Procedures that may fail

Inversion of a sequence of computations that may fail (`Except`), and the runs of
procedures on a state that may fail (`EStateM`), instruction by instruction.
-/

namespace Procedure

variable {ε : Type*} {α β : Type}

variable {f : α → Except ε β}

/-- A sequence succeeds if both of its parts do. -/
@[simp]
theorem bind_eq_ok_iff {x : Except ε α} {b : β} :
    (x >>= f) = .ok b ↔ ∃ a, x = .ok a ∧ f a = .ok b := by
  cases x with
  | error e => simp [bind, Except.bind]
  | ok a => simp [bind, Except.bind]

@[simp]
theorem pure_eq_ok_iff {a b : α} : (pure a : Except ε α) = .ok b ↔ a = b :=
  ⟨Except.ok.inj, congrArg _⟩

@[simp]
theorem map_eq_ok_iff {x : Except ε α} {f : α → β} {b : β} :
    f <$> x = .ok b ↔ ∃ a, x = .ok a ∧ f a = b := by
  cases x with
  | error e => exact iff_of_false nofun nofun
  | ok a => simp [Functor.map, Except.map]

/-- A sequence fails if one of its parts does. -/
theorem bind_eq_error_iff {x : Except ε α} {e : ε} :
    (x >>= f) = .error e ↔ x = .error e ∨ ∃ a, x = .ok a ∧ f a = .error e := by
  cases x with
  | error e' => simp [bind, Except.bind]
  | ok a => simp [bind, Except.bind]

/-- A branch that returned. -/
theorem ite_eq_ok {c : Prop} [Decidable c] {x y : Except ε α} {a : α}
    (h : (if c then x else y) = .ok a) : c ∧ x = .ok a ∨ ¬c ∧ y = .ok a := by
  by_cases hc : c
  · rw [if_pos hc] at h
    exact .inl ⟨hc, h⟩
  · rw [if_neg hc] at h
    exact .inr ⟨hc, h⟩

theorem error_bind_ne_ok {e : ε} {b : β} : ((.error e : Except ε α) >>= f) ≠ .ok b := nofun

@[simp] theorem mapError_ok {ε ε' α : Type} {f : ε → ε'} {a : α} :
    (.ok a : Except ε α).mapError f = .ok a := rfl

@[simp] theorem mapError_error {ε ε' α : Type} {f : ε → ε'} {e : ε} :
    (.error e : Except ε α).mapError f = .error (f e) := rfl

theorem mapError_eq_ok_iff {ε ε' α : Type} {x : Except ε α} {f : ε → ε'} {a : α} :
    x.mapError f = .ok a ↔ x = .ok a := by
  cases x <;> simp

theorem toOption_eq_some_iff {ε α : Type} {x : Except ε α} {a : α} :
    x.toOption = some a ↔ x = .ok a := by
  cases x <;> simp [Except.toOption]

/-- The value of a computation that does not fail. -/
def okValue {ε α : Type} : (x : Except ε α) → x.isOk → α
  | .ok a, _ => a

theorem eq_ok_okValue {ε α : Type} : ∀ (x : Except ε α) (h : x.isOk), x = .ok (okValue x h)
  | .ok _, _ => rfl

/-- A relation that every step of a fold is in, the fold is in. -/
theorem rel_of_foldlM {ε σ α : Type} {R : σ → σ → Prop} {f : σ → α → Except ε σ}
    (hrefl : ∀ s, R s s) (htrans : ∀ {s s' s''}, R s s' → R s' s'' → R s s'') {l : List α}
    (hstep : ∀ a ∈ l, ∀ s s', f s a = .ok s' → R s s') {s s' : σ}
    (h : l.foldlM f s = .ok s') : R s s' := by
  induction l generalizing s with
  | nil =>
    obtain rfl := Except.ok.inj h
    exact hrefl s
  | cons a l ih =>
    obtain ⟨s₁, hs₁, h⟩ := bind_eq_ok_iff.1 h
    exact htrans (hstep a List.mem_cons_self s s₁ hs₁)
      (ih (fun a' ha' => hstep a' (List.mem_cons_of_mem _ ha')) h)

/-! ## Runs -/

section Run

variable {ε σ α β : Type} {s s' : σ} {a : α} {e : ε}

@[simp]
theorem modify_run {f : σ → σ} : (modify f : EStateM ε σ PUnit) s = .ok ⟨⟩ (f s) := rfl

@[simp]
theorem throw_run : (throw e : EStateM ε σ α) s = .error e s := rfl

variable {f : α → EStateM ε σ β}

/-- A sequence runs its second part after its first. -/
theorem bind_run_of_ok {x : EStateM ε σ α} (h : x s = .ok a s') : (x >>= f) s = f a s' := by
  simp only [bind, EStateM.bind, h]

/-- A sequence ends with its first part if that fails. -/
theorem bind_run_of_error {x : EStateM ε σ α} (h : x s = .error e s') :
    (x >>= f) s = .error e s' := by
  simp only [bind, EStateM.bind, h]

/-- A sequence runs well if both of its parts do. -/
theorem bind_run_eq_ok_iff {x : EStateM ε σ α} {b : β} :
    (x >>= f) s = .ok b s' ↔ ∃ a s₁, x s = .ok a s₁ ∧ f a s₁ = .ok b s' := by
  constructor
  · intro h
    cases hx : x s with
    | ok a s₁ =>
      rw [bind_run_of_ok hx] at h
      exact ⟨a, s₁, rfl, h⟩
    | error e s₁ =>
      rw [bind_run_of_error hx] at h
      cases h
  · rintro ⟨a, s₁, hx, h⟩
    rw [bind_run_of_ok hx]
    exact h

theorem map_run_of_ok {x : EStateM ε σ α} {f : α → β} (h : x s = .ok a s') :
    (f <$> x) s = .ok (f a) s' := by
  simp only [Functor.map, EStateM.map, h]

@[simp]
theorem bind_pure_run : ((pure a : EStateM ε σ α) >>= f) s = f a s := rfl

@[simp]
theorem bind_get_run {f : σ → EStateM ε σ β} : ((get : EStateM ε σ σ) >>= f) s = f s s := rfl

@[simp]
theorem bind_set_run {f : PUnit → EStateM ε σ β} :
    ((set s' : EStateM ε σ PUnit) >>= f) s = f ⟨⟩ s' := rfl

@[simp]
theorem bind_modify_run {g : σ → σ} {f : PUnit → EStateM ε σ β} :
    ((modify g : EStateM ε σ PUnit) >>= f) s = f ⟨⟩ (g s) := rfl

@[simp]
theorem bind_throw_run : ((throw e : EStateM ε σ α) >>= f) s = .error e s := rfl

end Run

/-! ## What a procedure keeps -/

section Keeps

variable {ε σ α β : Type} {P : σ → Prop}

/-- The state a run ends in, with a result or with an error. -/
def finalState : EStateM.Result ε σ α → σ
  | .ok _ s | .error _ s => s

/-- The value that a run returns. -/
def returned : EStateM.Result ε σ α → Option α
  | .ok a _ => some a
  | .error _ _ => none

variable {r : EStateM.Result ε σ α}

theorem eq_ok_of_returned {a : α} (h : returned r = some a) : r = .ok a (finalState r) := by
  cases r with
  | ok b s =>
    cases h
    rfl
  | error e s => cases h

/-- The error that a run fails with. -/
def failed : EStateM.Result ε σ α → Option ε
  | .ok _ _ => none
  | .error e _ => some e

theorem eq_error_of_failed {e : ε} (h : failed r = some e) : r = .error e (finalState r) := by
  cases r with
  | ok a s => cases h
  | error e' s =>
    cases h
    rfl

/-- The procedure keeps `P`, also if it fails. -/
def Keeps (P : σ → Prop) (x : EStateM ε σ α) : Prop := ∀ s, P s → P (finalState (x s))

theorem keeps_pure (a : α) : Keeps P (pure a : EStateM ε σ α) := fun _ h => h

theorem keeps_get : Keeps P (get : EStateM ε σ σ) := fun _ h => h

theorem keeps_modify {f : σ → σ} (h : ∀ s, P s → P (f s)) :
    Keeps P (modify f : EStateM ε σ PUnit) := h

theorem Keeps.bind {x : EStateM ε σ α} {f : α → EStateM ε σ β} (hx : Keeps P x)
    (hf : ∀ a, Keeps P (f a)) : Keeps P (x >>= f) := by
  intro s hs
  have hs' := hx s hs
  cases h : x s with
  | ok a s' =>
    rw [h] at hs'
    rw [bind_run_of_ok h]
    exact hf a s' hs'
  | error e s' =>
    rw [h] at hs'
    rw [bind_run_of_error h]
    exact hs'

theorem keeps_ite {c : Prop} [Decidable c] {x y : EStateM ε σ α} (hx : Keeps P x)
    (hy : Keeps P y) : Keeps P (if c then x else y) := by
  split
  · exact hx
  · exact hy

end Keeps

/-! ## What a procedure does not look at -/

section Commutes

variable {ε σ α β : Type} {f : σ → σ}

/-- The result, from the state that `f` makes of the one it ends in. -/
def mapState (f : σ → σ) : EStateM.Result ε σ α → EStateM.Result ε σ α
  | .ok a s => .ok a (f s)
  | .error e s => .error e (f s)

/-- The procedure does not look at what `f` changes, and leaves it alone. -/
def Commutes (f : σ → σ) (x : EStateM ε σ α) : Prop := ∀ s, x (f s) = mapState f (x s)

theorem commutes_pure (a : α) : Commutes f (pure a : EStateM ε σ α) := fun _ => rfl

theorem commutes_modify {g : σ → σ} (h : ∀ s, g (f s) = f (g s)) :
    Commutes f (modify g : EStateM ε σ PUnit) := by
  intro s
  rw [modify_run, h]
  rfl

theorem Commutes.bind {x : EStateM ε σ α} {y : α → EStateM ε σ β} (hx : Commutes f x)
    (hy : ∀ a, Commutes f (y a)) : Commutes f (x >>= y) := by
  intro s
  cases h : x s with
  | ok a s' =>
    have h' : x (f s) = .ok a (f s') := by rw [hx, h]; rfl
    rw [bind_run_of_ok h, bind_run_of_ok h']
    exact hy a s'
  | error e s' =>
    have h' : x (f s) = .error e (f s') := by rw [hx, h]; rfl
    rw [bind_run_of_error h, bind_run_of_error h']
    rfl

/-- A procedure that looks at the state, but not at what `f` changes. -/
theorem commutes_get_bind {y : σ → EStateM ε σ β} (hlook : ∀ s, y (f s) = y s)
    (hy : ∀ s, Commutes f (y s)) : Commutes f (get >>= y) := by
  intro s
  rw [bind_get_run, hlook]
  exact hy s s

theorem commutes_ite {c : Prop} [Decidable c] {x y : EStateM ε σ α} (hx : Commutes f x)
    (hy : Commutes f y) : Commutes f (if c then x else y) := by
  split
  · exact hx
  · exact hy

end Commutes

end Procedure
