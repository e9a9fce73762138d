import Chronolog.Lib.Procedure

/-!
# Contracts of procedures

What a procedure that may fail ensures: a condition on its result and the state it ends
in, and another one for the case that it fails. A contract of a sequence is put together
from those of its parts (`Meets.bind`), that of a loop from an invariant of its body
(`meets_forM`), and that of a procedure that works on a part of the state from what it
does to that part (`meets_zoom`).
-/

namespace Procedure

variable {ε σ τ α β : Type} {P P' : σ → Prop} {Q Q' : α → σ → Prop} {R : β → σ → Prop}
  {E E' : ε → σ → Prop}
variable {x : EStateM ε σ α}

/-- From a state with `P`, the procedure ends with `Q`, or fails with `E`. -/
def Meets (P : σ → Prop) (x : EStateM ε σ α) (Q : α → σ → Prop) (E : ε → σ → Prop) : Prop :=
  ∀ s, P s → match x s with
    | .ok a s' => Q a s'
    | .error e s' => E e s'

/-- A procedure that keeps `P`, or fails with `E`. -/
abbrev KeepsOr (P : σ → Prop) (x : EStateM ε σ α) (E : ε → σ → Prop) : Prop :=
  Meets P x (fun _ => P) E

theorem Meets.of_ok (h : Meets P x Q E) {s s' : σ} {a : α} (hs : P s) (hx : x s = .ok a s') :
    Q a s' := by
  have := h s hs
  rwa [hx] at this

theorem Meets.of_error (h : Meets P x Q E) {s s' : σ} {e : ε} (hs : P s)
    (hx : x s = .error e s') : E e s' := by
  have := h s hs
  rwa [hx] at this

theorem meets_of (hok : ∀ s a s', P s → x s = .ok a s' → Q a s')
    (herror : ∀ s e s', P s → x s = .error e s' → E e s') : Meets P x Q E := by
  intro s hs
  cases hx : x s with
  | ok a s' => exact hok s a s' hs hx
  | error e s' => exact herror s e s' hs hx

theorem Meets.weaken (h : Meets P x Q E) (hP : ∀ s, P' s → P s)
    (hQ : ∀ a s, Q a s → Q' a s) (hE : ∀ e s, E e s → E' e s) : Meets P' x Q' E' :=
  meets_of (fun s a s' hs hx => hQ a s' (h.of_ok (hP s hs) hx))
    fun s e s' hs hx => hE e s' (h.of_error (hP s hs) hx)

/-- A contract for each state to start from. -/
theorem meets_of_forall (h : ∀ s, P s → Meets (· = s) x Q E) : Meets P x Q E :=
  fun s hs => h s hs s rfl

theorem Meets.mono_error (h : Meets P x Q E) (hE : ∀ e s, E e s → E' e s) : Meets P x Q E' :=
  h.weaken (fun _ => id) (fun _ _ => id) hE

theorem Meets.mono_result (h : Meets P x Q E) (hQ : ∀ a s, Q a s → Q' a s) : Meets P x Q' E :=
  h.weaken (fun _ => id) hQ fun _ _ => id

theorem Meets.mono_start (h : Meets P x Q E) (hP : ∀ s, P' s → P s) : Meets P' x Q E :=
  h.weaken hP (fun _ _ => id) fun _ _ => id

/-- What a contract assumes and the state has no part in. -/
theorem meets_of_and {p : Prop} (h : p → Meets P x Q E) : Meets (fun s => p ∧ P s) x Q E :=
  fun s hs => h hs.1 s hs.2

theorem meets_pure {a : α} (h : ∀ s, P s → Q a s) : Meets P (pure a : EStateM ε σ α) Q E := h

theorem meets_throw {e : ε} (h : ∀ s, P s → E e s) : Meets P (throw e : EStateM ε σ α) Q E := h

variable {f : α → EStateM ε σ β}

theorem meets_throw_bind {e : ε} (h : ∀ s, P s → E e s) :
    Meets P ((throw e : EStateM ε σ α) >>= f) R E := h

theorem Keeps.meets (h : Keeps P x) : KeepsOr P x fun _ => P := by
  intro s hs
  have hx := h s hs
  cases hrun : x s with
  | ok a s' => rwa [hrun] at hx
  | error e s' => rwa [hrun] at hx

theorem meets_set {s' : σ} {Q : PUnit → σ → Prop} (h : (∃ s, P s) → Q ⟨⟩ s') :
    Meets P (set s' : EStateM ε σ PUnit) Q E := fun s hs => h ⟨s, hs⟩

theorem meets_modify {f : σ → σ} {Q : PUnit → σ → Prop} (h : ∀ s, P s → Q ⟨⟩ (f s)) :
    Meets P (modify f : EStateM ε σ PUnit) Q E := h

theorem Meets.bind (hx : Meets P x Q E) (hf : ∀ a, Meets (Q a) (f a) R E) :
    Meets P (x >>= f) R E := by
  intro s hs
  cases h : x s with
  | ok a s' =>
    rw [bind_run_of_ok h]
    exact hf a s' (hx.of_ok hs h)
  | error e s' =>
    rw [bind_run_of_error h]
    exact hx.of_error hs h

/-- What the first part tells of its result is at hand in the second. -/
theorem Meets.bind_of {p : α → Prop} (hx : Meets P x (fun a s => p a ∧ Q a s) E)
    (hf : ∀ a, p a → Meets (Q a) (f a) R E) : Meets P (x >>= f) R E :=
  hx.bind fun a => meets_of_and (hf a)

theorem meets_get_bind {f : σ → EStateM ε σ α} (h : ∀ s, P s → Meets (· = s) (f s) Q E) :
    Meets P (get >>= f) Q E :=
  fun s hs => h s hs s rfl

theorem meets_ite {c : Prop} [Decidable c] {x y : EStateM ε σ α} (hx : c → Meets P x Q E)
    (hy : ¬c → Meets P y Q E) : Meets P (if c then x else y) Q E := by
  split
  · exact hx ‹_›
  · exact hy ‹_›

/-- A loop keeps an invariant of its body. -/
theorem meets_forM {l : List β} {f : β → EStateM ε σ PUnit}
    (h : ∀ b ∈ l, KeepsOr P (f b) E) : KeepsOr P (l.forM f) E := by
  induction l with
  | nil => exact meets_pure fun _ hs => hs
  | cons b l ih =>
    exact (h b List.mem_cons_self).bind fun _ => ih fun b' hb' => h b' (List.mem_cons_of_mem b hb')

/-- A procedure whose errors are handled. -/
theorem Meets.tryCatch {handler : ε → EStateM ε σ α} (hx : Meets P x Q E)
    (hh : ∀ e, Meets (E e) (handler e) Q E') : Meets P (tryCatch x handler) Q E' := by
  intro s hs
  cases h : x s with
  | ok a s' =>
    have hrun : MonadExcept.tryCatch x handler s = .ok a s' := by
      change EStateM.tryCatch x handler s = _
      delta EStateM.tryCatch
      simp only [h]
    rw [hrun]
    exact hx.of_ok hs h
  | error e s' =>
    have hrun : MonadExcept.tryCatch x handler s = handler e s' := by
      change EStateM.tryCatch x handler s = _
      delta EStateM.tryCatch
      simp only [h]
      rfl
    rw [hrun]
    exact hh e s' (hx.of_error hs h)

/-! ## Parts of a state -/

/-- A procedure on a part of the state. -/
def zoom (part : τ → σ) (put : σ → τ → τ) (x : EStateM ε σ α) : EStateM ε τ α := fun t =>
  match x (part t) with
  | .ok a s => .ok a (put s t)
  | .error e s => .error e (put s t)

theorem meets_zoom {part : τ → σ} {put : σ → τ → τ} {P : τ → Prop}
    {Q : α → τ → Prop} {E : ε → τ → Prop}
    (h : ∀ t, P t → Meets (· = part t) x (fun a s => Q a (put s t)) fun e s => E e (put s t)) :
    Meets P (zoom part put x) Q E := by
  intro t ht
  have hx := h t ht (part t) rfl
  cases hrun : x (part t) with
  | ok a s =>
    simp only [zoom, hrun] at hx ⊢
    exact hx
  | error e s =>
    simp only [zoom, hrun] at hx ⊢
    exact hx

end Procedure
