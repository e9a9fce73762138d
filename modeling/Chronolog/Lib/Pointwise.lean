import Mathlib.Data.List.Perm.Basic

/-!
# Lists related element by element

What a relation between the elements of two lists (`List.Forall₂`) gives for single elements and
for permutations of one of the lists. A checked pass over a list relates its elements to those of
the result (`traverse_eq_ok_iff`).
-/

namespace Pointwise

open List

variable {α β : Type*} {R : α → β → Prop} {l : List α} {l' l'' : List β}

theorem exists_of_mem_right (h : Forall₂ R l l') {b : β} (hb : b ∈ l') : ∃ a ∈ l, R a b := by
  induction h with
  | nil => cases hb
  | cons hab _ ih =>
    rcases mem_cons.1 hb with rfl | hb
    · exact ⟨_, mem_cons_self, hab⟩
    · obtain ⟨a, ha, hab⟩ := ih hb
      exact ⟨a, mem_cons_of_mem _ ha, hab⟩

theorem imp_of_mem_left {S : α → β → Prop} (h : Forall₂ R l l')
    (himp : ∀ a ∈ l, ∀ b, R a b → S a b) : Forall₂ S l l' := by
  induction h with
  | nil => exact .nil
  | cons hab _ ih =>
    obtain ⟨hhead, htail⟩ := forall_mem_cons.1 himp
    exact .cons (hhead _ hab) (ih htail)

/-- A permutation of one list is followed by the other. -/
theorem exists_perm_left (h : Forall₂ R l l') (hperm : l'.Perm l'') :
    ∃ m, l.Perm m ∧ Forall₂ R m l'' := by
  have hcomp : Relation.Comp (Forall₂ R) Perm l l'' := ⟨l', h, hperm⟩
  rwa [forall₂_comp_perm_eq_perm_comp_forall₂] at hcomp

theorem exists_perm_right {m : List α} (h : Forall₂ R l l') (hperm : l.Perm m) :
    ∃ m', l'.Perm m' ∧ Forall₂ R m m' := by
  obtain ⟨m', hm', h'⟩ := exists_perm_left h.flip hperm
  exact ⟨m', hm', h'.flip⟩

/-- If related elements differ wherever their partners do, then so do the elements of the list. -/
theorem nodup_of_pairwise_ne {γ : Type*} {f : α → γ} {S : β → β → Prop} (h : Forall₂ R l l')
    (hS : ∀ {a b a' b'}, R a b → R a' b' → S b b' → f a ≠ f a') (hl' : l'.Pairwise S) :
    (l.map f).Nodup := by
  induction h with
  | nil => exact nodup_nil
  | cons hab h ih =>
    obtain ⟨hb, hl'⟩ := pairwise_cons.1 hl'
    rw [map_cons, nodup_cons]
    refine ⟨fun hmem => ?_, ih hl'⟩
    obtain ⟨a', ha', heq⟩ := mem_map.1 hmem
    obtain ⟨b', hb', hab'⟩ := exists_of_mem_right h.flip ha'
    exact hS hab hab' (hb b' hb') heq.symm

/-- A list related to one that is related back at some elements: it is related back as a whole
    if and only if it is at all of them. -/
theorem forall₂_flip_iff {S : β → α → Prop} {P : α → Prop} (h : Forall₂ R l l')
    (hback : ∀ a ∈ l, ∀ b, R a b → (S b a ↔ P a)) : Forall₂ S l' l ↔ ∀ a ∈ l, P a := by
  induction h with
  | nil => exact iff_of_true .nil (forall_mem_nil _)
  | cons hab _ ih =>
    obtain ⟨hhead, htail⟩ := forall_mem_cons.1 hback
    rw [forall₂_cons, forall_mem_cons, hhead _ hab, ih htail]

/-- A checked pass over a list, each step of which relates an element to one of the result. -/
theorem traverse_eq_ok_iff {ε : Type*} {g : List α → Except ε (List β)} (hnil : g [] = .ok [])
    (hcons : ∀ a l l', g (a :: l) = .ok l' ↔ ∃ b, R a b ∧ ∃ bs, g l = .ok bs ∧ b :: bs = l') :
    g l = .ok l' ↔ Forall₂ R l l' := by
  induction l generalizing l' with
  | nil =>
    rw [forall₂_nil_left_iff, hnil]
    exact ⟨fun h => (Except.ok.inj h).symm, fun h => h ▸ rfl⟩
  | cons a l ih =>
    rw [hcons, forall₂_cons_left_iff]
    constructor
    · rintro ⟨b, hab, bs, hbs, rfl⟩
      exact ⟨b, bs, hab, ih.1 hbs, rfl⟩
    · rintro ⟨b, bs, hab, hbs, rfl⟩
      exact ⟨b, hab, bs, ih.2 hbs, rfl⟩

end Pointwise
