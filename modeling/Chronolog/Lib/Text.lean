import Mathlib.Data.List.Basic
import Mathlib.Data.List.TakeWhile

/-!
# Texts made of numbers and fixed names

The decimal text of an integer determines it (`toString_int_injective`), and no
character of it is a delimiter. So a text that lists numbers between fixed names
and delimiters determines the numbers (`labelled_injective`), whatever
characters the names have. Scripting languages order texts by their UTF-16 code
units (`utf16`).
-/

namespace Text

open List

/-- The UTF-16 code units of a text. -/
def utf16 (s : String) : List ℕ :=
  s.toList.flatMap fun c =>
    if c.toNat < 0x10000 then [c.toNat]
    else [0xD800 + (c.toNat - 0x10000) / 0x400, 0xDC00 + (c.toNat - 0x10000) % 0x400]

/-- The characters of decimal texts of integers. -/
def IsDecimal (c : Char) : Bool := c.isDigit || c == '-'

theorem isDecimal_of_mem_toString {a : Int} {c : Char} (h : c ∈ (toString a).toList) :
    IsDecimal c := by
  have hnat : ∀ n : Nat, c ∈ n.repr.toList → IsDecimal c := fun n hn => by
    rw [Nat.toList_repr] at hn
    simp [IsDecimal, Nat.isDigit_of_mem_toDigits (by decide) (by decide) hn]
  rw [Int.toString_eq_repr, Int.repr_eq_if] at h
  split_ifs at h
  · exact hnat _ h
  · rw [String.toList_append, mem_append] at h
    rcases h with h | h
    · rw [show c = '-' by simpa using h]
      rfl
    · exact hnat _ h

theorem repr_nat_injective {n m : Nat} (h : n.repr = m.repr) : n = m := by
  have h' : Nat.ofDigitChars 10 n.repr.toList 0 = Nat.ofDigitChars 10 m.repr.toList 0 := by rw [h]
  simpa using h'

theorem minus_not_mem_repr (n : Nat) : '-' ∉ n.repr.toList := fun h => by
  rw [Nat.toList_repr] at h
  exact absurd (Nat.isDigit_of_mem_toDigits (by decide) (by decide) h) (by decide)

/-- The decimal text of an integer determines it. -/
theorem toString_int_injective : Function.Injective (toString : Int → String) := by
  intro a b h
  rw [Int.toString_eq_repr, Int.toString_eq_repr, Int.repr_eq_if, Int.repr_eq_if] at h
  have hminus : ∀ n m : Nat, n.repr ≠ "-" ++ m.repr := fun n m hnm =>
    minus_not_mem_repr n (by rw [hnm]; simp)
  split_ifs at h with ha hb hb
  · have := repr_nat_injective h
    omega
  · exact absurd h (hminus _ _)
  · exact absurd h.symm (hminus _ _)
  · have h' : (-a).toNat.repr = (-b).toNat.repr := by
      simpa using h
    have := repr_nat_injective h'
    omega

/-- Two texts that begin with characters of one kind up to a delimiter of
    another agree on what is before and what is after it. -/
theorem append_cons_inj {α : Type*} {p : α → Bool} {l l' r r' : List α} {d d' : α}
    (hl : ∀ x ∈ l, p x) (hl' : ∀ x ∈ l', p x) (hd : p d = false) (hd' : p d' = false)
    (h : l ++ d :: r = l' ++ d' :: r') : l = l' ∧ r = r' := by
  have htake : ∀ {l r : List α} {d : α}, (∀ x ∈ l, p x) → p d = false →
      (l ++ d :: r).takeWhile p = l := fun hl hd => by
    rw [takeWhile_append_of_pos hl, takeWhile_cons_of_neg (by simp [hd]),
      append_nil]
  have hll' : l = l' := by rw [← htake hl hd, h, htake hl' hd']
  subst hll'
  exact ⟨rfl, (cons.inj (append_cancel_left h)).2⟩

theorem toString_append_cons_inj {a b : Int} {r r' : List Char} {d : Char}
    (hd : IsDecimal d = false)
    (h : (toString a).toList ++ d :: r = (toString b).toList ++ d :: r') : a = b ∧ r = r' := by
  obtain ⟨h₁, h₂⟩ := append_cons_inj (fun _ => isDecimal_of_mem_toString)
    (fun _ => isDecimal_of_mem_toString) hd hd h
  exact ⟨toString_int_injective (String.toList_inj.1 h₁), h₂⟩

variable {ι : Type*} (name : ι → String)

/-- The numbers `f` of the items `l`, each after the item's name. -/
def labelled (f : ι → Int) (l : List ι) : String :=
  ",".intercalate (l.map fun i => name i ++ ":" ++ toString (f i))

theorem labelled_cons_cons (f : ι → Int) (i j : ι) (l : List ι) : labelled name f (i :: j :: l) =
      name i ++ ":" ++ toString (f i) ++ "," ++ labelled name f (j :: l) := by
  simp only [labelled, map_cons, String.intercalate_cons_cons]

/-- A list of numbers between fixed names, ended by a bar, determines the
    numbers and what follows the bar. -/
theorem labelled_injective {f g : ι → Int} {l : List ι} {r r' : List Char}
    (h : (labelled name f l).toList ++ '|' :: r = (labelled name g l).toList ++ '|' :: r') :
    (∀ i ∈ l, f i = g i) ∧ r = r' := by
  induction l with
  | nil =>
    rw [labelled, labelled, map_nil] at h
    exact ⟨fun _ hi => absurd hi not_mem_nil, by simpa using h⟩
  | cons i l ih =>
    cases l with
    | nil =>
      simp only [labelled, map_cons, map_nil, String.intercalate_singleton,
        String.toList_append, append_assoc] at h
      have h' := append_cancel_left (append_cancel_left h)
      obtain ⟨hi, hr⟩ := toString_append_cons_inj (by decide) h'
      exact ⟨fun k hk => by rwa [mem_singleton.1 hk], hr⟩
    | cons j l =>
      simp only [labelled_cons_cons, String.toList_append, append_assoc] at h
      have h' := append_cancel_left (append_cancel_left h)
      obtain ⟨hi, hr⟩ := toString_append_cons_inj (d := ',') (by decide) h'
      obtain ⟨hl, hr⟩ := ih hr
      refine ⟨fun k hk => ?_, hr⟩
      rcases mem_cons.1 hk with rfl | hk
      · exact hi
      · exact hl k hk

end Text
