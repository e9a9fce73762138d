import Chronolog.Canonical.Bytes

/-!
# The text kernel

The kernel works on the Unicode scalars of a byte string, which the platform's decoder reads.

* `sliceable_iff`: the slices of a byte string fit together and have the lengths they should if and
  only if there is no byte order mark among its scalars.
-/

namespace Chronolog.Kernels

open List

open Canonical (byteOrderMark textDecoder textDecoder_utf8_eq_some_iff)

inductive KernelErrorCode
  | invalidArgumentEncoding
  | invalidUtf8
  | semanticResourceLimit
  deriving DecidableEq

structure KernelError where
  code : KernelErrorCode
  message : String
  deriving DecidableEq

abbrev Kernel := Except KernelError

def kernelAssert (condition : Bool) (code : KernelErrorCode) (message : String) : Kernel Unit :=
  if condition then .ok () else .error ⟨code, message⟩

def validateUtf8 (bytes : Bytes) : Kernel String :=
  match textDecoder bytes with
  | some text => .ok text
  | none => .error ⟨.invalidUtf8, "invalid UTF-8"⟩

def utf8ScalarLength (bytes : Bytes) : Kernel ℕ := do
  return (← validateUtf8 bytes).toList.length

def utf8Slice (bytes : Bytes) (start stop : ℕ) : Kernel Bytes := do
  kernelAssert (start ≤ stop) .invalidArgumentEncoding "invalid scalar slice"
  let scalars := (← validateUtf8 bytes).toList
  kernelAssert (stop ≤ scalars.length) .invalidArgumentEncoding "scalar slice out of bounds"
  return utf8 (String.ofList (scalars.extract start stop))

def utf8Concat (parts : List Bytes) (maxBytes : ℕ) : Kernel Bytes := do
  let _ ← parts.mapM validateUtf8
  kernelAssert (parts.flatten.length ≤ maxBytes) .semanticResourceLimit "text byte limit exceeded"
  return parts.flatten

/-- The slices of a byte string of `n` scalars fit together, and have the lengths they should. -/
def Sliceable (bytes : Bytes) (n : ℕ) : Prop :=
  utf8Slice bytes 0 n = .ok bytes ∧ ∀ i j k, i ≤ j → j ≤ k → k ≤ n →
    ∃ left right whole, utf8Slice bytes i j = .ok left ∧ utf8Slice bytes j k = .ok right ∧
      utf8Slice bytes i k = .ok whole ∧ utf8ScalarLength left = .ok (j - i) ∧
      ∀ maxBytes, whole.length ≤ maxBytes → utf8Concat [left, right] maxBytes = .ok whole

variable {bytes : Bytes} {text : String} {scalars : List Char}

theorem utf8_ofList : utf8 (String.ofList scalars) = scalars.flatMap String.utf8EncodeChar := by
  rw [utf8, String.toByteArray_ofList, utf8Encode, data_toByteArray]

/-- The bytes of a text begin with a byte order mark only if its scalars do. -/
theorem mem_of_byteOrderMark (h : byteOrderMark <+: utf8 (String.ofList scalars)) :
    '\ufeff' ∈ scalars := by
  obtain ⟨rest, h⟩ := h
  cases scalars with
  | nil => cases h
  | cons scalar scalars =>
    have hread (c : Char) (tail : Bytes) :
        (String.utf8EncodeChar c ++ tail).toByteArray.utf8DecodeChar? 0 = some c := by
      rw [toByteArray_append]
      exact ByteArray.utf8DecodeChar?_utf8EncodeChar_append
    rw [utf8_ofList, flatMap_cons] at h
    have hmark := hread '\ufeff' rest
    rw [show String.utf8EncodeChar '\ufeff' = byteOrderMark from rfl, h, hread] at hmark
    rw [Option.some.inj hmark]
    exact mem_cons_self

theorem textDecoder_ofList (h : '\ufeff' ∉ scalars) :
    textDecoder (utf8 (String.ofList scalars)) = some (String.ofList scalars) :=
  textDecoder_utf8_eq_some_iff.2 fun hmark => h (mem_of_byteOrderMark hmark)

theorem utf8ScalarLength_eq_ok_iff {n : ℕ} : utf8ScalarLength bytes = .ok n ↔
    ∃ text, textDecoder bytes = some text ∧ text.toList.length = n := by
  rw [utf8ScalarLength, validateUtf8]
  cases textDecoder bytes <;> simp [bind, Except.bind, pure, Except.pure]

theorem utf8Slice_eq {i j : ℕ} (h : textDecoder bytes = some text) (hij : i ≤ j)
    (hj : j ≤ text.toList.length) :
    utf8Slice bytes i j = .ok (utf8 (String.ofList (text.toList.extract i j))) := by
  rw [utf8Slice, validateUtf8, h]
  simp [kernelAssert, hij, hj, bind, Except.bind, pure, Except.pure]

theorem utf8Concat_eq {left right : String} {maxBytes : ℕ}
    (hleft : textDecoder (utf8 left) = some left) (hright : textDecoder (utf8 right) = some right)
    (hmax : (utf8 (left ++ right)).length ≤ maxBytes) :
    utf8Concat [utf8 left, utf8 right] maxBytes = .ok (utf8 (left ++ right)) := by
  have happend : utf8 (left ++ right) = utf8 left ++ utf8 right := by
    simp [utf8]
  rw [happend, length_append] at hmax
  simp [utf8Concat, validateUtf8, hleft, hright, happend, kernelAssert, hmax, bind, Except.bind,
    pure, Except.pure]

/-- The slices of the bytes of a text fit together if and only if it has no byte order mark. -/
theorem sliceable_iff {n : ℕ} (h : utf8ScalarLength (utf8 text) = .ok n) :
    Sliceable (utf8 text) n ↔ '\ufeff' ∉ text.toList := by
  constructor
  · rintro ⟨hall, hslices⟩ hmem
    obtain ⟨read, hread, rfl⟩ := utf8ScalarLength_eq_ok_iff.1 h
    rw [utf8Slice_eq hread (Nat.zero_le _) (Nat.le_refl _), extract_eq_take_drop, drop_zero,
      Nat.sub_zero, take_length, String.ofList_toList] at hall
    obtain rfl := utf8_injective (Except.ok.inj hall)
    -- The slice of the mark alone has no scalar.
    obtain ⟨i, hi, hmark⟩ := getElem_of_mem hmem
    obtain ⟨left, _, _, hleft, _, _, hlength, _⟩ :=
      hslices i (i + 1) (i + 1) (Nat.le_succ i) (Nat.le_refl _) hi
    have hone : read.toList.extract i (i + 1) = ['\ufeff'] := by
      simp [extract_eq_take_drop, drop_eq_getElem_cons hi, hmark]
    rw [utf8Slice_eq hread (Nat.le_succ i) hi, hone] at hleft
    obtain ⟨_, hempty, hlength⟩ := utf8ScalarLength_eq_ok_iff.1 hlength
    rw [← Except.ok.inj hleft, show textDecoder (utf8 (String.ofList ['\ufeff'])) = some "" from rfl]
      at hempty
    simp [← Option.some.inj hempty] at hlength
  · intro hmem
    have hread {part : List Char} (hsub : part ⊆ text.toList) :
        textDecoder (utf8 (String.ofList part)) = some (String.ofList part) :=
      textDecoder_ofList fun hmark => hmem (hsub hmark)
    have htext := hread (Subset.refl text.toList)
    rw [String.ofList_toList] at htext
    obtain ⟨_, hn, rfl⟩ := utf8ScalarLength_eq_ok_iff.1 h
    obtain rfl := Option.some.inj (htext.symm.trans hn)
    refine ⟨?_, fun i j k hij hjk hk => ?_⟩
    · rw [utf8Slice_eq htext (Nat.zero_le _) (Nat.le_refl _)]
      simp
    · have hpart (i j : ℕ) : text.toList.extract i j ⊆ text.toList := by
        rw [extract_eq_take_drop]
        exact Subset.trans (take_subset _ _) (drop_subset _ _)
      refine ⟨_, _, _, utf8Slice_eq htext hij (Nat.le_trans hjk hk), utf8Slice_eq htext hjk hk,
        utf8Slice_eq htext (Nat.le_trans hij hjk) hk, ?_, fun maxBytes hmax => ?_⟩
      · refine utf8ScalarLength_eq_ok_iff.2 ⟨_, hread (hpart i j), ?_⟩
        rw [String.toList_ofList, extract_eq_take_drop]
        grind
      · obtain ⟨m, rfl⟩ := Nat.exists_eq_add_of_le hij
        obtain ⟨n, rfl⟩ := Nat.exists_eq_add_of_le hjk
        have hjoin : text.toList.extract i (i + m + n) =
            text.toList.extract i (i + m) ++ text.toList.extract (i + m) (i + m + n) := by
          simp [Nat.add_assoc, take_add, Nat.add_sub_add_left]
        rw [hjoin, String.ofList_append] at hmax ⊢
        exact utf8Concat_eq (hread (hpart _ _)) (hread (hpart _ _)) hmax

theorem sliceable_letters : Sliceable (utf8 "äb") 2 ↔ '\ufeff' ∉ "äb".toList :=
  sliceable_iff rfl

/-- A byte order mark is no scalar of its own bytes. -/
theorem not_sliceable_byteOrderMark :
    utf8ScalarLength byteOrderMark = .ok 0 ∧ ¬Sliceable byteOrderMark 0 :=
  ⟨rfl, fun h => absurd h.1 (by decide)⟩

end Chronolog.Kernels
