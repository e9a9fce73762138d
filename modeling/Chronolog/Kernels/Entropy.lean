import Chronolog.Kernels.Text
import Chronolog.Lib.BigEndian
import Chronolog.Lib.Procedure
import Mathlib.Data.Int.CardIntervalMod

/-!
# Labelled entropy

Random bytes are derived from the nonce of a transaction, under a label and an index. The attempts to
draw an integer below a bound use a label of their own, and pack their number into the index.

* `entropy_separated`: two draws have the same info if and only if one is an attempt, and the other
  is a direct one of the label and the index that the attempt uses. The integers below a bound all have
  the same number of candidates.
-/

namespace Chronolog.Kernels

open Procedure BigEndian

def uint64be (value : ℕ) : Kernel Bytes := do
  kernelAssert (value ≤ 0xffff_ffff_ffff_ffff) .invalidArgumentEncoding "entropy index out of range"
  return toBytes 8 value

/-- The info of the key derivation. (A negative index is refused as one that is too large.) -/
def entropyInfo (label : String) (index : ℕ) : Kernel Bytes := do
  kernelAssert (label.toList.all (fun c => ' ' ≤ c ∧ c ≤ '~') ∧ 1 ≤ label.length ∧ label.length ≤ 128)
    .invalidArgumentEncoding "entropy label must be non-empty printable ASCII"
  let labelBytes := utf8 label
  return utf8 "chronolog/entropy/v1" ++ [0] ++ toBytes 2 labelBytes.length ++ labelBytes ++
    (← uint64be index)

section Derive

-- HMAC with SHA-256, of the platform; its values have 32 bytes.
variable (hmac : (key message : Bytes) → Bytes)

def hkdfExtractSha256 (salt inputKeyMaterial : Bytes) : Bytes := hmac salt inputKeyMaterial

/-- The blocks from one on, if so many are left. -/
def expandBlocks (prk info : Bytes) : (left block : ℕ) → (previous : Bytes) → Bytes
  | 0, _, _ => []
  | left + 1, block, previous =>
    let next := hmac prk (previous ++ info ++ [UInt8.ofNat block])
    next ++ expandBlocks prk info left (block + 1) next

def hkdfExpandSha256 (prk info : Bytes) (length : ℕ) : Kernel Bytes := do
  kernelAssert (length ≤ 255 * 32) .semanticResourceLimit "HKDF output length out of range"
  return (expandBlocks hmac prk info ((length + 31) / 32) 1 []).take length

variable (groupId nonce : Bytes)

def deriveEntropy (label : String) (index length : ℕ) : Kernel Bytes := do
  let info ← entropyInfo label index
  hkdfExpandSha256 hmac (hkdfExtractSha256 hmac groupId nonce) info length

/-- The value that a candidate gives, if it is below the ceiling. -/
def boundedValue (upperExclusive candidate : ℕ) : Option ℕ :=
  if candidate < 2 ^ 64 - 2 ^ 64 % upperExclusive then some (candidate % upperExclusive) else none

/-- The attempts from one on, if so many are left. -/
def boundedFrom (label : String) (index upperExclusive : ℕ) : ℕ → ℕ → Kernel (Option ℕ)
  | 0, _ => return none
  | left + 1, attempt => do
    let bytes ← deriveEntropy hmac groupId nonce (label ++ "/bounded") (index <<< 20 ||| attempt) 8
    match boundedValue upperExclusive (ofBytes bytes) with
    | some value => return some value
    | none => boundedFrom label index upperExclusive left (attempt + 1)

/-- There is no value after so many attempts. -/
def entropyBoundedInt (label : String) (index upperExclusive : ℕ) : Kernel (Option ℕ) := do
  kernelAssert (0 < upperExclusive ∧ upperExclusive ≤ 2 ^ 64) .invalidArgumentEncoding
    "invalid entropy integer bound"
  boundedFrom hmac groupId nonce label index upperExclusive 1000000 0

/-- A call of `deriveEntropy`, or an attempt of `entropyBoundedInt`. -/
inductive Draw
  | direct (label : String) (index : ℕ)
  | bounded (label : String) (index : ℕ) (attempt : Fin 1000000)
  deriving DecidableEq

def Draw.info : Draw → Kernel Bytes
  | .direct label index => entropyInfo label index
  | .bounded label index attempt => entropyInfo (label ++ "/bounded") (index <<< 20 ||| attempt)

/-- The first draw is a direct one of what the second one uses. -/
def Draw.Imitates (draw other : Draw) : Prop :=
  ∃ label index attempt, other = .bounded label index attempt ∧
    draw = .direct (label ++ "/bounded") (index <<< 20 ||| attempt)

variable {hmac groupId nonce} {label : String} {index upperExclusive value : ℕ}

/-- A value comes from one of the attempts. -/
theorem boundedFrom_eq_ok {left attempt : ℕ} (h : boundedFrom hmac groupId nonce label index
      upperExclusive left attempt = .ok (some value)) : ∃ n < attempt + left, ∃ bytes,
      deriveEntropy hmac groupId nonce (label ++ "/bounded") (index <<< 20 ||| n) 8 = .ok bytes ∧
      boundedValue upperExclusive (ofBytes bytes) = some value := by
  induction left generalizing attempt with
  | zero => cases h
  | succ left ih =>
    obtain ⟨bytes, hbytes, h⟩ := bind_eq_ok_iff.1 h
    cases hvalue : boundedValue upperExclusive (ofBytes bytes) with
    | some drawn =>
      rw [hvalue] at h
      cases h
      exact ⟨attempt, by omega, bytes, hbytes, hvalue⟩
    | none =>
      rw [hvalue] at h
      obtain ⟨n, hn, hdrawn⟩ := ih h
      exact ⟨n, by omega, hdrawn⟩

/-- An integer below a bound is the value of a candidate, which is derived with the info of an
    attempt. -/
theorem entropyBoundedInt_eq_ok
    (h : entropyBoundedInt hmac groupId nonce label index upperExclusive = .ok (some value)) :
    value < upperExclusive ∧ ∃ attempt info bytes,
      (Draw.bounded label index attempt).info = .ok info ∧
      hkdfExpandSha256 hmac (hkdfExtractSha256 hmac groupId nonce) info 8 = .ok bytes ∧
      boundedValue upperExclusive (ofBytes bytes) = some value := by
  obtain ⟨_, hbound, h⟩ := bind_eq_ok_iff.1 h
  obtain ⟨n, hn, bytes, hderive, hvalue⟩ := boundedFrom_eq_ok h
  obtain ⟨info, hinfo, hbytes⟩ := bind_eq_ok_iff.1 hderive
  refine ⟨?_, ⟨n, by omega⟩, info, bytes, hinfo, hbytes, hvalue⟩
  have hpos : 0 < upperExclusive := by
    by_contra hzero
    simp [kernelAssert, hzero] at hbound
  rw [boundedValue, Option.ite_none_right_eq_some] at hvalue
  exact Option.some.inj hvalue.2 ▸ Nat.mod_lt _ hpos

end Derive

theorem entropyInfo_eq_ok {label : String} {index : ℕ} {info : Bytes}
    (h : entropyInfo label index = .ok info) :
    index < 256 ^ 8 ∧ (utf8 "chronolog/entropy/v1" ++ [0] ++ toBytes 2 (utf8 label).length) ++
      (utf8 label ++ toBytes 8 index) = info := by
  obtain ⟨-, -, h⟩ := bind_eq_ok_iff.1 h
  obtain ⟨bytes, hbytes, h⟩ := bind_eq_ok_iff.1 h
  obtain ⟨_, hle, hbytes⟩ := bind_eq_ok_iff.1 hbytes
  cases hbytes
  refine ⟨Nat.lt_succ_of_le ?_, by rw [← List.append_assoc]; exact Except.ok.inj h⟩
  by_contra hlt
  simp [kernelAssert, hlt] at hle

theorem entropyInfo_inj {label label' : String} {index index' : ℕ} {info : Bytes}
    (h : entropyInfo label index = .ok info) (h' : entropyInfo label' index' = .ok info) :
    label = label' ∧ index = index' := by
  obtain ⟨hlt, h⟩ := entropyInfo_eq_ok h
  obtain ⟨hlt', h'⟩ := entropyInfo_eq_ok h'
  have hlabel := (List.append_inj (h.trans h'.symm) (by simp [length_toBytes])).2
  obtain ⟨hlabel, hindex⟩ := List.append_inj' hlabel (by simp [length_toBytes])
  refine ⟨utf8_injective hlabel, ?_⟩
  rw [← ofBytes_toBytes hlt, hindex, ofBytes_toBytes hlt']

theorem shiftLeft_or_inj {index index' : ℕ} {attempt attempt' : Fin 1000000}
    (h : index <<< 20 ||| attempt.val = index' <<< 20 ||| attempt'.val) :
    index = index' ∧ attempt = attempt' := by
  have hlt (attempt : Fin 1000000) : attempt.val < 2 ^ 20 := attempt.isLt.trans (by decide)
  rw [← Nat.shiftLeft_add_eq_or_of_lt (hlt _), ← Nat.shiftLeft_add_eq_or_of_lt (hlt _),
    Nat.shiftLeft_eq, Nat.shiftLeft_eq] at h
  refine ⟨?_, Fin.ext ?_⟩ <;> omega

theorem Draw.info_eq_iff {draw draw' : Draw} {info info' : Bytes} (h : draw.info = .ok info)
    (h' : draw'.info = .ok info') (hne : draw ≠ draw') :
    info = info' ↔ draw.Imitates draw' ∨ draw'.Imitates draw := by
  constructor
  · rintro rfl
    rcases draw with ⟨label, index⟩ | ⟨label, index, attempt⟩ <;>
      rcases draw' with ⟨label', index'⟩ | ⟨label', index', attempt'⟩ <;>
      obtain ⟨hlabel, hindex⟩ := entropyInfo_inj h h'
    · exact absurd (by rw [hlabel, hindex]) hne
    · exact .inl ⟨_, _, _, rfl, by rw [hlabel, hindex]⟩
    · exact .inr ⟨_, _, _, rfl, by rw [hlabel, hindex]⟩
    · obtain ⟨rfl, rfl⟩ := shiftLeft_or_inj hindex
      exact absurd (by rw [String.append_left_inj _ |>.1 hlabel]) hne
  · rintro (⟨_, _, _, rfl, rfl⟩ | ⟨_, _, _, rfl, rfl⟩) <;>
      exact Except.ok.inj (h.symm.trans h')

/-- Equally many candidates below the ceiling give each value. -/
theorem card_candidates (size : ℕ) {upperExclusive value : ℕ} (hvalue : value < upperExclusive) :
    ((Finset.range size).filter fun candidate => candidate < size - size % upperExclusive ∧
      candidate % upperExclusive = value).card = size / upperExclusive := by
  have hceiling : size - size % upperExclusive = upperExclusive * (size / upperExclusive) := by
    have := Nat.div_add_mod size upperExclusive
    omega
  have hsame : ((Finset.range size).filter fun candidate => candidate < size - size % upperExclusive ∧
      candidate % upperExclusive = value) =
        (Finset.range (upperExclusive * (size / upperExclusive))).filter
          (· ≡ value [MOD upperExclusive]) := by
    ext candidate
    simp only [hceiling, Nat.ModEq, Nat.mod_eq_of_lt hvalue, Finset.mem_filter, Finset.mem_range]
    omega
  have hpos := Nat.zero_lt_of_lt hvalue
  rw [hsame, ← Nat.count_eq_card_filter_range, Nat.count_modEq_card _ hpos]
  simp [hpos]

/-- Draws have different infos unless one imitates the other, and all values below a bound have the
    same number of candidates. -/
theorem entropy_separated (draw draw' : Draw) (upperExclusive : ℕ) :
    (∀ info info', draw.info = .ok info → draw'.info = .ok info' → draw ≠ draw' →
      (info ≠ info' ↔ ¬(draw.Imitates draw' ∨ draw'.Imitates draw))) ∧
    (upperExclusive ≤ 2 ^ 64 → ∃ n > 0, ∀ value < upperExclusive,
      ((Finset.range (2 ^ 64)).filter (boundedValue upperExclusive · = some value)).card = n) := by
  refine ⟨fun _ _ h h' hne => not_congr (Draw.info_eq_iff h h' hne), fun hle => ?_⟩
  rcases Nat.eq_zero_or_pos upperExclusive with rfl | hpos
  · exact ⟨1, one_pos, fun _ hvalue => absurd hvalue (Nat.not_lt_zero _)⟩
  · refine ⟨_, Nat.div_pos hle hpos, fun value hvalue => ?_⟩
    simpa only [boundedValue, Option.ite_none_right_eq_some, Option.some.injEq] using
      card_candidates (2 ^ 64) hvalue

/-- A direct draw and an attempt with the same label have different infos, and each value of a die has
    the same number of candidates. -/
theorem entropy_separated_die : (∃ info info', (Draw.direct "x" 0).info = .ok info ∧
      (Draw.bounded "x" 0 ⟨0, Nat.succ_pos _⟩).info = .ok info' ∧ info ≠ info') ∧
    ∃ n > 0, ∀ value < 6,
      ((Finset.range (2 ^ 64)).filter (boundedValue 6 · = some value)).card = n := by
  obtain ⟨hinfo, hvalues⟩ :=
    entropy_separated (.direct "x" 0) (.bounded "x" 0 ⟨0, Nat.succ_pos _⟩) 6
  refine ⟨⟨_, _, rfl, rfl, (hinfo _ _ rfl rfl nofun).2 ?_⟩, hvalues (by decide)⟩
  rintro (⟨label, index, attempt, hother, hdraw⟩ | ⟨_, _, _, ⟨⟩, _⟩)
  cases hother
  exact absurd (Draw.direct.inj hdraw).1 (by decide)

/-- A direct draw imitates an attempt. -/
theorem info_direct_eq_bounded :
    (Draw.direct "x/bounded" 0).info = (Draw.bounded "x" 0 ⟨0, Nat.succ_pos _⟩).info ∧
      (Draw.direct "x/bounded" 0).info.isOk :=
  ⟨rfl, rfl⟩

end Chronolog.Kernels
