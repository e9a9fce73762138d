import Chronolog.Canonical.Cbor
import Chronolog.Lib.Input

/-!
# Heads of values

The steps of the decoder read what the steps of the encoder write, and take nothing else off the
input: an argument is accepted only in the form in which the encoder writes it
(`takes_argument`).
-/

namespace Chronolog.Canonical

open Procedure BigEndian

/-! ## Checks -/

section Checks

variable {condition : Bool} {code : CanonicalErrorCode} {message : String}

theorem canonicalInvariant_bind_eq_ok_iff {β : Type} {f : Unit → Except CanonicalError β} {b : β} :
    (canonicalInvariant condition code message >>= f) = .ok b ↔
      condition = true ∧ f () = .ok b := by
  cases condition with
  | true => exact ⟨fun h => ⟨rfl, h⟩, fun h => h.2⟩
  | false => exact iff_of_false nofun fun h => Bool.false_ne_true h.1

variable {β : Type} {f : Unit → Decoder β}

theorem reads_invariant_bind {word : Bytes} {b : β} (h : condition = true)
    (hf : Reads (f ()) word b) :
    Reads (canonicalInvariant condition code message >>= f) word b := by
  rw [canonicalInvariant, if_pos h]
  exact hf

theorem takes_invariant_bind {R : β → Bytes → Prop} (hf : condition = true → Takes (f ()) R) :
    Takes (canonicalInvariant condition code message >>= f) R := by
  cases condition with
  | true => exact hf rfl
  | false => exact fun _ _ _ hrun => absurd hrun nofun

end Checks

/-! ## Bytes -/

namespace Decoder

theorem reads_byte (initial : UInt8) : Reads byte [initial] initial := fun _ => rfl

theorem takes_byte : Takes byte fun initial word => word = [initial] := by
  intro input initial rest hrun
  cases input with
  | nil => cases hrun
  | cons first input =>
    obtain ⟨rfl, rfl⟩ := EStateM.Result.ok.inj hrun
    exact ⟨[first], rfl, rfl⟩

theorem bytes_run {size : ℕ} {input : Bytes} (h : size ≤ input.length) :
    bytes size input = .ok (input.take size) (input.drop size) := by
  rw [bytes, bind_get_run, canonicalInvariant, if_pos (decide_eq_true h)]
  rfl

theorem bytes_run_of_lt {size : ℕ} {input : Bytes} (h : input.length < size) :
    bytes size input = .error ⟨.cborInvalid, "Invalid or truncated CBOR byte range"⟩ input := by
  rw [bytes, bind_get_run, canonicalInvariant, if_neg (by simpa using h)]
  rfl

theorem reads_bytes (word : Bytes) : Reads (bytes word.length) word word := by
  intro rest
  rw [bytes_run (by simp), List.take_left, List.drop_left]

theorem takes_bytes (size : ℕ) :
    Takes (bytes size) fun payload word => word = payload ∧ payload.length = size := by
  intro input payload rest hrun
  rcases Nat.lt_or_ge input.length size with hlt | hle
  · rw [bytes_run_of_lt hlt] at hrun
    cases hrun
  · rw [bytes_run hle] at hrun
    cases hrun
    exact ⟨_, (input.take_append_drop size).symm, rfl, List.length_take_of_le hle⟩

end Decoder

/-! ## Initial bytes -/

variable {major additional : ℕ}

theorem toNat_initialByte (hmajor : major < 8) (hadditional : additional < 32) :
    (initialByte major additional).toNat = major * 32 + additional := by
  have hor : major <<< 5 ||| additional = major * 32 + additional := by
    rw [← Nat.shiftLeft_add_eq_or_of_lt hadditional, Nat.shiftLeft_eq]
  rw [initialByte, hor]
  exact UInt8.toNat_ofNat_of_lt' (show _ < 256 by omega)

theorem major_initialByte (hmajor : major < 8) (hadditional : additional < 32) :
    (initialByte major additional).toNat >>> 5 = major := by
  rw [toNat_initialByte hmajor hadditional]
  omega

theorem additional_initialByte (hmajor : major < 8) (hadditional : additional < 32) :
    (initialByte major additional).toNat &&& 31 = additional := by
  rw [toNat_initialByte hmajor hadditional, show 31 = 2 ^ 5 - 1 from rfl,
    Nat.and_two_pow_sub_one_eq_mod]
  omega

theorem initialByte_toNat (initial : UInt8) :
    initialByte (initial.toNat >>> 5) (initial.toNat &&& 31) = initial := by
  have hlt := initial.toNat_lt
  have hadditional : initial.toNat &&& 31 = initial.toNat % 32 :=
    Nat.and_two_pow_sub_one_eq_mod initial.toNat 5
  rw [← UInt8.toNat_inj, toNat_initialByte (by omega) (by omega)]
  omega

/-! ## Arguments -/

theorem encodeHead_eq_ok_iff {major value : ℕ} {word : Bytes} :
    encodeHead major value = .ok word ↔ value ≤ maxUint64 ∧
      (if value < 24 then [initialByte major value]
        else if value ≤ 0xff then initialByte major 24 :: toBytes 1 value
        else if value ≤ 0xffff then initialByte major 25 :: toBytes 2 value
        else if value ≤ 0xffffffff then initialByte major 26 :: toBytes 4 value
        else initialByte major 27 :: toBytes 8 value) = word := by
  rw [encodeHead, canonicalInvariant_bind_eq_ok_iff, decide_eq_true_iff]
  exact and_congr_right fun _ => ⟨Except.ok.inj, congrArg _⟩

namespace Decoder

theorem reads_longArgument {size minimum value : ℕ} (hlt : value < 256 ^ size)
    (hle : minimum ≤ value) : Reads (longArgument size minimum) (toBytes size value) value := by
  have hbytes := reads_bytes (toBytes size value)
  rw [length_toBytes] at hbytes
  rw [← (toBytes size value).append_nil]
  refine hbytes.bind ?_
  rw [ofBytes_toBytes hlt]
  exact reads_invariant_bind (decide_eq_true hle) (reads_pure value)

theorem takes_longArgument (size minimum : ℕ) : Takes (longArgument size minimum) fun value word =>
      word = toBytes size value ∧ value < 256 ^ size ∧ minimum ≤ value := by
  refine (takes_bytes size).bind ?_
  rintro payload word ⟨rfl, rfl⟩
  refine takes_invariant_bind fun hle => takes_pure ?_
  rw [List.append_nil, toBytes_ofBytes]
  exact ⟨rfl, ofBytes_lt _, of_decide_eq_true hle⟩

/-- The argument of a head is read back. -/
theorem reads_argument {major value : ℕ} {word : Bytes} (h : encodeHead major value = .ok word) :
    ∃ additional tail, word = initialByte major additional :: tail ∧ additional < 32 ∧
      Reads (argument additional) tail value := by
  obtain ⟨hmax, rfl⟩ := encodeHead_eq_ok_iff.1 h
  rw [maxUint64] at hmax
  split_ifs with h₁ h₂ h₃ h₄
  · refine ⟨value, [], rfl, by omega, ?_⟩
    rw [argument, if_pos h₁]
    exact reads_pure value
  · exact ⟨24, _, rfl, by decide, reads_longArgument (by omega) (by omega)⟩
  · exact ⟨25, _, rfl, by decide, reads_longArgument (by omega) (by omega)⟩
  · exact ⟨26, _, rfl, by decide, reads_longArgument (by omega) (by omega)⟩
  · exact ⟨27, _, rfl, by decide, reads_longArgument (by omega) (by omega)⟩

/-- An argument is accepted only in its shortest form. -/
theorem takes_argument (additional : ℕ) : Takes (argument additional) fun value tail =>
      ∀ major, encodeHead major value = .ok (initialByte major additional :: tail) := by
  refine takes_ite (fun h => takes_pure fun major => ?_) fun _ => ?_
  · exact encodeHead_eq_ok_iff.2 ⟨by rw [maxUint64]; omega, if_pos h⟩
  refine takes_ite (fun h => ?_) fun _ => ?_
  · refine (takes_longArgument 1 24).weaken ?_
    rintro value tail ⟨rfl, hlt, hle⟩ major
    rw [encodeHead_eq_ok_iff, maxUint64, if_neg (by omega), if_pos (by omega), h]
    exact ⟨by omega, rfl⟩
  refine takes_ite (fun h => ?_) fun _ => ?_
  · refine (takes_longArgument 2 0x100).weaken ?_
    rintro value tail ⟨rfl, hlt, hle⟩ major
    rw [encodeHead_eq_ok_iff, maxUint64, if_neg (by omega), if_neg (by omega), if_pos (by omega), h]
    exact ⟨by omega, rfl⟩
  refine takes_ite (fun h => ?_) fun _ => ?_
  · refine (takes_longArgument 4 0x10000).weaken ?_
    rintro value tail ⟨rfl, hlt, hle⟩ major
    rw [encodeHead_eq_ok_iff, maxUint64, if_neg (by omega), if_neg (by omega), if_neg (by omega),
      if_pos (by omega), h]
    exact ⟨by omega, rfl⟩
  refine takes_ite (fun h => ?_) fun _ => ?_
  · refine (takes_longArgument 8 0x100000000).weaken ?_
    rintro value tail ⟨rfl, hlt, hle⟩ major
    rw [encodeHead_eq_ok_iff, maxUint64, if_neg (by omega), if_neg (by omega), if_neg (by omega),
      if_neg (by omega), h]
    exact ⟨by omega, rfl⟩
  exact takes_ite (fun _ => takes_throw _) fun _ => takes_throw _

end Decoder

end Chronolog.Canonical
