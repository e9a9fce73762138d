import Chronolog.Canonical.Cbor
import Chronolog.Protocol.Errors

/-!
# Reading the parts of values

The codecs of the system go between values of CBOR and the data that they stand for. What they
throw is an error of the canonical encoding, an error of the protocol, or another error; the
helpers here read a part of a value that has to be of a kind.
-/

namespace Chronolog.Canonical

variable {items : List CborValue}

/-- What a codec throws. -/
inductive CodecError
  | canonical (error : CanonicalError)
  | protocol (error : ProtocolError)
  | other (message : String)
  deriving DecidableEq

def CodecError.message : CodecError → String
  | canonical error => error.message
  | protocol error => error.message
  | other message => message

/-- Procedures of codecs. -/
abbrev Codec := Except CodecError

instance : MonadExceptOf CanonicalError Codec where
  throw error := .error (.canonical error)
  tryCatch x handle :=
    match x with
    | .error (.canonical error) => handle error
    | _ => x

instance : MonadLift (Except CanonicalError) Codec := ⟨Except.mapError .canonical⟩

instance : MonadLift (Except ProtocolError) Codec := ⟨Except.mapError .protocol⟩

/-- The items of an array at a position, `null` where there is none. -/
def itemAt (items : List CborValue) (index : ℕ) : CborValue := items.getD index .null

namespace CborValue

variable {value : CborValue}

def array? : CborValue → Option (List CborValue)
  | .array items => some items
  | _ => none

def map? : CborValue → Option (List (CborMapKey × CborValue))
  | .map entries => some entries
  | _ => none

def bytes? : CborValue → Option Bytes
  | .bytes value => some value
  | _ => none

def text? : CborValue → Option String
  | .text value => some value
  | _ => none

def boolean? : CborValue → Option Bool
  | .boolean value => some value
  | _ => none

def integer? : CborValue → Option ℤ
  | .integer value => some value
  | _ => none

theorem array?_eq_some_iff {items : List CborValue} :
    value.array? = some items ↔ value = .array items := by
  cases value <;> simp [array?]

theorem map?_eq_some_iff {entries : List (CborMapKey × CborValue)} :
    value.map? = some entries ↔ value = .map entries := by
  cases value <;> simp [map?]

theorem bytes?_eq_some_iff {bytes : Bytes} : value.bytes? = some bytes ↔ value = .bytes bytes := by
  cases value <;> simp [bytes?]

theorem text?_eq_some_iff {text : String} : value.text? = some text ↔ value = .text text := by
  cases value <;> simp [text?]

theorem boolean?_eq_some_iff {b : Bool} : value.boolean? = some b ↔ value = .boolean b := by
  cases value <;> simp [boolean?]

@[simp]
theorem integer?_eq_some_iff {n : ℤ} : value.integer? = some n ↔ value = .integer n := by
  cases value <;> simp [integer?]

end CborValue

/-- What a value has to be. -/
def expected {α : Type} (view : Option α) (error : CodecError) : Codec α :=
  match view with
  | some a => .ok a
  | none => .error error

@[simp]
theorem expected_eq_ok_iff {α : Type} {view : Option α} {error : CodecError} {a : α} :
    expected view error = .ok a ↔ view = some a := by
  cases view <;> simp [expected]

/-! ## The helpers of the canonical encoding -/

section

variable (value : CborValue) (name : String)

def expectArray : Codec (List CborValue) :=
  expected value.array? (.canonical ⟨.schemaInvalid, s!"{name} must be an array"⟩)

def expectBytes : Codec Bytes :=
  expected value.bytes? (.canonical ⟨.schemaInvalid, s!"{name} must be bytes"⟩)

/-- Bytes of a given length. -/
def expectBytesOfLength (length : ℕ) : Codec Bytes := do
  let bytes ← expectBytes value name
  canonicalInvariant (bytes.length = length) .schemaInvalid s!"{name} must contain {length} bytes"
  return bytes

def expectString : Codec String :=
  expected value.text? (.canonical ⟨.schemaInvalid, s!"{name} must be text"⟩)

def expectBoolean : Codec Bool :=
  expected value.boolean? (.canonical ⟨.schemaInvalid, s!"{name} must be boolean"⟩)

def expectBigint : Codec ℤ :=
  expected value.integer? (.canonical ⟨.schemaInvalid, s!"{name} must be integer"⟩)

end

section Helpers

variable {value : CborValue} {name : String}

@[simp]
theorem expectArray_eq_ok_iff {items : List CborValue} :
    expectArray value name = .ok items ↔ value = .array items :=
  expected_eq_ok_iff.trans CborValue.array?_eq_some_iff

@[simp]
theorem expectBytes_eq_ok_iff {bytes : Bytes} :
    expectBytes value name = .ok bytes ↔ value = .bytes bytes :=
  expected_eq_ok_iff.trans CborValue.bytes?_eq_some_iff

@[simp]
theorem expectString_eq_ok_iff {text : String} :
    expectString value name = .ok text ↔ value = .text text :=
  expected_eq_ok_iff.trans CborValue.text?_eq_some_iff

@[simp]
theorem expectBoolean_eq_ok_iff {b : Bool} :
    expectBoolean value name = .ok b ↔ value = .boolean b :=
  expected_eq_ok_iff.trans CborValue.boolean?_eq_some_iff

@[simp]
theorem expectBigint_eq_ok_iff {n : ℤ} : expectBigint value name = .ok n ↔ value = .integer n :=
  expected_eq_ok_iff.trans CborValue.integer?_eq_some_iff

end Helpers

/-! ## Checks -/

section Checks

variable {condition : Bool} {message : String}

@[simp]
theorem codec_invariant_eq_ok_iff {code : CanonicalErrorCode} {u : Unit} :
    (canonicalInvariant condition code message : Codec Unit) = .ok u ↔ condition = true := by
  cases condition with
  | true => exact iff_of_true rfl rfl
  | false => exact iff_of_false nofun Bool.false_ne_true

@[simp]
theorem codec_protocolInvariant_eq_ok_iff {code : ProtocolErrorCode} {u : Unit} :
    (liftM (protocolInvariant condition code message) : Codec Unit) = .ok u ↔ condition = true := by
  cases condition with
  | true => exact iff_of_true rfl rfl
  | false => exact iff_of_false nofun Bool.false_ne_true

@[simp]
theorem expectBytesOfLength_eq_ok_iff {value : CborValue} {name : String} {length : ℕ}
    {bytes : Bytes} : expectBytesOfLength value name length = .ok bytes ↔
      value = .bytes bytes ∧ bytes.length = length := by
  simp only [expectBytesOfLength, Procedure.bind_eq_ok_iff, expectBytes_eq_ok_iff,
    codec_invariant_eq_ok_iff, Procedure.pure_eq_ok_iff, decide_eq_true_eq]
  constructor
  · rintro ⟨_, rfl, _, hlength, rfl⟩
    exact ⟨rfl, hlength⟩
  · rintro ⟨rfl, hlength⟩
    exact ⟨bytes, rfl, (), hlength, rfl⟩

@[simp]
theorem lift_eq_ok_iff {α : Type} {x : Except CanonicalError α} {a : α} :
    (liftM x : Codec α) = .ok a ↔ x = .ok a :=
  Procedure.mapError_eq_ok_iff

end Checks

/-- The items of an array of two. -/
theorem eq_pair_of_length (h : items.length = 2) : items = [itemAt items 0, itemAt items 1] := by
  obtain ⟨a, b, rfl⟩ := List.length_eq_two.1 h
  rfl

theorem eq_triple_of_length (h : items.length = 3) :
    items = [itemAt items 0, itemAt items 1, itemAt items 2] := by
  obtain ⟨a, b, c, rfl⟩ := List.length_eq_three.1 h
  rfl

theorem eq_quadruple_of_length (h : items.length = 4) :
    items = [itemAt items 0, itemAt items 1, itemAt items 2, itemAt items 3] := by
  match items, h with
  | [_, _, _, _], _ => rfl

end Chronolog.Canonical
