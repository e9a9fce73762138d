import Chronolog.Canonical.Reencoding
import Chronolog.Canonical.Schema

/-!
# Reading the fields of messages

The helpers with which the protocol reads its messages. A message is a map from small integers to
its fields; a field that is absent has no entry.
-/

namespace Chronolog.Protocol

open Canonical Procedure CborValue

export Canonical (CborValue Codec maxSafeInteger)

variable {map : IntegerMap} {name : String}

/-- The code of the same name. -/
def protocolErrorCode : CanonicalErrorCode → ProtocolErrorCode
  | .cborInvalid => .cborInvalid
  | .cborNonCanonical => .cborNonCanonical
  | .cborLimitExceeded => .cborLimitExceeded
  | .schemaInvalid => .schemaInvalid
  | .integerOutOfRange => .integerOutOfRange
  | .invalidUtf8 => .invalidUtf8
  | .digestMismatch => .digestMismatch

/-- What the protocol throws where the canonical encoding throws. -/
def protocolError (error : CanonicalError) : CodecError :=
  .protocol ⟨protocolErrorCode error.code, error.message⟩

def utf8 (value : String) : Codec Bytes := (Canonical.utf8 value).mapError protocolError

def assertCanonicalCbor (input : Bytes) : Codec CborValue :=
  (Canonical.assertCanonicalCbor input defaultDecodeLimits).mapError protocolError

abbrev IntegerMap := List (CborMapKey × CborValue)

/-- The fields that are present, in their order. -/
def integerMap (entries : List (ℕ × Option CborValue)) : CborValue :=
  .map (entries.filterMap fun entry => entry.2.map (CborMapKey.integer entry.1, ·))

/-- An error of a message with a wrong form. -/
def schemaInvalid (message : String) : CodecError := .protocol ⟨.schemaInvalid, message⟩

section

variable (value : CborValue) (name : String)

def expectMap : Codec IntegerMap :=
  expected value.map? (schemaInvalid s!"{name} must be a CBOR map")

def expectArray : Codec (List CborValue) :=
  expected value.array? (schemaInvalid s!"{name} must be a CBOR array")

def expectBytes : Codec Bytes :=
  expected value.bytes? (schemaInvalid s!"{name} must be bytes")

/-- Bytes of a given length. -/
def expectBytesOfLength (length : ℕ) : Codec Bytes := do
  let bytes ← expectBytes value name
  protocolInvariant (bytes.length = length) .schemaInvalid s!"{name} must contain {length} bytes"
  return bytes

def expectString : Codec String :=
  expected value.text? (schemaInvalid s!"{name} must be text")

def expectBigint : Codec ℤ :=
  expected value.integer? (schemaInvalid s!"{name} must be an integer")

def expectUint64 : Codec ℕ := do
  let integer ← expectBigint value name
  protocolInvariant (0 ≤ integer ∧ integer ≤ maxUint64) .integerOutOfRange
    s!"{name} is outside uint64 range"
  return integer.toNat

end

def required (map : IntegerMap) (key : ℕ) (name : String) : Codec CborValue :=
  expected (OrdMap.lookup (.integer key) map) (schemaInvalid s!"Missing required field {name}")

def optional (map : IntegerMap) (key : ℕ) : Option CborValue := OrdMap.lookup (.integer key) map

def assertKnownIntegerKeys (map : IntegerMap) (knownKeys : List ℕ) (name : String) : Codec Unit :=
  map.forM fun entry =>
    match entry.1 with
    | .integer key =>
      liftM (protocolInvariant (key ∈ knownKeys.map Int.ofNat) .schemaInvalid
        s!"{name} contains unknown critical field {key}")
    | _ => .error (schemaInvalid s!"{name} contains a non-integer field key")

def expectVersion (map : IntegerMap) (expected : ℕ) (name : String) : Codec Unit := do
  let version ← expectUint64 (← required map 0 s!"{name}.version") s!"{name}.version"
  protocolInvariant (version = expected) .unsupportedVersion s!"Unsupported {name} version"

/-- The items of an array, each with its position in its name. -/
def readItems {α : Type} (read : CborValue → String → Codec α) (name : String) :
    (index : ℕ) → List CborValue → Codec (List α)
  | _, [] => return []
  | index, item :: items =>
    return (← read item s!"{name}[{index}]") :: (← readItems read name (index + 1) items)

/-- Values written one after the other. -/
def writeItems {α : Type} (write : α → Codec CborValue) : List α → Codec (List CborValue)
  | [] => return []
  | value :: values => return (← write value) :: (← writeItems write values)

/-! ## What the helpers return -/

section Helpers

variable {value : CborValue} {name : String}

@[simp]
theorem expectMap_eq_ok_iff {entries : IntegerMap} :
    expectMap value name = .ok entries ↔ value = .map entries :=
  expected_eq_ok_iff.trans map?_eq_some_iff

@[simp]
theorem expectArray_eq_ok_iff {items : List CborValue} :
    expectArray value name = .ok items ↔ value = .array items :=
  expected_eq_ok_iff.trans array?_eq_some_iff

@[simp]
theorem expectBytes_eq_ok_iff {bytes : Bytes} :
    expectBytes value name = .ok bytes ↔ value = .bytes bytes :=
  expected_eq_ok_iff.trans bytes?_eq_some_iff

@[simp]
theorem expectString_eq_ok_iff {text : String} :
    expectString value name = .ok text ↔ value = .text text :=
  expected_eq_ok_iff.trans text?_eq_some_iff

@[simp]
theorem expectBigint_eq_ok_iff {n : ℤ} : expectBigint value name = .ok n ↔ value = .integer n :=
  expected_eq_ok_iff.trans integer?_eq_some_iff

@[simp]
theorem expectBytesOfLength_eq_ok_iff {length : ℕ} {bytes : Bytes} :
    expectBytesOfLength value name length = .ok bytes ↔
      value = .bytes bytes ∧ bytes.length = length := by
  simp only [expectBytesOfLength, bind_eq_ok_iff, expectBytes_eq_ok_iff,
    codec_protocolInvariant_eq_ok_iff, pure_eq_ok_iff, decide_eq_true_eq]
  constructor
  · rintro ⟨_, rfl, _, hlength, rfl⟩
    exact ⟨rfl, hlength⟩
  · rintro ⟨rfl, hlength⟩
    exact ⟨bytes, rfl, (), hlength, rfl⟩

@[simp]
theorem expectUint64_eq_ok_iff {n : ℕ} :
    expectUint64 value name = .ok n ↔ value = .integer n ∧ n ≤ maxUint64 := by
  simp only [expectUint64, bind_eq_ok_iff, expectBigint_eq_ok_iff, codec_protocolInvariant_eq_ok_iff,
    pure_eq_ok_iff, decide_eq_true_eq]
  constructor
  · rintro ⟨integer, rfl, _, ⟨hnonneg, hle⟩, rfl⟩
    rw [Int.toNat_of_nonneg hnonneg]
    exact ⟨rfl, by omega⟩
  · rintro ⟨rfl, hle⟩
    exact ⟨n, rfl, (), by omega, rfl⟩

end Helpers

/-! ## Fields -/

variable {knownKeys : List ℕ}

theorem integer_mem_of_assertKnownIntegerKeys {u : Unit}
    (h : assertKnownIntegerKeys map knownKeys name = .ok u) :
    ∀ entry ∈ map, ∃ key ∈ knownKeys, entry.1 = .integer key := by
  induction map with
  | nil => exact List.forall_mem_nil _
  | cons entry map ih =>
    obtain ⟨_, hentry, h⟩ := bind_eq_ok_iff.1 h
    refine List.forall_mem_cons.2 ⟨?_, ih h⟩
    obtain ⟨key, value⟩ := entry
    cases key with
    | integer key =>
      have hmem := of_decide_eq_true (protocolInvariant_eq_ok_iff.1 (mapError_eq_ok_iff.1 hentry))
      obtain ⟨known, hknown, rfl⟩ := List.mem_map.1 hmem
      exact ⟨known, hknown, rfl⟩
    | text key => cases hentry
    | bytes key => cases hentry

/-- The fields that a map has, in the order of the known keys. -/
def presentFields (map : IntegerMap) (knownKeys : List ℕ) : IntegerMap :=
  knownKeys.filterMap fun key => (optional map key).map (CborMapKey.integer key, ·)

/-- A map whose keys are known is, up to order, the list of its fields. -/
theorem perm_presentFields (hmap : (map.map Prod.fst).Nodup) (hknown : knownKeys.Nodup)
    (h : ∀ entry ∈ map, ∃ key ∈ knownKeys, entry.1 = .integer key) :
    map.Perm (presentFields map knownKeys) := by
  have hmem (entry : CborMapKey × CborValue) :
      entry ∈ presentFields map knownKeys ↔ entry ∈ map := by
    rw [presentFields, List.mem_filterMap]
    constructor
    · rintro ⟨key, _, hentry⟩
      obtain ⟨value, hvalue, rfl⟩ := Option.map_eq_some_iff.1 hentry
      exact (OrdMap.lookup_eq_some_iff hmap).1 hvalue
    · intro hentry
      obtain ⟨key, hkey, hentryKey⟩ := h entry hentry
      refine ⟨key, hkey, Option.map_eq_some_iff.2 ⟨entry.2, ?_, ?_⟩⟩
      · exact (OrdMap.lookup_eq_some_iff hmap).2 (hentryKey ▸ hentry)
      · rw [← hentryKey]
  refine (List.perm_ext_iff_of_nodup hmap.of_map ?_).2 fun entry => (hmem entry).symm
  refine hknown.filterMap fun key key' entry hentry hentry' => ?_
  obtain ⟨value, _, rfl⟩ := Option.map_eq_some_iff.1 hentry
  obtain ⟨value', _, heq⟩ := Option.map_eq_some_iff.1 hentry'
  exact (Int.ofNat.inj (CborMapKey.integer.inj (congrArg Prod.fst heq))).symm

/-- Fields that are written with the encodings with which they were read are written as the map
    that was read. -/
theorem reencodes_integerMap {fields : List (ℕ × Option CborValue)} {u : Unit}
    (hknown : assertKnownIntegerKeys map (fields.map Prod.fst) name = .ok u)
    (hnodup : (fields.map Prod.fst).Nodup)
    (hfields : ∀ field ∈ fields, Option.Rel Reencodes (optional map field.1) field.2) :
    Reencodes (.map map) (integerMap fields) := by
  intro word hword
  have hperm := perm_presentFields (nodup_keys_of_encode_map hword) hnodup
    (integer_mem_of_assertKnownIntegerKeys hknown)
  refine ((reencodes_map_perm hperm).trans (reencodes_map_entries ?_)) word hword
  clear hperm hknown hnodup hword
  induction fields with
  | nil => exact .nil
  | cons field fields ih =>
    obtain ⟨hfield, hrest⟩ := List.forall_mem_cons.1 hfields
    obtain ⟨key, written⟩ := field
    rw [presentFields, List.map_cons, List.filterMap_cons]
    generalize optional map key = read at hfield
    cases hfield with
    | none => exact ih hrest
    | some hreencodes => exact .cons ⟨rfl, hreencodes⟩ (ih hrest)

/-! ## Items -/

/-- What is read and written again has the encoding it had. -/
def Inverse {α : Type} (read : CborValue → String → Codec α) (write : α → Codec CborValue) : Prop :=
  ∀ value name a written, read value name = .ok a → write a = .ok written → Reencodes value written

variable {α : Type}

theorem writeItems_eq_ok_iff {write : α → Codec CborValue} {values : List α}
    {written : List CborValue} : writeItems write values = .ok written ↔
      List.Forall₂ (fun value item => write value = .ok item) values written := by
  refine Pointwise.traverse_eq_ok_iff (g := writeItems write) rfl fun value values written => ?_
  simp [writeItems]

theorem forall₂_of_readItems {read : CborValue → String → Codec α} {index : ℕ}
    {items : List CborValue} {values : List α} (h : readItems read name index items = .ok values) :
    List.Forall₂ (fun item value => ∃ name, read item name = .ok value) items values := by
  induction items generalizing index values with
  | nil =>
    cases h
    exact .nil
  | cons item items ih =>
    simp only [readItems, bind_eq_ok_iff, pure_eq_ok_iff] at h
    obtain ⟨value, hvalue, values, hvalues, rfl⟩ := h
    exact .cons ⟨_, hvalue⟩ (ih hvalues)

/-- Items that are read and written again one by one. -/
theorem Inverse.reencodes_items {read : CborValue → String → Codec α} {write : α → Codec CborValue}
    (hinverse : Inverse read write) {index : ℕ} {items written : List CborValue} {values : List α}
    (hread : readItems read name index items = .ok values)
    (hwrite : writeItems write values = .ok written) :
    Reencodes (.array items) (.array written) := by
  refine reencodes_array ?_
  have hread := forall₂_of_readItems hread
  have hwrite := writeItems_eq_ok_iff.1 hwrite
  clear * - hinverse hread hwrite
  induction hread generalizing written with
  | nil =>
    cases hwrite
    exact .nil
  | cons hitem _ ih =>
    obtain ⟨name, hitem⟩ := hitem
    cases hwrite with
    | cons hvalue hwrite => exact .cons (hinverse _ _ _ _ hitem hvalue) (ih hwrite)

end Chronolog.Protocol
