import Chronolog.Canonical.Schema
import Chronolog.Protocol.Sql

/-!
# Logical values and types as CBOR

A logical value is an array of a tag and its parts. The decimals inside JSON values have the form
of ordinary JSON arrays: three items, the first of which is the tag of decimals.
-/

namespace Chronolog.Ir

open Canonical

/-! ## Tags and checks -/

namespace ValueTag

abbrev null : ℤ := 0
abbrev boolean : ℤ := 1
abbrev int64 : ℤ := 2
abbrev decimal : ℤ := 3
abbrev text : ℤ := 4
abbrev blob : ℤ := 5
abbrev uuid : ℤ := 6
abbrev timestampMs : ℤ := 7
abbrev durationMs : ℤ := 8
abbrev json : ℤ := 9
abbrev vector : ℤ := 10

end ValueTag

namespace TypeTag

abbrev boolean : ℤ := 16
abbrev int64 : ℤ := 17
abbrev decimal : ℤ := 18
abbrev text : ℤ := 19
abbrev blob : ℤ := 20
abbrev uuid : ℤ := 21
abbrev timestampMs : ℤ := 22
abbrev durationMs : ℤ := 23
abbrev json : ℤ := 24
abbrev vector : ℤ := 25

end TypeTag

def vectorElements : List VectorElementType := [.i8, .u8, .i16, .i32, .f32, .f64]

def vectorWidth : VectorElementType → ℕ
  | .i8 | .u8 => 1
  | .i16 => 2
  | .i32 | .f32 => 4
  | .f64 => 8

def minInt64 : ℤ := -(2 ^ 63)

def maxInt64 : ℤ := 2 ^ 63 - 1

def assertUint (value : ℕ) (name : String) : Codec Unit :=
  canonicalInvariant (value ≤ maxSafeInteger) .schemaInvalid
    s!"{name} must be an unsigned safe integer"

def uint (value : ℕ) (name : String) : Codec CborValue := do
  assertUint value name
  return .integer value

def safeUint (value : CborValue) (name : String) : Codec ℕ := do
  let amount ← expectBigint value name
  canonicalInvariant (0 ≤ amount ∧ amount ≤ maxSafeInteger) .schemaInvalid
    s!"{name} is outside safe uint range"
  return amount.toNat

def safeNumber (value : ℤ) (name : String) : Codec ℤ := do
  canonicalInvariant (-maxSafeInteger ≤ value ∧ value ≤ maxSafeInteger) .schemaInvalid
    s!"{name} is outside safe integer range"
  return value

/-! ## JSON -/

mutual

/-- The checks of a JSON value. (A value of the model is not cyclic, and its parts are of the
    kinds that their types say.) -/
def assertJson : CanonicalJsonValue → Codec Unit
  | .decimal _ scale => assertUint scale "json.decimal.scale"
  | .array items => assertJsonItems items
  | .object members => assertJsonMembers members
  | _ => return

def assertJsonItems : List CanonicalJsonValue → Codec Unit
  | [] => return
  | item :: items => do
    assertJson item
    assertJsonItems items

def assertJsonMembers : List (String × CanonicalJsonValue) → Codec Unit
  | [] => return
  | (_, item) :: members => do
    assertJson item
    assertJsonMembers members

end

mutual

def jsonToCbor : CanonicalJsonValue → Codec CborValue
  | .null => return .null
  | .boolean value => return .boolean value
  | .integer value => return .integer value
  | .string value => return .text value
  | .array items => return .array (← jsonItemsToCbor items)
  | .object members => return .map (← jsonMembersToCbor members)
  | .decimal coefficient scale =>
    return .array [.integer ValueTag.decimal, .integer coefficient, ← uint scale "json.decimal.scale"]

def jsonItemsToCbor : List CanonicalJsonValue → Codec (List CborValue)
  | [] => return []
  | item :: items => return (← jsonToCbor item) :: (← jsonItemsToCbor items)

def jsonMembersToCbor : List (String × CanonicalJsonValue) → Codec (List (CborMapKey × CborValue))
  | [] => return []
  | (key, item) :: members => do
    let entry := (CborMapKey.text key, ← jsonToCbor item)
    return entry :: (← jsonMembersToCbor members)

end

/-- The key of a JSON object. -/
def jsonKey : CborMapKey → Codec String
  | .text key => return key
  | _ => throw ⟨.schemaInvalid, "JSON object keys must be text"⟩

mutual

/-- The keys of a map are different, so each entry becomes a member of the object. -/
def jsonFromCbor : CborValue → Codec CanonicalJsonValue
  | .null => return .null
  | .boolean value => return .boolean value
  | .integer value => return .integer value
  | .text value => return .string value
  | .bytes _ => throw ⟨.schemaInvalid, "JSON blobs are not permitted"⟩
  | .map entries => return .object (← jsonMembersFromCbor entries)
  | .array items =>
    -- An array with the form of a decimal is read as a decimal.
    if items.length = 3 ∧ (itemAt items 0).integer? = some ValueTag.decimal then
      return .decimal (← expectBigint (itemAt items 1) "json.decimal.coefficient")
        (← safeUint (itemAt items 2) "json.decimal.scale")
    else return .array (← jsonItemsFromCbor items)

def jsonItemsFromCbor : List CborValue → Codec (List CanonicalJsonValue)
  | [] => return []
  | item :: items => return (← jsonFromCbor item) :: (← jsonItemsFromCbor items)

def jsonMembersFromCbor : List (CborMapKey × CborValue) → Codec (List (String × CanonicalJsonValue))
  | [] => return []
  | (key, item) :: entries => do
    let member := (← jsonKey key, ← jsonFromCbor item)
    return member :: (← jsonMembersFromCbor entries)

end

/-! ## Logical values -/

def assertInt64 (value : ℤ) (kind : String) : Codec Unit :=
  canonicalInvariant (minInt64 ≤ value ∧ value ≤ maxInt64) .schemaInvalid
    s!"{kind} is outside signed int64"

def assertLogicalValue : LogicalValue → Codec Unit
  | .null | .boolean _ | .blob _ => return
  | .int64 value => assertInt64 value "int64"
  | .timestampMs value => assertInt64 value "timestamp_ms"
  | .durationMs value => assertInt64 value "duration_ms"
  | .decimal _ scale => assertUint scale "decimal.scale"
  | .text bytes => do
    let _ ← decodeUtf8 bytes
  | .uuid bytes => canonicalInvariant (bytes.length = 16) .schemaInvalid "UUID bytes are invalid"
  | .json value => assertJson value
  | .vector element dimensions bytes => do
    assertUint dimensions "vector.dimensions"
    canonicalInvariant (0 < dimensions) .schemaInvalid "Vector dimensions must be positive"
    canonicalInvariant (bytes.length = dimensions * vectorWidth element) .schemaInvalid
      "Vector byte length does not match dimensions"

/-- The tag and the parts of a logical value. -/
def logicalValueParts : LogicalValue → Codec (List CborValue)
  | .null => return [.integer ValueTag.null]
  | .boolean value => return [.integer ValueTag.boolean, .boolean value]
  | .int64 value => return [.integer ValueTag.int64, .integer value]
  | .decimal coefficient scale =>
    return [.integer ValueTag.decimal, .integer coefficient, ← uint scale "decimal.scale"]
  | .text bytes => return [.integer ValueTag.text, .text (← decodeUtf8 bytes)]
  | .blob bytes => return [.integer ValueTag.blob, .bytes bytes]
  | .uuid bytes => return [.integer ValueTag.uuid, .bytes bytes]
  | .timestampMs value => return [.integer ValueTag.timestampMs, .integer value]
  | .durationMs value => return [.integer ValueTag.durationMs, .integer value]
  | .json value => return [.integer ValueTag.json, ← jsonToCbor value]
  | .vector element dimensions bytes =>
    return [.integer ValueTag.vector, .integer (vectorElements.idxOf element),
      ← uint dimensions "vector.dimensions", .bytes bytes]

def logicalValueToCanonicalCbor (value : LogicalValue) : Codec CborValue := do
  assertLogicalValue value
  return .array (← logicalValueParts value)

/-- The element type of a vector, by its position in the list. -/
def vectorElement (value : CborValue) : Codec VectorElementType := do
  expected (vectorElements[← safeUint value "vector.element"]?)
    (.canonical ⟨.schemaInvalid, "Unknown vector element type"⟩)

/-- The logical value with a tag. -/
def logicalValueOfTag (tag : ℤ) (items : List CborValue) : Codec LogicalValue :=
  if tag = ValueTag.null ∧ items.length = 1 then return .null
  else if tag = ValueTag.boolean ∧ items.length = 2 then
    return .boolean (← expectBoolean (itemAt items 1) "boolean.value")
  else if tag = ValueTag.int64 ∧ items.length = 2 then
    return .int64 (← expectBigint (itemAt items 1) "int64.value")
  else if tag = ValueTag.decimal ∧ items.length = 3 then
    return .decimal (← expectBigint (itemAt items 1) "decimal.coefficient")
      (← safeUint (itemAt items 2) "decimal.scale")
  else if tag = ValueTag.text ∧ items.length = 2 then
    return .text (← Canonical.utf8 (← expectString (itemAt items 1) "text.value"))
  else if tag = ValueTag.blob ∧ items.length = 2 then
    return .blob (← expectBytes (itemAt items 1) "blob.value")
  else if tag = ValueTag.uuid ∧ items.length = 2 then
    return .uuid (← expectBytesOfLength (itemAt items 1) "uuid.value" 16)
  else if tag = ValueTag.timestampMs ∧ items.length = 2 then
    return .timestampMs (← expectBigint (itemAt items 1) "timestamp.value")
  else if tag = ValueTag.durationMs ∧ items.length = 2 then
    return .durationMs (← expectBigint (itemAt items 1) "duration.value")
  else if tag = ValueTag.json ∧ items.length = 2 then
    return .json (← jsonFromCbor (itemAt items 1))
  else if tag = ValueTag.vector ∧ items.length = 4 then
    return .vector (← vectorElement (itemAt items 1))
      (← safeUint (itemAt items 2) "vector.dimensions") (← expectBytes (itemAt items 3) "vector.bytes")
  else .error (.other s!"IR_UNKNOWN_LOGICAL_VALUE_TAG:{tag}")

def logicalValueFromCanonicalCbor (value : CborValue) : Codec LogicalValue := do
  let items ← expectArray value "logical_value"
  let tag ← safeNumber (← expectBigint (itemAt items 0) "logical_value.tag") "logical_value.tag"
  let decoded ← logicalValueOfTag tag items
  assertLogicalValue decoded
  return decoded

/-! ## Logical types -/

/-- A collation in the source is its text. -/
def collationText : CollationId → String
  | .binary => "binary"
  | .nocase => "nocase"
  | .rtrim => "rtrim"
  | .unicodeCodepoint => "unicode_codepoint"
  | .registered id => "registered:" ++ id.repr

/-- The collation with a text: one of the fixed names, or `registered:` and the decimal digits of
    a number without leading zeros. -/
def collationOfText (text : String) : Option CollationId :=
  [.binary, .nocase, .rtrim, .unicodeCodepoint,
    .registered (Nat.ofDigitChars 10 (text.toList.drop 11) 0)].find? (collationText · == text)

def assertLogicalType : LogicalType → Codec Unit
  | .decimal precision scale => do
    assertUint precision "decimal.precision"
    assertUint scale "decimal.scale"
    canonicalInvariant (0 < precision ∧ scale ≤ precision) .schemaInvalid "Decimal type is invalid"
  | .blob (some maxBytes) => assertUint maxBytes "blob.maxBytes"
  | .vector _ dimensions => do
    assertUint dimensions "vector.dimensions"
    canonicalInvariant (0 < dimensions) .schemaInvalid "Vector dimensions must be positive"
  | _ => return

/-- The tag and the parts of a logical type. -/
def logicalTypeParts : LogicalType → Codec (List CborValue)
  | .boolean => return [.integer TypeTag.boolean]
  | .int64 => return [.integer TypeTag.int64]
  | .decimal precision scale =>
    return [.integer TypeTag.decimal, ← uint precision "decimal.precision", ← uint scale "decimal.scale"]
  | .text collation => return [.integer TypeTag.text, .text (collationText collation)]
  | .blob none => return [.integer TypeTag.blob, .null]
  | .blob (some maxBytes) => return [.integer TypeTag.blob, ← uint maxBytes "blob.maxBytes"]
  | .uuid => return [.integer TypeTag.uuid]
  | .timestampMs => return [.integer TypeTag.timestampMs]
  | .durationMs => return [.integer TypeTag.durationMs]
  | .json => return [.integer TypeTag.json]
  | .vector element dimensions =>
    return [.integer TypeTag.vector, .integer (vectorElements.idxOf element),
      ← uint dimensions "vector.dimensions"]

def logicalTypeToCanonicalCbor (value : LogicalType) : Codec CborValue := do
  assertLogicalType value
  return .array (← logicalTypeParts value)

/-- The limit of a type of blobs, `null` where there is none. -/
def blobLimit : CborValue → Codec (Option ℕ)
  | .null => return none
  | value => return some (← safeUint value "blob.maxBytes")

/-- The collation of a type of texts, checked. -/
def textCollation (value : CborValue) : Codec CollationId := do
  expected (collationOfText (← expectString value "text.collation"))
    (.canonical ⟨.schemaInvalid, "Text collation is invalid"⟩)

/-- The logical type with a tag. -/
def logicalTypeOfTag (tag : ℤ) (items : List CborValue) : Codec LogicalType :=
  if tag = TypeTag.boolean ∧ items.length = 1 then return .boolean
  else if tag = TypeTag.int64 ∧ items.length = 1 then return .int64
  else if tag = TypeTag.decimal ∧ items.length = 3 then
    return .decimal (← safeUint (itemAt items 1) "decimal.precision")
      (← safeUint (itemAt items 2) "decimal.scale")
  else if tag = TypeTag.text ∧ items.length = 2 then
    return .text (← textCollation (itemAt items 1))
  else if tag = TypeTag.blob ∧ items.length = 2 then
    return .blob (← blobLimit (itemAt items 1))
  else if tag = TypeTag.uuid ∧ items.length = 1 then return .uuid
  else if tag = TypeTag.timestampMs ∧ items.length = 1 then return .timestampMs
  else if tag = TypeTag.durationMs ∧ items.length = 1 then return .durationMs
  else if tag = TypeTag.json ∧ items.length = 1 then return .json
  else if tag = TypeTag.vector ∧ items.length = 3 then
    return .vector (← vectorElement (itemAt items 1))
      (← safeUint (itemAt items 2) "vector.dimensions")
  else .error (.other s!"IR_UNKNOWN_LOGICAL_TYPE_TAG:{tag}")

def logicalTypeFromCanonicalCbor (value : CborValue) : Codec LogicalType := do
  let items ← expectArray value "logical_type"
  let tag ← safeNumber (← expectBigint (itemAt items 0) "logical_type.tag") "logical_type.tag"
  let decoded ← logicalTypeOfTag tag items
  assertLogicalType decoded
  return decoded

end Chronolog.Ir
