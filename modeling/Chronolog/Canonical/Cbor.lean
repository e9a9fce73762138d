import Chronolog.Canonical.Bytes
import Chronolog.Lib.BigEndian
import Chronolog.Lib.OrdMap
import Chronolog.Lib.Procedure
import Mathlib.Data.List.Sort

/-!
# Deterministic CBOR

Every message, program and result of the system is a tree of null, booleans, integers of any
size, texts, byte strings, arrays and maps, with one encoding. Heads are as short as possible,
an integer beyond 64 bits is a tagged byte string without leading zeros, and the entries of a map
are in the order of their encoded keys, shorter ones first.

The decoder has a position in its input, which is the part that is left in the model, and stops
at nesting deeper than a limit.
-/

namespace Chronolog.Canonical

/-- The keys of maps. -/
inductive CborMapKey
  | integer (value : ℤ)
  | text (value : String)
  | bytes (value : Bytes)
  deriving DecidableEq

/-- The values of the profile. A map has its entries in the order in which they were set. -/
inductive CborValue
  | null
  | boolean (value : Bool)
  | integer (value : ℤ)
  | text (value : String)
  | bytes (value : Bytes)
  | array (items : List CborValue)
  | map (entries : List (CborMapKey × CborValue))

/-- Induction over values. The keys of maps are values without parts. -/
@[elab_as_elim]
theorem CborValue.induction {motive : CborValue → Prop} (null : motive .null)
    (boolean : ∀ value, motive (.boolean value)) (integer : ∀ value, motive (.integer value))
    (text : ∀ value, motive (.text value)) (bytes : ∀ value, motive (.bytes value))
    (array : ∀ items, (∀ item ∈ items, motive item) → motive (.array items))
    (map : ∀ entries, (∀ entry ∈ entries, motive entry.2) → motive (.map entries)) :
    ∀ value, motive value :=
  @CborValue.rec motive (fun items => ∀ item ∈ items, motive item)
    (fun entries => ∀ entry ∈ entries, motive entry.2) (fun entry => motive entry.2)
    null boolean integer text bytes array map
    (List.forall_mem_nil _) (fun _ _ hitem hitems => List.forall_mem_cons.2 ⟨hitem, hitems⟩)
    (List.forall_mem_nil _) (fun _ _ hentry hentries => List.forall_mem_cons.2 ⟨hentry, hentries⟩)
    fun _ _ hvalue => hvalue

/-- A key as a value. -/
def CborMapKey.toValue : CborMapKey → CborValue
  | .integer value => .integer value
  | .text value => .text value
  | .bytes value => .bytes value

structure DecodeLimits where
  maxBytes : ℕ
  maxDepth : ℕ
  maxArrayItems : ℕ
  maxMapItems : ℕ
  maxTextBytes : ℕ
  maxBlobBytes : ℕ
  deriving DecidableEq

def defaultDecodeLimits : DecodeLimits where
  maxBytes := 16 * 1024 * 1024
  maxDepth := 64
  maxArrayItems := 1000000
  maxMapItems := 100000
  maxTextBytes := 4 * 1024 * 1024
  maxBlobBytes := 16 * 1024 * 1024

def maxUint64 : ℕ := 2 ^ 64 - 1

/-- `Number.MAX_SAFE_INTEGER`. -/
def maxSafeInteger : ℕ := 2 ^ 53 - 1

def positiveBignumTag : ℕ := 2

def negativeBignumTag : ℕ := 3

/-! ## Encoding -/

/-- The first byte of a value: its major type, and a small argument or how long the argument is. -/
def initialByte (major additional : ℕ) : UInt8 := UInt8.ofNat (major <<< 5 ||| additional)

def encodeHead (major value : ℕ) : Except CanonicalError Bytes := do
  canonicalInvariant (value ≤ maxUint64) .integerOutOfRange "CBOR integer is outside uint64 range"
  return if value < 24 then [initialByte major value]
    else if value ≤ 0xff then initialByte major 24 :: BigEndian.toBytes 1 value
    else if value ≤ 0xffff then initialByte major 25 :: BigEndian.toBytes 2 value
    else if value ≤ 0xffffffff then initialByte major 26 :: BigEndian.toBytes 4 value
    else initialByte major 27 :: BigEndian.toBytes 8 value

def magnitudeBytes (value : ℕ) : Except CanonicalError Bytes := do
  canonicalInvariant (value > maxUint64) .integerOutOfRange "CBOR bignum must exceed uint64 range"
  return BigEndian.minimalBytes value

/-- The number of a sign and a magnitude: the magnitude, or `-1` minus it. -/
def signed (negative : Bool) (magnitude : ℕ) : ℤ := if negative then -1 - magnitude else magnitude

def encodeBigint (value : ℤ) : Except CanonicalError Bytes := do
  let negative : Bool := value < 0
  let magnitude := (if negative then -1 - value else value).toNat
  if magnitude ≤ maxUint64 then
    encodeHead (if negative then 1 else 0) magnitude
  else do
    let bytes ← magnitudeBytes magnitude
    return (← encodeHead 6 (if negative then negativeBignumTag else positiveBignumTag)) ++
      (← encodeHead 2 bytes.length) ++ bytes

/-- Shorter keys come first. -/
def KeyLe (left right : Bytes) : Prop :=
  left.length < right.length ∨ left.length = right.length ∧ BytesLe left right

instance (left right : Bytes) : Decidable (KeyLe left right) := inferInstanceAs (Decidable (_ ∨ _))

/-- Are the keys of entries, which are in order, pairwise different? -/
def distinctKeys : List (Bytes × Bytes) → Bool
  | [] | [_] => true
  | first :: second :: entries => first.1 ≠ second.1 && distinctKeys (second :: entries)

def encodeText (value : String) : Except CanonicalError Bytes := do
  let bytes ← utf8 value
  return (← encodeHead 3 bytes.length) ++ bytes

def encodeBytes (value : Bytes) : Except CanonicalError Bytes :=
  return (← encodeHead 2 value.length) ++ value

/-- A key is encoded as a value is. -/
def encodeKey : CborMapKey → Except CanonicalError Bytes
  | .integer value => encodeBigint value
  | .text value => encodeText value
  | .bytes value => encodeBytes value

mutual

def encodeCanonicalCbor : CborValue → Except CanonicalError Bytes
  | .null => return [0xf6]
  | .boolean false => return [0xf4]
  | .boolean true => return [0xf5]
  | .integer value => encodeBigint value
  | .text value => encodeText value
  | .bytes value => encodeBytes value
  | .array items => return (← encodeHead 4 items.length) ++ (← encodeItems items).flatten
  | .map entries => do
    let sorted := (← encodeEntries entries).insertionSort fun a b => KeyLe a.1 b.1
    canonicalInvariant (distinctKeys sorted) .cborNonCanonical "Duplicate canonical CBOR map key"
    return (← encodeHead 5 sorted.length) ++ sorted.flatMap fun entry => entry.1 ++ entry.2

def encodeItems : List CborValue → Except CanonicalError (List Bytes)
  | [] => return []
  | item :: items => return (← encodeCanonicalCbor item) :: (← encodeItems items)

def encodeEntries : List (CborMapKey × CborValue) → Except CanonicalError (List (Bytes × Bytes))
  | [] => return []
  | (key, value) :: entries => do
    let entry := (← encodeKey key, ← encodeCanonicalCbor value)
    return entry :: (← encodeEntries entries)

end

/-! ## Decoding -/

/-- Procedures on the part of the input that is left. -/
abbrev Decoder := EStateM CanonicalError Bytes

namespace Decoder

def byte : Decoder UInt8 := do
  match ← get with
  | [] => throw ⟨.cborInvalid, "Unexpected end of CBOR input"⟩
  | byte :: input =>
    set input
    return byte

def bytes (size : ℕ) : Decoder Bytes := do
  let input ← get
  canonicalInvariant (size ≤ input.length) .cborInvalid "Invalid or truncated CBOR byte range"
  set (input.drop size)
  return input.take size

/-- An argument of so many bytes, more than a shorter one could be. -/
def longArgument (size minimum : ℕ) : Decoder ℕ := do
  let value := BigEndian.ofBytes (← bytes size)
  canonicalInvariant (minimum ≤ value) .cborNonCanonical "Non-shortest CBOR integer"
  return value

def argument (additional : ℕ) : Decoder ℕ :=
  if additional < 24 then return additional
  else if additional = 24 then longArgument 1 24
  else if additional = 25 then longArgument 2 0x100
  else if additional = 26 then longArgument 4 0x10000
  else if additional = 27 then longArgument 8 0x100000000
  else if additional = 31 then
    throw ⟨.cborNonCanonical, "Indefinite-length CBOR is prohibited"⟩
  else throw ⟨.cborInvalid, "Reserved CBOR additional information"⟩

/-- The payload of a tag: the bytes of an integer. `levels` is how many levels of nesting there
    may be below the tag. -/
def bignum (limits : DecodeLimits) (tag levels : ℕ) : Decoder ℤ := do
  canonicalInvariant (tag = positiveBignumTag ∨ tag = negativeBignumTag) .cborInvalid
    "Unsupported CBOR tag"
  -- The level of the payload is compared with `<` here, and with `<=` elsewhere.
  canonicalInvariant (1 < levels) .cborLimitExceeded "CBOR nesting exceeds limit"
  let initial ← byte
  canonicalInvariant (initial.toNat >>> 5 = 2) .cborInvalid
    "CBOR bignum payload must be a byte string"
  let size ← argument (initial.toNat &&& 31)
  canonicalInvariant (size ≤ maxSafeInteger) .cborLimitExceeded "CBOR bignum is too large"
  canonicalInvariant (size ≤ limits.maxBlobBytes) .cborLimitExceeded
    "CBOR bignum exceeds blob limit"
  let payload ← bytes size
  canonicalInvariant (8 < payload.length ∧ payload.head? ≠ some 0) .cborNonCanonical
    "CBOR bignum is not minimally encoded"
  let magnitude := BigEndian.ofBytes payload
  canonicalInvariant (magnitude > maxUint64) .cborNonCanonical
    "CBOR bignum must use the ordinary integer representation"
  return signed (tag = negativeBignumTag) magnitude

/-- So many values, one after the other. -/
def items (value : Decoder CborValue) : (size : ℕ) → Decoder (List CborValue)
  | 0 => return []
  | size + 1 => return (← value) :: (← items value size)

/-- The key that a value is. -/
def asKey : CborValue → Decoder CborMapKey
  | .integer value => return .integer value
  | .text value => return .text value
  | .bytes value => return .bytes value
  | _ => throw ⟨.cborInvalid, "Unsupported CBOR map key"⟩

/-- The entries of a map, whose keys are in order, after those in `map` and the key with the
    encoding `previous`. -/
def entries (value : Decoder CborValue) : (size : ℕ) → (map : List (CborMapKey × CborValue)) →
    (previous : Option Bytes) → Decoder (List (CborMapKey × CborValue))
  | 0, map, _ => return map
  | size + 1, map, previous => do
    let start ← get
    let key ← asKey (← value)
    let encoded := start.take (start.length - (← get).length)
    canonicalInvariant (previous.all fun previous => KeyLe previous encoded ∧ previous ≠ encoded)
      .cborNonCanonical "CBOR map keys are duplicate or incorrectly ordered"
    entries value size (OrdMap.upsert key (← value) map) (some encoded)

/-- The values without an argument. -/
def simple (additional : ℕ) : Decoder CborValue :=
  if additional = 20 then return .boolean false
  else if additional = 21 then return .boolean true
  else if additional = 22 then return .null
  else throw ⟨.cborInvalid, "Floating point and unsupported simple CBOR values are prohibited"⟩

/-- The values with a size, of the major types 2 to 5. -/
def sized (limits : DecodeLimits) (nested : Decoder CborValue) (major size : ℕ) :
    Decoder CborValue := do
  canonicalInvariant (size ≤ maxSafeInteger) .cborLimitExceeded "CBOR collection is too large"
  if major = 2 then do
    canonicalInvariant (size ≤ limits.maxBlobBytes) .cborLimitExceeded "CBOR blob exceeds limit"
    return .bytes (← bytes size)
  else if major = 3 then do
    canonicalInvariant (size ≤ limits.maxTextBytes) .cborLimitExceeded "CBOR text exceeds limit"
    return .text (← ofExcept (decodeUtf8 (← bytes size)))
  else if major = 4 then do
    canonicalInvariant (size ≤ limits.maxArrayItems) .cborLimitExceeded
      "CBOR array exceeds item limit"
    return .array (← items nested size)
  else do
    canonicalInvariant (size ≤ limits.maxMapItems) .cborLimitExceeded
      "CBOR map exceeds item limit"
    return .map (← entries nested size [] none)

/-- A value with a head. -/
def headed (limits : DecodeLimits) (levels : ℕ) (nested : Decoder CborValue)
    (major argument : ℕ) : Decoder CborValue :=
  if major = 6 then return .integer (← bignum limits argument levels)
  else if major = 0 then return .integer (signed false argument)
  else if major = 1 then return .integer (signed true argument)
  else sized limits nested major argument

/-- A value of at most so many levels. -/
def value (limits : DecodeLimits) : (levels : ℕ) → Decoder CborValue
  | 0 => throw ⟨.cborLimitExceeded, "CBOR nesting exceeds limit"⟩
  | levels + 1 => do
    let initial ← byte
    let major := initial.toNat >>> 5
    let additional := initial.toNat &&& 31
    if major = 7 then simple additional
    else do
      let argument ← argument additional
      headed limits levels (value limits levels) major argument

end Decoder

def decodeCanonicalCbor (input : Bytes) (limits : DecodeLimits) :
    Except CanonicalError CborValue := do
  canonicalInvariant (input.length ≤ limits.maxBytes) .cborLimitExceeded
    "CBOR input exceeds byte limit"
  match Decoder.value limits (limits.maxDepth + 1) input with
  | .error error _ => throw error
  | .ok value rest => do
    canonicalInvariant rest.isEmpty .cborInvalid "Trailing bytes after CBOR value"
    return value

def assertCanonicalCbor (input : Bytes) (limits : DecodeLimits) :
    Except CanonicalError CborValue := do
  let value ← decodeCanonicalCbor input limits
  canonicalInvariant ((← encodeCanonicalCbor value) = input) .cborNonCanonical
    "CBOR bytes are not canonical"
  return value

end Chronolog.Canonical
