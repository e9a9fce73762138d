import Chronolog.Ir.Codec
import Chronolog.Protocol.Schema

/-!
# SQL programs and results as CBOR

The codecs of bindings, statements, preconditions and programs, and of the results that a
precondition may expect. The rows of a result whose order does not matter are sorted by their
encodings before they are written, and a set is written without duplicates.
-/

namespace Chronolog.Protocol

open Canonical

/-! ## Checks -/

def resultModes : List SqlResultMode := [.scalar, .ordered, .multiset, .set]

def storageTypes : List CanonicalSqlStorageType := [.integer, .real, .text, .blob]

def safeIndex (value : ℕ) (name : String) : Codec ℕ := do
  protocolInvariant (value ≤ maxSafeInteger) .integerOutOfRange
    s!"{name} must be a nonnegative safe integer"
  return value

def positiveIndex (value : ℕ) (name : String) : Codec ℕ := do
  protocolInvariant (1 ≤ value ∧ value ≤ maxSafeInteger) .integerOutOfRange
    s!"{name} must be a positive safe integer"
  return value

def requireDigest (value : Bytes) (name : String) : Codec Bytes := do
  protocolInvariant (value.length = 32) .schemaInvalid s!"{name} must contain 32 bytes"
  return value

/-- Are eight bytes those of a finite number? The exponent of the others has all its bits set. -/
def isFiniteBinary64 : Bytes → Bool
  | first :: second :: _ => !(first &&& 0x7f == 0x7f && second &&& 0xf0 == 0xf0)
  | _ => false

def finiteRealBits (value : Bytes) (name : String) : Codec Bytes := do
  protocolInvariant (value.length = 8) .schemaInvalid s!"{name} must contain 8 bytes"
  protocolInvariant (isFiniteBinary64 value) .schemaInvalid
    s!"{name} must encode a finite binary64 value"
  return value

/-- The code points that end a line. -/
def lineTerminators : List ℕ := [0x0a, 0x0d, 0x2028, 0x2029]

/-- Does a name begin like a parameter of SQLite: with `:`, `@` or `$`, and a character that does
    not end the line? -/
def isParameterToken (name : String) : Bool :=
  match name.toList with
  | first :: second :: _ => first ∈ [':', '@', '$'] ∧ second.toNat ∉ lineTerminators
  | _ => false

/-! ## Bindings and statements -/

def modeCode (mode : SqlResultMode) : CborValue := .integer (resultModes.idxOf mode)

def modeFromCbor (value : CborValue) (name : String) : Codec SqlResultMode := do
  expected (resultModes[← expectUint64 value name]?) (schemaInvalid s!"{name} is unknown")

def sqlBindingValueToCanonicalCbor : SqlBindingValue → Codec CborValue
  | .real bits => return .array [.integer 11, .bytes (← finiteRealBits bits "SQL REAL binding bits")]
  | .logical value => Ir.logicalValueToCanonicalCbor value

def sqlBindingValueFromCanonicalCbor (value : CborValue) : Codec SqlBindingValue := do
  let tuple ← expectArray value "sql_binding_value"
  if tuple.length = 2 ∧ (itemAt tuple 0).integer? = some 11 then
    return .real (← finiteRealBits
      (← expectBytesOfLength (itemAt tuple 1) "SQL REAL binding bits" 8) "SQL REAL binding bits")
  else return .logical (← Ir.logicalValueFromCanonicalCbor value)

def parameterToCbor : SqlParameter → Codec CborValue
  | .index index =>
    return .array [.integer 0, .integer (← positiveIndex index "binding.parameter.index")]
  | .name name => do
    protocolInvariant (isParameterToken name) .schemaInvalid
      "Named SQL bindings must retain their SQLite prefix"
    return .array [.integer 1, .text name]

def logicalBindingToCbor (binding : SqlBinding) : Codec CborValue :=
  return .array [← parameterToCbor binding.parameter,
    ← sqlBindingValueToCanonicalCbor binding.value]

/-- The parameter of a binding, of a kind. -/
def parameterOfKind (kind : ℕ) (value : CborValue) (name : String) : Codec SqlParameter :=
  if kind = 0 then
    return .index (← positiveIndex (← expectUint64 value s!"{name}.parameter.index")
      s!"{name}.parameter.index")
  else if kind = 1 then do
    let parameter ← expectString value s!"{name}.parameter.name"
    protocolInvariant (isParameterToken parameter) .schemaInvalid
      s!"{name}.parameter.name is not an exact SQLite parameter token"
    return .name parameter
  else .error (schemaInvalid s!"{name}.parameter has unknown kind")

def logicalBindingFromCbor (value : CborValue) (name : String) : Codec SqlBinding := do
  let tuple ← expectArray value name
  protocolInvariant (tuple.length = 2) .schemaInvalid s!"{name} has invalid arity"
  let parameter ← expectArray (itemAt tuple 0) s!"{name}.parameter"
  protocolInvariant (parameter.length = 2) .schemaInvalid s!"{name}.parameter has invalid arity"
  let kind ← expectUint64 (itemAt parameter 0) s!"{name}.parameter.kind"
  return ⟨← parameterOfKind kind (itemAt parameter 1) name,
    ← sqlBindingValueFromCanonicalCbor (itemAt tuple 1)⟩

def sqlStatementToCanonicalCbor (value : SqlStatement) : Codec CborValue := do
  protocolInvariant (value.sql ≠ "") .schemaInvalid "SQL statement source cannot be empty"
  protocolInvariant (Char.ofNat 0 ∉ value.sql.toList) .schemaInvalid
    "SQL statement source cannot contain U+0000"
  let _ ← utf8 value.sql
  let bindings ← writeItems logicalBindingToCbor value.bindings
  return integerMap [(0, some (.text value.sql)), (1, some (.array bindings))]

def sqlStatementFromCanonicalCbor (value : CborValue) (name : String) : Codec SqlStatement := do
  let map ← expectMap value name
  assertKnownIntegerKeys map [0, 1] name
  let sql ← expectString (← required map 0 s!"{name}.sql") s!"{name}.sql"
  protocolInvariant (sql ≠ "" ∧ Char.ofNat 0 ∉ sql.toList) .schemaInvalid s!"{name}.sql is invalid"
  let _ ← utf8 sql
  let bindings ← expectArray (← required map 1 s!"{name}.bindings") s!"{name}.bindings"
  return ⟨sql, ← readItems logicalBindingFromCbor s!"{name}.bindings" 0 bindings⟩

/-! ## Results -/

def columnTypeToCbor : CanonicalSqlColumnType → Codec CborValue
  | .dynamic => return .array [.integer 0]
  | .storage storage => return .array [.integer 1, .integer (storageTypes.idxOf storage)]
  | .logical logicalType =>
    return .array [.integer 2, ← Ir.logicalTypeToCanonicalCbor logicalType]
  | .registered typeId implementationDigest => do
    let typeId ← safeIndex typeId "column.type.typeId"
    return .array [.integer 3, .integer typeId,
      .bytes (← requireDigest implementationDigest "column.type.implementationDigest")]

def columnTypeFromCbor (value : CborValue) (name : String) : Codec CanonicalSqlColumnType := do
  let tuple ← expectArray value name
  protocolInvariant (1 ≤ tuple.length) .schemaInvalid s!"{name} is empty"
  let kind ← expectUint64 (itemAt tuple 0) s!"{name}.kind"
  if kind = 0 ∧ tuple.length = 1 then return .dynamic
  else if kind = 1 ∧ tuple.length = 2 then
    return .storage (← expected (storageTypes[← expectUint64 (itemAt tuple 1) s!"{name}.storage"]?)
      (schemaInvalid s!"{name}.storage is unknown"))
  else if kind = 2 ∧ tuple.length = 2 then
    return .logical (← Ir.logicalTypeFromCanonicalCbor (itemAt tuple 1))
  else if kind = 3 ∧ tuple.length = 3 then
    return .registered
      (← safeIndex (← expectUint64 (itemAt tuple 1) s!"{name}.type_id") s!"{name}.type_id")
      (← expectBytesOfLength (itemAt tuple 2) s!"{name}.implementation_digest" 32)
  else .error (schemaInvalid s!"{name} is invalid")

/-- The platform's decoder of texts, whose error is not one of the protocol. -/
def decodeText (value : Bytes) : Codec String :=
  expected (textDecoder value) (.other "The encoded data was not valid for encoding utf-8")

def nullableCode : Option Bool → ℕ
  | some false => 0
  | some true => 1
  | none => 2

def columnToCbor (value : CanonicalSqlColumn) : Codec CborValue := do
  let _ ← utf8 (← decodeText value.nameUtf8)
  return .array [.bytes value.nameUtf8, ← columnTypeToCbor value.type,
    .integer (nullableCode value.nullable)]

def columnFromCbor (value : CborValue) (name : String) : Codec CanonicalSqlColumn := do
  let tuple ← expectArray value name
  protocolInvariant (tuple.length = 3) .schemaInvalid s!"{name} has invalid arity"
  let nullable ← expectUint64 (itemAt tuple 2) s!"{name}.nullable"
  protocolInvariant (nullable ≤ 2) .schemaInvalid s!"{name}.nullable is invalid"
  let nameUtf8 ← expectBytes (itemAt tuple 0) s!"{name}.name_utf8"
  protocolInvariant (textDecoder nameUtf8).isSome .schemaInvalid
    s!"{name}.name_utf8 is invalid UTF-8"
  return ⟨nameUtf8, ← columnTypeFromCbor (itemAt tuple 1) s!"{name}.type",
    if nullable = 0 then some false else if nullable = 1 then some true else none⟩

def canonicalSqlValueToCbor : CanonicalSqlValue → Codec CborValue
  | .null => return .array [.integer 0]
  | .integer value => do
    protocolInvariant (Ir.minInt64 ≤ value ∧ value ≤ Ir.maxInt64) .integerOutOfRange
      "SQL integer is outside int64"
    return .array [.integer 1, .integer value]
  | .real bits => return .array [.integer 2, .bytes (← finiteRealBits bits "SQL real bits")]
  | .text bytes => do
    protocolInvariant (textDecoder bytes).isSome .schemaInvalid "SQL text is invalid UTF-8"
    return .array [.integer 3, .bytes bytes]
  | .blob bytes => return .array [.integer 4, .bytes bytes]
  | .logical value => return .array [.integer 5, ← Ir.logicalValueToCanonicalCbor value]
  | .registered typeId implementationDigest canonicalPayload =>
    return .array [.integer 6, .integer (← safeIndex typeId "SQL registered value type ID"),
      .bytes (← requireDigest implementationDigest "SQL registered value implementation digest"),
      .bytes canonicalPayload]

/-- The value of a kind. -/
def sqlValueOfKind (kind : ℕ) (tuple : List CborValue) (name : String) : Codec CanonicalSqlValue :=
  if kind = 0 ∧ tuple.length = 1 then return .null
  else if kind = 1 ∧ tuple.length = 2 then do
    let integer ← expectBigint (itemAt tuple 1) s!"{name}.integer"
    protocolInvariant (Ir.minInt64 ≤ integer ∧ integer ≤ Ir.maxInt64) .integerOutOfRange
      s!"{name}.integer is outside int64"
    return .integer integer
  else if kind = 2 ∧ tuple.length = 2 then
    return .real (← finiteRealBits (← expectBytesOfLength (itemAt tuple 1) s!"{name}.real" 8)
      s!"{name}.real")
  else if kind = 3 ∧ tuple.length = 2 then do
    let text ← expectBytes (itemAt tuple 1) s!"{name}.text"
    protocolInvariant (textDecoder text).isSome .schemaInvalid s!"{name}.text is invalid UTF-8"
    return .text text
  else if kind = 4 ∧ tuple.length = 2 then
    return .blob (← expectBytes (itemAt tuple 1) s!"{name}.blob")
  else if kind = 5 ∧ tuple.length = 2 then
    return .logical (← Ir.logicalValueFromCanonicalCbor (itemAt tuple 1))
  else if kind = 6 ∧ tuple.length = 4 then
    return .registered
      (← safeIndex (← expectUint64 (itemAt tuple 1) s!"{name}.type_id") s!"{name}.type_id")
      (← expectBytesOfLength (itemAt tuple 2) s!"{name}.implementation_digest" 32)
      (← expectBytes (itemAt tuple 3) s!"{name}.canonical_payload")
  else .error (schemaInvalid s!"{name} is invalid")

def canonicalSqlValueFromCbor (value : CborValue) (name : String) : Codec CanonicalSqlValue := do
  let tuple ← expectArray value name
  protocolInvariant (1 ≤ tuple.length ∧ tuple.length ≤ 4) .schemaInvalid s!"{name} has invalid arity"
  let kind ← expectUint64 (itemAt tuple 0) s!"{name}.kind"
  sqlValueOfKind kind tuple name

def rowToCbor (row : List CanonicalSqlValue) : Codec CborValue :=
  return .array (← writeItems canonicalSqlValueToCbor row)

/-! ## Canonical results -/

/-- The encoding by which rows are compared. -/
def rowKey (row : List CanonicalSqlValue) : Codec Bytes := do
  encodeCanonicalCbor (← rowToCbor row)

def compareRows (left right : List CanonicalSqlValue) : Codec Ordering :=
  return compareBytes (← rowKey left) (← rowKey right)

/-- How many decimal digits a number has. -/
def decimalDigits (value : ℤ) : ℕ := value.natAbs.repr.length

def logicalValueMatchesType : LogicalValue → LogicalType → Bool
  | .boolean _, .boolean | .int64 _, .int64 | .uuid _, .uuid | .timestampMs _, .timestampMs
  | .durationMs _, .durationMs | .json _, .json | .text _, .text _ => true
  | .decimal coefficient scale, .decimal precision typeScale =>
    scale = typeScale ∧ decimalDigits coefficient ≤ precision
  | .blob bytes, .blob maxBytes => maxBytes.all fun limit => bytes.length ≤ limit
  | .vector element dimensions _, .vector typeElement typeDimensions =>
    element = typeElement ∧ dimensions = typeDimensions
  | _, _ => false

def valueMatchesStorage : CanonicalSqlValue → CanonicalSqlStorageType → Bool
  | .integer _, .integer | .real _, .real | .text _, .text | .blob _, .blob => true
  | _, _ => false

def CanonicalSqlValue.isNull : CanonicalSqlValue → Bool
  | .null => true
  | _ => false

def assertValueMatchesColumn (column : CanonicalSqlColumn) (value : CanonicalSqlValue)
    (rowIndex columnIndex : ℕ) : Codec Unit := do
  protocolInvariant (column.nullable ≠ some false ∨ ¬CanonicalSqlValue.isNull value) .schemaInvalid
    s!"SQL result row {rowIndex} column {columnIndex} violates nonnullable descriptor"
  match value, column.type with
  | .null, _ | _, .dynamic => return
  | value, .storage storage =>
    protocolInvariant (valueMatchesStorage value storage) .schemaInvalid
      s!"SQL result row {rowIndex} column {columnIndex} violates storage descriptor"
  | .logical value, .logical logicalType =>
    protocolInvariant (logicalValueMatchesType value logicalType) .schemaInvalid
      s!"SQL result row {rowIndex} column {columnIndex} violates logical descriptor"
  | _, .logical _ =>
    .error (schemaInvalid
      s!"SQL result row {rowIndex} column {columnIndex} violates logical descriptor")
  | .registered typeId implementationDigest _, .registered columnTypeId columnDigest =>
    protocolInvariant (typeId = columnTypeId ∧ implementationDigest = columnDigest) .schemaInvalid
      s!"SQL result row {rowIndex} column {columnIndex} violates registered descriptor"
  | _, .registered _ _ =>
    .error (schemaInvalid
      s!"SQL result row {rowIndex} column {columnIndex} violates registered descriptor")

/-- The checks of the values of a row, against the columns. -/
def checkRow (rowIndex : ℕ) :
    (columnIndex : ℕ) → List CanonicalSqlColumn → List CanonicalSqlValue → Codec Unit
  | columnIndex, column :: columns, value :: row => do
    let _ ← canonicalSqlValueToCbor value
    assertValueMatchesColumn column value rowIndex columnIndex
    checkRow rowIndex (columnIndex + 1) columns row
  | _, _, _ => return

def checkRows (columns : List CanonicalSqlColumn) :
    (rowIndex : ℕ) → List (List CanonicalSqlValue) → Codec Unit
  | _, [] => return
  | rowIndex, row :: rows => do
    protocolInvariant (row.length = columns.length) .schemaInvalid
      s!"SQL result row {rowIndex} has the wrong width"
    checkRow rowIndex 0 columns row
    checkRows columns (rowIndex + 1) rows

/-- The rows with the encodings by which they are compared. -/
def keyedRows : List (List CanonicalSqlValue) → Codec (List (Bytes × List CanonicalSqlValue))
  | [] => return []
  | row :: rows => return (← rowKey row, row) :: (← keyedRows rows)

/-- `Array.prototype.sort` with `compareRows`, which is stable. A single row is not compared. -/
def sortRows (rows : List (List CanonicalSqlValue)) : Codec (List (List CanonicalSqlValue)) :=
  if rows.length ≤ 1 then return rows
  else return ((← keyedRows rows).insertionSort fun a b => BytesLe a.1 b.1).map Prod.snd

/-- The rows that differ from the row before them. -/
def dropRepeated : List (List CanonicalSqlValue) → Codec (List (List CanonicalSqlValue))
  | [] => return []
  | [row] => return [row]
  | first :: second :: rows => do
    let order ← compareRows first second
    let rest ← dropRepeated (second :: rows)
    -- The first of equal rows is kept.
    return if order = .eq then first :: rest.tail else first :: rest

def normalizeRows (mode : SqlResultMode) (rows : List (List CanonicalSqlValue)) :
    Codec (List (List CanonicalSqlValue)) :=
  match mode with
  | .scalar | .ordered => return rows
  | .multiset => sortRows rows
  | .set => do dropRepeated (← sortRows rows)

def canonicalizeSqlResult (value : CanonicalSqlResult) : Codec CanonicalSqlResult := do
  checkRows value.columns 0 value.rows
  protocolInvariant (value.mode ≠ .scalar ∨ value.columns.length = 1 ∧ value.rows.length ≤ 1)
    .schemaInvalid "Scalar SQL result has invalid shape"
  return { value with rows := ← normalizeRows value.mode value.rows }

def canonicalSqlResultToCbor (value : CanonicalSqlResult) : Codec CborValue := do
  let canonical ← canonicalizeSqlResult value
  return .array [modeCode canonical.mode, .array (← writeItems columnToCbor canonical.columns),
    .array (← writeItems rowToCbor canonical.rows)]

def rowFromCbor (value : CborValue) (name : String) : Codec (List CanonicalSqlValue) := do
  readItems canonicalSqlValueFromCbor name 0 (← expectArray value name)

/-- The check that rows are the canonical ones, row by row. -/
def assertSorted : List (List CanonicalSqlValue) → List (List CanonicalSqlValue) → Codec Unit
  | row :: rows, canonicalRow :: canonicalRows => do
    protocolInvariant ((← compareRows row canonicalRow) = .eq) .schemaInvalid
      "Canonical SQL rows are not sorted"
    assertSorted rows canonicalRows
  | _, _ => return

def canonicalSqlResultFromCbor (value : CborValue) : Codec CanonicalSqlResult := do
  let tuple ← expectArray value "canonical_sql_result"
  protocolInvariant (tuple.length = 3) .schemaInvalid "Canonical SQL result has invalid arity"
  let mode ← modeFromCbor (itemAt tuple 0) "canonical_sql_result.mode"
  let columns ← readItems columnFromCbor "canonical_sql_result.columns" 0
    (← expectArray (itemAt tuple 1) "canonical_sql_result.columns")
  let rows ← readItems rowFromCbor "canonical_sql_result.rows" 0
    (← expectArray (itemAt tuple 2) "canonical_sql_result.rows")
  let canonical ← canonicalizeSqlResult ⟨mode, columns, rows⟩
  if mode = .multiset ∨ mode = .set then do
    protocolInvariant (rows.length = canonical.rows.length) .schemaInvalid
      "Canonical SQL set contains duplicate rows"
    assertSorted rows canonical.rows
    return canonical
  else return canonical

/-! ## Preconditions and programs -/

/-- The modes that an expectation allows. -/
def assertExpectationMode (value : SqlPrecondition) : Codec Unit :=
  match value.expectation with
  | .assertTrue =>
    protocolInvariant (value.resultMode = .scalar) .schemaInvalid
      "assert_true requires scalar result mode"
  | .inline result =>
    protocolInvariant (result.mode = value.resultMode) .schemaInvalid
      "Inline expectation result mode does not match its precondition"
  | .digest _ => return

def expectationToCbor : SqlExpectation → Codec CborValue
  | .assertTrue => return .array [.integer 0]
  | .inline result => return .array [.integer 1, ← canonicalSqlResultToCbor result]
  | .digest digest =>
    return .array [.integer 2, .bytes (← requireDigest digest "precondition.expectation.digest")]

def preconditionToCbor (value : SqlPrecondition) : Codec CborValue := do
  let id ← safeIndex value.id "precondition.id"
  assertExpectationMode value
  let expectation ← expectationToCbor value.expectation
  let query ← sqlStatementToCanonicalCbor value.query
  return integerMap [(0, some (.integer id)), (1, some query),
    (2, some (modeCode value.resultMode)), (3, some expectation),
    (4, value.label.map .text)]

/-- The expectation of a kind. -/
def expectationOfKind (kind : ℕ) (tuple : List CborValue) (name : String) : Codec SqlExpectation :=
  if kind = 0 ∧ tuple.length = 1 then return .assertTrue
  else if kind = 1 ∧ tuple.length = 2 then
    return .inline (← canonicalSqlResultFromCbor (itemAt tuple 1))
  else if kind = 2 ∧ tuple.length = 2 then
    return .digest (← expectBytesOfLength (itemAt tuple 1) s!"{name}.expectation.digest" 32)
  else .error (schemaInvalid s!"{name}.expectation is invalid")

/-- The mode of a precondition is one that its expectation allows. -/
def expectMode (expectation : SqlExpectation) (mode : SqlResultMode) (name : String) : Codec Unit :=
  match expectation with
  | .assertTrue =>
    protocolInvariant (mode = .scalar) .schemaInvalid s!"{name}.assert_true requires scalar mode"
  | .inline result =>
    protocolInvariant (result.mode = mode) .schemaInvalid s!"{name}.inline result mode mismatch"
  | .digest _ => return

/-- An optional text. -/
def labelFromCbor (value : Option CborValue) (name : String) : Codec (Option String) :=
  match value with
  | none => return none
  | some value => return some (← expectString value name)

def preconditionFromCbor (value : CborValue) (name : String) : Codec SqlPrecondition := do
  let map ← expectMap value name
  assertKnownIntegerKeys map [0, 1, 2, 3, 4] name
  let tuple ← expectArray (← required map 3 s!"{name}.expectation") s!"{name}.expectation"
  protocolInvariant (1 ≤ tuple.length ∧ tuple.length ≤ 2) .schemaInvalid
    s!"{name}.expectation has invalid arity"
  let kind ← expectUint64 (itemAt tuple 0) s!"{name}.expectation.kind"
  let expectation ← expectationOfKind kind tuple name
  let resultMode ← modeFromCbor (← required map 2 s!"{name}.result_mode") s!"{name}.result_mode"
  expectMode expectation resultMode name
  let id ← safeIndex (← expectUint64 (← required map 0 s!"{name}.id") s!"{name}.id") s!"{name}.id"
  let query ← sqlStatementFromCanonicalCbor (← required map 1 s!"{name}.query") s!"{name}.query"
  return ⟨id, query, resultMode, expectation, ← labelFromCbor (optional map 4) s!"{name}.label"⟩

/-- The checks of the preconditions, whose ids are not among those before them. -/
def checkPreconditions : (ids : List ℕ) → List SqlPrecondition → Codec Unit
  | _, [] => return
  | ids, precondition :: preconditions => do
    protocolInvariant (precondition.id ∉ ids) .schemaInvalid "SQL precondition IDs must be unique"
    let _ ← preconditionToCbor precondition
    checkPreconditions (precondition.id :: ids) preconditions

def assertValidSqlTransactionProgram (value : SqlTransactionProgram) : Codec Unit := do
  protocolInvariant (value.preconditions ≠ []) .schemaInvalid
    "SQL transaction program requires a precondition"
  protocolInvariant (value.body ≠ []) .schemaInvalid
    "SQL transaction program requires a body statement"
  checkPreconditions [] value.preconditions
  let _ ← writeItems sqlStatementToCanonicalCbor value.body

def sqlTransactionProgramToCanonicalCbor (value : SqlTransactionProgram) : Codec CborValue := do
  assertValidSqlTransactionProgram value
  return integerMap [(0, some (.integer 1)),
    (1, some (.array (← writeItems preconditionToCbor value.preconditions))),
    (2, some (.array (← writeItems sqlStatementToCanonicalCbor value.body)))]

def sqlTransactionProgramFromCanonicalCbor (value : CborValue) : Codec SqlTransactionProgram := do
  let map ← expectMap value "sql_transaction_program"
  assertKnownIntegerKeys map [0, 1, 2] "sql_transaction_program"
  expectVersion map 1 "sql_transaction_program"
  let preconditions ← readItems preconditionFromCbor "sql_transaction_program.preconditions" 0
    (← expectArray (← required map 1 "sql_transaction_program.preconditions")
      "sql_transaction_program.preconditions")
  let body ← readItems sqlStatementFromCanonicalCbor "sql_transaction_program.body" 0
    (← expectArray (← required map 2 "sql_transaction_program.body") "sql_transaction_program.body")
  let program := ⟨preconditions, body⟩
  assertValidSqlTransactionProgram program
  return program

/-! ## Objects of a schema -/

def schemaObjectKinds : List CanonicalSchemaObjectKind :=
  [.table, .index, .view, .trigger, .constraint]

def assertNonemptyUtf8 (value : Bytes) (name : String) : Codec Unit := do
  protocolInvariant (0 < value.length) .schemaInvalid s!"{name} cannot be empty"
  protocolInvariant (textDecoder value).isSome .schemaInvalid s!"{name} is invalid UTF-8"

def canonicalSchemaIdentityFromCbor (value : CborValue) (name : String) :
    Codec CanonicalSchemaIdentity := do
  let tuple ← expectArray value name
  protocolInvariant (tuple.length = 4 ∧ (itemAt tuple 0).integer? = some 0) .schemaInvalid
    s!"{name} has invalid shape"
  let objectKind ← expected (schemaObjectKinds[← expectUint64 (itemAt tuple 1)
    s!"{name}.object_kind"]?) (schemaInvalid s!"{name}.object_kind is unknown")
  let objectNameUtf8 ← expectBytes (itemAt tuple 2) s!"{name}.object_name"
  assertNonemptyUtf8 objectNameUtf8 s!"{name}.object_name"
  match itemAt tuple 3 with
  | .null => return ⟨objectKind, objectNameUtf8, none⟩
  | containing =>
    let containingObjectNameUtf8 ← expectBytes containing s!"{name}.containing_object_name"
    assertNonemptyUtf8 containingObjectNameUtf8 s!"{name}.containing_object_name"
    return ⟨objectKind, objectNameUtf8, some containingObjectNameUtf8⟩

def decodeCanonicalSchemaIdentity (bytes : Bytes) : Codec CanonicalSchemaIdentity := do
  canonicalSchemaIdentityFromCbor (← assertCanonicalCbor bytes) "schema_identity"

end Chronolog.Protocol
