import Chronolog.Protocol.Bytes

/-!
# SQL programs

The data of a transaction's SQL program as the protocol encodes it: statements
with their bindings, preconditions with the result they expect, and canonical
SQL results.
-/

namespace Chronolog

/-- The element types of vectors. -/
inductive VectorElementType
  | i8 | u8 | i16 | i32 | f32 | f64
  deriving DecidableEq

/-- JSON values with exact numbers. -/
inductive CanonicalJsonValue
  | null
  | boolean (value : Bool)
  | integer (value : Int)
  | decimal (coefficient : Int) (scale : Nat)
  | string (value : String)
  | array (items : List CanonicalJsonValue)
  | object (members : List (String × CanonicalJsonValue))

/-- The logical values of the intermediate representation. -/
inductive LogicalValue
  | null
  | boolean (value : Bool)
  | int64 (value : Int)
  | decimal (coefficient : Int) (scale : Nat)
  | text (utf8 : Bytes)
  | blob (bytes : Bytes)
  | uuid (bytes : Bytes)
  | timestampMs (value : Int)
  | durationMs (value : Int)
  | json (value : CanonicalJsonValue)
  | vector (element : VectorElementType) (dimensions : Nat) (bytes : Bytes)

/-- The parameter a binding binds. -/
inductive SqlParameter
  | index (index : Nat)
  | name (name : String)
  deriving DecidableEq

/-- Canonical parameter values. A real is stored as its binary64 bits. -/
inductive SqlBindingValue
  | logical (value : LogicalValue)
  | real (bits : Bytes)

/-- A value bound to a parameter of a statement. -/
structure SqlBinding where
  parameter : SqlParameter
  value : SqlBindingValue

/-- An SQL text with its bindings. -/
structure SqlStatement where
  sql : String
  bindings : List SqlBinding

/-- How the rows of a result are compared. -/
inductive SqlResultMode
  | scalar | ordered | multiset | set
  deriving DecidableEq

/-- The storage classes of values. -/
inductive CanonicalSqlStorageType
  | integer | real | text | blob
  deriving DecidableEq

/-- The collations of texts. -/
inductive CollationId
  | binary | nocase | rtrim | unicodeCodepoint | registered (id : Nat)
  deriving DecidableEq

/-- The types of logical values. -/
inductive LogicalType
  | boolean
  | int64
  | decimal (precision scale : Nat)
  | text (collation : CollationId)
  | blob (maxBytes : Option Nat)
  | uuid
  | timestampMs
  | durationMs
  | json
  | vector (element : VectorElementType) (dimensions : Nat)
  deriving DecidableEq

/-- The type of a result column. -/
inductive CanonicalSqlColumnType
  | dynamic
  | storage (storage : CanonicalSqlStorageType)
  | logical (logicalType : LogicalType)
  | registered (typeId : Nat) (implementationDigest : Bytes)
  deriving DecidableEq

/-- A result column. `nullable` is `none` where it is unknown. -/
structure CanonicalSqlColumn where
  nameUtf8 : Bytes
  type : CanonicalSqlColumnType
  nullable : Option Bool
  deriving DecidableEq

/-- A value of a result, tagged with its storage class. -/
inductive CanonicalSqlValue
  | null
  | integer (value : Int)
  | real (bits : Bytes)
  | text (utf8 : Bytes)
  | blob (bytes : Bytes)
  | logical (value : LogicalValue)
  | registered (typeId : Nat) (implementationDigest canonicalPayload : Bytes)

/-- The kinds of objects of a schema. -/
inductive CanonicalSchemaObjectKind
  | table | index | view | trigger | constraint
  deriving DecidableEq

/-- An object of the schema of the main database. -/
structure CanonicalSchemaIdentity where
  objectKind : CanonicalSchemaObjectKind
  objectNameUtf8 : Bytes
  containingObjectNameUtf8 : Option Bytes
  deriving DecidableEq

/-- The result of a query. -/
structure CanonicalSqlResult where
  mode : SqlResultMode
  columns : List CanonicalSqlColumn
  rows : List (List CanonicalSqlValue)

/-- What a precondition expects of its query. -/
inductive SqlExpectation
  | assertTrue
  | inline (result : CanonicalSqlResult)
  | digest (digest : Bytes)

/-- A precondition of a transaction. -/
structure SqlPrecondition where
  id : Nat
  query : SqlStatement
  resultMode : SqlResultMode
  expectation : SqlExpectation
  label : Option String

/-- The program of a transaction, in the one version of the format. -/
structure SqlTransactionProgram where
  preconditions : List SqlPrecondition
  body : List SqlStatement

end Chronolog
