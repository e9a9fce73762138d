import Chronolog.Protocol.SqlCodec

/-!
# Syntax trees of statements

The compiler of SQL statements reads the tree that the parser, which is another package, makes of a
statement. A node has a type, with what the compiler reads of it, and the nodes below it, each in a
field of it (`Role`). A field that is absent has no nodes. The compiler walks over all nodes of
a tree (`traverse`).
-/

namespace Chronolog.Compiler

/-! ## Texts -/

/-- The source's `asciiLower` and `sqliteIdentifierKey`. -/
def asciiLower (value : String) : String := String.ofList (value.toList.map Char.toLower)

def startsWith (value start : String) : Bool := start.toList.isPrefixOf value.toList

/-- The part of a text between two positions. -/
def slice (value : String) (start stop : ℕ) : String :=
  String.ofList ((value.toList.take stop).drop start)

/-- Part of a text. -/
structure Span where
  offset : ℕ
  length : ℕ
  deriving DecidableEq

/-- Part of a text, in bytes. -/
structure SqlSourceSpan where
  startByte : ℕ
  endByte : ℕ
  deriving DecidableEq

def byteSpan (sql : String) (offset length : ℕ) : SqlSourceSpan where
  startByte := (utf8 (slice sql 0 offset)).length
  endByte := (utf8 (slice sql 0 (offset + length))).length

/-! ## Nodes -/

inductive Distinctness
  | all | distinct
  deriving DecidableEq

inductive LikeOperator
  | like | glob | matches | regexp
  deriving DecidableEq

inductive CompoundOperator
  | union | unionAll | except | intersect
  deriving DecidableEq

/-- What is done about a constraint that is violated. -/
inductive Resolution
  | rollback | abort | fail | ignore | replace
  deriving DecidableEq

/-- The types of nodes, with the attributes that are read. -/
inductive NodeType
  -- Statements.
  | attachStmt | beginStmt | commitStmt | detachStmt | releaseStmt | rollbackStmt | savepointStmt
  | vacuumStmt | explainStmt | analyzeStmt | reindexStmt
  | alterTableStmt | createIndexStmt
  | createTableStmt (temporary : Bool)
  | createTriggerStmt (temporary : Bool)
  | createViewStmt (temporary : Bool)
  | createVirtualTableStmt
  | dropIndexStmt | dropTableStmt | dropTriggerStmt | dropViewStmt
  | selectStmt | insertStmt
  | updateStmt (orConflict : Option Resolution)
  | deleteStmt | pragmaStmt
  -- Parts of statements.
  | qualifiedName (dbName : Option String) (objName : String) (asName : Option String)
  | name (text : String)
  /-- The new name in `ALTER TABLE`. -/
  | renameTo (name : String)
  | asSelectCreateTableBody | selectInsertBody
  | insertTriggerCmd | updateTriggerCmd | deleteTriggerCmd
  | foreignKeyClause (tblName : String)
  | collateColumnConstraint (collationName : String)
  -- Queries.
  | select
  | selectFrom (distinctness : Option Distinctness)
  | selectValues
  | compound (operator : CompoundOperator)
  | exprResultColumn
  | selectSelectTable | tableCallSelectTable
  -- Expressions.
  | currentDateLiteral | currentTimeLiteral | currentTimestampLiteral
  | stringLiteral (value : String)
  | numericLiteral (value : String)
  | nullLiteral
  | variableExpr (name : String)
  | functionCallExpr (name : String) (distinctness : Option Distinctness)
  | functionCallStarExpr (name : String)
  | sortListFunctionCallOrder
  | windowOver | window
  | likeExpr (op : LikeOperator)
  | collateExpr (collation : String)
  | subqueryExpr
  | raiseExpr (resolve : Resolution)
  /-- A node of another type. -/
  | other (type : String)
  deriving DecidableEq

/-- The fields in which nodes stand. -/
inductive Role
  | root | body | name | tblName | idxName | triggerName | viewName | newName
  | returning | whereClause | orderBy | limit | fromClause | joins | sets | colNames
  | select | compounds | columns | groupBy | having | values | expr
  | args | filterOver | overClause | window
  | other
  deriving DecidableEq

/-- A node of a syntax tree. -/
inductive Node
  | mk (role : Role) (type : NodeType) (span : Span) (children : List Node)

namespace Node

def role : Node → Role
  | mk role _ _ _ => role

def type : Node → NodeType
  | mk _ type _ _ => type

def span : Node → Span
  | mk _ _ span _ => span

def children : Node → List Node
  | mk _ _ _ children => children

/-- The nodes in a field. -/
def field (node : Node) (role : Role) : List Node := node.children.filter (·.role = role)

/-- The first node in a field. -/
def field? (node : Node) (role : Role) : Option Node := node.children.find? (·.role = role)

/-- The end of a node in the text. -/
def stop (node : Node) : ℕ := node.span.offset + node.span.length

/-- The text of a node. -/
def source (sql : String) (node : Node) : String := slice sql node.span.offset node.stop

/-- The object that a name names. -/
def objName (node : Node) : String :=
  match node.type with
  | .qualifiedName _ objName _ => objName
  | .name text => text
  | _ => ""

/-- The object that the name in a field names. -/
def named (node : Node) (role : Role) : String := ((node.field? role).map objName).getD ""

mutual

/-- A node and all nodes below it, in the order of the text. -/
def nodes : Node → List Node
  | mk role type span children => mk role type span children :: nodesAll children

def nodesAll : List Node → List Node
  | [] => []
  | node :: rest => nodes node ++ nodesAll rest

end

theorem nodes_eq (node : Node) : node.nodes = node :: nodesAll node.children := by
  cases node
  rw [nodes, children]

theorem nodesAll_eq (l : List Node) : nodesAll l = l.flatMap nodes := by
  induction l with
  | nil => rfl
  | cons node rest ih => rw [nodesAll, ih, List.flatMap_cons]

theorem mem_nodes_iff {node node' : Node} :
    node' ∈ node.nodes ↔ node' = node ∨ ∃ child ∈ node.children, node' ∈ child.nodes := by
  rw [nodes_eq, List.mem_cons, nodesAll_eq, List.mem_flatMap]

end Node

/-! ## Errors -/

/-- The errors of the compiler. -/
inductive SqlCompilerErrorCode
  | programShapeInvalid | effectCapableStatementRequired
  | invalidSource | parseError | multipleStatements
  | statementProhibited | analyzeTemporarilyGated | virtualTableTemporarilyGated
  | reindexTemporarilyGated | preconditionNotReadOnly
  | attachedDatabaseProhibited | pragmaStateProhibited | tempObjectProhibited
  | protectedObjectRead | protectedObjectWrite | protectedObjectName
  | signedTimeTemporarilyGated | registeredOperatorRequired | collationNotRegistered
  | unorderedLimitTemporarilyGated | canonicalRepresentativeTemporarilyGated
  | scalarSubqueryTemporarilyGated | tableFunctionNotRegistered | raiseTemporarilyGated
  | functionTemporarilyGated | ambientTimeProhibited | functionNotRegistered
  | windowTemporarilyGated
  | orderedMutationTemporarilyGated | orderSensitiveUpdateTemporarilyGated
  | insertSelectTemporarilyGated | createTableAsSelectTemporarilyGated
  | orderedMutationReturningPositionInvalid | orderedMutationParseMismatch
  | orderedMutationSetStabilityUnproven | orderedMutationTargetAliasGated
  | orderedMutationLimitRequired | parameterIndexInvalid
  | bindingParameterNotFound | bindingConflict | bindingMissing
  deriving DecidableEq, Repr

/-- What the compiler throws. -/
inductive SqlCompilerError
  | compiler (code : SqlCompilerErrorCode) (span : Option SqlSourceSpan)
  /-- An error of the encoding of a binding. -/
  | codec (error : Canonical.CodecError)
  deriving DecidableEq

/-- What the compiler returns, or the error it throws. -/
abbrev Compiled := Except SqlCompilerError

def sourceSpan (sql : String) (node : Node) : SqlSourceSpan :=
  byteSpan sql node.span.offset node.span.length

def compilerError (code : SqlCompilerErrorCode) (sql : String) (node : Node) : SqlCompilerError :=
  .compiler code (some (sourceSpan sql node))

/-- An error if a condition holds. -/
def refuseIf (condition : Bool) (code : SqlCompilerErrorCode) (sql : String) (node : Node) :
    Compiled Unit :=
  if condition then throw (compilerError code sql node) else pure ()

theorem refuseIf_eq_ok_iff {condition : Bool} {code : SqlCompilerErrorCode} {sql : String}
    {node : Node} : refuseIf condition code sql node = .ok () ↔ condition = false := by
  cases condition with
  | false => exact ⟨fun _ => rfl, fun _ => rfl⟩
  | true => exact ⟨nofun, nofun⟩

/-! ## Walks -/

/-- Visits the nodes of a tree, in the order of the text, up to the first error. -/
def traverse (visit : Node → Compiled Unit) (node : Node) : Compiled Unit := node.nodes.forM visit

variable {visit : Node → Compiled Unit}

theorem forM_eq_ok_iff {l : List Node} :
    l.forM visit = .ok () ↔ ∀ node ∈ l, visit node = .ok () := by
  induction l with
  | nil => exact ⟨fun _ => List.forall_mem_nil _, fun _ => rfl⟩
  | cons node l ih =>
    change (visit node >>= fun _ => l.forM visit) = .ok () ↔ _
    rw [List.forall_mem_cons, ← ih]
    cases visit node with
    | ok => exact ⟨fun h => ⟨rfl, h⟩, fun h => h.2⟩
    | error e => exact ⟨nofun, fun h => absurd h.1 nofun⟩

/-- A walk succeeds if each visit does. -/
theorem traverse_eq_ok_iff {node : Node} :
    traverse visit node = .ok () ↔ ∀ node' ∈ node.nodes, visit node' = .ok () :=
  forM_eq_ok_iff

end Chronolog.Compiler
