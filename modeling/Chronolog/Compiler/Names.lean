import Chronolog.Compiler.Determinism

/-!
# Names of objects

Some names of tables, views, indexes and triggers belong to the engine, to the version control of the
store or to the log of transactions (`isReservedSchemaObjectName`). Statements may read a few of these
objects, and may not change any.
-/

namespace Chronolog.Compiler

def reservedExactSchemaObjects :
    List String := ["dbstat", "sqlite_dbpage", "bytecode", "tables_used"]

/-- Namespaces owned by the engine, the store or the log. -/
def isReservedSchemaObjectName (value : String) : Bool :=
  let key := asciiLower value
  startsWith key "chronolog_" || startsWith key "sqlite_" || startsWith key "dolt_" ||
    startsWith key "doltlite_" || startsWith key "pragma_" || reservedExactSchemaObjects.contains key

def isAllowedConsensusReadName (name : String) : Bool :=
  name = "chronolog_transactions" || name = "sqlite_schema" || name = "sqlite_master" ||
    isReadOnlyPragma name

/-- May a statement not write to this table? -/
def isProtectedTarget (name : String) : Bool :=
  isReservedSchemaObjectName name || startsWith (asciiLower name) "sqlite_"

def validateMutationTarget (sql : String) (name : String) (node : Node) : Compiled Unit :=
  refuseIf (isProtectedTarget name) .protectedObjectWrite sql node

def validatePragma (sql : String) (ast : Node) : Compiled Unit := do
  match ast.field? .name with
  | none => pure ()
  | some name =>
    match name.type with
    | .qualifiedName (some dbName) _ _ =>
      refuseIf (asciiLower dbName ≠ "main") .attachedDatabaseProhibited sql name
    | _ => pure ()
  refuseIf (!deterministicReadOnlyPragmas.contains (asciiLower (ast.named .name)) ||
    !(ast.field .body).isEmpty) .pragmaStateProhibited sql ast

def validateTemporaryObjects (sql : String) (ast : Node) : Compiled Unit :=
  match ast.type with
  | .createTableStmt temporary | .createTriggerStmt temporary | .createViewStmt temporary =>
    refuseIf temporary .tempObjectProhibited sql ast
  | _ => pure ()

/-- A visit of a node. -/
def visitObjectName (sql : String) (node : Node) : Compiled Unit :=
  match node.type with
  | .qualifiedName dbName objName _ => do
    refuseIf (dbName.any fun name => asciiLower name ≠ "main")
      .attachedDatabaseProhibited sql node
    refuseIf (isReservedSchemaObjectName (asciiLower objName) &&
      !isAllowedConsensusReadName (asciiLower objName)) .protectedObjectRead sql node
  | .insertStmt | .updateStmt _ | .deleteStmt | .insertTriggerCmd | .updateTriggerCmd
  | .deleteTriggerCmd => validateMutationTarget sql (node.named .tblName) node
  | .foreignKeyClause tblName =>
    refuseIf (isReservedSchemaObjectName tblName) .protectedObjectRead sql node
  | _ => pure ()

def mutationTarget (ast : Node) : Option String :=
  match ast.type with
  | .insertStmt | .updateStmt _ | .deleteStmt => some (ast.named .tblName)
  | _ => none

/-- The object that a statement creates, changes or drops. -/
def schemaTarget (ast : Node) : Option String :=
  match ast.type with
  | .alterTableStmt | .createTableStmt _ | .createVirtualTableStmt | .dropTableStmt =>
    some (ast.named .tblName)
  | .createIndexStmt | .dropIndexStmt => some (ast.named .idxName)
  | .createTriggerStmt _ | .dropTriggerStmt => some (ast.named .triggerName)
  | .createViewStmt _ | .dropViewStmt => some (ast.named .viewName)
  | _ => none

/-- May a statement not create, change or drop this object? -/
def isProtectedName (name : String) : Bool :=
  isReservedSchemaObjectName name || startsWith (asciiLower name) "sqlite_" ||
    startsWith (asciiLower name) "dolt_"

def validateObjectNames (sql : String) (ast : Node) : Compiled Unit := do
  traverse (visitObjectName sql) ast
  refuseIf ((mutationTarget ast).any isProtectedTarget) .protectedObjectWrite sql ast
  refuseIf ((schemaTarget ast).any isProtectedName) .protectedObjectName sql ast
  match ast.type with
  | .createIndexStmt | .createTriggerStmt _ => validateMutationTarget sql (ast.named .tblName) ast
  | _ => pure ()

end Chronolog.Compiler
