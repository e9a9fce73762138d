import Chronolog.Compiler.Compile

/-!
# The authorizer

While a statement is prepared and run, the engine asks for every access that the statement makes
(`Callback`). The authorizer of the profile answers by the mode it was made for. It keeps track of
whether the statement changes the schema: such a statement may use parts of the engine that others may
not.
-/

namespace Chronolog.Materializer

open Compiler

inductive SqlAuthorizationMode
  | internalBootstrap | consensusPrecondition | consensusBody | localRead
  deriving DecidableEq

/-- The accesses that the engine asks for. -/
inductive AuthorizerAction
  | createTable | createIndex | createView | createTrigger
  | dropTable | dropIndex | dropView | dropTrigger
  | alterTable | reindex
  | insert | update | delete
  | pragma | read | select | function | recursive
  /-- An access that is never allowed: one to temporary objects, to virtual tables, to transactions or
      to attached databases, `ANALYZE`, or one with an unknown code. -/
  | other
  deriving DecidableEq

/-- What the engine says of an access. -/
structure Callback where
  action : AuthorizerAction
  arg1 : Option String
  arg2 : Option String
  database : Option String
  triggerOrView : Option String
  deriving DecidableEq

structure AuthorizerState where
  schemaOperation : Bool
  schemaIndexOperation : Bool
  deriving DecidableEq

/-- The source's `asciiLower` of a text or `null`. -/
def lowered (value : Option String) : String := (value.map asciiLower).getD ""

def allowedDeterministicFunctions : List String :=
  deterministicCompilerFunctions ++
    ["date", "time", "datetime", "julianday", "strftime", "unixepoch", "timediff"]

def isForbiddenLocalReadFunction (value : String) : Bool :=
  ["active_branch", "load_extension"].contains value || startsWith value "dolt_" ||
    startsWith value "doltlite_"

def isCatalog (name : String) : Bool := name = "sqlite_master" || name = "sqlite_schema"

section

variable (mode : SqlAuthorizationMode)

def allowsFunction (schemaOperation : Bool) (name : String) : Bool :=
  if mode = .localRead then !isForbiddenLocalReadFunction name
  else
    isReadOnlyPragma name ||
      schemaOperation && (name = "printf" || name = "substr" || name = "length" ||
        startsWith name "sqlite_rename_") ||
      allowedDeterministicFunctions.contains name

def allowsRead (schemaOperation : Bool) (database name : String) :
    Bool :=
  if schemaOperation && database = "temp" && name = "sqlite_temp_master" then true
  else if database ≠ "" && database ≠ "main" then false
  else if mode = .internalBootstrap then true
  else
    schemaOperation && name = "pragma_quick_check" ||
      (mode = .localRead || mode = .consensusPrecondition) && name = "chronolog_transactions" ||
      isReadOnlyPragma name || isCatalog name || !isReservedSchemaObjectName name

/-- May the mode write? -/
def SqlAuthorizationMode.writes : Bool :=
  mode = .internalBootstrap || mode = .consensusBody

def allowsWrite (schemaOperation : Bool) (action : AuthorizerAction)
    (database name : String) : Bool :=
  mode.writes &&
    if schemaOperation && action = .update && database = "temp" && name = "sqlite_temp_master" then
      true
    else
      database = "main" &&
        (mode = .internalBootstrap || !isReservedSchemaObjectName name || isCatalog name)

end

/-- An index that the engine makes for a constraint of a table. -/
def isImplicitAutoIndex (action : AuthorizerAction) (name table : String) : Bool :=
  action = .createIndex && startsWith name "sqlite_autoindex_" && table ≠ "" &&
    !isReservedSchemaObjectName table

section

variable (mode : SqlAuthorizationMode)

/-- May an object be created or dropped? -/
def allowsSchemaObject (action : AuthorizerAction)
    (database name table : String) : Bool :=
  mode.writes && database = "main" && (mode = .internalBootstrap ||
    !isReservedSchemaObjectName name || isImplicitAutoIndex action name table)

/-- `ALTER TABLE` names the database first, and then the table. -/
def allowsAlterTable (database name : String) : Bool :=
  mode.writes && database = "main" &&
    (mode = .internalBootstrap || !isReservedSchemaObjectName name)

/-- The answer of the authorizer to an access: what it keeps, if it allows it. -/
def authorize (state : AuthorizerState) (c : Callback) :
    Option AuthorizerState :=
  let objectName := lowered c.arg1
  let secondaryName := lowered c.arg2
  let database := lowered c.database
  let source := lowered c.triggerOrView
  if source ≠ "" && isReservedSchemaObjectName source && !isReadOnlyPragma source then none
  else
    match c.action with
    | .select => some state
    | .function =>
      guard (allowsFunction mode state.schemaOperation
        (if secondaryName = "" then objectName else secondaryName)) *> some state
    | .pragma =>
      guard (state.schemaOperation && objectName = "quick_check" || mode ≠ .internalBootstrap &&
        deterministicReadOnlyPragmas.contains objectName) *> some state
    | .read => guard (allowsRead mode state.schemaOperation database objectName) *> some state
    | .insert | .update | .delete =>
      guard (allowsWrite mode state.schemaOperation c.action database objectName) *> some state
    | .createTable | .createView | .createTrigger | .dropTable | .dropIndex | .dropView
    | .dropTrigger =>
      guard (allowsSchemaObject mode c.action database objectName secondaryName) *>
        some { state with schemaOperation := true }
    | .createIndex =>
      guard (allowsSchemaObject mode c.action database objectName secondaryName) *>
        some ⟨true, true⟩
    | .alterTable =>
      guard (allowsAlterTable mode objectName secondaryName) *>
        some { state with schemaOperation := true }
    | .reindex =>
      guard (mode.writes && state.schemaIndexOperation && database = "main" &&
        !isReservedSchemaObjectName objectName) *> some state
    | .recursive => guard (mode ≠ .internalBootstrap) *> some state
    | .other => none

/-- Are all accesses of a statement allowed? Each statement has an authorizer of its own. -/
def authorizes (callbacks : List Callback) : Bool :=
  (callbacks.foldlM (authorize mode) ⟨false, false⟩).isSome

end

end Chronolog.Materializer
