import Chronolog.Compiler.Ast

/-!
# Deterministic expressions

The compiler refuses expressions whose value could differ from replica to replica: those that
read the clock or a state of the connection, and those for which the engine may choose one of several
rows. What it lets pass is decided at each node of the tree (`visitDeterministic`).
-/

namespace Chronolog.Compiler

/-! ## Functions -/

/-- The source's `DETERMINISTIC_READ_ONLY_PRAGMAS`. -/
def deterministicReadOnlyPragmas : List String :=
  ["collation_list", "compile_options", "database_list", "foreign_key_list", "function_list",
    "index_info", "index_list", "index_xinfo", "module_list", "pragma_list", "table_info",
    "table_list", "table_xinfo"]

/-- Is this the name of a table or function for a pragma that only reads? -/
def isReadOnlyPragma (name : String) : Bool :=
  startsWith name "pragma_" &&
    deterministicReadOnlyPragmas.contains (String.ofList (name.toList.drop "pragma_".length))

def argumentConditionalTimeFunctions : List String :=
  ["date", "time", "datetime", "julianday", "strftime", "unixepoch", "timediff"]

def temporarilyGatedFunctions : List String :=
  ["avg", "changes", "group_concat", "last_insert_rowid", "printf", "random", "randomblob",
    "soundex", "sqlite_offset", "sum", "total", "total_changes"]

/-- The source's `DETERMINISTIC_SQLITE_SCALAR_FUNCTIONS`. -/
def deterministicScalarFunctions : List String :=
  ["char", "coalesce", "concat", "concat_ws", "glob", "hex", "if", "ifnull", "iif", "instr", "json",
    "json_array", "json_object", "json_type", "length", "like", "likelihood", "likely", "lower",
    "ltrim", "nullif", "octet_length", "quote", "replace", "rtrim", "sign", "substr", "substring",
    "trim", "typeof", "unhex", "unicode", "unlikely", "upper", "zeroblob"]

/-- The source's `BUILTIN_FUNCTION_NAMES`. -/
def builtinFunctionNames : List String :=
  ["char", "concat", "concat_ws", "length", "octet_length", "lower", "upper", "trim", "ltrim",
    "rtrim", "replace", "instr", "substr", "substring", "hex", "coalesce", "ifnull", "nullif", "if",
    "iif", "likelihood", "likely", "unlikely", "glob", "like", "min", "max", "quote", "typeof",
    "unhex", "unicode", "unistr", "unistr_quote", "zeroblob", "abs", "sign"]

/-- The source's `DETERMINISTIC_SQLITE_COMPILER_FUNCTIONS`. -/
def deterministicCompilerFunctions : List String :=
  deterministicScalarFunctions ++ builtinFunctionNames ++
    ["->", "->>", "count", "min", "max", "group_concat", "row_number", "rank", "dense_rank", "ntile",
      "lag", "lead"]

/-! ## Proofs from the text -/

/-- A query without a table and a single row of values have at most one row. -/
def isProvablyAtMostOneRow (select : Node) : Bool :=
  (select.field .compounds).isEmpty &&
    match select.field? .select with
    | none => false
    | some core =>
      match core.type with
      | .selectValues => (core.field .values).length ≤ 1
      | .selectFrom _ => (core.field .fromClause).isEmpty
      | _ => false

def isProvablySingletonFrom (source : Node) : Bool :=
  (source.field .joins).isEmpty &&
    match source.field? .select with
    | none => false
    | some table =>
      table.type = .selectSelectTable &&
        match table.field? .select with
        | none => false
        | some select => isProvablyAtMostOneRow select

/-- A call of `typeof`, which is the same for values that compare equal. -/
def isRepresentativeStableExpression (node : Node) : Bool :=
  match node.type with
  | .functionCallExpr name distinctness =>
    asciiLower name = "typeof" && (node.field .args).length = 1 && distinctness.isNone &&
      (node.field .orderBy).isEmpty && (node.field .filterOver).isEmpty
  | _ => false

/-- The expression of a result column. -/
def columnExpr (column : Node) : Option Node :=
  if column.type = .exprResultColumn then column.field? .expr else none

def isRepresentativeStableProjection (columns : List Node) : Bool :=
  !columns.isEmpty && columns.all fun column =>
    match columnExpr column with
    | none => false
    | some expr => isRepresentativeStableExpression expr

/-- The window of a function call. -/
def overClause (node : Node) : Option Node := (node.field? .filterOver).bind (·.field? .overClause)

def sameSource (sql : String) (left right : Node) : Bool := left.source sql = right.source sql

def isDeterministicAggregateExpression (node : Node) : Bool :=
  match node.type with
  | .functionCallStarExpr name => asciiLower name = "count" && (overClause node).isNone
  | .functionCallExpr name _ =>
    (overClause node).isNone && (asciiLower name = "count" ||
      (asciiLower name = "min" || asciiLower name = "max") &&
        match node.field .args with
        | [argument] => isRepresentativeStableExpression argument
        | _ => false)
  | _ => false

/-- Each column is one of the expressions that the rows are grouped by, or an aggregate. -/
def isSafeGroupedProjection (sql : String) (core : Node) : Bool :=
  !(core.field .groupBy).isEmpty && (core.field .columns).all fun column =>
    match columnExpr column with
    | none => false
    | some expr =>
      (core.field .groupBy).any (fun group => sameSource sql group expr) ||
        isDeterministicAggregateExpression expr

def isRepresentativeStableCore (core : Node) : Bool :=
  match core.type with
  | .selectFrom _ => isRepresentativeStableProjection (core.field .columns)
  | _ => false

def isRepresentativeStableCompound (select : Node) : Bool :=
  ((select.field? .select).map isRepresentativeStableCore).getD false &&
    (select.field .compounds).all fun compound =>
      compound.type = .compound .unionAll ||
        ((compound.field? .select).map isRepresentativeStableCore).getD false

/-- Rows with equal keys have the same rank. -/
def isPeerStableWindow (name : String) (node : Node) : Bool :=
  (asciiLower name = "rank" || asciiLower name = "dense_rank") &&
    match overClause node with
    | none => false
    | some clause =>
      clause.type = .windowOver &&
        match clause.field? .window with
        | none => false
        | some window => window.type = .window && !(window.field .orderBy).isEmpty

/-- The last term of the order is the argument itself. -/
def isSafeOrderedGroupConcat (sql : String) (distinctness : Option Distinctness) (node : Node) :
    Bool :=
  let args := node.field .args
  1 ≤ args.length && args.length ≤ 2 && distinctness.isNone && (overClause node).isNone &&
    match node.field? .orderBy with
    | none => false
    | some ordering =>
      ordering.type = .sortListFunctionCallOrder &&
        match ((ordering.field .columns).getLast?.bind (·.field? .expr)), args.head? with
        | some last, some argument => sameSource sql last argument
        | _, _ => false

/-! ## Visits -/

/-- Could this argument of a function of time be one that refers to the clock or to the zone? -/
def isUnsafeTimeArgument (argument : Node) : Bool :=
  match argument.type with
  | .numericLiteral _ | .nullLiteral => false
  | .stringLiteral value =>
    ["now", "localtime", "utc", "subsec", "subsecond"].contains (asciiLower value)
  | _ => true

def hasUnsafeTimeArgument (node : Node) : Bool :=
  (node.field .args).isEmpty || (node.field .args).any isUnsafeTimeArgument

section

variable (sql : String)

/-- The source's `validateFunction`. -/
def validateFunction (name : String) (distinctness : Option Distinctness)
    (node : Node) : Compiled Unit :=
  let key := asciiLower name
  if key = "group_concat" && isSafeOrderedGroupConcat sql distinctness node then pure ()
  else if temporarilyGatedFunctions.contains key then
    throw (compilerError .functionTemporarilyGated sql node)
  else if argumentConditionalTimeFunctions.contains key then
    refuseIf (hasUnsafeTimeArgument node) .ambientTimeProhibited sql node
  else if startsWith key "pragma_" then
    refuseIf (!isReadOnlyPragma key) .pragmaStateProhibited sql node
  else do
    refuseIf (!deterministicCompilerFunctions.contains key) .functionNotRegistered sql node
    refuseIf ((key = "min" || key = "max") &&
      match node.field .args with
      | [argument] => !isRepresentativeStableExpression argument
      | _ => false) .canonicalRepresentativeTemporarilyGated sql node
    refuseIf ((overClause node).isSome && !isPeerStableWindow name node) .windowTemporarilyGated
      sql node

def validateStarFunction (name : String) (node : Node) : Compiled Unit := do
  refuseIf (asciiLower name ≠ "count") .functionNotRegistered sql node
  refuseIf (overClause node).isSome .windowTemporarilyGated sql node

def validateBuiltinCollation (name : String) (node : Node) : Compiled Unit :=
  refuseIf (!(["binary", "nocase", "rtrim"].contains (asciiLower name))) .collationNotRegistered
    sql node

/-- A query, which is that of the statement if it is at the top. -/
def validateSelect (isTop : Bool) (node : Node) : Compiled Unit := do
  match node.field? .limit with
  | none => pure ()
  | some limit =>
    refuseIf (!isProvablyAtMostOneRow node && (!isTop || (node.field .orderBy).isEmpty))
      .unorderedLimitTemporarilyGated sql limit
  match node.field? .select with
  | none => pure ()
  | some core =>
    match core.type with
    | .selectFrom distinctness =>
      refuseIf (distinctness = some .distinct &&
        !isRepresentativeStableProjection (core.field .columns) && !isProvablyAtMostOneRow node)
        .canonicalRepresentativeTemporarilyGated sql core
      refuseIf (!(core.field .groupBy).isEmpty && !isSafeGroupedProjection sql core)
        .canonicalRepresentativeTemporarilyGated sql core
    | _ => pure ()
  refuseIf ((node.field .compounds).any (fun compound => compound.type ≠ .compound .unionAll) &&
    !isRepresentativeStableCompound node) .canonicalRepresentativeTemporarilyGated sql node

/-- A visit of a node. -/
def visitDeterministic (isTop : Bool) (node : Node) : Compiled Unit :=
  match node.type with
  | .currentDateLiteral | .currentTimeLiteral | .currentTimestampLiteral =>
    throw (compilerError .signedTimeTemporarilyGated sql node)
  | .functionCallExpr name distinctness => validateFunction sql name distinctness node
  | .functionCallStarExpr name => validateStarFunction sql name node
  | .likeExpr op => refuseIf (op = .matches || op = .regexp) .registeredOperatorRequired sql node
  | .collateExpr collation => validateBuiltinCollation sql collation node
  | .collateColumnConstraint collationName => validateBuiltinCollation sql collationName node
  | .select => validateSelect sql isTop node
  | .subqueryExpr =>
    refuseIf (!((node.field? .select).map isProvablyAtMostOneRow).getD false)
      .scalarSubqueryTemporarilyGated sql node
  | .tableCallSelectTable =>
    refuseIf (!isReadOnlyPragma (asciiLower (node.named .tblName))) .tableFunctionNotRegistered
      sql node
  | .raiseExpr resolve => refuseIf (resolve = .rollback) .raiseTemporarilyGated sql node
  | _ => pure ()

/-- The query of a `SELECT` statement is visited as the one at the top. -/
def validateDeterministicExpressions (ast : Node) : Compiled Unit := do
  visitDeterministic sql false ast
  ast.children.forM fun child => do
    visitDeterministic sql (ast.type = .selectStmt && child.role = .body) child
    child.children.forM (traverse (visitDeterministic sql false))

end

end Chronolog.Compiler
