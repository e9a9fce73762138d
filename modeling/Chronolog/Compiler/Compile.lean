import Chronolog.Compiler.Scanner

/-!
# The compiler

`compileSqlStatement` checks a statement and says what is known of it before it runs: its class,
whether it changes the schema, its result and its parameters. An `UPDATE` or `DELETE` with a `LIMIT`
is split into a query for the rows that it changes and a statement that changes these rows
(`OrderedMutationPlan`); the query is parsed and checked like a statement.

The parser is another package, and a parameter here (`Parser`).
-/

namespace Chronolog.Compiler

/-- The parser: the trees of the statements of a text, or where it gives up, if it says. -/
abbrev Parser := String → Except (Option Span) (List Node)

inductive SqlCompilationMode
  | precondition | body
  deriving DecidableEq

inductive SqlStatementClass
  | read | insert | update | delete | schema | pragma | registeredEffect
  deriving DecidableEq

/-- A parameter that the statement refers to. -/
structure CompiledSqlParameter where
  index : ℕ
  names : List String
  deriving DecidableEq

structure ParameterPlan where
  parameters : List CompiledSqlParameter
  maximumParameterIndex : ℕ
  deriving DecidableEq

/-- The two statements for an `UPDATE` or `DELETE` with a `LIMIT`, with tokens in the places of the
    columns that identify rows. -/
structure OrderedMutationPlan where
  targetTable : String
  selectionSqlTemplate : String
  selectionMaximumParameterIndex : ℕ
  mutationSqlTemplate : String
  assignedColumns : List String
  deriving DecidableEq

structure CompiledSqlSource where
  source : SqlStatement
  ast : Node
  statementClass : SqlStatementClass
  effectCapable : Bool
  readOnly : Bool
  changesSchema : Bool
  producesResult : Bool
  resultMode : Option SqlResultMode
  parameters : List CompiledSqlParameter
  maximumParameterIndex : ℕ
  sourceSpan : SqlSourceSpan
  orderedMutation : Option OrderedMutationPlan

structure CompiledSqlProgram where
  source : SqlTransactionProgram
  preconditions : List CompiledSqlSource
  body : List CompiledSqlSource

def identityPredicateToken : String := "__chronolog_ordered_target_predicate__"

def identitySelectToken : String := "__chronolog_ordered_identity_columns__"

def identityOrderToken : String := "__chronolog_ordered_identity_order__"

/-! ## Kinds of statements -/

def isProhibitedStatement : NodeType → Bool
  | .attachStmt | .beginStmt | .commitStmt | .detachStmt | .releaseStmt | .rollbackStmt
  | .savepointStmt | .vacuumStmt | .explainStmt => true
  | _ => false

def isSchemaStatement : NodeType → Bool
  | .alterTableStmt | .createIndexStmt | .createTableStmt _ | .createTriggerStmt _
  | .createViewStmt _ | .dropIndexStmt | .dropTableStmt | .dropTriggerStmt | .dropViewStmt => true
  | _ => false

def isEffectStatement (type : NodeType) : Bool :=
  isSchemaStatement type ||
    match type with
    | .insertStmt | .updateStmt _ | .deleteStmt | .reindexStmt => true
    | _ => false

def isReadStatement : NodeType → Bool
  | .selectStmt | .pragmaStmt => true
  | _ => false

def classifyStatement (type : NodeType) : SqlStatementClass :=
  match type with
  | .selectStmt => .read
  | .insertStmt => .insert
  | .updateStmt _ => .update
  | .deleteStmt => .delete
  | .pragmaStmt => .pragma
  | .createVirtualTableStmt => .registeredEffect
  | .reindexStmt => .schema
  | _ => if isSchemaStatement type then .schema else .registeredEffect

/-- An `INSERT`, `UPDATE` or `DELETE`. -/
def isMutation : NodeType → Bool
  | .insertStmt | .updateStmt _ | .deleteStmt => true
  | _ => false

def producesResult (ast : Node) : Bool :=
  isReadStatement ast.type || isMutation ast.type && !(ast.field .returning).isEmpty

def resultMode (ast : Node) : Option SqlResultMode :=
  if !producesResult ast then none
  else if ast.type = .selectStmt &&
      ((ast.field? .body).map fun select => !(select.field .orderBy).isEmpty).getD false then
    some .ordered
  else some .multiset

/-! ## Parsing -/

def parseOne (parse : Parser) (sql : String) : Compiled Node := do
  if sql = "" ∨ Char.ofNat 0 ∈ sql.toList then throw (.compiler .invalidSource none)
  match parse sql with
  | .error span =>
    throw (.compiler .parseError (span.map fun span => byteSpan sql span.offset span.length))
  | .ok [ast] => return ast
  | .ok _ => throw (.compiler .multipleStatements none)

theorem parseOne_eq_ok {parse : Parser} {sql : String} {ast : Node}
    (hsql : ¬(sql = "" ∨ Char.ofNat 0 ∈ sql.toList)) (h : parse sql = .ok [ast]) :
    parseOne parse sql = .ok ast := by
  rw [parseOne, if_neg hsql, h]
  rfl

/-! ## Parameters -/

/-- Adds a parameter, with its name. -/
def addParameter (grouped : OrdMap ℕ (List String)) (index : ℕ) (name : Option String) :
    OrdMap ℕ (List String) :=
  let names := (grouped.get? index).getD []
  grouped.set index (match name with
    | some name => if name ∈ names then names else names ++ [name]
    | none => names)

/-- The parameters in the order of their indices. -/
def planOf (grouped : OrdMap ℕ (List String)) (maximum : ℕ) : ParameterPlan where
  parameters := (grouped.entries.mergeSort fun left right => left.1 ≤ right.1).map fun entry =>
    ⟨entry.1, entry.2⟩
  maximumParameterIndex := maximum

def parameterPlanFromSource (sql : String) : Compiled ParameterPlan := do
  let occurrences ← parameterOccurrences sql
  return planOf
    (occurrences.foldl (fun grouped item => addParameter grouped item.index item.name) .empty)
    (occurrences.foldl (fun maximum item => max maximum item.index) 0)

/-- The variables of a tree in the order of the text. -/
def variablesOf (ast : Node) : List (String × Node) :=
  (ast.nodes.filterMap fun node =>
    match node.type with
    | .variableExpr name => some (name, node)
    | _ => none).mergeSort fun left right => left.2.span.offset ≤ right.2.span.offset

def planFrom (sql : String) (names : OrdMap String ℕ) (grouped : OrdMap ℕ (List String))
    (maximum : ℕ) : List (String × Node) → Compiled ParameterPlan
  | [] => return planOf grouped maximum
  | (token, node) :: rest => do
    let (index, _, names) := nextIndex names maximum token
    refuseIf ((numberOf token).isSome && (index < 1 || maximumParameter < index))
      .parameterIndexInvalid sql node
    planFrom sql names (addParameter grouped index (if token = "?" then none else some token))
      (max maximum index) rest

def parameterPlanFor (ast : Node) (sql : String) : Compiled ParameterPlan :=
  planFrom sql .empty .empty 0 (variablesOf ast)

/-! ## Bindings -/

def encodeSqlBindingValue (value : SqlBindingValue) : Compiled Bytes :=
  (do Canonical.encodeCanonicalCbor (← Protocol.sqlBindingValueToCanonicalCbor value) :
    Canonical.Codec Bytes).mapError .codec

/-- The index of the parameter of a binding. -/
def bindingIndex (names : OrdMap String ℕ) : SqlParameter → Option ℕ
  | .index index => some index
  | .name name => names.get? name

/-- The indices of the names of parameters. -/
def parameterNames (parameters : List CompiledSqlParameter) : OrdMap String ℕ :=
  .ofList (parameters.flatMap fun parameter => parameter.names.map fun name => (name, parameter.index))

/-- Binds a value to a parameter, which has no other value. -/
def bindValue (values : OrdMap ℕ SqlBindingValue) (index : ℕ) (value : SqlBindingValue) :
    Compiled (OrdMap ℕ SqlBindingValue) := do
  match values.get? index with
  | none => pure ()
  | some previous =>
    if (← encodeSqlBindingValue previous) ≠ (← encodeSqlBindingValue value) then
      throw (.compiler .bindingConflict none)
  return values.set index value

/-- The values of parameters that satisfy a condition. -/
def bindAll (known : ℕ → Bool) (names : OrdMap String ℕ) (values : OrdMap ℕ SqlBindingValue) :
    List SqlBinding → Compiled (OrdMap ℕ SqlBindingValue)
  | [] => return values
  | binding :: bindings => do
    match bindingIndex names binding.parameter with
    | none => throw (.compiler .bindingParameterNotFound none)
    | some index =>
      if !known index then throw (.compiler .bindingParameterNotFound none)
      bindAll known names (← bindValue values index binding.value) bindings

/-- Every parameter has a value. -/
def requireBound (parameters : List CompiledSqlParameter) (values : OrdMap ℕ SqlBindingValue) :
    Compiled Unit :=
  if parameters.all fun parameter => values.has parameter.index then pure ()
  else throw (.compiler .bindingMissing none)

def validateBindings (bindings : List SqlBinding) (parameters : List CompiledSqlParameter)
    (maximumParameterIndex : ℕ) : Compiled Unit := do
  let known := fun index =>
    1 ≤ index && index ≤ maximumParameterIndex && parameters.any (·.index = index)
  requireBound parameters (← bindAll known (parameterNames parameters) .empty bindings)

/-! ## Mutations that depend on an order -/

def validateOrderSensitiveMutation (sql : String) (ast : Node) (hasPrivatePlan : Bool) :
    Compiled Unit := do
  match ast.type with
  | .updateStmt orConflict =>
    refuseIf ((!(ast.field .orderBy).isEmpty || !(ast.field .limit).isEmpty) && !hasPrivatePlan)
      .orderedMutationTemporarilyGated sql ast
    refuseIf ((ast.field? .fromClause).any (fun source => !isProvablySingletonFrom source) ||
      orConflict.any fun resolution => resolution ≠ .abort)
      .orderSensitiveUpdateTemporarilyGated sql ast
  | .deleteStmt =>
    refuseIf ((!(ast.field .orderBy).isEmpty || !(ast.field .limit).isEmpty) && !hasPrivatePlan)
      .orderedMutationTemporarilyGated sql ast
  | .insertStmt =>
    match ast.field? .body with
    | none => pure ()
    | some body =>
      refuseIf (body.type = .selectInsertBody && (body.field? .select).any fun select =>
        !((select.field? .select).any fun core => core.type = .selectValues) &&
          !isProvablyAtMostOneRow select) .insertSelectTemporarilyGated sql body
  | .createTableStmt _ =>
    match ast.field? .body with
    | none => pure ()
    | some body =>
      refuseIf (body.type = .asSelectCreateTableBody &&
        (body.field? .select).any fun select => !isProvablyAtMostOneRow select)
        .createTableAsSelectTemporarilyGated sql body
  | _ => pure ()

def quoteSqlIdentifier (value : String) : String :=
  "\"" ++ String.ofList (value.toList.flatMap fun c => if c = '"' then ['"', '"'] else [c]) ++ "\""

/-- Is this an `UPDATE` or `DELETE` whose set of rows is that of its query? -/
def checkOrderedMutation (ast : Node) : Compiled Unit :=
  match ast.type with
  | .updateStmt orConflict =>
    if orConflict.isSome || !(ast.field .fromClause).isEmpty then
      throw (.compiler .orderedMutationSetStabilityUnproven none)
    else pure ()
  | .deleteStmt => pure ()
  | _ => throw (.compiler .orderedMutationParseMismatch none)

/-- Does the name of a table have no alias and no database? -/
def isPlainName (name : Node) : Bool :=
  match name.type with
  | .qualifiedName dbName _ asName => dbName.isNone && asName.isNone
  | _ => true

/-- The columns that an `UPDATE` assigns. -/
def assignedColumns (ast : Node) : List String :=
  match ast.type with
  | .updateStmt _ => (ast.field .sets).flatMap fun assignment =>
      (assignment.field .colNames).map fun column => asciiLower column.objName
  | _ => []

def buildOrderedMutationPlan (ast : Node) (sql : String) (parts : OrderedMutationSyntax) :
    Compiled OrderedMutationPlan := do
  checkOrderedMutation ast
  if !(ast.field .tblName).all isPlainName then
    throw (.compiler .orderedMutationTargetAliasGated none)
  let parameters ← parameterOccurrences sql
  let targetTable := ast.named .tblName
  let whereExpression := match ast.field? .whereClause with
    | none => "1"
    | some clause => rewriteSourceSegment sql clause.span.offset clause.stop parameters
  let orderExpression := match parts.orderExpressionStart with
    | none => ""
    | some start => trim (rewriteSourceSegment sql start parts.limitKeyword parameters)
  let limitExpression := trim (dropSemicolon
    (rewriteSourceSegment sql parts.limitExpressionStart sql.length parameters))
  if limitExpression = "" then throw (.compiler .orderedMutationLimitRequired none)
  let selectionSqlTemplate :=
    "SELECT " ++ identitySelectToken ++ " FROM " ++ quoteSqlIdentifier targetTable ++ " WHERE " ++
      whereExpression ++ " ORDER BY " ++
      (if orderExpression = "" then "" else orderExpression ++ ", ") ++ identityOrderToken ++
      " LIMIT " ++ limitExpression
  let selectionParameters ← parameterOccurrences selectionSqlTemplate
  let mutationEnd := (parts.whereKeyword.orElse fun _ => parts.returningKeyword).getD parts.cutoff
  let returning := match parts.returningKeyword with
    | none => ""
    | some start => " " ++ trim (rewriteSourceSegment sql start parts.cutoff parameters)
  return {
    targetTable
    selectionSqlTemplate
    selectionMaximumParameterIndex :=
      selectionParameters.foldl (fun maximum parameter => max maximum parameter.index) 0
    mutationSqlTemplate := trimEnd (rewriteSourceSegment sql 0 mutationEnd parameters) ++ " WHERE " ++
      identityPredicateToken ++ returning
    assignedColumns := assignedColumns ast }

/-! ## Statements and programs -/

/-- The text of the query of a plan, as it is checked. -/
def validationSql (plan : OrderedMutationPlan) : String :=
  replaceText (replaceText plan.selectionSqlTemplate identitySelectToken "rowid") identityOrderToken
    "rowid"

/-- The kinds of statements that are allowed. -/
def validateKind (sql : String) (mode : SqlCompilationMode) (ast : Node) : Compiled Unit := do
  refuseIf (isProhibitedStatement ast.type) .statementProhibited sql ast
  refuseIf (ast.type = .analyzeStmt) .analyzeTemporarilyGated sql ast
  refuseIf (ast.type = .createVirtualTableStmt) .virtualTableTemporarilyGated sql ast
  refuseIf (ast.type = .reindexStmt) .reindexTemporarilyGated sql ast
  refuseIf (mode = .precondition && !isReadStatement ast.type) .preconditionNotReadOnly sql ast

/-- The checks of a tree. -/
def validateStatement (sql : String) (mode : SqlCompilationMode) (hasPrivatePlan : Bool)
    (ast : Node) : Compiled Unit := do
  validateKind sql mode ast
  (if ast.type = .pragmaStmt then validatePragma sql ast else pure ())
  validateTemporaryObjects sql ast
  validateObjectNames sql ast
  validateDeterministicExpressions sql ast
  validateOrderSensitiveMutation sql ast hasPrivatePlan

/-- The plan of an `UPDATE` or `DELETE` with a `LIMIT`, whose query is checked. -/
def planOrderedMutation (parse : Parser) (ast : Node) (sql : String) :
    Option OrderedMutationSyntax → Compiled (Option OrderedMutationPlan)
  | none => return none
  | some parts => do
    let plan ← buildOrderedMutationPlan ast sql parts
    let selectionAst ← parseOne parse (validationSql plan)
    validateDeterministicExpressions (validationSql plan) selectionAst
    return some plan

def compileSqlStatement (parse : Parser) (statement : SqlStatement) (mode : SqlCompilationMode) :
    Compiled CompiledSqlSource := do
  let parts ← parseOrderedMutationSyntax statement.sql
  let ast ← parseOne parse ((parts.map (·.parserSql)).getD statement.sql)
  validateStatement statement.sql mode parts.isSome ast
  let parameterPlan ← (if parts.isNone then parameterPlanFor ast statement.sql
    else parameterPlanFromSource statement.sql)
  validateBindings statement.bindings parameterPlan.parameters parameterPlan.maximumParameterIndex
  let orderedMutation ← planOrderedMutation parse ast statement.sql parts
  return {
    source := statement
    ast
    statementClass := classifyStatement ast.type
    effectCapable := isEffectStatement ast.type
    readOnly := isReadStatement ast.type
    changesSchema := isSchemaStatement ast.type
    producesResult := producesResult ast
    resultMode := resultMode ast
    parameters := parameterPlan.parameters
    maximumParameterIndex := parameterPlan.maximumParameterIndex
    sourceSpan := sourceSpan statement.sql ast
    orderedMutation }

def compileSqlProgram (parse : Parser) (program : SqlTransactionProgram) :
    Compiled CompiledSqlProgram := do
  if program.preconditions.isEmpty || program.body.isEmpty then
    throw (.compiler .programShapeInvalid none)
  let preconditions ← program.preconditions.mapM fun precondition =>
    compileSqlStatement parse precondition.query .precondition
  let body ← program.body.mapM fun statement => compileSqlStatement parse statement .body
  if !body.any (·.effectCapable) then throw (.compiler .effectCapableStatementRequired none)
  return ⟨program, preconditions, body⟩

/-! ## What is accepted -/

section Accepted

open Procedure

variable {mode : SqlCompilationMode}

/-- The checks that a tree has passed. -/
theorem validated_of_validateStatement {sql : String} {hasPrivatePlan : Bool} {ast : Node}
    (h : validateStatement sql mode hasPrivatePlan ast = .ok ()) :
    validateObjectNames sql ast = .ok () ∧ validateDeterministicExpressions sql ast = .ok () := by
  obtain ⟨_, -, h⟩ := bind_eq_ok_iff.1 h
  obtain ⟨_, -, h⟩ := bind_eq_ok_iff.1 h
  obtain ⟨_, -, h⟩ := bind_eq_ok_iff.1 h
  obtain ⟨_, hnames, h⟩ := bind_eq_ok_iff.1 h
  obtain ⟨_, hdeterministic, -⟩ := bind_eq_ok_iff.1 h
  exact ⟨hnames, hdeterministic⟩

/-- A statement that is accepted has been parsed and checked, and so has its plan. -/
theorem accepted_of_compileSqlStatement {parse : Parser} {statement : SqlStatement}
    {compiled : CompiledSqlSource} (h : compileSqlStatement parse statement mode = .ok compiled) :
    ∃ parts, parseOrderedMutationSyntax statement.sql = .ok parts ∧
      parseOne parse ((parts.map (·.parserSql)).getD statement.sql) = .ok compiled.ast ∧
      validateStatement statement.sql mode parts.isSome compiled.ast = .ok () ∧
      planOrderedMutation parse compiled.ast statement.sql parts = .ok compiled.orderedMutation := by
  obtain ⟨parts, hparts, h⟩ := bind_eq_ok_iff.1 h
  obtain ⟨ast, hast, h⟩ := bind_eq_ok_iff.1 h
  obtain ⟨_, hvalid, h⟩ := bind_eq_ok_iff.1 h
  obtain ⟨_, -, h⟩ := bind_eq_ok_iff.1 h
  obtain ⟨_, -, h⟩ := bind_eq_ok_iff.1 h
  obtain ⟨_, hplan, h⟩ := bind_eq_ok_iff.1 h
  cases h
  exact ⟨parts, hparts, hast, hvalid, hplan⟩

end Accepted

end Chronolog.Compiler
