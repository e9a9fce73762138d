import Chronolog.Compiler.Compile

/-!
# The clock and the time zone

A function of time reads the clock if its time value is missing or is `now`, and the time zone if one of
its modifiers is `localtime` or `utc` (`readsAmbient`). The compiler looks at all arguments of these
functions alike, and refuses a call without any (`hasUnsafeTimeArgument`). The first argument of
`strftime` is a format, though, and its time value is the second. So what passes and reads the clock are
the calls of `strftime` with a format only (`isBareStrftime`).
-/

namespace Chronolog.Compiler

open Procedure List

/-! ## What is read -/

/-- Can an argument have one of these values? What is not a literal can have any. -/
def mayBe (values : List String) (argument : Node) : Bool :=
  match argument.type with
  | .numericLiteral _ | .nullLiteral => false
  | .stringLiteral value => values.contains (asciiLower value)
  | _ => true

/-- Does a time value refer to the clock? The engine reads `subsec` in its place as the current time
    with fractions of a second. -/
def isCurrentTime (value : Node) : Bool := mayBe ["now", "subsec", "subsecond"] value

/-- The arguments from the time value on, of the functions that have one time value. -/
def fromTimeValue (key : String) (args : List Node) : Option (List Node) :=
  if key = "strftime" then some (args.drop 1)
  else if ["date", "time", "datetime", "julianday", "unixepoch"].contains key then some args
  else none

/-- Does a node read the clock or the time zone? -/
def readsAmbient (node : Node) : Bool :=
  match node.type with
  | .currentDateLiteral | .currentTimeLiteral | .currentTimestampLiteral => true
  | .functionCallExpr name _ =>
    match fromTimeValue (asciiLower name) (node.field .args) with
    | some [] => true
    | some (value :: modifiers) =>
      isCurrentTime value || modifiers.any (mayBe ["localtime", "utc"])
    -- `timediff` has two time values and no modifiers.
    | none => asciiLower name = "timediff" && (node.field .args).any isCurrentTime
  -- `f(*)` is `f()` to the engine.
  | .functionCallStarExpr name => argumentConditionalTimeFunctions.contains (asciiLower name)
  | _ => false

/-- A call of `strftime` with a format and no time value. -/
def isBareStrftime (node : Node) : Bool :=
  match node.type with
  | .functionCallExpr name _ => asciiLower name = "strftime" && (node.field .args).length = 1
  | _ => false

/-! ## What passes -/

theorem mayBe_eq_false {values : List String} {argument : Node}
    (hvalues : ∀ value ∈ values, value ∈ ["now", "localtime", "utc", "subsec", "subsecond"])
    (h : isUnsafeTimeArgument argument = false) : mayBe values argument = false := by
  unfold isUnsafeTimeArgument at h
  unfold mayBe
  generalize argument.type = type at h
  split at h
  case h_1 => rfl
  case h_2 => rfl
  case h_3 value =>
    rw [← Bool.not_eq_true, contains_iff_mem] at h ⊢
    exact fun hmem => h (hvalues _ hmem)
  case h_4 => cases h

theorem isCurrentTime_eq_false {argument : Node} (h : isUnsafeTimeArgument argument = false) :
    isCurrentTime argument = false :=
  mayBe_eq_false (by decide) h

variable {distinctness : Option Distinctness} {node : Node}

/-- The functions of time, once their arguments have been looked at, read the clock only where
    `strftime` lacks its time value. -/
theorem readsAmbient_functionCall {name : String}
    (htype : node.type = .functionCallExpr name distinctness)
    (h : asciiLower name ∈ argumentConditionalTimeFunctions → node.field .args ≠ [] ∧ ∀ argument ∈ node.field .args, isUnsafeTimeArgument argument = false) :
    readsAmbient node = isBareStrftime node := by
  have hmodifiers : ∀ l : List Node, (∀ argument ∈ l, isUnsafeTimeArgument argument = false) →
      l.any (mayBe ["localtime", "utc"]) = false := by
    intro l hl
    rw [any_eq_false]
    intro argument hargument
    rw [mayBe_eq_false (by decide) (hl argument hargument)]
    exact Bool.false_ne_true
  unfold readsAmbient isBareStrftime
  rw [htype]
  simp only [fromTimeValue]
  split_ifs with hstrftime hone
  · -- The format comes first: one argument leaves no time value.
    obtain ⟨hne, hsafe⟩ := h (by rw [hstrftime]; decide)
    match hargs : node.field .args with
    | [] => exact absurd hargs hne
    | [format] => simp [hstrftime]
    | format :: value :: modifiers =>
      rw [hargs] at hsafe
      simp [isCurrentTime_eq_false (hsafe value (by simp)),
        hmodifiers modifiers fun argument hargument => hsafe argument (by simp [hargument])]
  · obtain ⟨hne, hsafe⟩ := h (by
      rw [contains_iff_mem] at hone
      exact (by decide : ["date", "time", "datetime", "julianday", "unixepoch"] ⊆
        argumentConditionalTimeFunctions) hone)
    match hargs : node.field .args with
    | [] => exact absurd hargs hne
    | value :: modifiers =>
      rw [hargs] at hsafe
      simp [hstrftime, isCurrentTime_eq_false (hsafe value (by simp)),
        hmodifiers modifiers fun argument hargument => hsafe argument (by simp [hargument])]
  · rw [decide_eq_false hstrftime, Bool.false_and, Bool.and_eq_false_iff]
    by_cases htimediff : asciiLower name = "timediff"
    · right
      rw [any_eq_false]
      intro argument hargument
      rw [isCurrentTime_eq_false ((h (by rw [htimediff]; decide)).2 argument hargument)]
      exact Bool.false_ne_true
    · exact .inl (decide_eq_false htimediff)

/-- A function that passes and is one of those of time has arguments, all of them safe. -/
theorem safe_of_validateFunction {sql name : String}
    (h : validateFunction sql name distinctness node = .ok ())
    (hname : asciiLower name ∈ argumentConditionalTimeFunctions) : node.field .args ≠ [] ∧
      ∀ argument ∈ node.field .args, isUnsafeTimeArgument argument = false := by
  have hconcat : asciiLower name ≠ "group_concat" := by
    intro heq
    rw [heq] at hname
    exact absurd hname (by decide)
  have hgated : ¬temporarilyGatedFunctions.contains (asciiLower name) := by
    intro hmem
    rw [contains_iff_mem] at hmem
    exact (by decide : ∀ key ∈ argumentConditionalTimeFunctions, key ∉ temporarilyGatedFunctions) _
      hname hmem
  unfold validateFunction at h
  rw [if_neg (by simp [hconcat]), if_neg hgated, if_pos (contains_iff_mem.2 hname),
    refuseIf_eq_ok_iff, hasUnsafeTimeArgument, Bool.or_eq_false_iff] at h
  refine ⟨fun hnil => ?_, fun argument hargument => ?_⟩
  · rw [hnil] at h
    cases h.1
  · exact Bool.eq_false_of_not_eq_true (any_eq_false.1 h.2 argument hargument)

/-- A node that passes reads the clock only if it is a call of `strftime` with a format only. -/
theorem readsAmbient_eq {sql : String} {isTop : Bool}
    (h : visitDeterministic sql isTop node = .ok ()) : readsAmbient node = isBareStrftime node := by
  cases htype : node.type with
  | functionCallExpr name distinctness =>
    rw [visitDeterministic, htype] at h
    exact readsAmbient_functionCall htype (safe_of_validateFunction h)
  | functionCallStarExpr name =>
    rw [visitDeterministic, htype] at h
    obtain ⟨_, hname, -⟩ := bind_eq_ok_iff.1 h
    have hcount : asciiLower name = "count" := by simpa using refuseIf_eq_ok_iff.1 hname
    rw [readsAmbient, isBareStrftime, htype]
    simp only [hcount]
    decide
  | currentDateLiteral | currentTimeLiteral | currentTimestampLiteral =>
    rw [visitDeterministic, htype] at h
    cases h
  | _ => rw [readsAmbient, isBareStrftime, htype]

/-! ## Statements -/

/-- Every node of a tree that passes has been visited. -/
theorem visited_of_validateDeterministicExpressions {sql : String} {ast node : Node}
    (h : validateDeterministicExpressions sql ast = .ok ()) (hnode : node ∈ ast.nodes) :
    ∃ isTop, visitDeterministic sql isTop node = .ok () := by
  obtain ⟨_, hroot, h⟩ := bind_eq_ok_iff.1 h
  rw [forM_eq_ok_iff] at h
  obtain rfl | ⟨child, hchild, hnode⟩ := Node.mem_nodes_iff.1 hnode
  · exact ⟨_, hroot⟩
  obtain ⟨_, htop, hbelow⟩ := bind_eq_ok_iff.1 (h child hchild)
  obtain rfl | ⟨child', hchild', hnode⟩ := Node.mem_nodes_iff.1 hnode
  · exact ⟨_, htop⟩
  · exact ⟨_, traverse_eq_ok_iff.1 (forM_eq_ok_iff.1 hbelow child' hchild') node hnode⟩

/-- The trees of a statement: that of its text, and for a mutation with a `LIMIT`, whose text is only
    parsed up to its order, that of the query for its rows. -/
def statementTrees (parse : Parser) (sql : String) : List Node :=
  match parseOrderedMutationSyntax sql with
  | .error _ => []
  | .ok parts =>
    match parseOne parse ((parts.map (·.parserSql)).getD sql) with
    | .error _ => []
    | .ok ast =>
      ast :: match parts with
        | none => []
        | some parts =>
          match buildOrderedMutationPlan ast sql parts with
          | .error _ => []
          | .ok plan => (parseOne parse (validationSql plan)).toOption.toList

/-- Every tree of a statement that is accepted passes. -/
theorem validate_of_mem_statementTrees {parse : Parser} {statement : SqlStatement}
    {mode : SqlCompilationMode} {compiled : CompiledSqlSource}
    (h : compileSqlStatement parse statement mode = .ok compiled) {tree : Node}
    (htree : tree ∈ statementTrees parse statement.sql) :
    ∃ sql, validateDeterministicExpressions sql tree = .ok () := by
  obtain ⟨parts, hparts, hast, hvalid, hplan⟩ := accepted_of_compileSqlStatement h
  simp only [statementTrees, hparts, hast] at htree
  obtain rfl | htree := mem_cons.1 htree
  · exact ⟨_, (validated_of_validateStatement hvalid).2⟩
  · cases parts with
    | none => cases htree
    | some parts =>
      obtain ⟨plan, hbuild, hplan⟩ := bind_eq_ok_iff.1 hplan
      obtain ⟨selectionAst, hselection, hplan⟩ := bind_eq_ok_iff.1 hplan
      obtain ⟨_, hvalid, -⟩ := bind_eq_ok_iff.1 hplan
      simp only [hbuild, hselection] at htree
      rw [mem_singleton.1 htree]
      exact ⟨_, hvalid⟩

/-- A statement that is accepted reads the clock or the time zone only in a call of `strftime` with a
    format only. -/
theorem not_readsAmbient_iff {parse : Parser} {statement : SqlStatement} {mode : SqlCompilationMode}
    {compiled : CompiledSqlSource} (h : compileSqlStatement parse statement mode = .ok compiled) :
    (∀ tree ∈ statementTrees parse statement.sql, ∀ node ∈ tree.nodes, readsAmbient node = false) ↔
      ∀ tree ∈ statementTrees parse statement.sql, ∀ node ∈ tree.nodes,
        isBareStrftime node = false := by
  have heq : ∀ tree ∈ statementTrees parse statement.sql, ∀ node ∈ tree.nodes,
      readsAmbient node = isBareStrftime node := by
    intro tree htree node hnode
    obtain ⟨_, hvalid⟩ := validate_of_mem_statementTrees h htree
    obtain ⟨_, hvisit⟩ := visited_of_validateDeterministicExpressions hvalid hnode
    exact readsAmbient_eq hvisit
  constructor
  · intro hreads tree htree node hnode
    rw [← heq tree htree node hnode]
    exact hreads tree htree node hnode
  · intro hbare tree htree node hnode
    rw [heq tree htree node hnode]
    exact hbare tree htree node hnode

namespace Strftime

/-- The tree of `SELECT strftime(…)`. -/
def tree (args : List Node) : Node :=
  .mk .root .selectStmt ⟨0, 21⟩ [.mk .body .select ⟨0, 21⟩ [.mk .select (.selectFrom none) ⟨0, 21⟩
    [.mk .columns .exprResultColumn ⟨7, 14⟩
      [.mk .expr (.functionCallExpr "strftime" none) ⟨7, 14⟩ args]]]]

/-- The format. -/
def format : Node := .mk .args (.stringLiteral "%Y") ⟨16, 4⟩ []

/-- The year of a date, and the current year. -/
def parse : Parser := fun sql =>
  if sql = "SELECT strftime('%Y')" then .ok [tree [format]]
  else if sql = "SELECT strftime('%Y', '2020-02-29')" then
    .ok [tree [format, .mk .args (.stringLiteral "2020-02-29") ⟨22, 12⟩ []]]
  else .error none

theorem accepts_current : (compileSqlStatement parse ⟨"SELECT strftime('%Y')", []⟩ .body).isOk := by
  decide +kernel

theorem accepts_date :
    (compileSqlStatement parse ⟨"SELECT strftime('%Y', '2020-02-29')", []⟩ .body).isOk := by
  decide +kernel

/-- The current year passes. -/
theorem accepted_readsAmbient : ∃ compiled,
    compileSqlStatement parse ⟨"SELECT strftime('%Y')", []⟩ .body = .ok compiled ∧
      ∃ tree ∈ statementTrees parse "SELECT strftime('%Y')", ∃ node ∈ tree.nodes,
        readsAmbient node = true := by
  have hreads : (statementTrees parse "SELECT strftime('%Y')").any
      (fun tree => tree.nodes.any readsAmbient) = true := by rfl
  simp only [any_eq_true] at hreads
  exact ⟨_, eq_ok_okValue _ accepts_current, hreads⟩

/-- The year of a date passes, and reads no clock. -/
theorem accepted_not_readsAmbient :
    (compileSqlStatement parse ⟨"SELECT strftime('%Y', '2020-02-29')", []⟩ .body).isOk ∧
      ∀ tree ∈ statementTrees parse "SELECT strftime('%Y', '2020-02-29')",
        ∀ node ∈ tree.nodes, readsAmbient node = false := by
  refine ⟨accepts_date, (not_readsAmbient_iff (eq_ok_okValue _ accepts_date)).2 ?_⟩
  have hbare : (statementTrees parse "SELECT strftime('%Y', '2020-02-29')").all
      (fun tree => tree.nodes.all fun node => !isBareStrftime node) = true := by rfl
  simpa only [all_eq_true, Bool.not_eq_true'] using hbare

end Strftime

end Chronolog.Compiler
