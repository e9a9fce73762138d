import Chronolog.Materializer.SqlProfile

/-!
# Reserved names

The statements of bodies pass two filters that keep the names of the engine and of the log from
them: the compiler looks at the names in the tree, and the authorizer at the accesses that the engine
asks for. Both look at the object that a statement creates, alters or drops. Neither sees the new name in
`ALTER TABLE … RENAME TO`: it is a plain name in the tree, and no part of the access. So the
invariant of all runs (`Kept`) holds exactly until a table is given a reserved name this way.
-/

namespace Chronolog.Materializer.SchemaNames

open Compiler Procedure List

/-! ## Schemas -/

inductive ObjectKind
  | table | view | index | trigger
  deriving DecidableEq

/-- Where an object comes from: the schema of the log, a statement, or a constraint of a table, for
    which the engine makes an index. -/
inductive Origin
  | system | user | constraint
  deriving DecidableEq

structure SchemaObject where
  kind : ObjectKind
  name : String
  /-- The table that an index or trigger is on. -/
  on : Option String
  /-- The other tables and views that its definition mentions. -/
  mentions : List String
  definition : String
  origin : Origin
  deriving DecidableEq

abbrev Schema := List SchemaObject

/-- Names are the same in any case of letters. -/
def sameName (name name' : String) : Bool := asciiLower name = asciiLower name'

namespace SchemaObject

/-- Is this the object of a kind with a name? -/
def isNamed (o : SchemaObject) (kind : ObjectKind) (name : String) : Bool :=
  o.kind = kind && sameName o.name name

/-- Is this an index or trigger on a table? -/
def isOn (o : SchemaObject) (name : String) : Bool := o.on.any (sameName · name)

/-- Does the definition of an object name a table? -/
def concerns (o : SchemaObject) (name : String) : Bool :=
  o.isNamed .table name || o.isOn name || o.mentions.any (sameName · name)

/-- The name that a table has after it is renamed. -/
def replaceName (name new : String) (other : String) : String :=
  if sameName other name then new else other

/-- An object after a table is renamed. The indexes of constraints get names after their table. -/
def rename (o : SchemaObject) (name new : String) (indexName definition : SchemaObject → String) :
    SchemaObject :=
  if o.concerns name then
    { o with
      name := if o.isNamed .table name then new
        else if o.origin = .constraint then indexName o else o.name
      on := o.on.map (replaceName name new)
      mentions := o.mentions.map (replaceName name new)
      definition := definition o }
  else o

/-- An object after the columns of a table change. -/
def redefine (o : SchemaObject) (name : String) (definition : SchemaObject → String) :
    SchemaObject :=
  if o.concerns name then { o with definition := definition o } else o

end SchemaObject

/-! ## Statements -/

/-- The new name of a table in `ALTER TABLE … RENAME TO`. -/
def renamesTo (ast : Node) : Option String :=
  if ast.type = .alterTableStmt then
    ast.children.findSome? fun child =>
      match child.type with
      | .renameTo name => some name
      | _ => none
  else none

section

variable (ast : Node) (s : Schema)

/-- What a statement does to a schema. -/
inductive Effect : Schema → Prop
  | createTable {temporary : Bool} (htype : ast.type = .createTableStmt temporary)
      (mentions : List String) (definition : String) (indexes : List SchemaObject)
      (hindexes : ∀ index ∈ indexes, index.kind = .index ∧ index.origin = .constraint) :
      Effect
        (s ++ ⟨.table, ast.named .tblName, none, mentions, definition, .user⟩ :: indexes)
  | createView {temporary : Bool} (htype : ast.type = .createViewStmt temporary)
      (mentions : List String) (definition : String) :
      Effect (s ++ [⟨.view, ast.named .viewName, none, mentions, definition, .user⟩])
  | createIndex (htype : ast.type = .createIndexStmt) (mentions : List String)
      (definition : String) :
      Effect (s ++ [⟨.index, ast.named .idxName, some (ast.named .tblName), mentions,
        definition, .user⟩])
  | createTrigger {temporary : Bool} (htype : ast.type = .createTriggerStmt temporary)
      (mentions : List String) (definition : String) :
      Effect (s ++ [⟨.trigger, ast.named .triggerName, some (ast.named .tblName), mentions,
        definition, .user⟩])
  -- A table and a view are dropped with all that is on them.
  | dropTable (htype : ast.type = .dropTableStmt) :
      Effect (s.filter fun o =>
        !(o.isNamed .table (ast.named .tblName) || o.isOn (ast.named .tblName)))
  | dropView (htype : ast.type = .dropViewStmt) :
      Effect (s.filter fun o =>
        !(o.isNamed .view (ast.named .viewName) || o.isOn (ast.named .viewName)))
  | dropIndex (htype : ast.type = .dropIndexStmt) :
      Effect (s.filter fun o => !o.isNamed .index (ast.named .idxName))
  | dropTrigger (htype : ast.type = .dropTriggerStmt) :
      Effect (s.filter fun o => !o.isNamed .trigger (ast.named .triggerName))
  | alterTable (htype : ast.type = .alterTableStmt) (hrename : renamesTo ast = none)
      (definition : SchemaObject → String) :
      Effect (s.map fun o => o.redefine (ast.named .tblName) definition)
  | renameTable {new : String} (htype : ast.type = .alterTableStmt)
      (hrename : renamesTo ast = some new)
      (htable : ∃ o ∈ s, o.isNamed .table (ast.named .tblName) = true)
      (indexName definition : SchemaObject → String) :
      Effect (s.map fun o => o.rename (ast.named .tblName) new indexName definition)
  | unchanged (htype : isSchemaStatement ast.type = false) : Effect s

end

/-- The access that the engine documents for a statement that changes the schema. -/
def documentedAction : NodeType → Option AuthorizerAction
  | .createTableStmt _ => some .createTable
  | .createViewStmt _ => some .createView
  | .createIndexStmt => some .createIndex
  | .createTriggerStmt _ => some .createTrigger
  | .dropTableStmt => some .dropTable
  | .dropViewStmt => some .dropView
  | .dropIndexStmt => some .dropIndex
  | .dropTriggerStmt => some .dropTrigger
  | .alterTableStmt => some .alterTable
  | _ => none

def isDocumented (ast : Node) (c : Callback) : Bool :=
  documentedAction ast.type = some c.action &&
    if c.action = .alterTable then c.arg1 = some "main" && c.arg2 = schemaTarget ast
    else c.arg1 = schemaTarget ast && c.database = some "main"

/-- A statement of a body passes both filters. The engine asks for the access that it documents for the
    statement, among others. -/
structure Passes (parse : Parser) (ast : Node) (callbacks : List Callback) : Prop where
  compiles : ∃ statement compiled,
    compileSqlStatement parse statement .body = .ok compiled ∧ compiled.ast = ast
  documented : isSchemaStatement ast.type = true → ∃ c ∈ callbacks, isDocumented ast c = true
  authorized : authorizes .consensusBody callbacks = true

/-- A statement of a run, which may have failed. -/
structure Execution where
  ast : Node
  callbacks : List Callback
  completed : Bool

/-- Runs of statements, with the schemas from the first to the last. -/
inductive Runs (parse : Parser) : Schema → List Execution → List Schema → Prop
  | nil (s : Schema) : Runs parse s [] [s]
  | cons {s s' : Schema} {ast : Node} {callbacks : List Callback} {completed : Bool}
      {steps : List Execution} {schemas : List Schema} (hpasses : Passes parse ast callbacks)
      (heffect : if completed then Effect ast s s' else s' = s) (h : Runs parse s' steps schemas) :
      Runs parse s (⟨ast, callbacks, completed⟩ :: steps) (s :: schemas)

/-! ## The invariant -/

/-- No object of a statement has a reserved name, and the objects of the log are those of the
    start. -/
structure Kept (start s : Schema) : Prop where
  user : ∀ o ∈ s, o.origin = .user → isProtectedName o.name = false
  system : s.filter (·.origin = .system) = start.filter (·.origin = .system)

/-- A schema to start from: names that are reserved are for the objects of the log, and these have to
    do with one another only. -/
structure Initial (start : Schema) : Prop where
  user : ∀ o ∈ start, o.origin = .user → isProtectedName o.name = false
  system : ∀ o ∈ start, o.origin = .system → isReservedSchemaObjectName o.name = true ∧
    (∀ table ∈ o.on, isReservedSchemaObjectName table = true) ∧
    ∀ table ∈ o.mentions, isReservedSchemaObjectName table = true
  constraint : ∀ o ∈ start, o.origin = .constraint → o.kind = .index

section Invariant

variable {parse : Parser} {start s s' : Schema} {ast : Node}
variable {name : String} {o : SchemaObject} {callbacks : List Callback}

theorem reserved_of_sameName {name name' : String} (h : sameName name name' = true)
    (hreserved : isReservedSchemaObjectName name = true) :
    isReservedSchemaObjectName name' = true := by
  have heq : asciiLower name = asciiLower name' := of_decide_eq_true h
  unfold isReservedSchemaObjectName
  rwa [← heq]

theorem not_reserved_of_not_protected (h : isProtectedName name = false) :
    isReservedSchemaObjectName name = false := by
  simp only [isProtectedName, Bool.or_eq_false_iff] at h
  exact h.1.1

/-- The objects of the log have nothing to do with a name that is not reserved. -/
theorem Kept.system_ne (h : Kept start s) (hstart : Initial start) (ho : o ∈ s)
    (horigin : o.origin = .system) (hname : isReservedSchemaObjectName name = false) :
    (∀ kind, o.isNamed kind name = false) ∧ o.isOn name = false ∧ o.concerns name = false := by
  have hmem : o ∈ start.filter (·.origin = .system) := by
    rw [← h.system]
    exact mem_filter.2 ⟨ho, decide_eq_true horigin⟩
  obtain ⟨hself, hon, hmentions⟩ := hstart.system o (mem_filter.1 hmem).1 horigin
  have hne : ∀ other, isReservedSchemaObjectName other = true → sameName other name = false := by
    intro other hother
    by_contra hsame
    rw [reserved_of_sameName (Bool.eq_true_of_not_eq_false hsame) hother] at hname
    cases hname
  have hnamed : ∀ kind, o.isNamed kind name = false := fun kind => by
    rw [SchemaObject.isNamed, hne _ hself, Bool.and_false]
  have hisOn : o.isOn name = false := by
    cases hother : o.on with
    | none => rw [SchemaObject.isOn, hother, Option.any_none]
    | some other => rw [SchemaObject.isOn, hother, Option.any_some, hne other (hon other hother)]
  refine ⟨hnamed, hisOn, ?_⟩
  rw [SchemaObject.concerns, hnamed, hisOn, Bool.false_or, Bool.false_or, any_eq_false]
  intro other hother
  rw [hne other (hmentions other hother)]
  exact Bool.false_ne_true

/-! ## One statement -/

/-- A change of some items of a list leaves the others. -/
theorem filter_map_eq {α : Type} {l : List α} {p : α → Bool} {f : α → α}
    (hp : ∀ a ∈ l, p (f a) = p a) (hf : ∀ a ∈ l, p a = true → f a = a) :
    (l.map f).filter p = l.filter p := by
  rw [filter_map, filter_congr (p := p ∘ f) (q := p) hp]
  conv_rhs => rw [← map_id (l.filter p)]
  refine map_congr_left fun a ha => ?_
  exact hf a (mem_filter.1 ha).1 (mem_filter.1 ha).2

/-- A removal of some items of a list leaves the others. -/
theorem filter_filter_eq {α : Type} {l : List α} {p q : α → Bool}
    (h : ∀ a ∈ l, p a = true → q a = true) : (l.filter q).filter p = l.filter p := by
  rw [filter_filter]
  refine filter_congr fun a ha => ?_
  cases hp : p a with
  | false => rfl
  | true => rw [h a ha hp]; rfl

theorem origin_rename (o : SchemaObject) (name new : String)
    (indexName definition : SchemaObject → String) :
    (o.rename name new indexName definition).origin = o.origin := by
  unfold SchemaObject.rename
  split <;> rfl

theorem kind_rename (o : SchemaObject) (name new : String)
    (indexName definition : SchemaObject → String) :
    (o.rename name new indexName definition).kind = o.kind := by
  unfold SchemaObject.rename
  split <;> rfl

theorem rename_of_not_concerns (h : o.concerns name = false)
    (new : String) (indexName definition : SchemaObject → String) :
    o.rename name new indexName definition = o := by
  rw [SchemaObject.rename, h, if_neg Bool.false_ne_true]

/-- An object of a statement is renamed with its table, or keeps its name. -/
theorem name_rename (horigin : o.origin = .user) (name new : String)
    (indexName definition : SchemaObject → String) : (o.rename name new indexName definition).name =
      if o.isNamed .table name then new else o.name := by
  cases hconcerns : o.concerns name with
  | true => simp [SchemaObject.rename, hconcerns, horigin]
  | false =>
    have hnamed : o.isNamed .table name = false := by
      simp only [SchemaObject.concerns, Bool.or_eq_false_iff] at hconcerns
      exact hconcerns.1.1
    rw [rename_of_not_concerns hconcerns, hnamed, if_neg Bool.false_ne_true]

theorem redefine_name (o : SchemaObject) (name : String) (definition : SchemaObject → String) :
    (o.redefine name definition).name = o.name ∧ (o.redefine name definition).origin = o.origin ∧
      (o.redefine name definition).kind = o.kind := by
  unfold SchemaObject.redefine
  split
  · exact ⟨rfl, rfl, rfl⟩
  · exact ⟨rfl, rfl, rfl⟩

theorem redefine_of_not_concerns (h : o.concerns name = false)
    (definition : SchemaObject → String) : o.redefine name definition = o := by
  rw [SchemaObject.redefine, h, if_neg Bool.false_ne_true]

/-- No statement changes the objects of the log, whose names its target is not among. -/
theorem Effect.filter_system (h : Effect ast s s') (hstart : Initial start) (hs : Kept start s)
    (htarget : ∀ name, schemaTarget ast = some name → isReservedSchemaObjectName name = false) :
    s'.filter (·.origin = .system) = s.filter (·.origin = .system) := by
  have hne := fun o ho horigin name (hname : schemaTarget ast = some name) =>
    hs.system_ne hstart (o := o) ho (of_decide_eq_true horigin) (htarget name hname)
  cases h with
  | createTable htype mentions definition indexes hindexes =>
    have hnil : indexes.filter (·.origin = .system) = [] := by
      rw [filter_eq_nil_iff]
      intro index hindex
      rw [(hindexes index hindex).2]
      decide
    rw [filter_append, filter_cons_of_neg (by simp), hnil, append_nil]
  | createView | createIndex | createTrigger =>
    rw [filter_append, filter_cons_of_neg (by simp), filter_nil, append_nil]
  | dropTable htype | dropView htype =>
    refine filter_filter_eq fun o ho horigin => ?_
    obtain ⟨hnamed, hon, -⟩ := hne o ho horigin _ (by rw [schemaTarget, htype])
    rw [hnamed, hon]
    rfl
  | dropIndex htype | dropTrigger htype =>
    refine filter_filter_eq fun o ho horigin => ?_
    rw [(hne o ho horigin _ (by rw [schemaTarget, htype])).1]
    rfl
  | alterTable htype hrename definition =>
    refine filter_map_eq (fun o _ => by rw [(redefine_name o _ _).2.1]) fun o ho horigin => ?_
    exact redefine_of_not_concerns (hne o ho horigin _ (by rw [schemaTarget, htype])).2.2 _
  | renameTable htype hrename htable indexName definition =>
    refine filter_map_eq (fun o _ => by rw [origin_rename]) fun o ho horigin => ?_
    exact rename_of_not_concerns (hne o ho horigin _ (by rw [schemaTarget, htype])).2.2 _ _ _
  | unchanged => rfl

/-- Where an object comes from: it is made of one that there was, is the target of the statement, or
    the index of a constraint. -/
theorem Effect.of_mem (h : Effect ast s s') (ho : o ∈ s') :
    (∃ old ∈ s, o.origin = old.origin ∧ o.kind = old.kind ∧
      (o.origin = .user → o.name = old.name ∨ renamesTo ast = some o.name)) ∨
    o.origin = .user ∧ schemaTarget ast = some o.name ∨ o.origin = .constraint ∧ o.kind = .index := by
  cases h with
  | createTable htype mentions definition indexes hindexes =>
    obtain ho | ho := mem_append.1 ho
    · exact .inl ⟨o, ho, rfl, rfl, fun _ => .inl rfl⟩
    obtain rfl | ho := mem_cons.1 ho
    · exact .inr (.inl ⟨rfl, by rw [schemaTarget, htype]⟩)
    · exact .inr (.inr (hindexes o ho).symm)
  | createView htype | createIndex htype | createTrigger htype =>
    obtain ho | ho := mem_append.1 ho
    · exact .inl ⟨o, ho, rfl, rfl, fun _ => .inl rfl⟩
    · obtain rfl := mem_singleton.1 ho
      exact .inr (.inl ⟨rfl, by rw [schemaTarget, htype]⟩)
  | dropTable | dropView | dropIndex | dropTrigger =>
    exact .inl ⟨o, (mem_filter.1 ho).1, rfl, rfl, fun _ => .inl rfl⟩
  | alterTable =>
    obtain ⟨old, hmem, rfl⟩ := mem_map.1 ho
    obtain ⟨hname, horigin, hkind⟩ := redefine_name old _ _
    exact .inl ⟨old, hmem, horigin, hkind, fun _ => .inl hname⟩
  | renameTable htype hnew =>
    obtain ⟨old, hmem, rfl⟩ := mem_map.1 ho
    refine .inl ⟨old, hmem, origin_rename .., kind_rename .., fun horigin => ?_⟩
    rw [origin_rename] at horigin
    rw [name_rename horigin, hnew]
    split
    · exact .inr rfl
    · exact .inl rfl
  | unchanged => exact .inl ⟨o, ho, rfl, rfl, fun _ => .inl rfl⟩

/-- The objects that constraints have are indexes. -/
theorem Effect.constraint (h : Effect ast s s')
    (hs : ∀ o ∈ s, o.origin = .constraint → o.kind = .index) :
    ∀ o ∈ s', o.origin = .constraint → o.kind = .index := by
  intro o ho horigin
  obtain ⟨old, hold, heq, hkind, -⟩ | ⟨huser, -⟩ | ⟨-, hindex⟩ := h.of_mem ho
  · exact hkind.trans (hs old hold (heq.symm.trans horigin))
  · cases huser.symm.trans horigin
  · exact hindex

/-- The names of the objects of statements stay free, if that of what is created is, and the new one of
    a table. -/
theorem Effect.user (h : Effect ast s s')
    (hs : ∀ o ∈ s, o.origin = .user → isProtectedName o.name = false)
    (htarget : ∀ name, schemaTarget ast = some name → isProtectedName name = false)
    (hrename : ∀ new, renamesTo ast = some new → isProtectedName new = false) :
    ∀ o ∈ s', o.origin = .user → isProtectedName o.name = false := by
  intro o ho horigin
  obtain ⟨old, hold, heq, -, hname⟩ | ⟨-, hname⟩ | ⟨hconstraint, -⟩ := h.of_mem ho
  · obtain hname | hname := hname horigin
    · rw [hname]
      exact hs old hold (heq.symm.trans horigin)
    · exact hrename _ hname
  · exact htarget _ hname
  · cases hconstraint.symm.trans horigin

/-! ## The filters -/

/-- What the compiler accepts has no protected target. -/
theorem Passes.not_protected (h : Passes parse ast callbacks)
    (hname : schemaTarget ast = some name) : isProtectedName name = false := by
  obtain ⟨statement, compiled, hcompile, rfl⟩ := h.compiles
  obtain ⟨_, -, -, hvalid, -⟩ := accepted_of_compileSqlStatement hcompile
  obtain ⟨_, -, h⟩ := bind_eq_ok_iff.1 (validated_of_validateStatement hvalid).1
  obtain ⟨_, -, h⟩ := bind_eq_ok_iff.1 h
  obtain ⟨_, htarget, -⟩ := bind_eq_ok_iff.1 h
  rw [refuseIf_eq_ok_iff, hname, Option.any_some] at htarget
  exact htarget

/-! ## Runs -/

/-- What holds of every schema of a run. -/
structure Invariant (start s : Schema) : Prop extends Kept start s where
  constraint : ∀ o ∈ s, o.origin = .constraint → o.kind = .index

theorem Initial.invariant (h : Initial start) : Invariant start start where
  user := h.user
  system := rfl
  constraint := h.constraint

/-- A statement that gives no table a reserved name keeps the invariant. -/
theorem Invariant.effect (hs : Invariant start s) (hstart : Initial start)
    (hpasses : Passes parse ast callbacks) (h : Effect ast s s')
    (hrename : ∀ new, renamesTo ast = some new → isProtectedName new = false) :
    Invariant start s' where
  user := h.user hs.user (fun _ => hpasses.not_protected) hrename
  system := (h.filter_system hstart hs.toKept fun _ hname =>
    not_reserved_of_not_protected (hpasses.not_protected hname)).trans hs.system
  constraint := h.constraint hs.constraint

/-- A table that is renamed is one of a statement. -/
theorem Invariant.origin_eq (hs : Invariant start s) (hstart : Initial start)
    (ho : o ∈ s) (hname : isReservedSchemaObjectName name = false)
    (hnamed : o.isNamed .table name = true) : o.origin = .user := by
  cases horigin : o.origin with
  | user => rfl
  | system =>
    rw [(hs.system_ne hstart ho horigin hname).1 .table] at hnamed
    cases hnamed
  | constraint =>
    rw [SchemaObject.isNamed, hs.constraint o ho horigin] at hnamed
    cases hnamed

/-- A statement that gives a table a reserved name does not. -/
theorem Invariant.not_kept (hs : Invariant start s) (hstart : Initial start)
    (hpasses : Passes parse ast callbacks) (h : Effect ast s s')
    {new : String} (hnew : renamesTo ast = some new) (hprotected : isProtectedName new = true) :
    ¬Kept start s' := by
  have htype : ast.type = .alterTableStmt := by
    by_contra htype
    rw [renamesTo, if_neg htype] at hnew
    cases hnew
  intro hkept
  cases h with
  | renameTable htype hrename htable indexName definition =>
    obtain ⟨o, ho, hnamed⟩ := htable
    have htarget : schemaTarget ast = some (ast.named .tblName) := by rw [schemaTarget, htype]
    have hname := hpasses.not_protected htarget
    have horigin := hs.origin_eq hstart ho (not_reserved_of_not_protected hname) hnamed
    have huser := hkept.user _ (mem_map_of_mem ho) ((origin_rename o _ _ _ _).trans horigin)
    rw [name_rename horigin, if_pos hnamed] at huser
    rw [hnew] at hrename
    rw [← Option.some.inj hrename, hprotected] at huser
    cases huser
  | alterTable htype hrename =>
    rw [hnew] at hrename
    cases hrename
  | unchanged hno =>
    rw [htype] at hno
    cases hno
  | createTable htype' | createView htype' | createIndex htype' | createTrigger htype'
  | dropTable htype' | dropView htype' | dropIndex htype' | dropTrigger htype' =>
    rw [htype] at htype'
    cases htype'

theorem Runs.mem {steps : List Execution} {schemas : List Schema} (h : Runs parse s steps schemas) :
    s ∈ schemas := by
  cases h with
  | nil => exact mem_singleton_self s
  | cons => exact mem_cons_self

/-- The names of the log are kept over a run exactly if no table is given one of them by
    `ALTER TABLE … RENAME TO`. -/
theorem kept_iff {steps : List Execution} {schemas : List Schema} (hstart : Initial start)
    (h : Runs parse start steps schemas) :
    (∀ s ∈ schemas, Kept start s) ↔ ∀ step ∈ steps, step.completed = true →
      ∀ new, renamesTo step.ast = some new → isProtectedName new = false := by
  have key : ∀ s, Invariant start s → ∀ steps schemas, Runs parse s steps schemas →
      ((∀ s ∈ schemas, Kept start s) ↔ ∀ step ∈ steps, step.completed = true →
        ∀ new, renamesTo step.ast = some new → isProtectedName new = false) := by
    intro s hs steps schemas h
    induction h with
    | nil s =>
      refine ⟨fun _ => forall_mem_nil _, fun _ s' hs' => ?_⟩
      rw [mem_singleton.1 hs']
      exact hs.toKept
    | @cons s s' ast callbacks completed steps schemas hpasses heffect h ih =>
      rw [forall_mem_cons, forall_mem_cons, and_iff_right hs.toKept]
      cases completed with
      | false =>
        obtain rfl : s' = s := heffect
        rw [ih hs, and_iff_right nofun]
      | true =>
        by_cases hrename : ∀ new, renamesTo ast = some new → isProtectedName new = false
        · rw [ih (hs.effect hstart hpasses heffect hrename), and_iff_right fun _ => hrename]
        · -- The schema right after the statement is not kept.
          push Not at hrename
          obtain ⟨new, hnew, hprotected⟩ := hrename
          have hprotected := Bool.eq_true_of_not_eq_false hprotected
          constructor
          · intro hkept
            exact absurd (hkept s' h.mem) (hs.not_kept hstart hpasses heffect hnew hprotected)
          · intro hall
            rw [hall.1 rfl new hnew] at hprotected
            cases hprotected
  exact key start hstart.invariant steps schemas h

end Invariant

namespace RenameTable

/-- The tree of `ALTER TABLE t RENAME TO …`. -/
def tree (new : String) : Node :=
  .mk .root .alterTableStmt ⟨0, 24 + new.length⟩
    [.mk .tblName (.qualifiedName none "t" none) ⟨12, 1⟩ [],
      .mk .newName (.renameTo new) ⟨24, new.length⟩ []]

def parse : Parser := fun sql =>
  if sql = "ALTER TABLE t RENAME TO u" then .ok [tree "u"]
  else if sql = "ALTER TABLE t RENAME TO chronolog_t" then .ok [tree "chronolog_t"]
  else .error none

/-- The accesses that the engine asks for: it writes the new name to its catalogs. -/
def callbacks : List Callback :=
  [⟨.alterTable, some "main", some "t", none, none⟩,
    ⟨.update, some "sqlite_master", some "sql", some "main", none⟩,
    ⟨.function, none, some "sqlite_rename_table", none, none⟩,
    ⟨.read, some "sqlite_master", some "name", some "main", none⟩,
    ⟨.function, none, some "like", none, none⟩,
    ⟨.update, some "sqlite_master", some "tbl_name", some "main", none⟩,
    ⟨.function, none, some "substr", none, none⟩,
    ⟨.update, some "sqlite_temp_master", some "sql", some "temp", none⟩,
    ⟨.function, none, some "sqlite_rename_test", none, none⟩]

/-- The table of the log and one of a statement. -/
def start : Schema :=
  [⟨.table, "chronolog_transactions", none, [], "", .system⟩, ⟨.table, "t", none, [], "", .user⟩]

def renamed (new : String) : Schema :=
  [⟨.table, "chronolog_transactions", none, [], "", .system⟩, ⟨.table, new, none, [], "", .user⟩]

theorem initial_start : Initial start where
  user := by decide
  system := by decide
  constraint := by decide

theorem passes {new : String} (sql : String)
    (hok : (compileSqlStatement parse ⟨sql, []⟩ .body).isOk)
    (hplain : parseOrderedMutationSyntax sql = .ok none)
    (hparse : parseOne parse sql = .ok (tree new)) : Passes parse (tree new) callbacks where
  compiles := by
    have hcompile := eq_ok_okValue _ hok
    obtain ⟨parts, hparts, hast, -, -⟩ := accepted_of_compileSqlStatement hcompile
    cases hplain.symm.trans hparts
    exact ⟨_, _, hcompile, Except.ok.inj (hast.symm.trans hparse)⟩
  documented _ := ⟨_, mem_cons_self, rfl⟩
  authorized := by rfl

theorem passes_u : Passes parse (tree "u") callbacks :=
  passes "ALTER TABLE t RENAME TO u" (by decide +kernel) (by decide +kernel)
    (parseOne_eq_ok (by decide) rfl)

theorem passes_chronolog_t : Passes parse (tree "chronolog_t") callbacks :=
  passes "ALTER TABLE t RENAME TO chronolog_t" (by decide +kernel) (by decide +kernel)
    (parseOne_eq_ok (by decide) rfl)

theorem named_tree (new : String) : (tree new).named .tblName = "t" := rfl

theorem isNamed_t :
    (⟨.table, "t", none, [], "", .user⟩ : SchemaObject).isNamed .table "t" = true := by
  rfl

theorem runs {new : String} (hpasses : Passes parse (tree new) callbacks) :
    Runs parse start [⟨tree new, callbacks, true⟩] [start, renamed new] := by
  have htable : ∃ o ∈ start, o.isNamed .table ((tree new).named .tblName) = true :=
    ⟨_, mem_cons_of_mem _ mem_cons_self, isNamed_t⟩
  have heffect : Effect (tree new) start _ :=
    .renameTable rfl rfl htable (fun _ => "") fun _ => ""
  rw [named_tree] at heffect
  exact .cons hpasses heffect (.nil _)

/-- A table with a reserved name. -/
theorem renamed_reserved : Initial start ∧
    Runs parse start [⟨tree "chronolog_t", callbacks, true⟩] [start, renamed "chronolog_t"] ∧
    ∃ o ∈ renamed "chronolog_t", o.origin = .user ∧ isReservedSchemaObjectName o.name = true :=
  ⟨initial_start, runs passes_chronolog_t, by decide⟩

/-- A table with a name that is free. -/
theorem renamed_kept : Initial start ∧
    Runs parse start [⟨tree "u", callbacks, true⟩] [start, renamed "u"] ∧
    ∀ s ∈ [start, renamed "u"], Kept start s := by
  refine ⟨initial_start, runs passes_u,
    (kept_iff initial_start (runs passes_u)).2 fun step hstep _ new hnew => ?_⟩
  obtain rfl := mem_singleton.1 hstep
  obtain rfl : "u" = new := Option.some.inj hnew
  rfl

end RenameTable

end Chronolog.Materializer.SchemaNames
