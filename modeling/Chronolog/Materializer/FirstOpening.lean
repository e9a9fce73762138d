import Chronolog.Materializer.Reopening

/-!
# The first opening of a repository

The first `open` makes a revision without transactions of an empty repository
(`meets_openMaterializer_empty`). It takes several operations: the schema is created, the working
set is committed, and the branches of a checkpoint, of the revision and of the head are made, in
this order. A process that ends in between leaves a repository without a head, and with a schema:
`open` takes it for the database of somebody else and refuses it from then on
(`openMaterializer_of_interrupted_iff`).
-/

namespace Chronolog.Materializer

open Procedure OrdMap Meets

variable {Db : Type}

section First

variable {engine : Engine Db} {orders : Set (List AdmittedTransaction)}
  {faults : OpeningOperation → Option Fault} {r₀ r : Repository Db} {K T : Repository Db → Prop}
  {names : List BranchName} {name : BranchName} {operation : OpeningOperation}

section

variable (engine : Engine Db)

/-- A repository in which nothing was published, with an empty schema. -/
structure Empty (r : Repository Db) : Prop where
  fresh : engine.isFreshRepository r.working.content
  others : ∀ name, r.branches.has name → ∃ text, name = .other text
  active : ∃ text, r.active = .other text
  hash : ∀ name commit, r.branches.get? name = some commit → commit.hash < r.nextHash

/-- What is assumed of a schema that was just created: it has the execution manifest. -/
def Boots (r : Repository Db) : Prop :=
  external (engine.verifyDatabaseState (engine.bootstrap r.working.content)) = .ok ()

/-- The setting of a repository that was empty at first. -/
abbrev starting (orders : Set (List AdmittedTransaction))
    (r₀ : Repository Db) : Setting Db :=
  ⟨engine, genesisOf engine r₀, orders⟩

/-- The commit without transactions. -/
def genesisCommit (r₀ : Repository Db) : Commit Db :=
  ⟨r₀.nextHash, genesisOf engine r₀⟩

/-- The revision without transactions. -/
def genesisRef (r₀ : Repository Db) : PublishedRef Db :=
  ⟨0, 0, .revision 0 0 (engine.orderDigest []), genesisCommit engine r₀,
    engine.doltHashOf (genesisOf engine r₀), engine.orderDigest []⟩

end

/-- The process ends at an operation of the first `open` between the creation of the schema and that
    of the head. -/
def Halfway : OpeningOperation → Bool → Bool
  | .bootstrap, done => done
  | .readGenesisLog, _ | .commitGenesis, _ | .createCheckpointBranch, _ | .hashCheckpointBranch, _
  | .createRevisionBranch, _ | .hashRevisionBranch, _ => true
  | .publishHead, done => !done
  | _, _ => false

/-- Nothing was done to the repository but for what makes the revision without transactions. -/
structure Making (engine : Engine Db) (r₀ : Repository Db)
    (names : List BranchName) (r : Repository Db) : Prop where
  get? : ∀ name, r.branches.get? name =
    if name ∈ names then some (genesisCommit engine r₀) else r₀.branches.get? name
  active : r.active = r₀.active
  working : r.working = genesisOf engine r₀
  nextHash : r.nextHash = r₀.nextHash + 1

theorem Making.set (h : Making engine r₀ names r) (name : BranchName) :
    Making engine r₀ (name :: names)
      { r with branches := r.branches.set name (genesisCommit engine r₀) } := by
  refine ⟨fun name' => ?_, h.active, h.working, h.nextHash⟩
  rw [get?_set, h.get?]
  by_cases hname : name' = name <;> simp [hname]

/-- The branches of the revision without transactions, but for the head. -/
abbrev genesisBranches (engine : Engine Db) (r₀ : Repository Db) : List BranchName :=
  [.revision 0 0 (engine.orderDigest []), .checkpoint 0 0 (engine.orderDigest []), r₀.active]

theorem Empty.get?_eq_none (h : Empty engine r₀)
    (hname : ∀ text, name ≠ .other text) : r₀.branches.get? name = none := by
  refine Option.eq_none_iff_forall_ne_some.2 fun commit hget => ?_
  obtain ⟨text, htext⟩ := h.others name (has_iff.2 ⟨commit, hget⟩)
  exact hname text htext

theorem Empty.head (h : Empty engine r₀) : r₀.branches.get? .head = none :=
  h.get?_eq_none fun _ => nofun

/-- Every name but one of somebody else stands for the new commit. -/
theorem Making.eq_genesisCommit (h : Empty engine r₀) (hr : Making engine r₀ names r)
    {commit : Commit Db} (hget : r.branches.get? name = some commit)
    (hname : ∀ text, name ≠ .other text) : name ∈ names ∧ commit = genesisCommit engine r₀ := by
  rw [hr.get?, h.get?_eq_none hname] at hget
  split_ifs at hget with hmem
  exact ⟨hmem, (Option.some.inj hget).symm⟩

theorem good_genesisOf (hboots : Boots engine r₀) :
    Good (starting engine orders r₀) (genesisOf engine r₀) :=
  ⟨⟨[], List.forall_mem_nil _, rfl⟩, hboots, rfl⟩

theorem Making.durable (h : Empty engine r₀) (hboots : Boots engine r₀)
    (hr : Making engine r₀ (.head :: genesisBranches engine r₀) r) :
    Durable (starting engine orders r₀) (genesisRef engine r₀) r := by
  obtain ⟨text, hactive⟩ := h.active
  refine ⟨⟨good_genesisOf hboots, rfl, rfl, rfl, rfl⟩, .inl rfl, ?_, ?_, ?_, ?_, ?_,
    fun name commit hget => ?_, ?_⟩
  · rw [hr.get?]
    exact if_pos List.mem_cons_self
  · rw [hr.get?]
    exact if_pos (by simp [genesisRef])
  · intro revision n digest commit hget _
    have hmem := (hr.eq_genesisCommit h hget fun _ => nofun).1
    simpa [genesisRef, hactive] using hmem
  · intro n revision digest commit hget
    obtain ⟨hmem, rfl⟩ := hr.eq_genesisCommit h hget fun _ => nofun
    obtain ⟨rfl, hrevision, rfl⟩ : n = 0 ∧ revision = 0 ∧ digest = engine.orderDigest [] := by
      simpa [hactive] using hmem
    exact ⟨good_genesisOf hboots, rfl, rfl, .inl rfl, fun _ => hrevision⟩
  · rw [has, hr.get?, if_pos (by simp [genesisBranch])]
    rfl
  · rw [hr.get?] at hget
    rw [hr.nextHash]
    split_ifs at hget
    · rw [← Option.some.inj hget]
      exact Nat.lt_succ_self _
    · exact Nat.lt_succ_of_lt (h.hash name commit hget)
  · rw [has, hr.get?, hr.active, if_pos (by simp)]
    rfl

/-! ## The operations -/

/-- The schema was created, and there is no head. -/
structure Stuck (engine : Engine Db) (r₀ r : Repository Db) : Prop where
  head : r.branches.get? .head = none
  content : r.working.content = engine.bootstrap r₀.working.content

theorem Making.stuck (h : Empty engine r₀) (hr : Making engine r₀ names r) (hhead : .head ∉ names) :
    Stuck engine r₀ r := by
  refine ⟨?_, congrArg Snapshot.content hr.working⟩
  rw [hr.get?, if_neg hhead, h.head]

/-- What a process leaves that ends at an operation of the first `open`. -/
def LeftAt (engine : Engine Db) (orders : Set (List AdmittedTransaction)) (r₀ : Repository Db)
    (operation : OpeningOperation) (done : Bool) (r : Repository Db) : Prop :=
  if Halfway operation done then Stuck engine r₀ r
  else r = r₀ ∨ Durable (starting engine orders r₀) (genesisRef engine r₀) r

theorem halfway_eq_false (h : operation.isInitial = false)
    (done : Bool) : Halfway operation done = false := by
  cases operation <;> first | rfl | exact absurd h nofun

variable (hT : ∀ T operation, Tolerates (faults operation) (LeftAt engine orders r₀ operation false)
    (LeftAt engine orders r₀ operation true) (Ends K T))

include hT

/-- The published revision is not there yet. -/
theorem meets_discoverPublishedRef_empty (h : Empty engine r₀) :
    Meets (· = r₀) (discoverPublishedRef engine faults) (fun result r => result = none ∧ r = r₀)
      (Ends K T) := by
  refine bind (Q := fun branches r => branches = r₀.branches.entries ∧ r = r₀) ?_
    fun branches => meets_of_and fun hbranches => ?_
  · refine (hT _ .listForHead).run
      (meets_get_bind fun r hr => meets_pure fun s hs => ?_) (fun _ => .inl) fun _ _ hr => .inl hr.2
    subst hs hr
    exact ⟨rfl, rfl⟩
  · subst hbranches
    rw [find?_entries, h.head]
    exact meets_pure fun _ hr => ⟨rfl, hr⟩

/-- A branch at the commit without transactions is made. -/
theorem meets_doltBranch_first (h : Empty engine r₀)
    (hhalfway : ∀ done, Halfway operation done = true)
    (hname : ∀ text, name ≠ .other text) (hnew : name ∉ names) (hhead : .head ∉ name :: names) :
    Meets (Making engine r₀ names)
      (attempt (faults operation) (doltBranch name (genesisCommit engine r₀)))
      (fun _ => Making engine r₀ (name :: names)) (Ends K T) := by
  refine (hT _ operation).run (meets_get_bind fun r hr => ?_)
    (fun r hr => ?_) fun _ r hr => ?_
  · have hnone : r.branches.has name = false := by
      rw [has_eq_false_iff, hr.get?, if_neg hnew, h.get?_eq_none hname]
    rw [if_neg (by rw [hnone]; exact nofun)]
    exact meets_set fun _ => hr.set name
  · rw [LeftAt, if_pos (hhalfway false)]
    exact hr.stuck h fun hmem => hhead (List.mem_cons_of_mem _ hmem)
  · rw [LeftAt, if_pos (hhalfway true)]
    exact hr.stuck h hhead

/-- A hash is computed halfway. -/
theorem meets_hash_first (h : Empty engine r₀) {α : Type} {a : α}
    (hhalfway : ∀ done, Halfway operation done = true) (hhead : .head ∉ names) :
    Meets (Making engine r₀ names) (attempt (faults operation) (pure a))
      (fun b r => b = a ∧ Making engine r₀ names r) (Ends K T) := by
  have hstuck (done : Bool) (r : Repository Db) (hr : Making engine r₀ names r) :
      LeftAt engine orders r₀ operation done r := by
    rw [LeftAt, if_pos (hhalfway done)]
    exact hr.stuck h hhead
  exact (hT _ operation).run (meets_pure fun _ hr => ⟨rfl, hr⟩) (hstuck false)
    fun _ r hr => hstuck true r hr.2

theorem meets_commitGenesis_first (h : Empty engine r₀) :
    Meets (· = { r₀ with working := genesisOf engine r₀ }) (attempt (faults .commitGenesis) doltCommit)
      (fun commit r => commit = genesisCommit engine r₀ ∧ Making engine r₀ [r₀.active] r)
      (Ends K T) := by
  obtain ⟨text, hactive⟩ := h.active
  refine (hT _ .commitGenesis).run (meets_get_bind fun r hr => ?_)
    (fun r hr => ?_) fun _ r hr => ?_
  · subst hr
    refine bind (Q := fun _ => Making engine r₀ [r₀.active]) ?_ fun _ =>
      meets_pure fun _ hr => ⟨rfl, hr⟩
    refine meets_set fun _ => ⟨fun name => ?_, rfl, rfl, rfl⟩
    rw [get?_set]
    simp only [List.mem_singleton]
    rfl
  · subst hr
    exact ⟨h.head, rfl⟩
  · exact hr.2.stuck h (by simp [hactive])

theorem meets_publishRef_first (h : Empty engine r₀) (hboots : Boots engine r₀) :
    Meets (Making engine r₀ (genesisBranches engine r₀))
      (publishRef (faults .publishHead) (genesisRef engine r₀))
      (fun _ => Durable (starting engine orders r₀) (genesisRef engine r₀)) (Ends K T) := by
  obtain ⟨text, hactive⟩ := h.active
  refine (hT _ .publishHead).run (meets_modify fun r hr => ?_) (fun r hr => ?_)
    fun _ r hr => .inr hr
  · exact (hr.set .head).durable h hboots
  · exact hr.stuck h (by simp [hactive])

/-- A repository is initialized. -/
theorem meets_initializeRepository_first (h : Empty engine r₀) :
    Meets (· = r₀) (initializeRepository engine faults)
      (fun published r => published = genesisRef engine r₀ ∧
        AtHead (starting engine orders r₀) (genesisRef engine r₀) r)
      (Ends K fun _ => ¬Boots engine r₀) := by
  obtain ⟨text, hactive⟩ := h.active
  have hnot : (.head : BranchName) ∉ genesisBranches engine r₀ := by simp [hactive]
  refine bind (Q := fun content r => content = r₀.working.content ∧ r = r₀) ?_ fun content =>
    meets_of_and fun hcontent => ?_
  · refine (hT _ .readSchema).run
      (meets_get_bind fun r hr => meets_pure fun s hs => ?_) (fun _ => .inl) fun _ _ hr => .inl hr.2
    subst hs hr
    exact ⟨rfl, rfl⟩
  subst hcontent
  rw [if_pos h.fresh]
  by_cases hboots : Boots engine r₀
  swap
  · -- The execution manifest is not in the new schema.
    cases hverify : external (engine.verifyDatabaseState (engine.bootstrap r₀.working.content)) with
    | ok => exact absurd hverify hboots
    | error e => exact fun _ _ => hboots
  refine (meets_check_of_ok hboots).bind fun _ => ?_
  refine bind (Q := fun _ r => r = { r₀ with working := genesisOf engine r₀ }) ?_ fun _ => ?_
  · refine (hT _ .bootstrap).run (meets_modify fun r hr => ?_) (fun _ => .inl)
      fun _ r hr => ?_
    · subst hr
      rfl
    · subst hr
      exact ⟨h.head, rfl⟩
  refine bind (Q := fun log r => log = [] ∧ r = { r₀ with working := genesisOf engine r₀ }) ?_
    fun log => meets_of_and fun hlog => ?_
  · have hstuck : Stuck engine r₀ { r₀ with working := genesisOf engine r₀ } :=
      ⟨h.head, rfl⟩
    refine (hT _ .readGenesisLog).run
      (meets_get_bind fun r hr => meets_pure fun s hs => ?_) (fun r hr => hr ▸ hstuck)
      fun _ r hr => hr.2 ▸ hstuck
    subst hs hr
    exact ⟨rfl, rfl⟩
  subst hlog
  refine (meets_commitGenesis_first hT h).bind_of fun commit hcommit => ?_
  subst hcommit
  refine bind (Q := fun _ => Making engine r₀
    [.checkpoint 0 0 (engine.orderDigest []), r₀.active]) ?_ fun _ => ?_
  · refine bind (Q := fun _ => Making engine r₀
      [.checkpoint 0 0 (engine.orderDigest []), r₀.active]) ?_ fun _ => meets_pure fun _ => id
    refine bind (meets_doltBranch_first hT h (fun _ => rfl) (fun _ => nofun)
      (by simp [hactive]) (by simp [hactive])) fun _ => ?_
    exact (meets_hash_first hT h (fun _ => rfl) (by simp [hactive])).bind fun _ =>
      meets_pure fun _ hr => hr.2
  refine bind (Q := fun published r => published = genesisRef engine r₀ ∧
    Making engine r₀ (genesisBranches engine r₀) r) ?_ fun published => meets_of_and fun hpublished => ?_
  · refine bind (meets_doltBranch_first hT h (fun _ => rfl) (fun _ => nofun)
      (by simp [hactive]) (by simp [hactive])) fun _ => ?_
    refine (meets_hash_first hT h (fun _ => rfl) hnot).bind fun contentHash =>
      meets_pure fun r hr => ⟨?_, hr.2⟩
    rw [hr.1]
    rfl
  subst hpublished
  refine (meets_publishRef_first hT h hboots).bind fun _ => ?_
  refine bind (Q := fun _ => AtHead (starting engine orders r₀) (genesisRef engine r₀))
    ((hT _ .checkoutNewHead).run (meets_get_bind fun r hr => ?_)
      (fun _ => .inr) fun _ _ hr => .inr hr.durable) fun _ => meets_pure fun _ hr => ⟨rfl, hr⟩
  rw [hr.head]
  exact meets_set fun _ => hr.checkoutHead

/-- An empty repository is opened, with a revision without transactions. -/
theorem meets_openMaterializer_empty (h : Empty engine r₀) :
    Meets (· = r₀) (openMaterializer engine faults) (fun m r => m.repository = r ∧
        Reopened (starting engine orders r₀) (genesisRef engine r₀) m)
      (Ends K fun _ => ¬Boots engine r₀) := by
  refine meets_openMaterializer_of (S := starting engine orders r₀) (fun operation hoperation => ?_) ?_ ?_
  · have hleft (done : Bool) (r : Repository Db)
        (hr : Durable (starting engine orders r₀) (genesisRef engine r₀) r) :
        LeftAt engine orders r₀ operation done r := by
      rw [LeftAt, halfway_eq_false hoperation]
      exact .inr hr
    exact ⟨fun f hf hdone r hr => (hT _ operation).before f hf hdone r (hleft _ r hr),
      fun f hf hdone r hr => (hT _ operation).after f hf hdone r (hleft _ r hr)⟩
  · exact (hT _ .openDatabase).run (meets_pure fun _ => id) (fun _ => .inl)
      fun _ _ => .inl
  · refine (meets_discoverPublishedRef_empty hT h).bind_of fun result hresult => ?_
    subst hresult
    exact meets_initializeRepository_first hT h

end First

/-! ## Interruptions -/

section Interruption

variable {engine : Engine Db} {orders : Set (List AdmittedTransaction)} {r₀ r : Repository Db}

/-- The process ends at one operation, before or after it took effect. -/
def crashAt (operation : OpeningOperation) (done : Bool) : OpeningOperation → Option Fault :=
  fun operation' => if operation' = operation then some (.crashes done) else none

/-- An interrupted first `open` leaves what its operation says. -/
theorem leftAt_of_openMaterializer (h : Empty engine r₀) {operation : OpeningOperation}
    {done : Bool} (hrun : openMaterializer engine (crashAt operation done) r₀ = .error .crash r) :
    LeftAt engine orders r₀ operation done r := by
  have hopen : Meets (· = r₀) (openMaterializer engine (crashAt operation done))
      (fun m r => m.repository = r ∧
        Reopened (starting engine orders r₀) (genesisRef engine r₀) m)
      (Ends (LeftAt engine orders r₀ operation done) fun _ => ¬Boots engine r₀) := by
    refine meets_openMaterializer_empty
      (fun T operation' => ⟨fun f hf hdone r hr => ?_, fun f hf hdone r hr => ?_⟩) h
    all_goals
      rw [crashAt] at hf
      split_ifs at hf <;> cases hf
      subst operation'
      rw [← show done = _ from hdone] at hr
      exact hr
  exact hopen.of_error rfl hrun

/-- A repository without a head is refused if there is a schema. -/
theorem Stuck.openMaterializer_eq_error (h : Stuck engine r₀ r)
    (hcreated : engine.isFreshRepository (engine.bootstrap r₀.working.content) = false) :
    openMaterializer engine (fun _ => none) r =
      .error (.thrown (.error .reservedHeadMissing)) r := by
  have hrefused : Meets (· = r) (openMaterializer engine fun _ => none) (fun _ _ => False)
      fun stop s => stop = .thrown (.error .reservedHeadMissing) ∧ s = r := by
    refine bind (Q := fun _ s => s = r) (meets_pure fun _ => id) fun _ => ?_
    refine bind (Q := fun _ _ => False) ?_ fun _ => fun _ hfalse => hfalse.elim
    refine bind (Q := fun result s => result = none ∧ s = r) ?_ fun result =>
      meets_of_and fun hresult => ?_
    · refine meets_get_bind fun s hs => ?_
      subst hs
      rw [find?_entries, h.head]
      exact meets_pure fun _ hs => ⟨rfl, hs⟩
    · subst hresult
      refine meets_get_bind fun s hs => ?_
      subst hs
      rw [h.content, hcreated]
      exact fun _ hs => ⟨rfl, hs⟩
  have hrun := hrefused r rfl
  cases hresult : openMaterializer engine (fun _ => none) r with
  | ok m r' =>
    rw [hresult] at hrun
    exact hrun.elim
  | error stop r' =>
    rw [hresult] at hrun
    rw [hrun.1, hrun.2]

variable (orders) in
/-- An undisturbed first `open`. -/
theorem Empty.meets_openMaterializer (h : Empty engine r₀) :
    Meets (· = r₀) (openMaterializer engine fun _ => none)
      (fun m r => m.repository = r ∧ Reopened (starting engine orders r₀) (genesisRef engine r₀) m)
      (Ends (fun _ => False) fun _ => ¬Boots engine r₀) :=
  meets_openMaterializer_empty (fun _ _ => ⟨nofun, nofun⟩) h

/-- An empty repository is opened. -/
theorem Empty.openMaterializer_eq_ok (h : Empty engine r₀) (hboots : Boots engine r₀) :
    ∃ m r', openMaterializer engine (fun _ => none) r₀ = .ok m r' ∧
      Reopened (starting engine orders r₀) (genesisRef engine r₀) m := by
  have hrun := h.meets_openMaterializer orders r₀ rfl
  cases hresult : openMaterializer engine (fun _ => none) r₀ with
  | ok m r' =>
    rw [hresult] at hrun
    exact ⟨m, r', rfl, hrun.2⟩
  | error stop r' =>
    rw [hresult] at hrun
    cases stop with
    | crash => exact hrun.elim
    | thrown error => exact absurd hboots hrun

/-- If the process ends during the first `open`, the next one finds the revision without
    transactions if and only if the process did not end halfway: after the schema was created, and
    before the head was. -/
theorem openMaterializer_of_interrupted_iff (hempty : Empty engine r₀) (hboots : Boots engine r₀)
    (hcreated : engine.isFreshRepository (engine.bootstrap r₀.working.content) = false)
    {operation : OpeningOperation} {done : Bool}
    (hrun : openMaterializer engine (crashAt operation done) r₀ = .error .crash r) :
    (∃ m r', openMaterializer engine (fun _ => none) r = .ok m r' ∧ m.published.revision = 0 ∧
      m.order = []) ↔ Halfway operation done = false := by
  have hleft : LeftAt engine ∅ r₀ operation done r := leftAt_of_openMaterializer hempty hrun
  rw [LeftAt] at hleft
  constructor
  · rintro ⟨m, r', hopen, -, -⟩
    by_contra hhalfway
    rw [Bool.not_eq_false] at hhalfway
    rw [if_pos hhalfway] at hleft
    rw [hleft.openMaterializer_eq_error hcreated] at hopen
    cases hopen
  · intro hwhole
    rw [if_neg (by rw [hwhole]; exact nofun)] at hleft
    have hopen : ∃ m r', openMaterializer engine (fun _ => none) r = .ok m r' ∧
        Reopened (starting engine ∅ r₀) (genesisRef engine r₀) m := by
      rcases hleft with rfl | hdurable
      · exact hempty.openMaterializer_eq_ok hboots
      · obtain ⟨m, r', hopen, _, hm⟩ := hdurable.openMaterializer_eq_ok
        exact ⟨m, r', hopen, hm⟩
    obtain ⟨m, r', hopen, hm⟩ := hopen
    refine ⟨m, r', hopen, by rw [hm.published]; rfl, ?_⟩
    rw [hm.order, hm.log]
    rfl

/-- A repository with nothing but its first branch is empty. -/
theorem empty_of_main {snapshot : Snapshot Db}
    (hfresh : engine.isFreshRepository snapshot.content) :
    Empty engine ⟨.ofList [(.other "main", ⟨0, snapshot⟩)], .other "main", snapshot, 1⟩ := by
  refine ⟨hfresh, fun name hhas => ?_, ⟨"main", rfl⟩, fun name commit hget => ?_⟩
  · obtain ⟨commit, hget⟩ := has_iff.1 hhas
    exact ⟨"main", (Prod.mk.inj (List.mem_singleton.1 (mem_of_get?_ofList hget))).1⟩
  · rw [(Prod.mk.inj (List.mem_singleton.1 (mem_of_get?_ofList hget))).2]
    exact Nat.zero_lt_one

end Interruption

namespace SchemaOnly

/-- An engine that knows of a database only whether its schema was created. -/
def engine : Engine Bool where
  parse := AcceptAll.parse
  sha256 := id
  runProgram snapshot _ := .ok (snapshot.content, ⟨.accepted, none, {}⟩)
  verifyLogRow _ := .ok ()
  verifyDatabaseState created := if created then .ok () else .error "EXECUTION_MANIFEST_MISSING"
  doltHashOf snapshot := (orderOf snapshot.log).flatten
  schemaNames created := if created then ["chronolog_transactions"] else []
  bootstrap _ := true

/-- A repository without a published revision. -/
def fresh : Repository Bool where
  branches := .ofList [(.other "main", ⟨0, ⟨false, []⟩⟩)]
  active := .other "main"
  working := ⟨false, []⟩
  nextHash := 1

theorem empty_fresh : Empty engine fresh := empty_of_main rfl

/-- What is left if the process ends after an operation of the first `open`. -/
def leftAfter (operation : OpeningOperation) : Repository Bool :=
  finalState (openMaterializer engine (crashAt operation true) fresh)

/-- The process ends after the transaction that creates the schema. From then on, `open` throws. -/
theorem openMaterializer_refused :
    openMaterializer engine (crashAt .bootstrap true) fresh = .error .crash (leftAfter .bootstrap) ∧
    openMaterializer engine (fun _ => none) (leftAfter .bootstrap) =
      .error (.thrown (.error .reservedHeadMissing)) (leftAfter .bootstrap) :=
  ⟨eq_error_of_failed (by decide +kernel), eq_error_of_failed (by decide +kernel)⟩

/-- If it ends after the head was created, then the repository is opened. -/
theorem openMaterializer_after_publishHead :
    ∃ m r', openMaterializer engine (fun _ => none) (leftAfter .publishHead) = .ok m r' ∧
      m.published.revision = 0 ∧ m.order = [] :=
  (openMaterializer_of_interrupted_iff empty_fresh rfl rfl
    (eq_error_of_failed rfl : openMaterializer engine (crashAt .publishHead true)
      fresh = .error .crash (leftAfter .publishHead))).2 rfl

end SchemaOnly

end Chronolog.Materializer
