import Chronolog.Protocol.TransactionCodec

/-!
# Transactions are decoded as they were encoded

The transaction that an author has encoded is read back from its bytes by the other nodes, if
each of its logical values is (`Ir.Recoverable`), its inline results are canonical, and its
encoding is within the limits of the decoder (`Transferable`). The encoder knows no such limits:
a program that it accepts may be nested too deeply for the decoder.
-/

namespace Chronolog

/-- The logical values of a statement are read back. -/
def SqlStatement.Recoverable (statement : SqlStatement) : Prop :=
  ∀ binding ∈ statement.bindings, ∀ value, binding.value = .logical value → Ir.Recoverable value

/-- A result is canonical, and its logical values are read back. -/
structure CanonicalSqlResult.Recoverable (result : CanonicalSqlResult) : Prop where
  canonical : Protocol.canonicalizeSqlResult result = .ok result
  keys : ∀ row ∈ result.rows, ∃ key, Protocol.rowKey row = .ok key
  logical : ∀ row ∈ result.rows, ∀ value, .logical value ∈ row → Ir.Recoverable value

/-- The statements and the results of a program are read back. -/
structure SqlTransactionProgram.Recoverable (program : SqlTransactionProgram) : Prop where
  query : ∀ precondition ∈ program.preconditions, precondition.query.Recoverable
  expectation : ∀ precondition ∈ program.preconditions, ∀ result,
    precondition.expectation = .inline result → result.Recoverable
  body : ∀ statement ∈ program.body, statement.Recoverable

namespace Protocol

open Canonical Ir Procedure

variable {α : Type} {name : String}

/-- What is written for a value is read as the value. -/
def ReadsBack (read : CborValue → String → Codec α) (write : α → Codec CborValue) (a : α) : Prop :=
  ∀ item name, write a = .ok item → read item name = .ok a

theorem readItems_of_writeItems {read : CborValue → String → Codec α}
    {write : α → Codec CborValue} {values : List α} {written : List CborValue}
    (h : ∀ value ∈ values, ReadsBack read write value)
    (hwrite : writeItems write values = .ok written) (name : String) (index : ℕ) :
    readItems read name index written = .ok values := by
  induction values generalizing written index with
  | nil =>
    cases hwrite
    rfl
  | cons value values ih =>
    simp only [writeItems, bind_eq_ok_iff, pure_eq_ok_iff] at hwrite
    obtain ⟨item, hitem, items, hitems, rfl⟩ := hwrite
    obtain ⟨hvalue, hvalues⟩ := List.forall_mem_cons.1 h
    simp [readItems, hvalue _ _ hitem, ih hvalues hitems]

@[simp]
theorem liftM_ok (a : α) : (liftM (.ok a : Except ProtocolError α) : Codec α) = .ok a := rfl

theorem one_le_maxUint64 : 1 ≤ maxUint64 := by decide

theorem le_maxUint64 {n : ℕ} (h : n ≤ maxSafeInteger) : n ≤ maxUint64 := h.trans (by decide)

/-! ## Statements -/

theorem readsBack_parameter {parameter : SqlParameter} {written : CborValue}
    (h : parameterToCbor parameter = .ok written) (name : String) :
    ∃ kind value, written = .array [.integer (kind : ℕ), value] ∧ kind ≤ maxUint64 ∧
      parameterOfKind kind value name = .ok parameter := by
  cases parameter with
  | index index =>
    simp [parameterToCbor] at h
    obtain ⟨⟨hpos, hle⟩, rfl⟩ := h
    exact ⟨0, _, rfl, by decide, by simp [parameterOfKind, hpos, hle, le_maxUint64 hle]⟩
  | name text =>
    simp [parameterToCbor] at h
    obtain ⟨htoken, rfl⟩ := h
    exact ⟨1, _, rfl, by decide, by simp [parameterOfKind, htoken]⟩

theorem readsBack_logicalValue {value : LogicalValue} (hvalue : Recoverable value) :
    ReadsBack (fun value _ => logicalValueFromCanonicalCbor value)
      logicalValueToCanonicalCbor value :=
  fun _ _ h => (logicalValueFromCanonicalCbor_eq_ok_iff h).2 hvalue

theorem readsBack_sqlBindingValue {value : SqlBindingValue}
    (hvalue : ∀ logical, value = .logical logical → Recoverable logical) :
    ReadsBack (fun value _ => sqlBindingValueFromCanonicalCbor value)
      sqlBindingValueToCanonicalCbor value := by
  intro item name h
  cases value with
  | real bits =>
    simp [sqlBindingValueToCanonicalCbor] at h
    obtain ⟨⟨hlength, hfinite⟩, rfl⟩ := h
    simp [sqlBindingValueFromCanonicalCbor, itemAt, hlength, hfinite]
  | logical logical =>
    have hread := readsBack_logicalValue (hvalue logical rfl) item name h
    simp [sqlBindingValueToCanonicalCbor, logicalValueToCanonicalCbor] at h
    obtain ⟨⟨_, hassert⟩, items, hitems, rfl⟩ := h
    obtain ⟨tag, hrange, htag, -⟩ := logicalValueOfTag_parts_iff hassert hitems
    have hne : tag ≠ 11 := by omega
    simp [sqlBindingValueFromCanonicalCbor, htag, CborValue.integer?, hne, hread]

theorem readsBack_logicalBinding {binding : SqlBinding}
    (hvalue : ∀ logical, binding.value = .logical logical → Recoverable logical) :
    ReadsBack logicalBindingFromCbor logicalBindingToCbor binding := by
  intro item name h
  simp [logicalBindingToCbor] at h
  obtain ⟨parameter, hparameter, value, hwritten, rfl⟩ := h
  obtain ⟨kind, inner, rfl, hkind, hread⟩ := readsBack_parameter hparameter name
  simp [logicalBindingFromCbor, itemAt, hkind, hread,
    readsBack_sqlBindingValue hvalue value name hwritten]

theorem readsBack_sqlStatement {statement : SqlStatement} (h : statement.Recoverable) :
    ReadsBack sqlStatementFromCanonicalCbor sqlStatementToCanonicalCbor statement := by
  intro item name hwrite
  simp [sqlStatementToCanonicalCbor] at hwrite
  obtain ⟨hne, hzero, ⟨bytes, hutf8⟩, items, hitems, rfl⟩ := hwrite
  have hread := readItems_of_writeItems (fun binding hbinding =>
    readsBack_logicalBinding (h binding hbinding)) hitems
  simp [sqlStatementFromCanonicalCbor, integerMap, required, OrdMap.lookup, hne, hzero, hutf8, hread,
    assertKnownIntegerKeys]

/-! ## Results -/

theorem collationOfText_collationText (collation : CollationId) :
    collationOfText (collationText collation) = some collation := by
  cases collation with
  | binary | nocase | rtrim | unicodeCodepoint => rfl
  | registered id =>
    have hdigits : ("registered:" ++ id.repr).toList.drop 11 = id.repr.toList := by
      rw [String.toList_append]
      rfl
    have hne (text : String) (h : text.toList.head? ≠ some 'r' ∨ text.toList[1]? ≠ some 'e') :
        (text == "registered:" ++ id.repr) = false := by
      rw [beq_eq_false_iff_ne]
      rintro rfl
      simp at h
    rw [collationOfText, collationText, hdigits, Nat.toList_repr,
      Nat.ofDigitChars_toDigits (by decide) le_rfl]
    simp [List.find?, collationText, hne]

theorem readsBack_logicalType (logicalType : LogicalType) :
    ReadsBack (fun value _ => logicalTypeFromCanonicalCbor value)
      logicalTypeToCanonicalCbor logicalType := by
  intro item name h
  simp [logicalTypeToCanonicalCbor] at h
  obtain ⟨⟨_, hassert⟩, items, hitems, rfl⟩ := h
  suffices ∃ tag : ℤ, (0 ≤ tag ∧ tag ≤ 25) ∧ itemAt items 0 = .integer tag ∧
      logicalTypeOfTag tag items = .ok logicalType by
    obtain ⟨tag, hrange, htag, hread⟩ := this
    have hsafe : (25 : ℤ) ≤ maxSafeInteger := by decide
    simp [logicalTypeFromCanonicalCbor, htag, hread, hassert]
    omega
  cases logicalType with
  | boolean | int64 | uuid | timestampMs | durationMs | json =>
    cases hitems
    exact ⟨_, by decide, rfl, rfl⟩
  | decimal precision scale =>
    simp [logicalTypeParts] at hitems
    obtain ⟨hprecision, hscale, rfl⟩ := hitems
    exact ⟨_, by decide, rfl, by simp [logicalTypeOfTag, itemAt, TypeTag.boolean, hprecision, hscale]⟩
  | text collation =>
    cases hitems
    refine ⟨_, by decide, rfl, ?_⟩
    simp [logicalTypeOfTag, itemAt, textCollation, collationOfText_collationText]
  | blob maxBytes =>
    cases maxBytes with
    | none =>
      cases hitems
      exact ⟨_, by decide, rfl, rfl⟩
    | some maxBytes =>
      simp [logicalTypeParts] at hitems
      obtain ⟨hle, rfl⟩ := hitems
      exact ⟨_, by decide, rfl, by simp [logicalTypeOfTag, blobLimit, itemAt, hle]⟩
  | vector element dimensions =>
    simp [logicalTypeParts] at hitems
    obtain ⟨hle, rfl⟩ := hitems
    exact ⟨_, by decide, rfl, by simp [logicalTypeOfTag, itemAt, hle]⟩

theorem readsBack_columnType (type : CanonicalSqlColumnType) :
    ReadsBack columnTypeFromCbor columnTypeToCbor type := by
  intro item name h
  cases type with
  | dynamic =>
    cases h
    rfl
  | storage storage =>
    cases h
    cases storage <;> rfl
  | logical logicalType =>
    simp [columnTypeToCbor] at h
    obtain ⟨value, hvalue, rfl⟩ := h
    simp [columnTypeFromCbor, itemAt, readsBack_logicalType logicalType value name hvalue]
    exact ⟨2, ⟨rfl, by decide⟩, rfl⟩
  | registered typeId digest =>
    simp [columnTypeToCbor] at h
    obtain ⟨hle, hlength, rfl⟩ := h
    simp [columnTypeFromCbor, itemAt]
    exact ⟨3, ⟨rfl, by decide⟩, by simp [hle, le_maxUint64 hle, hlength]⟩

theorem readsBack_column (column : CanonicalSqlColumn) :
    ReadsBack columnFromCbor columnToCbor column := by
  intro item name h
  obtain ⟨nameUtf8, type, nullable⟩ := column
  simp [columnToCbor, decodeText] at h
  obtain ⟨text, htext, ⟨_, _⟩, written, hwritten, rfl⟩ := h
  simp [columnFromCbor, itemAt, htext, readsBack_columnType type written _ hwritten]
  rcases nullable with _ | _ | _ <;> decide

/-- A value is read by its kind. -/
theorem canonicalSqlValueFromCbor_tuple {tuple : List CborValue} {value : CanonicalSqlValue}
    (kind : ℕ) (hkind : kind ≤ maxUint64) (hlength : tuple.length < 4)
    (h : sqlValueOfKind kind (.integer kind :: tuple) name = .ok value) :
    canonicalSqlValueFromCbor (.array (.integer kind :: tuple)) name = .ok value := by
  simp [canonicalSqlValueFromCbor, itemAt, hkind, hlength, h]

theorem readsBack_canonicalSqlValue {value : CanonicalSqlValue}
    (hvalue : ∀ logical, value = .logical logical → Recoverable logical) :
    ReadsBack canonicalSqlValueFromCbor canonicalSqlValueToCbor value := by
  intro item name h
  cases value with
  | null | blob bytes =>
    cases h
    rfl
  | integer integer =>
    simp [canonicalSqlValueToCbor] at h
    obtain ⟨hrange, rfl⟩ := h
    refine canonicalSqlValueFromCbor_tuple 1 (by decide) (by simp) ?_
    simp [sqlValueOfKind, itemAt, hrange]
  | real bits =>
    simp [canonicalSqlValueToCbor] at h
    obtain ⟨⟨hlength, hfinite⟩, rfl⟩ := h
    refine canonicalSqlValueFromCbor_tuple 2 (by decide) (by simp) ?_
    simp [sqlValueOfKind, itemAt, hlength, hfinite]
  | text bytes =>
    simp [canonicalSqlValueToCbor] at h
    obtain ⟨htext, rfl⟩ := h
    refine canonicalSqlValueFromCbor_tuple 3 (by decide) (by simp) ?_
    simp [sqlValueOfKind, itemAt, htext]
  | logical logical =>
    simp [canonicalSqlValueToCbor] at h
    obtain ⟨written, hwritten, rfl⟩ := h
    refine canonicalSqlValueFromCbor_tuple 5 (by decide) (by simp) ?_
    simp [sqlValueOfKind, itemAt,
      readsBack_logicalValue (hvalue logical rfl) written name hwritten]
  | registered typeId digest payload =>
    simp [canonicalSqlValueToCbor] at h
    obtain ⟨hle, hlength, rfl⟩ := h
    refine canonicalSqlValueFromCbor_tuple 6 (by decide) (by simp) ?_
    simp [sqlValueOfKind, itemAt, hle, le_maxUint64 hle, hlength]

theorem readsBack_row {row : List CanonicalSqlValue}
    (hrow : ∀ value, .logical value ∈ row → Recoverable value) :
    ReadsBack rowFromCbor rowToCbor row := by
  intro item name h
  simp [rowToCbor] at h
  obtain ⟨items, hitems, rfl⟩ := h
  simp [rowFromCbor, readItems_of_writeItems (fun value hvalue => readsBack_canonicalSqlValue
    fun logical heq => hrow logical (heq ▸ hvalue)) hitems]

theorem assertSorted_self {rows : List (List CanonicalSqlValue)}
    (h : ∀ row ∈ rows, ∃ key, rowKey row = .ok key) : assertSorted rows rows = .ok () := by
  induction rows with
  | nil => rfl
  | cons row rows ih =>
    obtain ⟨⟨key, hkey⟩, hrest⟩ := List.forall_mem_cons.1 h
    simp [assertSorted, compareRows, hkey, ih hrest]

/-- Canonical results are read back if the encoder has accepted their rows. -/
theorem readsBack_canonicalSqlResult {result : CanonicalSqlResult} (h : result.Recoverable) :
    ReadsBack (fun value _ => canonicalSqlResultFromCbor value) canonicalSqlResultToCbor result := by
  intro item name hwrite
  simp [canonicalSqlResultToCbor, h.canonical] at hwrite
  obtain ⟨columns, hcolumns, rows, hrows, rfl⟩ := hwrite
  have hreadColumns := readItems_of_writeItems (fun column _ => readsBack_column column) hcolumns
  have hreadRows := readItems_of_writeItems (fun row hrow => readsBack_row (h.logical row hrow)) hrows
  have hmode : modeFromCbor (modeCode result.mode) "canonical_sql_result.mode" = .ok result.mode := by
    cases result.mode <;> rfl
  simp [canonicalSqlResultFromCbor, itemAt, hmode, hreadColumns, hreadRows, h.canonical,
    assertSorted_self h.keys]
  split_ifs <;> rfl

theorem readsBack_expectation {expectation : SqlExpectation} {written : CborValue}
    (hexpectation : ∀ result, expectation = .inline result → result.Recoverable)
    (h : expectationToCbor expectation = .ok written) (name : String) :
    ∃ tuple kind, written = .array tuple ∧ (1 ≤ tuple.length ∧ tuple.length ≤ 2) ∧
      itemAt tuple 0 = .integer (kind : ℕ) ∧ kind ≤ maxUint64 ∧
      expectationOfKind kind tuple name = .ok expectation := by
  cases expectation with
  | assertTrue =>
    cases h
    exact ⟨_, 0, rfl, by decide, rfl, by decide, rfl⟩
  | inline result =>
    simp [expectationToCbor] at h
    obtain ⟨value, hvalue, rfl⟩ := h
    have hread := readsBack_canonicalSqlResult (hexpectation result rfl) value name hvalue
    exact ⟨_, 1, rfl, by simp, rfl, by decide, by simp [expectationOfKind, itemAt, hread]⟩
  | digest digest =>
    simp [expectationToCbor] at h
    obtain ⟨hlength, rfl⟩ := h
    exact ⟨_, 2, rfl, by simp, rfl, by decide, by simp [expectationOfKind, itemAt, hlength]⟩

/-- The mode that the encoder accepted is accepted by the decoder. -/
theorem expectMode_of_assertExpectationMode {precondition : SqlPrecondition} {u : Unit}
    (h : assertExpectationMode precondition = .ok u) (name : String) :
    expectMode precondition.expectation precondition.resultMode name = .ok () := by
  unfold assertExpectationMode at h
  unfold expectMode
  cases hexpectation : precondition.expectation <;> simp [hexpectation] at h ⊢ <;> exact h

theorem readsBack_precondition {precondition : SqlPrecondition}
    (hquery : precondition.query.Recoverable)
    (hexpectation : ∀ result, precondition.expectation = .inline result → result.Recoverable) :
    ReadsBack preconditionFromCbor preconditionToCbor precondition := by
  intro item name hwrite
  obtain ⟨id, query, mode, expectation, label⟩ := precondition
  simp [preconditionToCbor] at hwrite
  obtain ⟨hid, ⟨_, hmode⟩, written, hwritten, writtenQuery, hwrittenQuery, rfl⟩ := hwrite
  obtain ⟨tuple, kind, rfl, hlength, hitem, hkind, hread⟩ :=
    readsBack_expectation hexpectation hwritten name
  have hreadMode (name) : modeFromCbor (modeCode mode) name = .ok mode := by
    cases mode <;> rfl
  have hreadQuery := readsBack_sqlStatement hquery writtenQuery s!"{name}.query" hwrittenQuery
  have hexpect := expectMode_of_assertExpectationMode hmode name
  cases label <;>
  simp [preconditionFromCbor, integerMap, required, optional, OrdMap.lookup, assertKnownIntegerKeys,
    hlength, hitem, hkind, hread, hreadMode, hreadQuery, hexpect, hid, le_maxUint64 hid, labelFromCbor]

theorem readsBack_sqlTransactionProgram {program : SqlTransactionProgram} (h : program.Recoverable) :
    ReadsBack (fun value _ => sqlTransactionProgramFromCanonicalCbor value)
      sqlTransactionProgramToCanonicalCbor program := by
  intro item name hwrite
  simp [sqlTransactionProgramToCanonicalCbor] at hwrite
  obtain ⟨⟨u, hvalid⟩, preconditions, hpreconditions, body, hbody, rfl⟩ := hwrite
  have hreadPreconditions := readItems_of_writeItems (fun precondition hmem =>
    readsBack_precondition (h.query precondition hmem) (h.expectation precondition hmem)) hpreconditions
  have hreadBody := readItems_of_writeItems (fun statement hmem =>
    readsBack_sqlStatement (h.body statement hmem)) hbody
  simp [sqlTransactionProgramFromCanonicalCbor, integerMap, required, OrdMap.lookup,
    assertKnownIntegerKeys, expectVersion, one_le_maxUint64, hreadPreconditions, hreadBody, hvalid]

/-! ## Transactions -/

/-- Metadata are read back. -/
theorem metadataFromCbor_metadataEntries (metadata : OrdMap String Bytes) :
    metadataFromCbor (.map (metadataEntries metadata)) = .ok metadata := by
  have hreads (entries : List (String × Bytes)) (result : OrdMap String Bytes) :
      ∃ result', (entries.map fun entry => (CborMapKey.text entry.1, CborValue.bytes entry.2)).foldlM
        readMetadataEntry result = .ok result' := by
    induction entries generalizing result with
    | nil => exact ⟨result, rfl⟩
    | cons entry entries ih => exact ih (result.set entry.1 entry.2)
  obtain ⟨result, hresult⟩ := hreads metadata.entries .empty
  have hnodup : ((metadataEntries .empty ++ metadataEntries metadata).map Prod.fst).Nodup := by
    have h := metadata.nodup_keys.map fun _ _ => CborMapKey.text.inj
    rw [List.map_map] at h
    simpa [metadataEntries, OrdMap.empty, Function.comp_def] using h
  have hentries : metadataEntries result = metadataEntries metadata :=
    metadataEntries_of_foldlM hresult hnodup
  have hinj : Function.Injective fun entry : String × Bytes =>
      (CborMapKey.text entry.1, CborValue.bytes entry.2) := by
    rintro ⟨key, value⟩ ⟨key', value'⟩ h
    cases h
    rfl
  exact hresult.trans (congrArg _ (OrdMap.ext (List.map_injective_iff.2 hinj hentries)))

/-- The logical values and the results of a transaction are read back, its encoding is within the
    limits of the decoder, and the keys of its maps are in the order in which they are written.
    (Maps in another order have the same bytes.) -/
structure Transferable (core : TransactionCore) (bytes : Bytes) : Prop where
  program : core.program.Recoverable
  size : bytes.length ≤ defaultDecodeLimits.maxBytes
  written : ∀ written, transactionToCbor core = .ok written →
    Canonical.Fits defaultDecodeLimits (defaultDecodeLimits.maxDepth + 1) written ∧
      InOrder (defaultDecodeLimits.maxDepth + 1) written

/-- A transaction is decoded from its bytes. -/
theorem decodeTransactionCore_of_encode {core : TransactionCore} {bytes : Bytes}
    (hencode : encodeTransactionCore core = .ok bytes) (h : Transferable core bytes) :
    decodeTransactionCore bytes = .ok core := by
  obtain ⟨written, hwritten, hbytes⟩ := bind_eq_ok_iff.1 hencode
  obtain ⟨hfits, hordered⟩ := h.written written hwritten
  obtain ⟨read, hread, -, heq⟩ :=
    exists_assertCanonicalCbor (mapError_eq_ok_iff.1 hbytes) h.size hfits
  obtain rfl := heq hordered
  have hassert : assertCanonicalCbor bytes = .ok read := by
    rw [assertCanonicalCbor, hread]
    rfl
  clear hencode hbytes heq hread hfits hordered
  obtain ⟨groupId, membershipRevision, validationPolicy, authorId, timestamp, nonce, manifest, program,
    metadata⟩ := core
  simp [transactionToCbor, assertIdentifier] at hwritten
  obtain ⟨hgroup, hmembership, hpolicy, hauthor, ⟨hnonneg, hle⟩, hnonce, hmanifest, ⟨_, hvalid⟩,
    writtenProgram, hprogram, rfl⟩ := hwritten
  lift timestamp to ℕ using hnonneg
  have htimestamp : timestamp ≤ maxTimestampMs := by exact_mod_cast hle
  have huint : timestamp ≤ maxUint64 := htimestamp.trans (by decide)
  have hreadProgram := readsBack_sqlTransactionProgram h.program writtenProgram "" hprogram
  clear h
  cases metadata <;>
  simp [decodeTransactionCore, integerMap, transactionFields, metadataToCbor, required,
    optional, OrdMap.lookup, assertKnownIntegerKeys, expectVersion, one_le_maxUint64,
    requiredIdentifier, optionalMetadata, metadataFromCbor_metadataEntries, *]

/-- A transaction that inserts a JSON value if a query has the expected result. -/
def inserts (json : CanonicalJsonValue) : TransactionCore :=
  { exampleTransaction with
    program := {
      preconditions := [⟨0, ⟨"SELECT 1", []⟩, .scalar,
        .inline ⟨.scalar, [⟨[49], .dynamic, none⟩], [[.integer 1]]⟩, none⟩]
      body := [⟨"INSERT INTO t VALUES (?)", [⟨.index 1, .logical (.json json)⟩]⟩] }
    metadata := none }

theorem transferable_inserts {bytes : Bytes} (hsize : bytes.length ≤ 16777216) :
    Transferable (inserts (.array [.decimal 25 1])) bytes where
  program := by
    refine ⟨by simp [inserts, SqlStatement.Recoverable], ?_, ?_⟩
    · simp only [inserts, List.forall_mem_singleton]
      rintro _ ⟨⟩
      exact ⟨rfl, by simpa using ⟨_, rfl⟩, by simp⟩
    · simp [inserts, SqlStatement.Recoverable, Ir.Recoverable]
      rfl
  size := hsize
  written written h := by
    obtain rfl := Except.ok.inj (h.symm.trans rfl)
    simp [Canonical.Fits, Respects, HasRoom, InOrder, integerMap, transactionFields, inserts, metadataToCbor,
      exampleTransaction, defaultDecodeLimits, CborMapKey.toValue, modeCode]
    and_intros <;> decide +kernel

/-- A JSON value in so many arrays. -/
def nested : ℕ → CanonicalJsonValue
  | 0 => .null
  | depth + 1 => .array [nested depth]

/-- The decoder refuses what the encoder returns for a value that is nested too deeply. -/
theorem decodeTransactionCore_nested :
    ∃ bytes, encodeTransactionCore (inserts (nested 58)) = .ok bytes ∧ decodeTransactionCore bytes =
        .error (.protocol ⟨.cborLimitExceeded, "CBOR nesting exceeds limit"⟩) := by
  have hsome : (encodeTransactionCore (inserts (nested 58))).toOption.any fun bytes =>
      match decodeTransactionCore bytes with
      | .error error => error = .protocol ⟨.cborLimitExceeded, "CBOR nesting exceeds limit"⟩
      | .ok _ => false := by decide +kernel
  obtain ⟨bytes, hbytes, hdecode⟩ := (Option.any_eq_true _ _).1 hsome
  refine ⟨bytes, toOption_eq_some_iff.1 hbytes, ?_⟩
  cases h : decodeTransactionCore bytes with
  | ok core => simp [h] at hdecode
  | error error =>
    rw [h] at hdecode
    rw [of_decide_eq_true hdecode]

end Protocol

end Chronolog
