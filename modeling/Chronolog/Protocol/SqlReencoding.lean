import Chronolog.Ir.RoundTrip
import Chronolog.Protocol.SqlCodec

/-!
# SQL programs are encoded as they were

A program that is read from a value and written again has the encoding that the value has. Each
codec of the program has this property (`Inverse`). Only the maps of fields and the rows of
results whose order does not matter may be written in another form than they were read.
-/

namespace Chronolog.Protocol

open Canonical Procedure List

/-! ## Checks return what they check -/

section Checks

variable {n m : ℕ} {bytes bytes' : Bytes} {name : String}

@[simp]
theorem safeIndex_eq_ok_iff : safeIndex n name = .ok m ↔ n ≤ maxSafeInteger ∧ n = m := by
  simp [safeIndex]

@[simp]
theorem positiveIndex_eq_ok_iff :
    positiveIndex n name = .ok m ↔ (1 ≤ n ∧ n ≤ maxSafeInteger) ∧ n = m := by
  simp [positiveIndex]

@[simp]
theorem requireDigest_eq_ok_iff :
    requireDigest bytes name = .ok bytes' ↔ bytes.length = 32 ∧ bytes = bytes' := by
  simp [requireDigest]

@[simp]
theorem finiteRealBits_eq_ok_iff : finiteRealBits bytes name = .ok bytes' ↔
    bytes.length = 8 ∧ isFiniteBinary64 bytes ∧ bytes = bytes' := by
  simp [finiteRealBits]

end Checks

variable {name : String}

theorem eq_modeCode_of_modeFromCbor {value : CborValue} {mode : SqlResultMode}
    (h : modeFromCbor value name = .ok mode) : value = modeCode mode := by
  simp only [modeFromCbor, bind_eq_ok_iff, expectUint64_eq_ok_iff, expected_eq_ok_iff] at h
  obtain ⟨n, ⟨rfl, _⟩, h⟩ := h
  obtain ⟨hlt, rfl⟩ := List.getElem?_eq_some_iff.1 h
  rw [modeCode, List.Nodup.idxOf_getElem (by decide)]

/-- What is read is written in the same form. -/
def Exact {α : Type} (read : CborValue → String → Codec α) (write : α → Codec CborValue) : Prop :=
  ∀ value name a written, read value name = .ok a → write a = .ok written → written = value

theorem Exact.inverse {α : Type} {read : CborValue → String → Codec α}
    {write : α → Codec CborValue} (h : Exact read write) : Inverse read write := by
  intro value name a written hread hwrite
  rw [h value name a written hread hwrite]
  exact .refl value

/-! ## Bindings and statements -/

theorem exact_sqlBindingValue : Exact (fun value _ => sqlBindingValueFromCanonicalCbor value)
      sqlBindingValueToCanonicalCbor := by
  intro value name binding written hread hwrite
  simp only [sqlBindingValueFromCanonicalCbor, bind_eq_ok_iff, expectArray_eq_ok_iff] at hread
  obtain ⟨tuple, rfl, hread⟩ := hread
  split_ifs at hread with h
  · simp at h hread
    obtain ⟨bits, ⟨hitem, _⟩, _, rfl⟩ := hread
    simp [sqlBindingValueToCanonicalCbor] at hwrite
    rw [← hwrite.2, eq_pair_of_length h.1, h.2, hitem]
  · simp at hread
    obtain ⟨logical, hlogical, rfl⟩ := hread
    have hback := Ir.logicalValueToCanonicalCbor_of_fromCanonicalCbor hlogical
    exact Except.ok.inj (hwrite.symm.trans hback)

variable {kind : ℕ}

/-- A parameter is written with the kind and the name with which it was read. -/
theorem eq_of_parameterOfKind {value written : CborValue} {parameter : SqlParameter}
    (hread : parameterOfKind kind value name = .ok parameter)
    (hwrite : parameterToCbor parameter = .ok written) :
    written = .array [.integer kind, value] := by
  rw [parameterOfKind] at hread
  split_ifs at hread with h h <;> simp at hread
  · obtain ⟨index, ⟨rfl, _⟩, _, rfl⟩ := hread
    simp [parameterToCbor] at hwrite
    rw [← hwrite.2, h]
    rfl
  · obtain ⟨text, rfl, _, rfl⟩ := hread
    simp [parameterToCbor] at hwrite
    rw [← hwrite.2, h]
    rfl

theorem exact_logicalBinding : Exact logicalBindingFromCbor logicalBindingToCbor := by
  intro value name binding written hread hwrite
  simp [logicalBindingFromCbor, logicalBindingToCbor] at hread hwrite
  obtain ⟨tuple, rfl, hlength, items, hitems, hlength', kind, ⟨hkind, _⟩, parameter, hparameter,
    bound, hbound, rfl⟩ := hread
  obtain ⟨writtenParameter, hwrittenParameter, writtenValue, hwrittenValue, rfl⟩ := hwrite
  rw [eq_of_parameterOfKind hparameter hwrittenParameter,
    exact_sqlBindingValue _ name _ _ hbound hwrittenValue, eq_pair_of_length hlength, ← hkind,
    ← eq_pair_of_length hlength', ← hitems]
  rfl

/-- A field that has to be there, and is written with the encoding that it had. -/
theorem rel_of_required {map : IntegerMap} {key : ℕ} {read written : CborValue}
    (h : required map key name = .ok read) (hreencodes : Reencodes read written) :
    Option.Rel Reencodes (optional map key) (some written) := by
  have hread : optional map key = some read := expected_eq_ok_iff.1 h
  rw [hread]
  exact .some hreencodes

theorem inverse_sqlStatement :
    Inverse sqlStatementFromCanonicalCbor sqlStatementToCanonicalCbor := by
  intro value name statement written hread hwrite
  simp [sqlStatementFromCanonicalCbor, sqlStatementToCanonicalCbor] at hread hwrite
  obtain ⟨map, rfl, ⟨_, hknown⟩, sql, hsql, _, _, items, hitems, bindings, hbindings, rfl⟩ := hread
  obtain ⟨_, _, _, writtenItems, hwrittenItems, rfl⟩ := hwrite
  refine reencodes_integerMap hknown (show [0, 1].Nodup by decide) (forall_mem_cons.2
    ⟨rel_of_required hsql (.refl _), forall_mem_cons.2 ⟨?_, forall_mem_nil _⟩⟩)
  exact rel_of_required hitems
    (exact_logicalBinding.inverse.reencodes_items hbindings hwrittenItems)

/-! ## Columns and values of results -/

theorem exact_columnType : Exact columnTypeFromCbor columnTypeToCbor := by
  intro value name type written hread hwrite
  simp only [columnTypeFromCbor, bind_eq_ok_iff, expectArray_eq_ok_iff, expectUint64_eq_ok_iff]
    at hread
  obtain ⟨tuple, rfl, _, _, kind, ⟨hkind, _⟩, hread⟩ := hread
  split_ifs at hread with h h h h <;> simp at hread <;> obtain ⟨rfl, hlength⟩ := h
  · obtain ⟨item, rfl⟩ := List.length_eq_one_iff.1 hlength
    simp [← hread, columnTypeToCbor] at hwrite
    rw [← hwrite, show item = _ from hkind]
    rfl
  · obtain ⟨index, ⟨hitem, _⟩, storage, hget, rfl⟩ := hread
    obtain ⟨hlt, rfl⟩ := List.getElem?_eq_some_iff.1 hget
    simp [columnTypeToCbor] at hwrite
    rw [← hwrite, eq_pair_of_length hlength, hkind, hitem, List.Nodup.idxOf_getElem (by decide)]
    rfl
  · obtain ⟨logicalType, hitem, rfl⟩ := hread
    rw [columnTypeToCbor, Ir.logicalTypeToCanonicalCbor_of_fromCanonicalCbor hitem] at hwrite
    rw [← Except.ok.inj hwrite, eq_pair_of_length hlength, hkind]
    rfl
  · obtain ⟨typeId, ⟨htypeId, _⟩, _, digest, ⟨hdigest, _⟩, rfl⟩ := hread
    simp [columnTypeToCbor] at hwrite
    rw [← hwrite.2.2, eq_triple_of_length hlength, hkind, htypeId, hdigest]
    rfl

theorem exact_column : Exact columnFromCbor columnToCbor := by
  intro value name column written hread hwrite
  simp [columnFromCbor, columnToCbor] at hread hwrite
  obtain ⟨tuple, rfl, hlength, nullable, ⟨hnullable, _⟩, hle, nameUtf8, hname, _, type, htype,
    rfl⟩ := hread
  obtain ⟨_, _, _, writtenType, hwrittenType, rfl⟩ := hwrite
  have hcode : nullableCode (if nullable = 0 then some false else if nullable = 1 then some true
      else none) = nullable := by
    interval_cases nullable <;> rfl
  rw [exact_columnType _ _ _ _ htype hwrittenType, hcode, ← hnullable, ← hname,
    ← eq_triple_of_length hlength]

variable {tuple : List CborValue} {written : CborValue}

/-- A value is written with the kind and the items with which it was read. -/
theorem eq_of_sqlValueOfKind {sqlValue : CanonicalSqlValue} (hkind : itemAt tuple 0 = .integer kind)
    (hread : sqlValueOfKind kind tuple name = .ok sqlValue)
    (hwrite : canonicalSqlValueToCbor sqlValue = .ok written) : written = .array tuple := by
  rw [sqlValueOfKind] at hread
  split_ifs at hread with h h h h h h h <;> simp at hread <;> obtain ⟨rfl, hlength⟩ := h
  · obtain ⟨item, rfl⟩ := length_eq_one_iff.1 hlength
    simp [← hread, canonicalSqlValueToCbor] at hwrite
    rw [← hwrite, show item = _ from hkind]
    rfl
  · obtain ⟨integer, hitem, _, rfl⟩ := hread
    simp [canonicalSqlValueToCbor] at hwrite
    rw [← hwrite.2, eq_pair_of_length hlength, hkind, hitem]
    rfl
  · obtain ⟨bits, ⟨hitem, _⟩, _, rfl⟩ := hread
    simp [canonicalSqlValueToCbor] at hwrite
    rw [← hwrite.2, eq_pair_of_length hlength, hkind, hitem]
    rfl
  · obtain ⟨text, hitem, _, rfl⟩ := hread
    simp [canonicalSqlValueToCbor] at hwrite
    rw [← hwrite.2, eq_pair_of_length hlength, hkind, hitem]
    rfl
  · obtain ⟨blob, hitem, rfl⟩ := hread
    simp [canonicalSqlValueToCbor] at hwrite
    rw [← hwrite, eq_pair_of_length hlength, hkind, hitem]
    rfl
  · obtain ⟨logical, hitem, rfl⟩ := hread
    rw [canonicalSqlValueToCbor, Ir.logicalValueToCanonicalCbor_of_fromCanonicalCbor hitem] at hwrite
    rw [← Except.ok.inj hwrite, eq_pair_of_length hlength, hkind]
    rfl
  · obtain ⟨typeId, ⟨htypeId, _⟩, _, digest, ⟨hdigest, _⟩, payload, hpayload, rfl⟩ := hread
    simp [canonicalSqlValueToCbor] at hwrite
    rw [← hwrite.2.2, eq_quadruple_of_length hlength, hkind, htypeId, hdigest, hpayload]
    rfl

theorem exact_canonicalSqlValue : Exact canonicalSqlValueFromCbor canonicalSqlValueToCbor := by
  intro value name sqlValue written hread hwrite
  simp [canonicalSqlValueFromCbor] at hread
  obtain ⟨tuple, rfl, _, kind, ⟨hkind, _⟩, hread⟩ := hread
  exact eq_of_sqlValueOfKind hkind hread hwrite

/-- Items that are written in the form in which they were read. -/
theorem Exact.eq_items {α : Type} {read : CborValue → String → Codec α}
    {write : α → Codec CborValue} (hexact : Exact read write) {index : ℕ}
    {items written : List CborValue} {values : List α}
    (hread : readItems read name index items = .ok values)
    (hwrite : writeItems write values = .ok written) : written = items := by
  have hread := forall₂_of_readItems hread
  have hwrite := writeItems_eq_ok_iff.1 hwrite
  clear * - hexact hread hwrite
  induction hread generalizing written with
  | nil =>
    cases hwrite
    rfl
  | cons hitem _ ih =>
    obtain ⟨name, hitem⟩ := hitem
    cases hwrite with
    | cons hvalue hwrite => rw [hexact _ _ _ _ hitem hvalue, ih hwrite]

theorem exact_row : Exact rowFromCbor rowToCbor := by
  intro value name row written hread hwrite
  simp [rowFromCbor, rowToCbor] at hread hwrite
  obtain ⟨items, rfl, hread⟩ := hread
  obtain ⟨writtenItems, hwrittenItems, rfl⟩ := hwrite
  rw [exact_canonicalSqlValue.eq_items hread hwrittenItems]

/-! ## The rows of canonical results -/

section Rows

variable {rows sorted canonical : List (List CanonicalSqlValue)}

/-- The rows of a list with their encodings. -/
theorem keyedRows_eq_ok_iff {keyed : List (Bytes × List CanonicalSqlValue)} :
    keyedRows rows = .ok keyed ↔
      keyed.map Prod.snd = rows ∧ ∀ entry ∈ keyed, rowKey entry.2 = .ok entry.1 := by
  induction rows generalizing keyed with
  | nil =>
    rw [keyedRows, pure_eq_ok_iff, map_eq_nil_iff]
    exact ⟨fun h => ⟨h.symm, h ▸ forall_mem_nil _⟩, fun h => h.1.symm⟩
  | cons row rows ih =>
    simp only [keyedRows, bind_eq_ok_iff, pure_eq_ok_iff, ih]
    constructor
    · rintro ⟨key, hkey, rest, ⟨hrows, hkeys⟩, rfl⟩
      exact ⟨congrArg _ hrows, forall_mem_cons.2 ⟨hkey, hkeys⟩⟩
    · rintro ⟨hrows, hkeys⟩
      obtain ⟨entry, rest, rfl, rfl, hrest⟩ := map_eq_cons_iff.1 hrows
      obtain ⟨hkey, hkeys⟩ := forall_mem_cons.1 hkeys
      exact ⟨_, hkey, _, ⟨hrest, hkeys⟩, rfl⟩

/-- The order of the rows by their encodings. -/
instance : Std.Total fun a b : Bytes × List CanonicalSqlValue => BytesLe a.1 b.1 where
  total a b := Std.Total.total (r := BytesLe) a.1 b.1

instance : IsTrans (Bytes × List CanonicalSqlValue) fun a b => BytesLe a.1 b.1 where
  trans a b c := IsTrans.trans (r := BytesLe) a.1 b.1 c.1

theorem length_of_sortRows (h : sortRows rows = .ok sorted) : sorted.length = rows.length := by
  rw [sortRows] at h
  split_ifs at h <;> simp at h
  · rw [h]
  · obtain ⟨keyed, hkeyed, rfl⟩ := h
    rw [length_map, length_insertionSort, ← (keyedRows_eq_ok_iff.1 hkeyed).1,
      length_map]

/-- Sorted rows are not moved. -/
theorem sortRows_of_sortRows (h : sortRows rows = .ok sorted) : sortRows sorted = .ok sorted := by
  have hlength := length_of_sortRows h
  rcases ite_eq_ok h with ⟨hshort, _⟩ | ⟨hlong, h⟩
  · exact if_pos (hlength.trans_le hshort)
  · obtain ⟨keyed, hkeyed, h⟩ := bind_eq_ok_iff.1 h
    cases h
    obtain ⟨_, hkeys⟩ := keyedRows_eq_ok_iff.1 hkeyed
    refine (if_neg fun hshort => hlong (hlength.symm.trans_le hshort)).trans ?_
    refine bind_eq_ok_iff.2 ⟨_, keyedRows_eq_ok_iff.2 ⟨rfl, fun entry hentry => ?_⟩, ?_⟩
    · exact hkeys entry ((mem_insertionSort _).1 hentry)
    · rw [(pairwise_insertionSort _ keyed).insertionSort_eq]
      rfl

theorem length_le_of_dropRepeated (h : dropRepeated rows = .ok canonical) :
    canonical.length ≤ rows.length := by
  induction rows generalizing canonical with
  | nil =>
    cases h
    exact le_rfl
  | cons first rows ih =>
    cases rows with
    | nil =>
      cases h
      exact le_rfl
    | cons second rows =>
      simp only [dropRepeated, bind_eq_ok_iff, pure_eq_ok_iff] at h
      obtain ⟨order, _, rest, hrest, rfl⟩ := h
      have hle := ih hrest
      split_ifs
      · simp only [length_cons, length_tail] at hle ⊢
        omega
      · exact Nat.succ_le_succ hle

/-- If no row is dropped, then the rows stay as they are. -/
theorem eq_of_dropRepeated (h : dropRepeated rows = .ok canonical)
    (hlength : canonical.length = rows.length) : canonical = rows := by
  induction rows generalizing canonical with
  | nil => exact length_eq_zero_iff.1 hlength
  | cons first rows ih =>
    cases rows with
    | nil => exact (Except.ok.inj h).symm
    | cons second rows =>
      simp only [dropRepeated, bind_eq_ok_iff, pure_eq_ok_iff] at h
      obtain ⟨order, _, rest, hrest, rfl⟩ := h
      have hle := length_le_of_dropRepeated hrest
      split_ifs at hlength ⊢
      · simp only [length_cons, length_tail] at hle hlength
        omega
      · rw [ih hrest (Nat.succ.inj hlength)]

/-- Rows that were made canonical without dropping one are canonical. -/
theorem normalizeRows_of_normalizeRows {mode : SqlResultMode}
    (h : normalizeRows mode rows = .ok canonical)
    (hlength : mode = .multiset ∨ mode = .set → rows.length = canonical.length) :
    normalizeRows mode canonical = .ok canonical := by
  cases mode with
  | scalar => rfl
  | ordered => rfl
  | multiset => exact sortRows_of_sortRows h
  | set =>
    obtain ⟨sorted, hsorted, h⟩ := bind_eq_ok_iff.1 h
    have hsame := (hlength (.inr rfl)).symm.trans (length_of_sortRows hsorted).symm
    obtain rfl := eq_of_dropRepeated h hsame
    exact bind_eq_ok_iff.2 ⟨_, sortRows_of_sortRows hsorted, h⟩

/-- Rows with the same encoding. -/
abbrev SameKey (row row' : List CanonicalSqlValue) : Prop :=
  ∃ key, rowKey row = .ok key ∧ rowKey row' = .ok key

/-- Rows that pass the check have the encodings of the canonical rows. -/
theorem forall₂_sameKey_of_assertSorted {u : Unit} (h : assertSorted rows canonical = .ok u)
    (hlength : rows.length = canonical.length) : Forall₂ SameKey rows canonical := by
  induction rows generalizing canonical with
  | nil =>
    obtain rfl := length_eq_zero_iff.1 hlength.symm
    exact .nil
  | cons row rows ih =>
    cases canonical with
    | nil => cases hlength
    | cons canonicalRow canonical =>
      simp [assertSorted, compareRows] at h
      obtain ⟨key, hkey, hkey', h⟩ := h
      exact .cons ⟨key, hkey, hkey'⟩ (ih h (Nat.succ.inj hlength))

/-- The canonical rows are written with the encodings of the rows that were read. -/
theorem reencodes_rows {name : String} {items written : List CborValue}
    (hread : readItems rowFromCbor name 0 items = .ok rows)
    (hsame : Forall₂ SameKey rows canonical)
    (hwrite : writeItems rowToCbor canonical = .ok written) :
    Reencodes (.array items) (.array written) := by
  refine reencodes_array ?_
  have hread := forall₂_of_readItems hread
  have hwrite := writeItems_eq_ok_iff.1 hwrite
  clear * - hread hsame hwrite
  induction hread generalizing canonical written with
  | nil =>
    cases hsame
    cases hwrite
    exact .nil
  | cons hitem _ ih =>
    obtain ⟨name, hitem⟩ := hitem
    cases hsame with
    | cons hkey hsame =>
      cases hwrite with
      | cons hrow hwrite =>
        refine .cons ?_ (ih hsame hwrite)
        obtain ⟨key, hkey, hkey'⟩ := hkey
        simp only [rowKey, bind_eq_ok_iff, lift_eq_ok_iff] at hkey hkey'
        obtain ⟨value, hvalue, hkey⟩ := hkey
        obtain ⟨value', hvalue', hkey'⟩ := hkey'
        -- Both rows are encoded as `key`, and the row that was read is encoded as its item.
        obtain rfl := exact_row _ _ _ _ hitem hvalue
        cases hrow.symm.trans hvalue'
        intro word hword
        cases hword.symm.trans hkey
        exact hkey'

end Rows

/-! ## Results -/

/-- What is left of a result that is made canonical are its mode and its columns. -/
theorem canonicalizeSqlResult_eq_ok {value canonical : CanonicalSqlResult}
    (h : canonicalizeSqlResult value = .ok canonical) :
    ∃ rows, normalizeRows value.mode value.rows = .ok rows ∧
      canonical = { value with rows := rows } := by
  simp only [canonicalizeSqlResult, bind_eq_ok_iff, pure_eq_ok_iff] at h
  obtain ⟨_, _, _, _, rows, hrows, rfl⟩ := h
  exact ⟨rows, hrows, rfl⟩

/-- The parts of a result that is read. -/
theorem canonicalSqlResultFromCbor_eq_ok {value : CborValue} {result : CanonicalSqlResult}
    (h : canonicalSqlResultFromCbor value = .ok result) : ∃ columnItems rowItems rows name name',
      value = .array [modeCode result.mode, .array columnItems, .array rowItems] ∧
      readItems columnFromCbor name 0 columnItems = .ok result.columns ∧
      readItems rowFromCbor name' 0 rowItems = .ok rows ∧
      normalizeRows result.mode rows = .ok result.rows ∧
      (result.mode = .multiset ∨ result.mode = .set → Forall₂ SameKey rows result.rows) := by
  simp only [canonicalSqlResultFromCbor, bind_eq_ok_iff, expectArray_eq_ok_iff,
    codec_protocolInvariant_eq_ok_iff, decide_eq_true_eq] at h
  obtain ⟨tuple, rfl, _, hlength, mode, hmode, columnItems, hcolumnItems, columns, hcolumns, rowItems,
    hrowItems, rows, hrows, canonical, hcanonical, h⟩ := h
  obtain ⟨canonicalRows, hnormalize, rfl⟩ := canonicalizeSqlResult_eq_ok hcanonical
  have hvalue : tuple = [modeCode mode, .array columnItems, .array rowItems] := by
    rw [eq_triple_of_length hlength, eq_modeCode_of_modeFromCbor hmode, hcolumnItems, hrowItems]
  subst hvalue
  split_ifs at h with hordered <;> simp at h
  · obtain ⟨hsize, ⟨_, hsorted⟩, rfl⟩ := h
    exact ⟨columnItems, rowItems, rows, _, _, rfl, hcolumns, hrows, hnormalize,
      fun _ => forall₂_sameKey_of_assertSorted hsorted hsize⟩
  · subst h
    exact ⟨columnItems, rowItems, rows, _, _, rfl, hcolumns, hrows, hnormalize,
      fun hmode => absurd hmode hordered⟩

theorem inverse_canonicalSqlResult :
    Inverse (fun value _ => canonicalSqlResultFromCbor value) canonicalSqlResultToCbor := by
  intro value name result written hread hwrite
  obtain ⟨columnItems, rowItems, rows, _, _, rfl, hcolumns, hrows, hnormalize, hsame⟩ :=
    canonicalSqlResultFromCbor_eq_ok hread
  simp only [canonicalSqlResultToCbor, bind_eq_ok_iff, pure_eq_ok_iff] at hwrite
  obtain ⟨canonical, hcanonical, writtenColumns, hwrittenColumns, writtenRows, hwrittenRows,
    rfl⟩ := hwrite
  obtain ⟨rows', hnormalize', rfl⟩ := canonicalizeSqlResult_eq_ok hcanonical
  have hagain := normalizeRows_of_normalizeRows hnormalize fun hmode => (hsame hmode).length_eq
  cases hnormalize'.symm.trans hagain
  refine reencodes_array (.cons (.refl _) (.cons ?_ (.cons ?_ .nil)))
  · exact exact_column.inverse.reencodes_items hcolumns hwrittenColumns
  · by_cases hmode : result.mode = .multiset ∨ result.mode = .set
    · exact reencodes_rows hrows (hsame hmode) hwrittenRows
    · -- The rows of the other modes are left alone.
      have hrest : normalizeRows result.mode rows = .ok rows := by
        cases hresult : result.mode with
        | scalar => rfl
        | ordered => rfl
        | multiset => exact absurd (.inl hresult) hmode
        | set => exact absurd (.inr hresult) hmode
      cases hrest.symm.trans hnormalize
      exact exact_row.inverse.reencodes_items hrows hwrittenRows

/-! ## Preconditions and programs -/

theorem reencodes_expectation {expectation : SqlExpectation}
    (hkind : itemAt tuple 0 = .integer kind)
    (hread : expectationOfKind kind tuple name = .ok expectation)
    (hwrite : expectationToCbor expectation = .ok written) : Reencodes (.array tuple) written := by
  rw [expectationOfKind] at hread
  split_ifs at hread with h h h <;> simp at hread <;> obtain ⟨rfl, hlength⟩ := h
  · obtain ⟨item, rfl⟩ := length_eq_one_iff.1 hlength
    simp [← hread, expectationToCbor] at hwrite
    rw [← hwrite, show item = _ from hkind]
    exact .refl _
  · obtain ⟨result, hresult, rfl⟩ := hread
    simp [expectationToCbor] at hwrite
    obtain ⟨writtenResult, hwrittenResult, rfl⟩ := hwrite
    rw [eq_pair_of_length hlength, hkind]
    exact reencodes_array (.cons (.refl _)
      (.cons (inverse_canonicalSqlResult _ name _ _ hresult hwrittenResult) .nil))
  · obtain ⟨digest, ⟨hitem, _⟩, rfl⟩ := hread
    simp [expectationToCbor] at hwrite
    rw [← hwrite.2, eq_pair_of_length hlength, hkind, hitem]
    exact .refl _

theorem rel_label {value : Option CborValue} {label : Option String}
    (h : labelFromCbor value name = .ok label) : Option.Rel Reencodes value (label.map .text) := by
  cases value with
  | none =>
    rw [← pure_eq_ok_iff.1 h]
    exact .none
  | some value =>
    simp [labelFromCbor] at h
    obtain ⟨text, rfl, rfl⟩ := h
    exact .some (.refl _)

theorem inverse_precondition : Inverse preconditionFromCbor preconditionToCbor := by
  intro value name precondition written hread hwrite
  simp [preconditionFromCbor, preconditionToCbor] at hread hwrite
  obtain ⟨map, rfl, ⟨_, hknown⟩, tuple, htuple, _, kind, ⟨hkind, _⟩, expectation, hexpectation,
    modeField, hmodeField, mode, hmode, _, id, hid, _, _, queryField, hquery, query,
    hqueryRead, label, hlabel, rfl⟩ := hread
  obtain ⟨_, _, writtenExpectation, hwrittenExpectation, writtenQuery, hwrittenQuery, rfl⟩ := hwrite
  refine reencodes_integerMap hknown (show [0, 1, 2, 3, 4].Nodup by decide) ?_
  simp only [forall_mem_cons]
  refine ⟨rel_of_required hid (.refl _), rel_of_required hquery ?_, rel_of_required hmodeField ?_,
    rel_of_required htuple ?_, rel_label hlabel, forall_mem_nil _⟩
  · exact inverse_sqlStatement _ _ _ _ hqueryRead hwrittenQuery
  · rw [eq_modeCode_of_modeFromCbor hmode]
    exact .refl _
  · exact reencodes_expectation hkind hexpectation hwrittenExpectation

variable {u : Unit}

/-- The preconditions of a valid program can be written. -/
theorem exists_writeItems_of_checkPreconditions {ids : List ℕ}
    {preconditions : List SqlPrecondition} (h : checkPreconditions ids preconditions = .ok u) :
    ∃ written, writeItems preconditionToCbor preconditions = .ok written := by
  induction preconditions generalizing ids with
  | nil => exact ⟨[], rfl⟩
  | cons precondition preconditions ih =>
    simp only [checkPreconditions, bind_eq_ok_iff] at h
    obtain ⟨_, _, item, hitem, h⟩ := h
    obtain ⟨items, hitems⟩ := ih h
    exact ⟨item :: items, by simp [writeItems, hitem, hitems]⟩

/-- A program that is valid can be written. -/
theorem exists_sqlTransactionProgramToCanonicalCbor {program : SqlTransactionProgram}
    (h : assertValidSqlTransactionProgram program = .ok u) :
    ∃ written, sqlTransactionProgramToCanonicalCbor program = .ok written := by
  have hvalid := h
  simp only [assertValidSqlTransactionProgram, bind_eq_ok_iff] at h
  obtain ⟨_, _, _, _, _, hpreconditions, body, hbody, _⟩ := h
  obtain ⟨preconditions, hwritten⟩ := exists_writeItems_of_checkPreconditions hpreconditions
  simp [sqlTransactionProgramToCanonicalCbor, hvalid, hwritten, hbody]

/-- The version is written as it was read. -/
theorem rel_version {map : IntegerMap} {version : ℕ} (h : expectVersion map version name = .ok u) :
    Option.Rel Reencodes (optional map 0) (some (.integer version)) := by
  simp [expectVersion] at h
  exact rel_of_required h.1 (.refl _)

theorem inverse_sqlTransactionProgram :
    Inverse (fun value _ => sqlTransactionProgramFromCanonicalCbor value)
      sqlTransactionProgramToCanonicalCbor := by
  intro value name program written hread hwrite
  simp only [sqlTransactionProgramFromCanonicalCbor, sqlTransactionProgramToCanonicalCbor,
    bind_eq_ok_iff, expectMap_eq_ok_iff, expectArray_eq_ok_iff, pure_eq_ok_iff] at hread hwrite
  obtain ⟨map, rfl, _, hknown, _, hversion, _, hpreconditionsField, preconditionItems, rfl,
    preconditions, hpreconditions, _, hbodyField, bodyItems, rfl, body, hbody, _, _, rfl⟩ := hread
  obtain ⟨_, _, writtenPreconditions, hwrittenPreconditions, writtenBody, hwrittenBody,
    rfl⟩ := hwrite
  refine reencodes_integerMap hknown (show [0, 1, 2].Nodup by decide) ?_
  simp only [forall_mem_cons]
  refine ⟨rel_version hversion, rel_of_required hpreconditionsField ?_,
    rel_of_required hbodyField ?_, forall_mem_nil _⟩
  · exact inverse_precondition.reencodes_items hpreconditions hwrittenPreconditions
  · exact inverse_sqlStatement.reencodes_items hbody hwrittenBody

end Chronolog.Protocol
