import Chronolog.Ir.Codec
import Chronolog.Lib.Pointwise

/-!
# Logical values are read back

A logical value that is read from CBOR is written back to the same CBOR. The other way around
there are two exceptions: a JSON array with the form of a decimal is read as a decimal, or
refused, and a text that begins with a byte order mark is written without it
(`logicalValueFromCanonicalCbor_eq_ok_iff`).
-/

namespace Chronolog.Ir

open Canonical Procedure Pointwise List

variable {items : List CanonicalJsonValue} {members : List (String × CanonicalJsonValue)}
  {values : List CborValue} {value : CborValue} {json : CanonicalJsonValue} {logical : LogicalValue}

/-! ## JSON -/

/-- Induction over JSON values. -/
@[elab_as_elim]
theorem json_induction {motive : CanonicalJsonValue → Prop} (null : motive .null)
    (boolean : ∀ value, motive (.boolean value)) (integer : ∀ value, motive (.integer value))
    (decimal : ∀ coefficient scale, motive (.decimal coefficient scale))
    (string : ∀ value, motive (.string value))
    (array : ∀ items, (∀ item ∈ items, motive item) → motive (.array items))
    (object : ∀ members, (∀ entry ∈ members, motive entry.2) → motive (.object members)) :
    ∀ value, motive value :=
  @CanonicalJsonValue.rec motive (fun items => ∀ item ∈ items, motive item)
    (fun members => ∀ entry ∈ members, motive entry.2) (fun entry => motive entry.2)
    null boolean integer decimal string array object
    (forall_mem_nil _) (fun _ _ hitem hitems => forall_mem_cons.2 ⟨hitem, hitems⟩)
    (forall_mem_nil _) (fun _ _ hentry hentries => forall_mem_cons.2 ⟨hentry, hentries⟩)
    fun _ _ hvalue => hvalue

/-- Has an array the form of a decimal? -/
def decimalShaped : List CanonicalJsonValue → Bool
  | [.integer value, _, _] => value == ValueTag.decimal
  | _ => false

mutual

/-- No array in the value has the form of a decimal. -/
def unambiguous : CanonicalJsonValue → Bool
  | .array items => !decimalShaped items && itemsUnambiguous items
  | .object members => membersUnambiguous members
  | _ => true

def itemsUnambiguous : List CanonicalJsonValue → Bool
  | [] => true
  | item :: items => unambiguous item && itemsUnambiguous items

def membersUnambiguous : List (String × CanonicalJsonValue) → Bool
  | [] => true
  | (_, item) :: members => unambiguous item && membersUnambiguous members

end

theorem itemsUnambiguous_iff :
    itemsUnambiguous items = true ↔ ∀ item ∈ items, unambiguous item = true := by
  induction items with
  | nil => exact iff_of_true rfl (forall_mem_nil _)
  | cons item items ih => rw [itemsUnambiguous, Bool.and_eq_true, ih, forall_mem_cons]

theorem membersUnambiguous_iff :
    membersUnambiguous members = true ↔ ∀ entry ∈ members, unambiguous entry.2 = true := by
  induction members with
  | nil => exact iff_of_true rfl (forall_mem_nil _)
  | cons entry members ih =>
    rw [membersUnambiguous, Bool.and_eq_true, ih, forall_mem_cons]

/-- The entry of a map for the member of an object. -/
abbrev WritesMember (entry : String × CanonicalJsonValue) (written : CborMapKey × CborValue) :
    Prop :=
  written.1 = .text entry.1 ∧ jsonToCbor entry.2 = .ok written.2

/-- The member of an object for the entry of a map. -/
abbrev ReadsMember (written : CborMapKey × CborValue) (entry : String × CanonicalJsonValue) :
    Prop :=
  written.1 = .text entry.1 ∧ jsonFromCbor written.2 = .ok entry.2

theorem jsonItemsToCbor_eq_ok_iff : jsonItemsToCbor items = .ok values ↔
      Forall₂ (fun item value => jsonToCbor item = .ok value) items values := by
  refine traverse_eq_ok_iff (g := jsonItemsToCbor) rfl fun item items values => ?_
  simp [jsonItemsToCbor]

theorem jsonItemsFromCbor_eq_ok_iff : jsonItemsFromCbor values = .ok items ↔
      Forall₂ (fun value item => jsonFromCbor value = .ok item) values items := by
  refine traverse_eq_ok_iff (g := jsonItemsFromCbor) rfl fun value values items => ?_
  simp [jsonItemsFromCbor]

variable {entries : List (CborMapKey × CborValue)}

theorem jsonMembersToCbor_eq_ok_iff :
    jsonMembersToCbor members = .ok entries ↔ Forall₂ WritesMember members entries := by
  refine traverse_eq_ok_iff (g := jsonMembersToCbor) rfl fun entry members entries => ?_
  simp [jsonMembersToCbor, WritesMember]

@[simp]
theorem jsonKey_eq_ok_iff {key : CborMapKey} {text : String} :
    jsonKey key = .ok text ↔ key = .text text := by
  cases key with
  | text key => simp [jsonKey]
  | integer key => exact iff_of_false nofun nofun
  | bytes key => exact iff_of_false nofun nofun

theorem jsonMembersFromCbor_eq_ok_iff :
    jsonMembersFromCbor entries = .ok members ↔ Forall₂ ReadsMember entries members := by
  refine traverse_eq_ok_iff (g := jsonMembersFromCbor) rfl fun entry entries members => ?_
  simp [jsonMembersFromCbor, and_assoc]

variable {name : String}

@[simp]
theorem uint_eq_ok_iff {n : ℕ} :
    uint n name = .ok value ↔ n ≤ maxSafeInteger ∧ .integer n = value := by
  simp [uint, assertUint]

@[simp]
theorem safeUint_eq_ok_iff {n : ℕ} :
    safeUint value name = .ok n ↔ n ≤ maxSafeInteger ∧ value = .integer n := by
  simp only [safeUint, bind_eq_ok_iff, expectBigint_eq_ok_iff, codec_invariant_eq_ok_iff,
    pure_eq_ok_iff, decide_eq_true_eq]
  constructor
  · rintro ⟨amount, rfl, _, ⟨hpos, hle⟩, rfl⟩
    rw [Int.toNat_of_nonneg hpos]
    exact ⟨by omega, rfl⟩
  · rintro ⟨hle, rfl⟩
    exact ⟨n, rfl, (), by omega, rfl⟩

@[simp]
theorem safeNumber_eq_ok_iff {n m : ℤ} :
    safeNumber n name = .ok m ↔ (-maxSafeInteger ≤ n ∧ n ≤ maxSafeInteger) ∧ n = m := by
  simp [safeNumber]

/-- What is read as JSON is written back. -/
theorem jsonToCbor_of_jsonFromCbor (h : jsonFromCbor value = .ok json) :
    jsonToCbor json = .ok value := by
  induction value using CborValue.induction generalizing json with
  | null | boolean value | integer value | text value =>
    cases h
    rfl
  | bytes value => cases h
  | array items ih =>
    rw [jsonFromCbor] at h
    split_ifs at h with hdecimal <;> simp at h
    · obtain ⟨coefficient, hcoefficient, scale, ⟨hle, hscale⟩, rfl⟩ := h
      rw [eq_triple_of_length hdecimal.1, CborValue.integer?_eq_some_iff.1 hdecimal.2, hcoefficient,
        hscale]
      simp [jsonToCbor, hle]
    · obtain ⟨read, hread, rfl⟩ := h
      refine bind_eq_ok_iff.2 ⟨items, jsonItemsToCbor_eq_ok_iff.2 (Forall₂.flip ?_), rfl⟩
      exact imp_of_mem_left (jsonItemsFromCbor_eq_ok_iff.1 hread)
        fun item hitem json hjson => ih item hitem hjson
  | map entries ih =>
    simp [jsonFromCbor] at h
    obtain ⟨read, hread, rfl⟩ := h
    refine bind_eq_ok_iff.2 ⟨entries, jsonMembersToCbor_eq_ok_iff.2 (Forall₂.flip ?_), rfl⟩
    exact imp_of_mem_left (jsonMembersFromCbor_eq_ok_iff.1 hread)
      fun entry hentry json hjson => ⟨hjson.1, ih entry hentry hjson.2⟩

/-- Only an integer is written as an integer. -/
theorem integer?_of_jsonToCbor {n : ℤ}
    (h : jsonToCbor json = .ok value) : value.integer? = some n ↔ json = .integer n := by
  cases json with
  | null | boolean b | string text =>
    cases h
    exact iff_of_false nofun nofun
  | integer m =>
    cases h
    exact ⟨fun h => congrArg _ (Option.some.inj h), fun h => congrArg _ (CanonicalJsonValue.integer.inj h)⟩
  | decimal coefficient scale | array items | object members =>
    obtain ⟨_, _, h⟩ := bind_eq_ok_iff.1 h
    cases h
    exact iff_of_false nofun nofun

theorem decimalShaped_eq_true_iff : decimalShaped items = true ↔
      ∃ second third, items = [.integer ValueTag.decimal, second, third] := by
  constructor
  · fun_cases decimalShaped items with
    | case1 value second third =>
      intro h
      obtain rfl := beq_iff_eq.1 h
      exact ⟨second, third, rfl⟩
    | case2 => exact fun h => absurd h Bool.false_ne_true
  · rintro ⟨second, third, rfl⟩
    rfl

/-- The form of a decimal is that of what is written. -/
theorem decimalShaped_iff
    (h : Forall₂ (fun item value => jsonToCbor item = .ok value) items values) :
    decimalShaped items = true ↔
      values.length = 3 ∧ (itemAt values 0).integer? = some ValueTag.decimal := by
  rw [decimalShaped_eq_true_iff]
  constructor
  · rintro ⟨second, third, rfl⟩
    refine ⟨h.length_eq.symm, ?_⟩
    cases h with
    | cons hfirst _ => exact (integer?_of_jsonToCbor hfirst).2 rfl
  · rintro ⟨hlength, hfirst⟩
    obtain ⟨first, second, third, rfl⟩ := length_eq_three.1 (h.length_eq.trans hlength)
    cases h with
    | cons hwritten _ =>
      rw [(integer?_of_jsonToCbor hwritten).1 hfirst]
      exact ⟨second, third, rfl⟩

/-- JSON is read back if and only if none of its arrays has the form of a decimal. -/
theorem jsonFromCbor_eq_ok_iff (h : jsonToCbor json = .ok value) :
    jsonFromCbor value = .ok json ↔ unambiguous json = true := by
  induction json using json_induction generalizing value with
  | null | boolean b | integer n | string text =>
    cases h
    exact iff_of_true rfl rfl
  | decimal coefficient scale =>
    simp [jsonToCbor] at h
    obtain ⟨hle, rfl⟩ := h
    exact iff_of_true (by simp [jsonFromCbor, itemAt, hle]) rfl
  | array items ih =>
    simp [jsonToCbor] at h
    obtain ⟨values, hvalues, rfl⟩ := h
    rw [jsonItemsToCbor_eq_ok_iff] at hvalues
    rw [jsonFromCbor, unambiguous, Bool.and_eq_true, Bool.not_eq_true', ← Bool.not_eq_true,
      decimalShaped_iff hvalues, itemsUnambiguous_iff]
    split_ifs with hdecimal
    · exact iff_of_false (by simp) fun h => h.1 hdecimal
    · rw [and_iff_right hdecimal, ← forall₂_flip_iff hvalues fun item hitem value hvalue =>
        ih item hitem hvalue, ← jsonItemsFromCbor_eq_ok_iff]
      simp
  | object members ih =>
    simp [jsonToCbor] at h
    obtain ⟨entries, hentries, rfl⟩ := h
    rw [jsonMembersToCbor_eq_ok_iff] at hentries
    rw [jsonFromCbor, unambiguous, membersUnambiguous_iff,
      ← forall₂_flip_iff (S := ReadsMember) hentries fun entry hentry written hwritten =>
        (and_iff_right hwritten.1).trans (ih entry hentry hwritten.2),
      ← jsonMembersFromCbor_eq_ok_iff]
    simp

/-! ## Logical values -/

@[simp]
theorem vectorElement_eq_ok_iff {element : VectorElementType} :
    vectorElement value = .ok element ↔ value = .integer (vectorElements.idxOf element) := by
  simp only [vectorElement, bind_eq_ok_iff, safeUint_eq_ok_iff, expected_eq_ok_iff]
  constructor
  · rintro ⟨n, ⟨_, rfl⟩, h⟩
    obtain ⟨hlt, rfl⟩ := List.getElem?_eq_some_iff.1 h
    rw [List.Nodup.idxOf_getElem (by decide)]
  · rintro rfl
    have hmem : element ∈ vectorElements := by cases element <;> decide
    exact ⟨_, ⟨List.idxOf_le_length.trans (by decide), rfl⟩, List.getElem?_idxOf hmem⟩

variable {tag : ℤ}

/-- What is read with a tag has this tag and these parts. -/
theorem logicalValueParts_of_logicalValueOfTag {items : List CborValue} {value : LogicalValue}
    (htag : itemAt items 0 = .integer tag) (h : logicalValueOfTag tag items = .ok value) :
    logicalValueParts value = .ok items := by
  rcases ite_eq_ok h with ⟨⟨rfl, hlength⟩, hread⟩ | ⟨_, h⟩
  · simp at hread
    obtain ⟨first, rfl⟩ := length_eq_one_iff.1 hlength
    rw [← hread, show first = _ from htag]
    rfl
  rcases ite_eq_ok h with ⟨⟨rfl, hlength⟩, hread⟩ | ⟨_, h⟩
  · obtain ⟨b, hitem, rfl⟩ := map_eq_ok_iff.1 hread
    rw [eq_pair_of_length hlength, htag, expectBoolean_eq_ok_iff.1 hitem]
    rfl
  rcases ite_eq_ok h with ⟨⟨rfl, hlength⟩, hread⟩ | ⟨_, h⟩
  · simp at hread
    obtain ⟨n, hitem, rfl⟩ := hread
    rw [eq_pair_of_length hlength, htag, hitem]
    rfl
  rcases ite_eq_ok h with ⟨⟨rfl, hlength⟩, hread⟩ | ⟨_, h⟩
  · simp at hread
    obtain ⟨coefficient, hcoefficient, scale, ⟨hle, hscale⟩, rfl⟩ := hread
    rw [eq_triple_of_length hlength, htag, hcoefficient, hscale]
    simp [logicalValueParts, hle]
  rcases ite_eq_ok h with ⟨⟨rfl, hlength⟩, hread⟩ | ⟨_, h⟩
  · simp at hread
    obtain ⟨text, hitem, bytes, hbytes, rfl⟩ := hread
    rw [eq_pair_of_length hlength, htag, hitem]
    simp [logicalValueParts, decodeUtf8_of_utf8 hbytes]
  rcases ite_eq_ok h with ⟨⟨rfl, hlength⟩, hread⟩ | ⟨_, h⟩
  · simp at hread
    obtain ⟨bytes, hitem, rfl⟩ := hread
    rw [eq_pair_of_length hlength, htag, hitem]
    rfl
  rcases ite_eq_ok h with ⟨⟨rfl, hlength⟩, hread⟩ | ⟨_, h⟩
  · simp at hread
    obtain ⟨bytes, ⟨hitem, _⟩, rfl⟩ := hread
    rw [eq_pair_of_length hlength, htag, hitem]
    rfl
  rcases ite_eq_ok h with ⟨⟨rfl, hlength⟩, hread⟩ | ⟨_, h⟩
  · simp at hread
    obtain ⟨n, hitem, rfl⟩ := hread
    rw [eq_pair_of_length hlength, htag, hitem]
    rfl
  rcases ite_eq_ok h with ⟨⟨rfl, hlength⟩, hread⟩ | ⟨_, h⟩
  · simp at hread
    obtain ⟨n, hitem, rfl⟩ := hread
    rw [eq_pair_of_length hlength, htag, hitem]
    rfl
  rcases ite_eq_ok h with ⟨⟨rfl, hlength⟩, hread⟩ | ⟨_, h⟩
  · simp at hread
    obtain ⟨json, hjson, rfl⟩ := hread
    rw [eq_pair_of_length hlength, htag]
    simp [logicalValueParts, jsonToCbor_of_jsonFromCbor hjson]
  rcases ite_eq_ok h with ⟨⟨rfl, hlength⟩, hread⟩ | ⟨_, h⟩
  · simp at hread
    obtain ⟨element, helement, dimensions, ⟨hle, hdimensions⟩, bytes, hbytes, rfl⟩ := hread
    rw [eq_quadruple_of_length hlength, htag, helement, hdimensions, hbytes]
    simp [logicalValueParts, hle]
  · cases h

/-- What is read as a logical value is written back. -/
theorem logicalValueToCanonicalCbor_of_fromCanonicalCbor
    (h : logicalValueFromCanonicalCbor value = .ok logical) :
    logicalValueToCanonicalCbor logical = .ok value := by
  simp [logicalValueFromCanonicalCbor] at h
  obtain ⟨items, rfl, tag, htag, _, hdecoded, _, hassert⟩ := h
  simp [logicalValueToCanonicalCbor, hassert,
    logicalValueParts_of_logicalValueOfTag htag hdecoded]

/-- The tag of what was written is read again. -/
theorem logicalValueFromCanonicalCbor_array {items : List CborValue}
    (hassert : assertLogicalValue logical = .ok ())
    (hsafe : -maxSafeInteger ≤ tag ∧ tag ≤ maxSafeInteger) (htag : itemAt items 0 = .integer tag) :
    logicalValueFromCanonicalCbor (.array items) = .ok logical ↔
      logicalValueOfTag tag items = .ok logical := by
  simp only [logicalValueFromCanonicalCbor, bind_eq_ok_iff, expectArray_eq_ok_iff,
    expectBigint_eq_ok_iff, safeNumber_eq_ok_iff, pure_eq_ok_iff]
  constructor
  · rintro ⟨_, hitems, tag', hfirst, _, ⟨_, rfl⟩, decoded, hdecoded, _, _, rfl⟩
    cases hitems
    cases htag.symm.trans hfirst
    exact hdecoded
  · intro h
    exact ⟨items, rfl, tag, htag, tag, ⟨hsafe, rfl⟩, logical, h, (), hassert, rfl⟩

/-- No text begins with a byte order mark, and no JSON array has the form of a decimal. -/
def Recoverable : LogicalValue → Prop
  | .text bytes => ¬byteOrderMark <+: bytes
  | .json value => unambiguous value = true
  | _ => True

/-- A text is read back from what was written if its bytes have no byte order mark. -/
theorem utf8_eq_ok_iff_of_decodeUtf8 {bytes : Bytes} {text : String}
    (h : decodeUtf8 bytes = .ok text) :
    Canonical.utf8 text = .ok bytes ↔ ¬byteOrderMark <+: bytes :=
  ⟨fun hutf8 => (utf8_eq_ok_iff.1 hutf8).2, utf8_of_decodeUtf8 h⟩

/-- What is written with its tag is read back if it is recoverable. -/
theorem logicalValueOfTag_parts_iff {items : List CborValue}
    (hassert : assertLogicalValue logical = .ok ()) (h : logicalValueParts logical = .ok items) :
    ∃ tag : ℤ, (0 ≤ tag ∧ tag ≤ 10) ∧ itemAt items 0 = .integer tag ∧
      (logicalValueOfTag tag items = .ok logical ↔ Recoverable logical) := by
  cases logical with
  | null | boolean b | int64 n | blob bytes | timestampMs n | durationMs n =>
    cases h
    exact ⟨_, by decide, rfl, iff_of_true rfl trivial⟩
  | decimal coefficient scale =>
    simp [logicalValueParts] at h
    obtain ⟨hle, rfl⟩ := h
    refine ⟨_, by decide, rfl, iff_of_true ?_ trivial⟩
    exact bind_eq_ok_iff.2 ⟨coefficient, rfl,
      bind_eq_ok_iff.2 ⟨scale, safeUint_eq_ok_iff.2 ⟨hle, rfl⟩, rfl⟩⟩
  | text bytes =>
    simp [logicalValueParts] at h
    obtain ⟨text, htext, rfl⟩ := h
    refine ⟨ValueTag.text, by decide, rfl, ?_⟩
    rw [Recoverable, ← utf8_eq_ok_iff_of_decodeUtf8 htext]
    change (Canonical.utf8 text >>= fun bytes => pure (LogicalValue.text bytes) : Codec _) = _ ↔ _
    simp
  | uuid bytes =>
    cases h
    have hlength := of_decide_eq_true (codec_invariant_eq_ok_iff.1 hassert)
    refine ⟨_, by decide, rfl, iff_of_true ?_ trivial⟩
    exact bind_eq_ok_iff.2 ⟨bytes, expectBytesOfLength_eq_ok_iff.2 ⟨rfl, hlength⟩, rfl⟩
  | json value =>
    simp [logicalValueParts] at h
    obtain ⟨written, hwritten, rfl⟩ := h
    refine ⟨ValueTag.json, by decide, rfl, ?_⟩
    rw [Recoverable, ← jsonFromCbor_eq_ok_iff hwritten]
    change (jsonFromCbor written >>= fun value => pure (LogicalValue.json value)) = _ ↔ _
    simp
  | vector element dimensions bytes =>
    simp [logicalValueParts] at h
    obtain ⟨hle, rfl⟩ := h
    refine ⟨_, by decide, rfl, iff_of_true ?_ trivial⟩
    exact bind_eq_ok_iff.2 ⟨element, vectorElement_eq_ok_iff.2 rfl,
      bind_eq_ok_iff.2 ⟨dimensions, safeUint_eq_ok_iff.2 ⟨hle, rfl⟩,
        bind_eq_ok_iff.2 ⟨bytes, rfl, rfl⟩⟩⟩

/-- A logical value is read back if and only if it is no text with a byte order mark and no JSON
    value with an array of the form of a decimal. -/
theorem logicalValueFromCanonicalCbor_eq_ok_iff {logical : LogicalValue} {value : CborValue}
    (h : logicalValueToCanonicalCbor logical = .ok value) :
    logicalValueFromCanonicalCbor value = .ok logical ↔ Recoverable logical := by
  simp only [logicalValueToCanonicalCbor, bind_eq_ok_iff, pure_eq_ok_iff] at h
  obtain ⟨_, hassert, items, hitems, rfl⟩ := h
  obtain ⟨tag, hrange, htag, hiff⟩ := logicalValueOfTag_parts_iff hassert hitems
  have hsafe : (10 : ℤ) ≤ maxSafeInteger := by decide
  rw [logicalValueFromCanonicalCbor_array hassert ⟨by omega, by omega⟩ htag, hiff]

/-! ## Logical types -/

theorem eq_text_of_textCollation {collation : CollationId}
    (h : textCollation value = .ok collation) : value = .text (collationText collation) := by
  simp only [textCollation, bind_eq_ok_iff, expectString_eq_ok_iff, expected_eq_ok_iff] at h
  obtain ⟨text, rfl, h⟩ := h
  have hfound := find?_some h
  rw [beq_iff_eq.1 hfound]

variable {logicalType : LogicalType}

/-- What is read with a tag has this tag and these parts. -/
theorem logicalTypeParts_of_logicalTypeOfTag {items : List CborValue}
    (htag : itemAt items 0 = .integer tag) (h : logicalTypeOfTag tag items = .ok logicalType) :
    logicalTypeParts logicalType = .ok items := by
  -- Most of the types have no parts.
  have htagged (hlength : items.length = 1) : items = [.integer tag] := by
    obtain ⟨first, rfl⟩ := length_eq_one_iff.1 hlength
    obtain rfl := htag
    rfl
  rw [logicalTypeOfTag] at h
  split_ifs at h with hif hif hif hif hif hif hif hif hif hif <;> simp at h <;>
    obtain ⟨rfl, hlength⟩ := hif
  · exact h ▸ congrArg _ (htagged hlength).symm
  · exact h ▸ congrArg _ (htagged hlength).symm
  · obtain ⟨precision, ⟨hle, hprecision⟩, scale, ⟨hle', hscale⟩, rfl⟩ := h
    rw [eq_triple_of_length hlength, htag, hprecision, hscale]
    simp [logicalTypeParts, hle, hle']
  · obtain ⟨collation, hcollation, rfl⟩ := h
    rw [eq_pair_of_length hlength, htag, eq_text_of_textCollation hcollation]
    rfl
  · obtain ⟨limit, hlimit, rfl⟩ := h
    rw [eq_pair_of_length hlength, htag]
    generalize itemAt items 1 = value at hlimit
    fun_cases blobLimit value with
    | case1 => exact pure_eq_ok_iff.1 hlimit ▸ rfl
    | case2 =>
      rw [blobLimit] at hlimit
      · simp at hlimit
        obtain ⟨maxBytes, ⟨hle, rfl⟩, rfl⟩ := hlimit
        simp [logicalTypeParts, hle]
      · assumption
  · exact h ▸ congrArg _ (htagged hlength).symm
  · exact h ▸ congrArg _ (htagged hlength).symm
  · exact h ▸ congrArg _ (htagged hlength).symm
  · exact h ▸ congrArg _ (htagged hlength).symm
  · obtain ⟨element, helement, dimensions, ⟨hle, hdimensions⟩, rfl⟩ := h
    rw [eq_triple_of_length hlength, htag, helement, hdimensions]
    simp [logicalTypeParts, hle]

/-- What is read as a logical type is written back. -/
theorem logicalTypeToCanonicalCbor_of_fromCanonicalCbor
    (h : logicalTypeFromCanonicalCbor value = .ok logicalType) :
    logicalTypeToCanonicalCbor logicalType = .ok value := by
  simp [logicalTypeFromCanonicalCbor] at h
  obtain ⟨items, rfl, tag, htag, _, hdecoded, _, hassert⟩ := h
  simp [logicalTypeToCanonicalCbor, hassert, logicalTypeParts_of_logicalTypeOfTag htag hdecoded]

end Chronolog.Ir
