import Chronolog.Canonical.RoundTrip
import Chronolog.Protocol.Messages
import Chronolog.Protocol.SqlReencoding

/-!
# Transactions as bytes

An author signs the bytes of a transaction, and the other nodes read the transaction from them.
The decoder accepts only the bytes that the encoder returns for what it reads
(`encodeTransactionCore_of_decode`), so a transaction that was read has one form, and its digest
is that of the bytes.
-/

namespace Chronolog.Protocol

open Canonical Procedure List

/-! ## The codec -/

/-- The entries of a metadata map. -/
def metadataEntries (metadata : OrdMap String Bytes) : List (CborMapKey × CborValue) :=
  metadata.entries.map fun entry => (.text entry.1, .bytes entry.2)

def metadataToCbor (metadata : Option (OrdMap String Bytes)) : Option CborValue :=
  metadata.map fun metadata => .map (metadataEntries metadata)

/-- One round of the loop over the entries. -/
def readMetadataEntry (result : OrdMap String Bytes) (entry : CborMapKey × CborValue) :
    Codec (OrdMap String Bytes) :=
  match entry.1 with
  | .text key => return result.set key (← expectBytes entry.2 s!"transaction.metadata.{key}")
  | _ => .error (schemaInvalid "Transaction metadata keys must be text")

def metadataFromCbor (value : CborValue) : Codec (OrdMap String Bytes) := do
  (← expectMap value "transaction.metadata").foldlM readMetadataEntry .empty

def maxTimestampMs : ℕ := 2 ^ 63 - 1

/-- The check of the identifiers of a transaction. -/
def assertIdentifier (identifier : String × Bytes) : Codec Unit :=
  liftM (protocolInvariant (identifier.2.length = 32) .schemaInvalid
    s!"{identifier.1} must contain 32 bytes")

/-- The fields of a transaction, with the program as it is written. -/
def transactionFields (value : TransactionCore) (program : CborValue) :
    List (ℕ × Option CborValue) :=
  [(0, some (.integer 1)), (1, some (.bytes value.groupId)),
    (2, some (.bytes value.membershipRevision)), (3, some (.bytes value.validationPolicy)),
    (4, some (.bytes value.authorId)), (5, some (.integer value.authorTimestampMs)),
    (6, some (.bytes value.nonce)), (7, some (.bytes value.executionManifestDigest)),
    (8, some program), (9, metadataToCbor value.metadata)]

def transactionToCbor (value : TransactionCore) : Codec CborValue := do
  [("groupId", value.groupId), ("membershipRevision", value.membershipRevision),
    ("validationPolicy", value.validationPolicy), ("authorId", value.authorId)].forM
    assertIdentifier
  protocolInvariant (0 ≤ value.authorTimestampMs ∧ value.authorTimestampMs ≤ maxTimestampMs)
    .integerOutOfRange "Author timestamp must be a nonnegative int64"
  protocolInvariant (16 ≤ value.nonce.length) .schemaInvalid
    "Transaction nonce must contain at least 16 bytes"
  protocolInvariant (value.executionManifestDigest.length = 32) .schemaInvalid
    "Execution-manifest digest must contain 32 bytes"
  assertValidSqlTransactionProgram value.program
  let program ← sqlTransactionProgramToCanonicalCbor value.program
  return integerMap (transactionFields value program)

def encodeTransactionCore (value : TransactionCore) : Codec Bytes := do
  encodeCanonicalCbor (← transactionToCbor value)

/-- The metadata of a transaction, which may be absent. -/
def optionalMetadata : Option CborValue → Codec (Option (OrdMap String Bytes))
  | none => return none
  | some value => return some (← metadataFromCbor value)

/-- An identifier of a transaction. -/
def requiredIdentifier (map : IntegerMap) (key : ℕ) (name : String) : Codec Bytes := do
  expectBytesOfLength (← required map key name) name 32

def decodeTransactionCore (bytes : Bytes) : Codec TransactionCore := do
  let map ← expectMap (← assertCanonicalCbor bytes) "transaction"
  assertKnownIntegerKeys map [0, 1, 2, 3, 4, 5, 6, 7, 8, 9] "transaction"
  expectVersion map 1 "transaction"
  let authorTimestampMs ← expectUint64 (← required map 5 "transaction.author_timestamp_ms")
    "transaction.author_timestamp_ms"
  protocolInvariant (authorTimestampMs ≤ maxTimestampMs) .integerOutOfRange
    "Author timestamp is outside nonnegative int64"
  let nonce ← expectBytes (← required map 6 "transaction.nonce") "transaction.nonce"
  protocolInvariant (16 ≤ nonce.length) .schemaInvalid
    "Transaction nonce must contain at least 16 bytes"
  let program ← sqlTransactionProgramFromCanonicalCbor (← required map 8 "transaction.program")
  assertValidSqlTransactionProgram program
  return {
    groupId := ← requiredIdentifier map 1 "transaction.group_id"
    membershipRevision := ← requiredIdentifier map 2 "transaction.membership_revision"
    validationPolicy := ← requiredIdentifier map 3 "transaction.validation_policy"
    authorId := ← requiredIdentifier map 4 "transaction.author_id"
    authorTimestampMs
    nonce
    executionManifestDigest :=
      ← requiredIdentifier map 7 "transaction.execution_manifest_digest"
    program
    metadata := ← optionalMetadata (optional map 9) }

/-- The bytes that are hashed: the name of the domain after its length, a zero and the payload. -/
def domainSeparatedBytes (domain : String) (payload : Bytes) : Codec Bytes := do
  let name ← Canonical.utf8 domain
  return BigEndian.toBytes 4 name.length ++ name ++ [0] ++ payload

/-- The digest of a transaction, or of its bytes, with the platform's `sha256`. -/
def transactionDigest (sha256 : Bytes → Bytes) (value : TransactionCore ⊕ Bytes) : Codec Bytes := do
  let payload ← value.elim encodeTransactionCore pure
  return sha256 (← domainSeparatedBytes "chronolog/transaction" payload)

/-! ## Metadata -/

/-- The loop over entries with different keys appends them. -/
theorem metadataEntries_of_foldlM {entries : List (CborMapKey × CborValue)}
    {metadata result : OrdMap String Bytes}
    (h : entries.foldlM readMetadataEntry metadata = .ok result)
    (hnodup : ((metadataEntries metadata ++ entries).map Prod.fst).Nodup) :
    metadataEntries result = metadataEntries metadata ++ entries := by
  induction entries generalizing metadata with
  | nil =>
    cases h
    exact (append_nil _).symm
  | cons entry entries ih =>
    obtain ⟨key, value⟩ := entry
    obtain ⟨next, hnext, h⟩ := bind_eq_ok_iff.1 h
    cases key with
    | text key =>
      simp [readMetadataEntry] at hnext
      obtain ⟨bytes, rfl, rfl⟩ := hnext
      have hnew : key ∉ metadata.entries.map Prod.fst := by
        intro hmem
        obtain ⟨entry, hentry, rfl⟩ := mem_map.1 hmem
        rw [map_append, nodup_append] at hnodup
        exact hnodup.2.2 _ (mem_map_of_mem (mem_map_of_mem hentry)) _
          mem_cons_self rfl
      have hset : metadataEntries (metadata.set key bytes) =
          metadataEntries metadata ++ [(.text key, .bytes bytes)] := by
        have hentries : (metadata.set key bytes).entries = metadata.entries ++ [(key, bytes)] :=
          OrdMap.upsert_of_not_mem hnew bytes
        rw [metadataEntries, hentries, map_append]
        rfl
      rw [ih h, hset, append_assoc]
      · rfl
      · rwa [hset, append_assoc]
    | integer key => cases hnext
    | bytes key => cases hnext

theorem rel_metadata {value : Option CborValue} {metadata : Option (OrdMap String Bytes)}
    (h : optionalMetadata value = .ok metadata) :
    Option.Rel Reencodes value (metadataToCbor metadata) := by
  cases value with
  | none =>
    rw [← pure_eq_ok_iff.1 h]
    exact .none
  | some value =>
    simp [optionalMetadata, metadataFromCbor] at h
    obtain ⟨entries, rfl, result, hresult, rfl⟩ := h
    refine .some fun word hword => ?_
    -- The keys of a map that has an encoding are different.
    have hentries := metadataEntries_of_foldlM hresult (nodup_keys_of_encode_map hword)
    exact (congrArg (fun entries => encodeCanonicalCbor (.map entries)) hentries).trans hword

/-! ## Transactions -/

theorem requiredIdentifier_eq_ok {map : IntegerMap} {key : ℕ} {name : String} {bytes : Bytes}
    (h : requiredIdentifier map key name = .ok bytes) :
    bytes.length = 32 ∧ Option.Rel Reencodes (optional map key) (some (.bytes bytes)) := by
  simp [requiredIdentifier] at h
  exact ⟨h.2, rel_of_required h.1 (.refl _)⟩

theorem forM_assertIdentifier {identifiers : List (String × Bytes)}
    (h : ∀ identifier ∈ identifiers, identifier.2.length = 32) :
    identifiers.forM assertIdentifier = .ok () := by
  induction identifiers with
  | nil => rfl
  | cons identifier identifiers ih =>
    obtain ⟨hlength, h⟩ := forall_mem_cons.1 h
    refine bind_eq_ok_iff.2 ⟨(), ?_, ih h⟩
    simpa [assertIdentifier] using hlength

/-- A transaction that was read is written as the bytes that it was read from. -/
theorem encodeTransactionCore_of_decode {bytes : Bytes} {core : TransactionCore}
    (h : decodeTransactionCore bytes = .ok core) : encodeTransactionCore core = .ok bytes := by
  simp only [decodeTransactionCore, bind_eq_ok_iff, expectMap_eq_ok_iff, codec_protocolInvariant_eq_ok_iff, expectUint64_eq_ok_iff,
    expectBytes_eq_ok_iff, pure_eq_ok_iff] at h
  obtain ⟨value, hvalue, map, rfl, _, hknown, _, hversion, _, htimestampField,
    authorTimestampMs, ⟨rfl, _⟩, _, hle, _, hnonceField, nonce, rfl, _, hnonceLength, _, hprogramField,
    program, hprogram, _, hvalid, groupId, hgroupId, membershipRevision, hmembershipRevision,
    validationPolicy, hvalidationPolicy, authorId, hauthorId, executionManifestDigest, hmanifest,
    metadata, hmetadata, hcore⟩ := h
  obtain ⟨_, hencode⟩ := assertCanonicalCbor_eq_ok_iff.1 (mapError_eq_ok_iff.1 hvalue)
  obtain ⟨hgroupLength, hgroupRel⟩ := requiredIdentifier_eq_ok hgroupId
  obtain ⟨hmembershipLength, hmembershipRel⟩ := requiredIdentifier_eq_ok hmembershipRevision
  obtain ⟨hpolicyLength, hpolicyRel⟩ := requiredIdentifier_eq_ok hvalidationPolicy
  obtain ⟨hauthorLength, hauthorRel⟩ := requiredIdentifier_eq_ok hauthorId
  obtain ⟨hmanifestLength, hmanifestRel⟩ := requiredIdentifier_eq_ok hmanifest
  obtain ⟨written, hwritten⟩ := exists_sqlTransactionProgramToCanonicalCbor hvalid
  refine bind_eq_ok_iff.2 ⟨integerMap (transactionFields core written), ?_, mapError_eq_ok_iff.2 ?_⟩
    <;> subst hcore
  · -- The checks of the encoder are those that the decoder made.
    refine bind_eq_ok_iff.2 ⟨(), forM_assertIdentifier ?_, ?_⟩
    · simp [hgroupLength, hmembershipLength, hpolicyLength, hauthorLength]
    simp [hle, hnonceLength, hmanifestLength, hvalid, hwritten]
    exact ⟨(), rfl⟩
  · refine @reencodes_integerMap _ _ (transactionFields _ written) _ hknown ?_ ?_ bytes hencode
    · exact (by decide : [0, 1, 2, 3, 4, 5, 6, 7, 8, 9].Nodup)
    simp only [transactionFields, forall_mem_cons]
    refine ⟨rel_version hversion, hgroupRel, hmembershipRel, hpolicyRel, hauthorRel,
      rel_of_required htimestampField ?_, rel_of_required hnonceField ?_, hmanifestRel,
      rel_of_required hprogramField ?_, rel_metadata hmetadata, forall_mem_nil _⟩
    · exact .refl _
    · exact .refl _
    · exact inverse_sqlTransactionProgram _ "" _ _ hprogram hwritten

/-- The bytes that a transaction is read from are those that the encoder returns for it. No other
    bytes are read as the transaction, and its digest is the digest of the bytes. -/
theorem decodeTransactionCore_canonical {bytes : Bytes} {core : TransactionCore}
    (h : decodeTransactionCore bytes = .ok core) : encodeTransactionCore core = .ok bytes ∧
      (∀ other, decodeTransactionCore other = .ok core → other = bytes) ∧
      ∀ sha256, transactionDigest sha256 (.inl core) = transactionDigest sha256 (.inr bytes) := by
  have hencode := encodeTransactionCore_of_decode h
  refine ⟨hencode, fun other hother => ?_, fun sha256 => ?_⟩
  · exact Except.ok.inj ((encodeTransactionCore_of_decode hother).symm.trans hencode)
  · rw [transactionDigest, Sum.elim_inl, hencode]
    rfl

/-- A transaction with metadata. -/
def exampleTransaction : TransactionCore where
  groupId := replicate 32 1
  membershipRevision := replicate 32 2
  validationPolicy := replicate 32 3
  authorId := replicate 32 4
  authorTimestampMs := 5
  nonce := replicate 16 6
  executionManifestDigest := replicate 32 7
  program := ⟨[⟨0, ⟨"SELECT 1", []⟩, .scalar, .assertTrue, none⟩], [⟨"DELETE FROM t", []⟩]⟩
  metadata := some (OrdMap.ofList [("a", [8])])

def exampleTransactionBytes : Bytes :=
  [0xaa, 0, 1, 1, 88, 32] ++ replicate 32 1 ++ [2, 88, 32] ++ replicate 32 2 ++
    [3, 88, 32] ++ replicate 32 3 ++ [4, 88, 32] ++ replicate 32 4 ++ [5, 5, 6, 80] ++
    replicate 16 6 ++ [7, 88, 32] ++ replicate 32 7 ++
    -- The program: one precondition, and a body of one statement.
    [8, 0xa3, 0, 1, 1, 0x81, 0xa4, 0, 0, 1, 0xa2, 0, 104] ++ Chronolog.utf8 "SELECT 1" ++
    [1, 0x80, 2, 0, 3, 0x81, 0, 2, 0x81, 0xa2, 0, 109] ++ Chronolog.utf8 "DELETE FROM t" ++
    [1, 0x80, 9, 0xa1, 97, 97, 65, 8]

set_option maxRecDepth 10000 in
theorem decodeTransactionCore_example :
    decodeTransactionCore exampleTransactionBytes = .ok exampleTransaction ∧
      encodeTransactionCore exampleTransaction = .ok exampleTransactionBytes :=
  have h : decodeTransactionCore exampleTransactionBytes = .ok exampleTransaction := rfl
  ⟨h, (decodeTransactionCore_canonical h).1⟩

end Chronolog.Protocol
