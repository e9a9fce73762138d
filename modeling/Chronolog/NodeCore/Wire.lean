import Chronolog.Canonical.Cbor
import Chronolog.Protocol.Messages

/-!
# Signed envelopes

A transport record carries an envelope whose payload, in line or in chunks of a
blob store, and possibly encrypted under an epoch key, is a signed message.
`decodeSignedEnvelope` resolves, decrypts and verifies it. Codecs, hashes and
signatures are those of the protocol package; here they are a parameter
(`Codec`), of which nothing is assumed.
-/

namespace Chronolog

open Canonical (CborValue)

/-- The codecs and the cryptography of the protocol package. A failure is the
    message of the error thrown. -/
structure Codec where
  decodeEnvelope : Bytes → Except String ChronologEnvelope
  assertCanonicalCbor : Bytes → Except String CborValue
  encodeCanonicalCbor : CborValue → Bytes
  decodeTransactionCore : Bytes → Except String TransactionCore
  decodeValidatorAttestation : Bytes → Except String ValidatorAttestation
  decodeValidatorHeartbeat : Bytes → Except String ValidatorHeartbeat
  transactionDigest : Bytes → Bytes
  hashDomain : ProtocolDomain → Bytes → Bytes
  verifyDomain : ProtocolDomain → (payload signature publicKey : Bytes) → Bool
  compileSqlProgram : SqlTransactionProgram → Except String Unit

/-- A key of an encryption epoch. -/
structure EnvelopeCipher where
  epochId : Bytes
  /-- The source's `open`. -/
  openPayload : (ciphertext associatedData : Bytes) → Except String Bytes

/-- The keys a node has: one, or a ring that resolves the epoch. -/
inductive CipherAccess
  | single (cipher : EnvelopeCipher)
  | ring (resolve : Bytes → Option EnvelopeCipher)

/-- The key for an epoch. -/
def CipherAccess.resolve : CipherAccess → Bytes → Option EnvelopeCipher
  | single cipher, _ => some cipher
  | ring resolve, epochId => resolve epochId

/-- A store of chunks by their digest. -/
abbrev ContentAddressedBlobStore := Bytes → Except String (Option Bytes)

/-- The types of messages a node signs. -/
inductive WireType
  | candidate
  | attestation
  | heartbeat
  deriving DecidableEq

/-- The position of a type in the encoding. -/
def WireType.index : WireType → Int
  | candidate => 0
  | attestation => 1
  | heartbeat => 2

/-- The type at a position. -/
def WireType.ofIndex : Int → Option WireType
  | 0 => some candidate
  | 1 => some attestation
  | 2 => some heartbeat
  | _ => none

/-- The type as an envelope names it. -/
def WireType.messageType : WireType → EnvelopeMessageType
  | candidate => .candidate
  | attestation => .attestation
  | heartbeat => .heartbeat

/-- The domain the messages of a type are signed under. -/
def WireType.domain : WireType → ProtocolDomain
  | candidate => .transaction
  | attestation => .attestation
  | heartbeat => .heartbeat

/-- A verified message. -/
structure SignedWireMessage where
  type : WireType
  payload : Bytes
  signer : Bytes
  signature : Bytes
  deriving DecidableEq

/-- The position of a message type in the list of the signed ones, `-1` if it is none of them. -/
def wireTypeIndex : EnvelopeMessageType → Int
  | .candidate => 0
  | .attestation => 1
  | .heartbeat => 2
  | _ => -1

section Decode

variable (codec : Codec)

/-- The chunks of a manifest, fetched in turn. -/
def fetchChunks (store : ContentAddressedBlobStore) : List PayloadChunk → Except String (List Bytes)
  | [] => .ok []
  | chunk :: chunks => do
    match ← store chunk.digest with
    | none => .error s!"BLOB_CHUNK_MISSING:{bytesToHex chunk.digest}"
    | some value => return value :: (← fetchChunks store chunks)

/-- Checks a fetched chunk against its entry in the manifest. -/
def verifyChunk (expected : PayloadChunk) (chunk : Bytes) : Except String Unit := do
  if (chunk.length : Int) ≠ expected.size then
    .error "Payload chunk size differs from manifest"
  if codec.hashDomain .payloadChunk chunk ≠ expected.digest then
    .error "Payload chunk digest differs from manifest"

/-- Checks fetched chunks against their manifest and joins them. -/
def verifyPayloadManifest (manifest : PayloadManifest) (chunks : List Bytes) :
    Except String Bytes := do
  if chunks.length ≠ manifest.chunks.length then
    .error "Payload chunk count differs from manifest"
  for (expected, chunk) in manifest.chunks.zip chunks do
    verifyChunk codec expected chunk
  let payload := chunks.flatten
  if (payload.length : Int) ≠ manifest.totalSize then
    .error "Payload total size differs from manifest"
  if codec.hashDomain .envelope payload ≠ manifest.totalDigest then
    .error "Payload total digest differs from manifest"
  return payload

/-- The payload of a manifest, from a blob store. -/
def loadEnvelopePayload (manifest : PayloadManifest) (store : ContentAddressedBlobStore) :
    Except String Bytes := do
  if 16 * 1024 * 1024 < manifest.totalSize then .error "BLOB_PAYLOAD_LIMIT"
  verifyPayloadManifest codec manifest (← fetchChunks store manifest.chunks)

/-- What an encrypted payload is bound to. -/
def envelopeAssociatedData (groupRoute : Bytes) (type : EnvelopeMessageType) (epochId : Bytes) :
    Bytes :=
  codec.encodeCanonicalCbor (.array [.integer 1, .bytes groupRoute,
    .integer (wireTypeIndex type), .bytes epochId])

/-- The bytes of an envelope's payload. -/
def resolvePayload (envelope : ChronologEnvelope) (blobStore : Option ContentAddressedBlobStore) :
    Except String Bytes :=
  match envelope.payload with
  | .inline bytes =>
    if codec.hashDomain .envelope bytes ≠ envelope.payloadDigest then
      .error "Envelope payload digest does not match resolved bytes"
    else .ok bytes
  | .manifest manifest =>
    match blobStore with
    | none => .error "WIRE_BLOB_STORE_REQUIRED"
    | some store => loadEnvelopePayload codec manifest store

/-- The signed bytes of a payload, decrypted if the envelope names an epoch. -/
def decryptPayload (envelope : ChronologEnvelope) (expectedGroupRoute payloadBytes : Bytes)
    (cipher : Option CipherAccess) : Except String Bytes :=
  match envelope.encryptionEpoch, cipher with
  | none, none => .ok payloadBytes
  | none, some _ | some _, none => .error "WIRE_ENCRYPTION_REQUIRED"
  | some epoch, some cipher =>
    match cipher.resolve epoch with
    | none => .error "WIRE_ENCRYPTION_EPOCH_UNKNOWN"
    | some active =>
      if epoch ≠ active.epochId then .error "WIRE_ENCRYPTION_EPOCH_UNKNOWN"
      else active.openPayload payloadBytes
        (envelopeAssociatedData codec expectedGroupRoute envelope.messageType epoch)

/-- Reads and verifies the signed message. -/
def verifyWire (messageType : EnvelopeMessageType) (wireBytes : Bytes) :
    Except String SignedWireMessage := do
  match ← codec.assertCanonicalCbor wireBytes with
  | .array [.integer 1, .integer typeIndex, .bytes payload, .bytes signer, .bytes signature] =>
    match WireType.ofIndex typeIndex with
    | none => .error "WIRE_SCHEMA_INVALID"
    | some type =>
      if type.messageType ≠ messageType then .error "WIRE_TYPE_MISMATCH"
      else if !codec.verifyDomain type.domain payload signature signer then
        .error "WIRE_SIGNATURE_INVALID"
      else .ok ⟨type, payload, signer, signature⟩
  | _ => .error "WIRE_SCHEMA_INVALID"

/-- Resolves, decrypts and verifies the message of an envelope. -/
def decodeSignedEnvelope (encoded expectedGroupRoute : Bytes) (cipher : Option CipherAccess)
    (blobStore : Option ContentAddressedBlobStore) : Except String SignedWireMessage := do
  let envelope ← codec.decodeEnvelope encoded
  if envelope.groupRoute ≠ expectedGroupRoute then .error "WIRE_WRONG_GROUP"
  let payloadBytes ← resolvePayload codec envelope blobStore
  if codec.hashDomain .envelope payloadBytes ≠ envelope.payloadDigest then
    .error "WIRE_DIGEST_MISMATCH"
  let wireBytes ← decryptPayload codec envelope expectedGroupRoute payloadBytes cipher
  verifyWire codec envelope.messageType wireBytes

end Decode

/-- What a table has for some bytes. -/
def decodeFrom {α : Type} (table : List (Bytes × α)) (bytes : Bytes) : Except String α :=
  match table.lookup bytes with
  | some value => .ok value
  | none => .error "CBOR_DECODE_ERROR"

/-- A codec that knows the encodings of some messages, with digests and
    signatures that show what they are of. -/
def Codec.ofTables (envelopes : List (Bytes × ChronologEnvelope)) (wires : List (Bytes × CborValue))
    (cores : List (Bytes × TransactionCore)) (attestations : List (Bytes × ValidatorAttestation))
    (heartbeats : List (Bytes × ValidatorHeartbeat)) : Codec where
  decodeEnvelope := decodeFrom envelopes
  assertCanonicalCbor := decodeFrom wires
  encodeCanonicalCbor _ := []
  decodeTransactionCore := decodeFrom cores
  decodeValidatorAttestation := decodeFrom attestations
  decodeValidatorHeartbeat := decodeFrom heartbeats
  transactionDigest bytes := bytes
  hashDomain _ bytes := bytes
  verifyDomain _ payload signature publicKey := signature = publicKey ++ payload
  compileSqlProgram _ := .ok ()

end Chronolog
