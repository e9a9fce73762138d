import Chronolog.Protocol.Errors
import Chronolog.Protocol.Sql
import Chronolog.Lib.OrdMap

/-!
# Protocol messages

The messages the nodes of a group exchange, and the order of transactions:
`compareTransactionOrder` compares the author's timestamp, then the author, the
sequence in the author's feed and last the transaction id. It is a total order
in which only equal keys are equivalent, so the order of a set of transactions
does not depend on how it came about.
-/

namespace Chronolog

/-- The domains of signatures and hashes. -/
inductive ProtocolDomain
  | transaction
  | attestation
  | heartbeat
  | envelope
  | payloadChunk
  | capabilityRevision
  | recovery
  | epochManifest
  | genesis
  | capabilityGrant
  | validationPolicy
  deriving DecidableEq

/-- What the author of a transaction signs. -/
structure TransactionCore where
  groupId : Bytes
  membershipRevision : Bytes
  validationPolicy : Bytes
  authorId : Bytes
  authorTimestampMs : Int
  nonce : Bytes
  executionManifestDigest : Bytes
  program : SqlTransactionProgram
  metadata : Option (OrdMap String Bytes)

/-- A chunk of a payload stored out of line. -/
structure PayloadChunk where
  digest : Bytes
  size : Int
  deriving DecidableEq

/-- The manifest of a payload stored out of line. -/
structure PayloadManifest where
  totalDigest : Bytes
  totalSize : Int
  chunks : List PayloadChunk
  deriving DecidableEq

/-- The types of messages an envelope can carry. -/
inductive EnvelopeMessageType
  | candidate
  | attestation
  | heartbeat
  | capability
  | recovery
  | epochManifest
  | proofBundle
  | snapshot
  deriving DecidableEq

/-- The payload of an envelope: in line, or the manifest of its chunks. -/
inductive EnvelopePayload
  | inline (bytes : Bytes)
  | manifest (manifest : PayloadManifest)
  deriving DecidableEq

/-- The envelope of a transport record. -/
structure ChronologEnvelope where
  groupRoute : Bytes
  messageType : EnvelopeMessageType
  encryptionEpoch : Option Bytes
  payloadDigest : Bytes
  payload : EnvelopePayload
  deriving DecidableEq

/-- A validator's attestation of a candidate. (Its decision is always to admit.) -/
structure ValidatorAttestation where
  groupId : Bytes
  membershipRevision : Bytes
  validatorCapability : Bytes
  txId : Bytes
  validatorId : Bytes
  authorTimestampMs : Int
  acceptedAboveMs : Int
  candidateDigest : Bytes
  policyVersion : Int
  deriving DecidableEq

/-- A validator's announcement that it attests nothing at or below a cutoff. -/
structure ValidatorHeartbeat where
  groupId : Bytes
  membershipRevision : Bytes
  validatorCapability : Bytes
  validatorId : Bytes
  acceptanceCutoffMs : Int
  deriving DecidableEq

/-- What orders transactions. -/
structure TransactionOrderKey where
  authorTimestampMs : Int
  authorId : Bytes
  authorFeedSequence : Int
  txId : Bytes
  deriving DecidableEq

/-- The order key of a transaction carried by a transport record. -/
def transactionOrderKey (core : TransactionCore) (authorFeedSequence : Int) (txId : Bytes) :
    Except ProtocolError TransactionOrderKey := do
  protocolInvariant (0 ≤ authorFeedSequence) .integerOutOfRange
    "Author feed sequence cannot be negative"
  return ⟨core.authorTimestampMs, core.authorId, authorFeedSequence, txId⟩

/-- The order of transactions. -/
def compareTransactionOrder (left right : TransactionOrderKey) : Ordering :=
  (compare left.authorTimestampMs right.authorTimestampMs).then <|
  (compareBytes left.authorId right.authorId).then <|
  (compare left.authorFeedSequence right.authorFeedSequence).then <|
  compareBytes left.txId right.txId

end Chronolog
