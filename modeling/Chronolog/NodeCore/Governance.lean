import Chronolog.Capabilities.Reducer
import Chronolog.Crypto.Epoch
import Chronolog.NodeCore.FeedForks

/-!
# The governance control plane

The control plane follows the capability log: it applies the revisions, recovery
records and epoch manifests that the transport delivers, remembers the snapshot
of every revision, and installs the keys of the epochs. A record that does not
extend the log is an error, and the first error ends the consumption of the
transport's records.
-/

namespace Chronolog

open Procedure

/-! ## Keys of encryption epochs -/

/-- The keys of the epochs that governance has installed, and the current one. -/
structure EpochCipherRing where
  epochs : KeyedMap EnvelopeCipher.epochId := .empty
  currentKey : Option Bytes := none

namespace EpochCipherRing

/-- Installs the key of an epoch. A key that is there stays. -/
def install (codec : EpochCodec) (ring : EpochCipherRing) (contentKey : Bytes) (epoch : Int)
    (makeCurrent : Bool) : Except String EpochCipherRing :=
  if contentKey.length ≠ 32 then .error "EPOCH_CONTENT_KEY_INVALID"
  else
    let cipher : EnvelopeCipher := ⟨codec.epochId epoch, codec.openPayload contentKey epoch⟩
    if ring.epochs.has cipher.epochId then
      .ok { ring with currentKey := if makeCurrent then some cipher.epochId else ring.currentKey }
    else
      .ok {
        epochs := ring.epochs.put cipher
        currentKey := if makeCurrent ∨ ring.currentKey.isNone then some cipher.epochId
          else ring.currentKey }

/-- The cipher of an epoch. -/
def resolve (ring : EpochCipherRing) (epochId : Bytes) : Option EnvelopeCipher :=
  ring.epochs.get? epochId

end EpochCipherRing

/-! ## The control plane -/

/-- The types of governance messages. -/
inductive GovernanceMessageType
  | capability
  | recovery
  | epochManifest
  deriving DecidableEq

/-- The type of a governance message in an envelope. -/
def GovernanceMessageType.ofEnvelope : EnvelopeMessageType → Option GovernanceMessageType
  | .capability => some capability
  | .recovery => some recovery
  | .epochManifest => some epochManifest
  | _ => none

/-- The source's `domainFor`. -/
def GovernanceMessageType.domain : GovernanceMessageType → ProtocolDomain
  | capability => .capabilityRevision
  | recovery => .recovery
  | epochManifest => .epochManifest

structure GovernanceControlPlaneOptions where
  codec : Codec
  capabilityCodec : CapabilityCodec
  epochCodec : EpochCodec
  /-- `TextDecoder.decode`. -/
  textDecoder : Bytes → String
  genesis : SignedGenesis
  groupRoute : Bytes
  /-- What the participant's private key unwraps a manifest's key to, if it has one. -/
  unwrapEpochKey : Option ((signed : SignedEpochManifest) → (trustedSigner : Bytes) →
    Except String Bytes) := none
  /-- What comes of telling that history was reopened. -/
  onHistoryReopened : (id : String) → (membershipRevision : Bytes) → (reason : String) →
    Except String Unit := fun _ _ _ => .ok ()

/-- The state of the control plane. -/
structure GovernanceState where
  snapshot : CapabilitySnapshot
  snapshots : KeyedMap CapabilitySnapshot.revisionDigest
  seen : Finset String := ∅
  currentEpoch : Int := -1
  epochManifests : OrdMap Int SignedEpochManifest := .empty
  epochDigests : OrdMap Int Bytes := .empty
  contentKeys : OrdMap Int Bytes := .empty
  cipherRing : EpochCipherRing := {}

/-- The snapshot of a revision. -/
def GovernanceState.snapshotForRevision (state : GovernanceState) (digest : Bytes) :
    Option CapabilitySnapshot :=
  state.snapshots.get? digest

/-- Procedures on the state of the control plane. -/
abbrev GovernanceM := EStateM String GovernanceState

namespace GovernanceControlPlane

variable (options : GovernanceControlPlaneOptions)

/-- A control plane that starts with the genesis. -/
def create : Except ProtocolError GovernanceState := do
  let snapshot ← reduceCapabilityLog options.capabilityCodec options.genesis []
  return { snapshot, snapshots := KeyedMap.empty.put snapshot }

/-- The answer of a question that may fail. -/
def ask {α : Type} : Except String α → GovernanceM α
  | .ok a => pure a
  | .error message => throw message

/-- The governance message of an envelope, with a verified signature. -/
def decodeGovernanceEnvelope (bytes : Bytes) : Except String (GovernanceMessageType × Bytes) := do
  let envelope ← options.codec.decodeEnvelope bytes
  match envelope.payload, GovernanceMessageType.ofEnvelope envelope.messageType with
  | .inline wireBytes, some type =>
    if envelope.groupRoute ≠ options.groupRoute ∨ envelope.encryptionEpoch.isSome then
      .error "GOVERNANCE_ENVELOPE_INVALID"
    if options.codec.hashDomain .envelope wireBytes ≠ envelope.payloadDigest then
      .error "GOVERNANCE_ENVELOPE_DIGEST_MISMATCH"
    match ← options.codec.assertCanonicalCbor wireBytes with
    | .array [.integer 1, .bytes payload, .bytes signer, .bytes signature] =>
      if !options.codec.verifyDomain type.domain payload signature signer then
        .error "GOVERNANCE_ENVELOPE_SIGNATURE_INVALID"
      return (type, payload)
    | _ => .error "GOVERNANCE_ENVELOPE_INVALID"
  | _, _ => .error "GOVERNANCE_ENVELOPE_INVALID"

/-- The tag and the bytes of a governance payload. -/
def readTagged (payload : Bytes) : Except String (Int × Bytes) := do
  match ← options.codec.assertCanonicalCbor payload with
  | .array [.integer tag, .bytes body] => return (tag, body)
  | _ => .error "GOVERNANCE_PAYLOAD_INVALID"

/-- The change of the membership that the bytes of a message are. -/
def readChange (type : GovernanceMessageType) (body : Bytes) :
    Except String (Option MembershipChange) :=
  match type with
  | .capability => do
    let signed ← (options.capabilityCodec.decodeSignedCapabilityRevision body).mapError (·.message)
    return some (.revision signed)
  | .recovery => do
    let record ← (options.capabilityCodec.decodeRecoveryRecord body).mapError (·.message)
    return some (.recovery record)
  | .epochManifest => return none

/-- Applies a change of the membership and remembers the snapshot. -/
def applyChange (change : MembershipChange) : GovernanceM Unit := do
  let state ← get
  let snapshot ← ask ((change.apply options.capabilityCodec state.snapshot).mapError (·.message))
  set { state with snapshot, snapshots := state.snapshots.put snapshot }
  match change with
  | .revision _ => return
  | .recovery record =>
    if record.payload.reopenHistory then
      ask (options.onHistoryReopened (bytesToHex (snapshot.recoveryEventDigest.getD []))
        snapshot.revisionDigest (record.payload.reopeningReason.getD ""))

/-- Unwraps and installs the key of a manifest. A manifest need not include this participant. -/
def installEpochKey (signed : SignedEpochManifest) (historical : Bool) (state : GovernanceState) :
    GovernanceState :=
  match options.unwrapEpochKey with
  | none => state
  | some unwrapEpochKey =>
    match unwrapEpochKey signed state.snapshot.rootAdminPublicKey with
    | .error _ => state
    | .ok key =>
      let state := { state with contentKeys := state.contentKeys.set signed.manifest.epoch key }
      match state.cipherRing.install options.epochCodec key signed.manifest.epoch !historical with
      | .error _ => state
      | .ok cipherRing => { state with cipherRing }

/-- Applies the manifest of an epoch. -/
def ingestEpoch (signed : SignedEpochManifest) (historical : Bool) : GovernanceM Unit := do
  let state ← get
  if signed.manifest.groupId ≠ state.snapshot.groupId then throw "GOVERNANCE_EPOCH_INVALID"
  if !(← ask (verifyEpochManifest options.codec signed state.snapshot.rootAdminPublicKey)) then
    throw "GOVERNANCE_EPOCH_INVALID"
  let encoded ← ask (encodeEpochManifest options.codec signed.manifest)
  let digest := options.codec.hashDomain .epochManifest encoded
  if !historical then
    let expectedPrevious := if state.currentEpoch < 0 then none
      else state.epochDigests.get? state.currentEpoch
    if signed.manifest.epoch ≠ state.currentEpoch + 1 ∨
        signed.manifest.previousEpochDigest ≠ expectedPrevious then
      throw "GOVERNANCE_EPOCH_CHAIN_INVALID"
    set { state with
      currentEpoch := signed.manifest.epoch
      epochManifests := state.epochManifests.set signed.manifest.epoch signed
      epochDigests := state.epochDigests.set signed.manifest.epoch digest }
  else if !state.epochManifests.has signed.manifest.epoch then
    throw "GOVERNANCE_HISTORICAL_EPOCH_UNKNOWN"
  modify (installEpochKey options signed historical)

/-- Applies a governance message. -/
def applyMessage (type : GovernanceMessageType) (tag : Int) (body : Bytes) : GovernanceM Unit := do
  match ← ask (readChange options type body) with
  | some change => applyChange options change
  | none =>
    let signed ← ask (options.epochCodec.decodeSignedEpochManifest body)
    ingestEpoch options signed (tag = 2)

/-- Ingests a record. Records of other types are none of the control plane's concern. -/
def ingest (record : TransportRecord) : GovernanceM Bool := do
  let state ← get
  if record.id ∈ state.seen then return false
  match decodeGovernanceEnvelope options record.payload with
  | .error _ => return false
  | .ok (type, payload) =>
    if type ≠ .recovery ∧
        record.author ≠ options.textDecoder state.snapshot.capabilityLogFeed then
      throw "GOVERNANCE_CAPABILITY_FEED_UNAUTHORIZED"
    let (tag, body) ← ask (readTagged options payload)
    applyMessage options type tag body
    modify fun state => { state with seen := insert record.id state.seen }
    return true

/-! ## The cases of a record -/

/-- What a record is to the control plane. -/
inductive Reading
  | ignored
  | refused (message : String)
  | change (change : MembershipChange)
  | epoch (signed : SignedEpochManifest) (historical : Bool)

def readMessage (type : GovernanceMessageType) (payload : Bytes) : Reading :=
  match readTagged options payload with
  | .error message => .refused message
  | .ok (tag, body) =>
    match readChange options type body with
    | .error message => .refused message
    | .ok (some change) => .change change
    | .ok none =>
      match options.epochCodec.decodeSignedEpochManifest body with
      | .error message => .refused message
      | .ok signed => .epoch signed (tag = 2)

def readPayload (bytes : Bytes) : Reading :=
  match decodeGovernanceEnvelope options bytes with
  | .error _ => .ignored
  | .ok (type, payload) => readMessage options type payload

def readRecord (record : TransportRecord) (state : GovernanceState) : Reading :=
  if record.id ∈ state.seen then .ignored
  else match decodeGovernanceEnvelope options record.payload with
    | .error _ => .ignored
    | .ok (type, payload) =>
      if type ≠ .recovery ∧ record.author ≠ options.textDecoder state.snapshot.capabilityLogFeed then
        .refused "GOVERNANCE_CAPABILITY_FEED_UNAUTHORIZED"
      else readMessage options type payload

/-- A record that is not ignored or refused is read as its payload. -/
theorem readRecord_spec (record : TransportRecord) (state : GovernanceState) :
    match readRecord options record state with
    | .ignored => record.id ∈ state.seen ∨
      ∃ message, decodeGovernanceEnvelope options record.payload = .error message
    | .refused _ => True
    | reading => record.id ∉ state.seen ∧ readPayload options record.payload = reading := by
  unfold readRecord readPayload
  split_ifs with hseen
  · exact .inl hseen
  cases decodeGovernanceEnvelope options record.payload with
  | error message => exact .inr ⟨message, rfl⟩
  | ok decoded =>
    dsimp only
    split_ifs
    · trivial
    unfold readMessage
    cases readTagged options decoded.2 with
    | error message => trivial
    | ok tagged =>
      dsimp only
      cases readChange options decoded.1 tagged.2 with
      | error message => trivial
      | ok change =>
        cases change with
        | some change => exact ⟨hseen, rfl⟩
        | none =>
          cases options.epochCodec.decodeSignedEpochManifest tagged.2 with
          | error message => trivial
          | ok signed => exact ⟨hseen, rfl⟩

/-- A record that is applied is remembered. -/
def remember (record : TransportRecord) :
    EStateM.Result String GovernanceState Unit → EStateM.Result String GovernanceState Bool
  | .ok _ state => .ok true { state with seen := insert record.id state.seen }
  | .error message state => .error message state

/-- A record is ingested as what it is read as. -/
theorem ingest_eq (record : TransportRecord) (state : GovernanceState) :
    ingest options record state = match readRecord options record state with
      | .ignored => .ok false state
      | .refused message => .error message state
      | .change change => remember record (applyChange options change state)
      | .epoch signed historical => remember record (ingestEpoch options signed historical state) := by
  have hremember : ∀ x : GovernanceM Unit, (do
      x
      modify fun state => { state with seen := insert record.id state.seen }
      return true : GovernanceM Bool) state = remember record (x state) := by
    intro x
    cases h : x state with
    | ok u state' => rw [bind_run_of_ok h]; rfl
    | error message state' => rw [bind_run_of_error h]; rfl
  simp only [ingest, readRecord, bind_get_run]
  split_ifs with hseen
  · rfl
  cases decodeGovernanceEnvelope options record.payload with
  | error message => rfl
  | ok decoded =>
    obtain ⟨type, payload⟩ := decoded
    dsimp only
    split_ifs with hfeed
    · rfl
    cases htagged : readTagged options payload with
    | error message => simp only [readMessage, htagged]; rfl
    | ok tagged =>
      obtain ⟨tag, body⟩ := tagged
      simp only [readMessage, htagged, ask, bind_pure_run, hremember, applyMessage]
      cases readChange options type body with
      | error message => rfl
      | ok change =>
        cases change with
        | some change => rfl
        | none => cases hsigned : options.epochCodec.decodeSignedEpochManifest body <;> rfl

/-- The state with another snapshot. -/
def revise (state : GovernanceState) (snapshot : CapabilitySnapshot) : GovernanceState :=
  { state with snapshot, snapshots := state.snapshots.put snapshot }

/-- A recovery may reopen history. -/
def reopenHistory (change : MembershipChange) (snapshot : CapabilitySnapshot) :
    Except String Unit :=
  match change with
  | .revision _ => .ok ()
  | .recovery record =>
    if record.payload.reopenHistory then
      options.onHistoryReopened (bytesToHex (snapshot.recoveryEventDigest.getD []))
        snapshot.revisionDigest (record.payload.reopeningReason.getD "")
    else .ok ()

/-- A listener that fails leaves the new snapshot in place. -/
theorem applyChange_eq (change : MembershipChange) (state : GovernanceState) :
    applyChange options change state =
      match change.apply options.capabilityCodec state.snapshot with
      | .error e => .error e.message state
      | .ok snapshot => ask (reopenHistory options change snapshot) (revise state snapshot) := by
  simp only [applyChange, bind_get_run]
  cases change.apply options.capabilityCodec state.snapshot with
  | error e => rfl
  | ok snapshot =>
    cases change with
    | revision signed => rfl
    | recovery record =>
      simp only [mapError_ok, ask, bind_pure_run, reopenHistory]
      split_ifs <;> rfl

/-- The epoch after the current one has its digest for the previous one. -/
def ContinuesChain (signed : SignedEpochManifest) (state : GovernanceState) : Prop :=
  signed.manifest.epoch = state.currentEpoch + 1 ∧
    signed.manifest.previousEpochDigest = if state.currentEpoch < 0 then none
      else state.epochDigests.get? state.currentEpoch

instance (signed : SignedEpochManifest) (state : GovernanceState) :
    Decidable (ContinuesChain signed state) :=
  inferInstanceAs (Decidable (_ ∧ _))

/-- The digest of a manifest that starts an epoch. That of an epoch that is known
    already is not needed. -/
def checkEpoch (signed : SignedEpochManifest) (historical : Bool) (state : GovernanceState) :
    Except String (Option Bytes) :=
  if signed.manifest.groupId ≠ state.snapshot.groupId then .error "GOVERNANCE_EPOCH_INVALID"
  else do
    let verified ← verifyEpochManifest options.codec signed state.snapshot.rootAdminPublicKey
    if !verified then .error "GOVERNANCE_EPOCH_INVALID"
    else
      let encoded ← encodeEpochManifest options.codec signed.manifest
      if historical then
        if state.epochManifests.has signed.manifest.epoch then return none
        else .error "GOVERNANCE_HISTORICAL_EPOCH_UNKNOWN"
      else if ContinuesChain signed state then
        return some (options.codec.hashDomain .epochManifest encoded)
      else .error "GOVERNANCE_EPOCH_CHAIN_INVALID"

/-- The state in which a manifest is accepted, before its key is installed. -/
def acceptEpoch (signed : SignedEpochManifest) (state : GovernanceState) :
    Option Bytes → GovernanceState
  | none => state
  | some digest => { state with
      currentEpoch := signed.manifest.epoch
      epochManifests := state.epochManifests.set signed.manifest.epoch signed
      epochDigests := state.epochDigests.set signed.manifest.epoch digest }

/-- The key of a manifest is installed last. -/
theorem ingestEpoch_eq (signed : SignedEpochManifest) (historical : Bool)
    (state : GovernanceState) : ingestEpoch options signed historical state =
      match checkEpoch options signed historical state with
      | .error message => .error message state
      | .ok digest =>
        .ok () (installEpochKey options signed historical (acceptEpoch signed state digest)) := by
  simp only [ingestEpoch, checkEpoch, bind_get_run]
  by_cases hgroup : signed.manifest.groupId ≠ state.snapshot.groupId
  · rw [if_pos hgroup, if_pos hgroup]
    rfl
  rw [if_neg hgroup, if_neg hgroup]
  cases verifyEpochManifest options.codec signed state.snapshot.rootAdminPublicKey with
  | error message => rfl
  | ok verified =>
    cases verified with
    | false => rfl
    | true =>
      cases encodeEpochManifest options.codec signed.manifest with
      | error message => rfl
      | ok encoded =>
        cases historical with
        | true =>
          cases state.epochManifests.has signed.manifest.epoch <;> rfl
        | false =>
          by_cases hchain : ContinuesChain signed state
          · have hok := hchain
            rw [ContinuesChain, ← not_not (a := _ ∧ _), not_and_or] at hok
            simp only [Bool.not_false, if_neg hok, if_pos hchain]
            rfl
          · have hbad := hchain
            rw [ContinuesChain, not_and_or] at hbad
            simp only [Bool.not_false, if_pos hbad, if_neg hchain]
            rfl

variable {options}

/-- A manifest that is accepted is that of the next epoch, or of one that is known. -/
theorem checkEpoch_eq_ok {signed : SignedEpochManifest} {historical : Bool}
    {state : GovernanceState} {digest : Option Bytes}
    (h : checkEpoch options signed historical state = .ok digest) :
    (historical = true ∧ state.epochManifests.has signed.manifest.epoch = true ∧ digest = none) ∨
    (historical = false ∧ ContinuesChain signed state ∧ ∃ bytes, digest = some bytes) := by
  obtain ⟨-, h⟩ | ⟨-, h⟩ := ite_eq_ok h
  · cases h
  obtain ⟨verified, -, h⟩ := bind_eq_ok_iff.1 h
  obtain ⟨-, h⟩ | ⟨-, h⟩ := ite_eq_ok h
  · cases h
  obtain ⟨encoded, -, h⟩ := bind_eq_ok_iff.1 h
  obtain ⟨hhistorical, h⟩ | ⟨hhistorical, h⟩ := ite_eq_ok h
  · obtain ⟨hhas, h⟩ | ⟨-, h⟩ := ite_eq_ok h
    · exact .inl ⟨hhistorical, hhas, (Except.ok.inj h).symm⟩
    · cases h
  · obtain ⟨hchain, h⟩ | ⟨-, h⟩ := ite_eq_ok h
    · exact .inr ⟨Bool.eq_false_iff.2 hhistorical, hchain, _, (Except.ok.inj h).symm⟩
    · cases h

end GovernanceControlPlane

/-! ## The consumption of records -/

/-- The control plane and whether it still consumes records. -/
structure GovernanceConsumer where
  state : GovernanceState
  consuming : Bool := true

/-- The control plane consumes the next record of the transport. An error ends the consumption. -/
def GovernanceConsumer.consume (options : GovernanceControlPlaneOptions)
    (consumer : GovernanceConsumer) (record : TransportRecord) : GovernanceConsumer :=
  if !consumer.consuming then consumer
  else match GovernanceControlPlane.ingest options record consumer.state with
    | .ok _ state => ⟨state, true⟩
    | .error _ state => ⟨state, false⟩

/-- A record that does not end the consumption is accepted. -/
theorem GovernanceConsumer.ingest_eq_ok {options : GovernanceControlPlaneOptions}
    {state : GovernanceState} {record : TransportRecord}
    (h : ((⟨state, true⟩ : GovernanceConsumer).consume options record).consuming = true) :
    ∃ b state', GovernanceControlPlane.ingest options record state = .ok b state' := by
  cases hingest : GovernanceControlPlane.ingest options record state with
  | ok b state' => exact ⟨b, state', rfl⟩
  | error message state' =>
    rw [consume, hingest] at h
    cases h

/-- A codec that knows governance messages besides: the payload of a record is the
    tagged bytes of the message. -/
def Codec.withGovernance (codec : Codec) (groupRoute signer : Bytes)
    (messages : List (Bytes × EnvelopeMessageType × Int)) : Codec :=
  { codec with
    decodeEnvelope bytes :=
      match messages.lookup bytes with
      | some (type, _) => .ok ⟨groupRoute, type, none, bytes ++ [0], .inline (bytes ++ [0])⟩
      | none => codec.decodeEnvelope bytes
    assertCanonicalCbor bytes :=
      match messages.lookup bytes.dropLast, bytes.getLast? with
      | some _, some 0 => .ok (.array [.integer 1, .bytes (bytes.dropLast ++ [1]), .bytes signer,
          .bytes (signer ++ (bytes.dropLast ++ [1]))])
      | some (_, tag), some 1 => .ok (.array [.integer tag, .bytes bytes.dropLast])
      | _, _ => codec.assertCanonicalCbor bytes
    encodeCanonicalCbor
      | .array [.integer _, .bytes body] => body ++ [1]
      | .array [.integer _, .bytes payload, .bytes _, .bytes _] => payload.dropLast ++ [0]
      -- A signed manifest.
      | .map [_, _, _, _] => [31]
      | value => codec.encodeCanonicalCbor value }

/-- The options of a control plane that knows a genesis, some revisions, recoveries
    and manifests. -/
def SmallLog.governance (codec : Codec) (genesis : SignedGenesis)
    (revisions : List (Bytes × SignedCapabilityRevision))
    (recoveries : List (Bytes × RecoveryRecord)) (manifests : List (Bytes × SignedEpochManifest)) :
    GovernanceControlPlaneOptions where
  codec := codec.withGovernance [0] (SmallLog.key 7)
    (revisions.map (fun (bytes, _) => (bytes, .capability, 1)) ++
      recoveries.map (fun (bytes, _) => (bytes, .recovery, 1)) ++
      manifests.map (fun (bytes, _) => (bytes, .epochManifest, 1)))
  capabilityCodec := .ofTables [([9], genesis.manifest)] revisions recoveries
  epochCodec := {
    decodeSignedEpochManifest := decodeFrom manifests
    epochId := fun epoch => [UInt8.ofNat epoch.toNat]
    openPayload := fun _ _ ciphertext _ => .ok ciphertext
    hpkeSealBase := fun publicKey plaintext _ _ => .ok (publicKey, plaintext) }
  textDecoder bytes := if bytes = utf8 "g" then "g" else ""
  genesis
  groupRoute := [0]

end Chronolog
