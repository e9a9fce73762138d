import Chronolog.Lib.Reachable
import Chronolog.NodeCore.EpochRotation

/-!
# Access to earlier epochs

The owner of the capability log gives an auditor access to the earlier epochs: for each key in the table of
content keys that belongs to an accepted manifest, a manifest is published that wraps the key for the
auditor. A rotation writes its key into the table before its manifest is published, and neither call holds
a lock, so the table can have a key that is not that of the accepted manifest
(`RacingRotations.wraps_other_key`).

The historical manifests wrap the keys of the accepted ones in every run in which each key that a rotation
stores is the one of the manifest that is accepted for its epoch (`wraps_accepted_key`).
-/

namespace Chronolog

open Procedure Relation GovernanceControlPlane OrdMap List

/-! ## Calls -/

/-- A record that is being ingested, and the manifest in it, whose key is being unwrapped. -/
structure PendingKey where
  id : String
  signed : SignedEpochManifest
  historical : Bool
  deriving DecidableEq

namespace GovernanceControlPlane

variable (options : GovernanceControlPlaneOptions)

/-- The first capability in force that lets a subject audit. -/
def auditReader (snapshot : CapabilitySnapshot) (subjectId : Bytes) : Option EffectiveCapability :=
  snapshot.capabilities.values.find? fun capability =>
    capability.grant.role = .reader && capability.grant.readerScope = some .audit &&
      capability.grant.subjectId = subjectId && isCapabilityActive capability snapshot.revision

/-- The content keys, in the order of their epochs. -/
def sortedKeys (state : GovernanceState) : List (Int × Bytes) :=
  state.contentKeys.entries.mergeSort fun left right => left.1 ≤ right.1

/-- What the historical manifest of an epoch is made of. -/
def historicalInput (state : GovernanceState) (original : SignedEpochManifest) (epoch : Int)
    (key : Bytes) (recipient : EpochRecipient) (rootPrivateKey : Bytes) (now : Int) :
    EpochInput where
  groupId := state.snapshot.groupId
  epoch
  previousEpochDigest := original.manifest.previousEpochDigest
  createdAtMs := now
  recipients := [recipient]
  signerPublicKey := state.snapshot.rootAdminPublicKey
  signerPrivateKey := rootPrivateKey
  contentKey := key

/-- The manifest that a payload carries, and whether it is a historical one. -/
def manifestOf (payload : Bytes) : Option (SignedEpochManifest × Bool) :=
  (taggedManifest options payload).map fun (tag, signed) => (signed, decide (tag = 2))

/-- The key that is unwrapped once a record is ingested otherwise. -/
def pendingKey (record : TransportRecord) (state : GovernanceState) : Option PendingKey :=
  match ingest options.keyless record state with
  | .ok true _ => (manifestOf options record.payload).map fun (signed, historical) =>
    ⟨record.id, signed, historical⟩
  | _ => none

end GovernanceControlPlane

/-- The auditor of a call and the key of the root. -/
structure HistoricalGrant where
  recipient : EpochRecipient
  rootPrivateKey : Bytes

/-- How far a call is, between two of its awaits. -/
inductive EpochTask
  /-- A rotation has its manifest made. -/
  | creating (input : EpochInput)
  /-- It publishes it. -/
  | publishing (signed : SignedEpochManifest)
  /-- A call for an auditor has these keys left. -/
  | granting (grant : HistoricalGrant) (keys : List (Int × Bytes))
  /-- It has a historical manifest made. -/
  | sealing (grant : HistoricalGrant) (input : EpochInput) (keys : List (Int × Bytes))
  /-- It publishes it. -/
  | offering (grant : HistoricalGrant) (signed : SignedEpochManifest) (keys : List (Int × Bytes))
  /-- It waits for the record to be ingested. -/
  | awaiting (grant : HistoricalGrant) (id : String) (keys : List (Int × Bytes))

/-- A control plane with the calls on it. -/
structure EpochHost where
  plane : GovernanceState
  tasks : List EpochTask := []
  installing : Option PendingKey := none
  history : List TransportRecord := []
  ingested : Finset String := ∅
  /-- The manifests whose keys rotations have stored. -/
  stored : List SignedEpochManifest := []
  /-- The historical manifests that were published. -/
  granted : List SignedEpochManifest := []

/-- The record of an envelope that is appended. -/
def EpochHost.nextRecord (host : EpochHost) (publisher : GovernancePublisher) (envelope : Bytes)
    (id : String) (now : Int) : TransportRecord :=
  (⟨host.plane, [], host.history, host.ingested⟩ : GovernanceHost).nextRecord publisher envelope id now

/-- What a step does, as far as keys are concerned. -/
inductive EpochEvent
  | stored (signed : SignedEpochManifest)
  | ingested (record : TransportRecord)
  | other

section

variable (options : GovernanceControlPlaneOptions) (publisher : GovernancePublisher)

/-- A step of one of the calls or of the control plane. -/
inductive EpochStep :
    EpochHost → EpochEvent → EpochHost → Prop
  | rotateEpoch {host : EpochHost} (rootPrivateKey contentKey : Bytes) (now : Int)
      (howner : assertCapabilityFeedOwner options publisher host.plane = .ok ()) :
      EpochStep host .other
        { host with
          tasks := .creating (epochInput rootPrivateKey contentKey now host.plane) :: host.tasks }
  | store {host : EpochHost} {before after : List EpochTask} {input : EpochInput}
      {signed : SignedEpochManifest} (htasks : host.tasks = before ++ .creating input :: after)
      (hcreate : createEpochManifest options.codec options.epochCodec publisher.signDomain input =
        .ok signed) :
      EpochStep host (.stored signed)
        { host with
          plane := { host.plane with
            contentKeys := host.plane.contentKeys.set input.epoch input.contentKey }
          tasks := before ++ .publishing signed :: after
          stored := signed :: host.stored }
  | publish {host : EpochHost} {before after : List EpochTask} {signed : SignedEpochManifest}
      {body envelope : Bytes} {id : String} {now : Int}
      (htasks : host.tasks = before ++ .publishing signed :: after)
      (hbody : encodeSignedEpochManifest options.codec signed = .ok body)
      (henvelope : encodeGovernanceEnvelope options publisher .epochManifest (tagged options 1 body) =
        .ok envelope) (hnew : ∀ record ∈ host.history, record.id ≠ id) :
      EpochStep host .other
        { host with
          tasks := before ++ after
          history := host.history ++ [host.nextRecord publisher envelope id now] }
  | grantHistoricalAccess {host : EpochHost} {reader : EffectiveCapability}
      (subjectId rootPrivateKey : Bytes)
      (howner : assertCapabilityFeedOwner options publisher host.plane = .ok ())
      (hreader : auditReader host.plane.snapshot subjectId = some reader) :
      EpochStep host .other
        { host with
          tasks := .granting ⟨reader.recipient, rootPrivateKey⟩ (sortedKeys host.plane) ::
            host.tasks }
  | skip {host : EpochHost} {before after : List EpochTask} {grant : HistoricalGrant} {epoch : Int}
      {key : Bytes} {keys : List (Int × Bytes)}
      (htasks : host.tasks = before ++ .granting grant ((epoch, key) :: keys) :: after)
      (hnone : host.plane.epochManifests.get? epoch = none) :
      EpochStep host .other
        { host with tasks := before ++ .granting grant keys :: after }
  | next {host : EpochHost} {before after : List EpochTask} {grant : HistoricalGrant} {epoch : Int}
      {key : Bytes} {keys : List (Int × Bytes)} {original : SignedEpochManifest} {now : Int}
      (htasks : host.tasks = before ++ .granting grant ((epoch, key) :: keys) :: after)
      (horiginal : host.plane.epochManifests.get? epoch = some original) :
      EpochStep host .other
        { host with
          tasks := before ++ .sealing grant (historicalInput host.plane original epoch key
            grant.recipient grant.rootPrivateKey now) keys :: after }
  | create {host : EpochHost} {before after : List EpochTask} {grant : HistoricalGrant}
      {input : EpochInput} {signed : SignedEpochManifest} {keys : List (Int × Bytes)}
      (htasks : host.tasks = before ++ .sealing grant input keys :: after)
      (hcreate : createEpochManifest options.codec options.epochCodec publisher.signDomain input =
        .ok signed) :
      EpochStep host .other
        { host with tasks := before ++ .offering grant signed keys :: after }
  | publishHistorical {host : EpochHost} {before after : List EpochTask} {grant : HistoricalGrant}
      {signed : SignedEpochManifest} {keys : List (Int × Bytes)} {body envelope : Bytes} {id : String}
      {now : Int} (htasks : host.tasks = before ++ .offering grant signed keys :: after)
      (hbody : encodeSignedEpochManifest options.codec signed = .ok body)
      (henvelope : encodeGovernanceEnvelope options publisher .epochManifest
        (tagged options 2 body) = .ok envelope)
      (hnew : ∀ record ∈ host.history, record.id ≠ id) :
      EpochStep host .other
        { host with
          tasks := before ++ .awaiting grant id keys :: after
          history := host.history ++ [host.nextRecord publisher envelope id now]
          granted := signed :: host.granted }
  | resume {host : EpochHost} {before after : List EpochTask} {grant : HistoricalGrant} {id : String}
      {keys : List (Int × Bytes)} (htasks : host.tasks = before ++ .awaiting grant id keys :: after)
      (hingested : id ∈ host.ingested) :
      EpochStep host .other
        { host with tasks := before ++ .granting grant keys :: after }
  -- A call fails at an await, or ends.
  | drop {host : EpochHost} {before after : List EpochTask} {task : EpochTask}
      (htasks : host.tasks = before ++ task :: after) :
      EpochStep host .other { host with tasks := before ++ after }
  -- A record of the transport is ingested, one at a time. The key of a manifest is unwrapped last, and
  -- calls go on meanwhile.
  | ingest {host : EpochHost} (record : TransportRecord) (hidle : host.installing = none)
      (hpending : pendingKey options record host.plane = none) :
      EpochStep host (.ingested record)
        { host with
          plane := finalState (ingest options.keyless record host.plane)
          ingested := insert record.id host.ingested }
  | accept {host : EpochHost} {pending : PendingKey} (record : TransportRecord)
      (hidle : host.installing = none)
      (hpending : pendingKey options record host.plane = some pending) :
      EpochStep host (.ingested record)
        { host with
          plane := finalState (ingest options.keyless record host.plane)
          installing := some pending }
  | install {host : EpochHost} {pending : PendingKey} (hinstalling : host.installing = some pending) :
      EpochStep host .other
        { host with
          plane := installEpochKey options pending.signed pending.historical host.plane
          ingested := insert pending.id host.ingested
          installing := none }

end

/-! ### Ingesting a record -/

section Ingest

variable {options : GovernanceControlPlaneOptions} {record : TransportRecord} {state : GovernanceState}

/-- A payload carries a manifest if it is read as one. -/
theorem manifestOf_eq (payload : Bytes) : manifestOf options payload =
    match readPayload options payload with
    | .epoch signed historical => some (signed, historical)
    | _ => none := by
  unfold manifestOf taggedManifest readPayload
  cases decodeGovernanceEnvelope options payload with
  | error message => rfl
  | ok decoded =>
    obtain ⟨type, payload⟩ := decoded
    simp only [readMessage]
    cases htagged : readTagged options payload with
    | error message => cases type <;> simp only [htagged, Option.map_none]
    | ok tagged =>
      cases type with
      | capability =>
        simp only [readChange]
        cases options.capabilityCodec.decodeSignedCapabilityRevision tagged.2 <;> rfl
      | recovery =>
        simp only [readChange]
        cases options.capabilityCodec.decodeRecoveryRecord tagged.2 <;> rfl
      | epochManifest =>
        simp only [htagged]
        cases options.epochCodec.decodeSignedEpochManifest tagged.2 <;> rfl

/-- What becomes of a record apart from a key. -/
theorem ingest_keyless_eq (record : TransportRecord) (state : GovernanceState) :
    ingest options.keyless record state = match readRecord options record state with
      | .ignored => .ok false state
      | .refused message => .error message state
      | .change change => remember record (applyChange options change state)
      | .epoch signed historical => remember record (
        match checkEpoch options signed historical state with
        | .error message => .error message state
        | .ok digest => .ok () (acceptEpoch signed state digest)) := by
  have hepoch : ∀ signed historical, ingestEpoch options.keyless signed historical state =
      match checkEpoch options signed historical state with
      | .error message => .error message state
      | .ok digest => .ok () (acceptEpoch signed state digest) :=
    fun signed historical => ingestEpoch_eq options.keyless signed historical state
  simp only [← hepoch]
  exact ingest_eq options.keyless record state

/-- The key of a manifest that is accepted is pending. -/
theorem pendingKey_eq (record : TransportRecord) (state : GovernanceState) :
    pendingKey options record state = match readRecord options record state with
      | .epoch signed historical => match checkEpoch options signed historical state with
        | .error _ => none
        | .ok _ => some ⟨record.id, signed, historical⟩
      | _ => none := by
  have hspec := readRecord_spec options record state
  rw [pendingKey, ingest_keyless_eq]
  cases hread : readRecord options record state with
  | ignored => rfl
  | refused message => rfl
  | change change =>
    simp only [hread] at hspec
    dsimp only
    cases applyChange options change state with
    | ok u state' => simp only [remember, manifestOf_eq, hspec.2, Option.map_none]
    | error message state' => rfl
  | epoch signed historical =>
    simp only [hread] at hspec
    dsimp only
    cases checkEpoch options signed historical state with
    | error message => rfl
    | ok digest => simp only [remember, manifestOf_eq, hspec.2, Option.map_some]

/-- What the keys and the epochs are the same in. -/
structure SameEpochs (state' state : GovernanceState) : Prop where
  contentKeys : state'.contentKeys = state.contentKeys
  epochManifests : state'.epochManifests = state.epochManifests
  currentEpoch : state'.currentEpoch = state.currentEpoch

theorem sameEpochs_applyChange (change : MembershipChange) :
    SameEpochs (finalState (remember record (applyChange options change state))) state := by
  rw [applyChange_eq]
  cases change.apply options.capabilityCodec state.snapshot with
  | error e => exact ⟨rfl, rfl, rfl⟩
  | ok snapshot => dsimp only; cases reopenHistory options change snapshot <;> exact ⟨rfl, rfl, rfl⟩

/-- What a record does to the epochs, apart from a key. -/
theorem ingest_keyless_cases (record : TransportRecord) (state : GovernanceState) :
    (SameEpochs (finalState (ingest options.keyless record state)) state ∧
      ∀ pending, pendingKey options record state = some pending → pending.historical = true ∧
        state.epochManifests.has pending.signed.manifest.epoch = true) ∨
    ∃ signed, pendingKey options record state = some ⟨record.id, signed, false⟩ ∧
      signed.manifest.epoch = state.currentEpoch + 1 ∧
      (finalState (ingest options.keyless record state)).contentKeys = state.contentKeys ∧
      (finalState (ingest options.keyless record state)).epochManifests =
        state.epochManifests.set signed.manifest.epoch signed ∧
      (finalState (ingest options.keyless record state)).currentEpoch = signed.manifest.epoch := by
  rw [ingest_keyless_eq, pendingKey_eq]
  cases readRecord options record state with
  | ignored => exact .inl ⟨⟨rfl, rfl, rfl⟩, nofun⟩
  | refused message => exact .inl ⟨⟨rfl, rfl, rfl⟩, nofun⟩
  | change change => exact .inl ⟨sameEpochs_applyChange change, nofun⟩
  | epoch signed historical =>
    dsimp only
    cases hcheck : checkEpoch options signed historical state with
    | error message => exact .inl ⟨⟨rfl, rfl, rfl⟩, nofun⟩
    | ok digest =>
      obtain ⟨rfl, hhas, rfl⟩ | ⟨rfl, hchain, bytes, rfl⟩ := checkEpoch_eq_ok hcheck
      · refine .inl ⟨⟨rfl, rfl, rfl⟩, fun pending h => ?_⟩
        cases h
        exact ⟨rfl, hhas⟩
      · exact .inr ⟨signed, rfl, hchain.1, rfl, rfl, rfl⟩

/-- What installing a key does to the epochs: the key of the manifest may be stored. -/
theorem installEpochKey_epochs (signed : SignedEpochManifest) (historical : Bool)
    (state : GovernanceState) :
    (installEpochKey options signed historical state).epochManifests = state.epochManifests ∧
    (installEpochKey options signed historical state).currentEpoch = state.currentEpoch ∧
    ∀ epoch key, (installEpochKey options signed historical state).contentKeys.get? epoch = some key →
      state.contentKeys.get? epoch = some key ∨ epoch = signed.manifest.epoch ∧
        ∃ unwrapEpochKey, options.unwrapEpochKey = some unwrapEpochKey ∧
          unwrapEpochKey signed state.snapshot.rootAdminPublicKey = .ok key := by
  unfold installEpochKey
  split
  · exact ⟨rfl, rfl, fun _ _ => .inl⟩
  · rename_i unwrapEpochKey hunwrap
    split
    · exact ⟨rfl, rfl, fun _ _ => .inl⟩
    · rename_i unwrapped hunwrapped
      have hset : ∀ epoch key, (state.contentKeys.set signed.manifest.epoch unwrapped).get? epoch =
          some key → state.contentKeys.get? epoch = some key ∨ epoch = signed.manifest.epoch ∧
            ∃ unwrapEpochKey, options.unwrapEpochKey = some unwrapEpochKey ∧
              unwrapEpochKey signed state.snapshot.rootAdminPublicKey = .ok key := by
        intro epoch key hget
        rw [get?_set] at hget
        split_ifs at hget with heq
        · exact .inr ⟨heq, unwrapEpochKey, hunwrap, Option.some.inj hget ▸ hunwrapped⟩
        · exact .inl hget
      dsimp only
      split <;> exact ⟨rfl, rfl, hset⟩

end Ingest

/-! ### Keys -/

/-- The key that a manifest wraps: the one that it was made with, and that a recipient unwraps it to. -/
structure WrapsKey (options : GovernanceControlPlaneOptions) (publisher : GovernancePublisher)
    (keyOf : SignedEpochManifest → Bytes) : Prop where
  created : ∀ input signed, createEpochManifest options.codec options.epochCodec publisher.signDomain
    input = .ok signed → keyOf signed = input.contentKey
  unwrapped : ∀ unwrapEpochKey, options.unwrapEpochKey = some unwrapEpochKey →
    ∀ signed trustedSigner key, unwrapEpochKey signed trustedSigner = .ok key → key = keyOf signed

/-- A key that a rotation stores is that of the manifest that is accepted for its epoch, before or after;
    and so is the key of a historical manifest that was not published by the control plane itself. -/
def Agreeing (options : GovernanceControlPlaneOptions) (keyOf : SignedEpochManifest → Bytes)
    (host : EpochHost) : EpochEvent → Prop
  | .stored signed => ∀ accepted,
    host.plane.epochManifests.get? signed.manifest.epoch = some accepted → keyOf signed = keyOf accepted
  | .ingested record => ∀ pending,
    pendingKey options record host.plane = some pending →
      if pending.historical then pending.signed ∈ host.granted ∨ ∀ accepted,
        host.plane.epochManifests.get? pending.signed.manifest.epoch = some accepted →
          keyOf pending.signed = keyOf accepted
      else ∀ signed ∈ host.stored, signed.manifest.epoch = pending.signed.manifest.epoch →
        keyOf signed = keyOf pending.signed
  | .other => True

section Keys

variable {options : GovernanceControlPlaneOptions} {publisher : GovernancePublisher}
  {keyOf : SignedEpochManifest → Bytes} {host host' : EpochHost} {epoch : Int} {key : Bytes}

section

variable (keyOf : SignedEpochManifest → Bytes) (host : EpochHost)

/-- The manifest of an epoch was accepted, and the key is its key. -/
def IsAcceptedKey (epoch : Int)
    (key : Bytes) : Prop :=
  ∃ accepted, host.plane.epochManifests.get? epoch = some accepted ∧ key = keyOf accepted

/-- The key is that of the accepted manifest or, as long as there is none, one that a rotation stored. -/
def IsEpochKey (epoch : Int)
    (key : Bytes) : Prop :=
  IsAcceptedKey keyOf host epoch key ∨ host.plane.epochManifests.get? epoch = none ∧
    ∃ signed ∈ host.stored, signed.manifest.epoch = epoch ∧ key = keyOf signed

/-- The keys of a call. -/
def EpochTask.Sound : EpochTask → Prop
  | creating _ | publishing _ => True
  | granting _ keys | awaiting _ _ keys => ∀ entry ∈ keys, IsEpochKey keyOf host entry.1 entry.2
  | sealing _ input keys => IsAcceptedKey keyOf host input.epoch input.contentKey ∧
    ∀ entry ∈ keys, IsEpochKey keyOf host entry.1 entry.2
  | offering _ signed keys => IsAcceptedKey keyOf host signed.manifest.epoch (keyOf signed) ∧
    ∀ entry ∈ keys, IsEpochKey keyOf host entry.1 entry.2

/-- All keys that are around are those of the accepted manifests. -/
structure EpochHost.Sound : Prop where
  epochs : ∀ epoch, (host.plane.epochManifests.get? epoch).isSome → epoch ≤ host.plane.currentEpoch
  keys : ∀ epoch key, host.plane.contentKeys.get? epoch = some key → IsEpochKey keyOf host epoch key
  tasks : ∀ task ∈ host.tasks, task.Sound keyOf host
  installing : ∀ pending, host.installing = some pending →
    IsAcceptedKey keyOf host pending.signed.manifest.epoch (keyOf pending.signed)
  granted : ∀ signed ∈ host.granted,
    IsAcceptedKey keyOf host signed.manifest.epoch (keyOf signed)

end

/-- What the keys of a host are the keys of another by. -/
structure Extends (keyOf : SignedEpochManifest → Bytes) (host host' : EpochHost) : Prop where
  accepted : ∀ epoch accepted, host.plane.epochManifests.get? epoch = some accepted →
    host'.plane.epochManifests.get? epoch = some accepted
  stored : ∀ signed ∈ host.stored, signed ∈ host'.stored
  /-- A manifest that is accepted wraps the key that was stored. -/
  agrees : ∀ epoch accepted, host.plane.epochManifests.get? epoch = none →
    host'.plane.epochManifests.get? epoch = some accepted →
    ∀ signed ∈ host.stored, signed.manifest.epoch = epoch → keyOf signed = keyOf accepted

theorem Extends.of_eq (hmanifests : host'.plane.epochManifests = host.plane.epochManifests)
    (hstored : ∀ signed ∈ host.stored, signed ∈ host'.stored) : Extends keyOf host host' where
  accepted _ _ h := hmanifests ▸ h
  stored := hstored
  agrees _ _ hnone hsome := by
    rw [hmanifests, hnone] at hsome
    cases hsome

theorem IsAcceptedKey.mono (h : IsAcceptedKey keyOf host epoch key)
    (hextends : Extends keyOf host host') : IsAcceptedKey keyOf host' epoch key := by
  obtain ⟨accepted, haccepted, rfl⟩ := h
  exact ⟨accepted, hextends.accepted _ _ haccepted, rfl⟩

theorem IsEpochKey.mono (h : IsEpochKey keyOf host epoch key)
    (hextends : Extends keyOf host host') : IsEpochKey keyOf host' epoch key := by
  rcases h with h | ⟨hnone, signed, hsigned, hepoch, rfl⟩
  · exact .inl (h.mono hextends)
  · cases haccepted : host'.plane.epochManifests.get? epoch with
    | none => exact .inr ⟨haccepted, signed, hextends.stored _ hsigned, hepoch, rfl⟩
    | some accepted =>
      exact .inl ⟨accepted, haccepted, hextends.agrees _ _ hnone haccepted _ hsigned hepoch⟩

variable {task : EpochTask}

theorem EpochTask.Sound.mono (h : task.Sound keyOf host) (hextends : Extends keyOf host host') :
    task.Sound keyOf host' := by
  cases task with
  | creating _ | publishing _ => trivial
  | granting _ keys | awaiting _ _ keys => exact fun entry hentry => (h entry hentry).mono hextends
  | sealing _ input keys | offering _ signed keys =>
    exact ⟨h.1.mono hextends, fun entry hentry => (h.2 entry hentry).mono hextends⟩

/-- What is new has to be sound. -/
theorem EpochHost.Sound.mono (h : host.Sound keyOf) (hextends : Extends keyOf host host')
    (hepochs : ∀ epoch, (host'.plane.epochManifests.get? epoch).isSome →
      epoch ≤ host'.plane.currentEpoch)
    (hkeys : ∀ epoch key, host'.plane.contentKeys.get? epoch = some key →
      host.plane.contentKeys.get? epoch = some key ∨ IsEpochKey keyOf host' epoch key)
    (htasks : ∀ task ∈ host'.tasks, task ∈ host.tasks ∨ task.Sound keyOf host')
    (hinstalling : ∀ pending, host'.installing = some pending → host.installing = some pending ∨
      IsAcceptedKey keyOf host' pending.signed.manifest.epoch (keyOf pending.signed))
    (hgranted : ∀ signed ∈ host'.granted, signed ∈ host.granted ∨
      IsAcceptedKey keyOf host' signed.manifest.epoch (keyOf signed)) : host'.Sound keyOf where
  epochs := hepochs
  keys epoch key hkey := (hkeys epoch key hkey).elim (fun h' => (h.keys epoch key h').mono hextends) id
  tasks task htask := (htasks task htask).elim (fun h' => (h.tasks task h').mono hextends) id
  installing pending hpending := (hinstalling pending hpending).elim
    (fun h' => (h.installing pending h').mono hextends) id
  granted signed hsigned := (hgranted signed hsigned).elim
    (fun h' => (h.granted signed h').mono hextends) id

/-- A step that only moves a call on, or ends it. -/
theorem EpochHost.Sound.of_tasks (h : host.Sound keyOf) {before after : List EpochTask}
    (htasks : host.tasks = before ++ task :: after) (next : Option EpochTask)
    (hplane : host'.plane = host.plane) (hstored : host'.stored = host.stored)
    (hinstalling : host'.installing = host.installing)
    (htasks' : host'.tasks = before ++ (next.toList ++ after))
    (hgranted : task.Sound keyOf host → ∀ signed ∈ host'.granted, signed ∈ host.granted ∨ IsAcceptedKey keyOf host signed.manifest.epoch (keyOf signed))
    (hsound : task.Sound keyOf host → ∀ task ∈ next, task.Sound keyOf host) :
    host'.Sound keyOf := by
  have hextends : Extends keyOf host host' := .of_eq (by rw [hplane]) (by simp [hstored])
  have htask := h.tasks task (by simp [htasks])
  refine h.mono hextends (by rw [hplane]; exact h.epochs)
    (fun epoch key hkey => .inl (by rw [← hplane]; exact hkey)) (fun other hother => ?_)
    (fun pending hpending => .inl (by rw [← hinstalling]; exact hpending))
    fun signed hsigned => (hgranted htask signed hsigned).imp id fun h => h.mono hextends
  rw [htasks', mem_append, mem_append, Option.mem_toList] at hother
  rw [htasks, mem_append, mem_cons]
  rcases hother with hother | hother | hother
  · exact .inl (.inl hother)
  · exact .inr ((hsound htask other hother).mono hextends)
  · exact .inl (.inr (.inr hother))

/-- A call begins. -/
theorem EpochHost.Sound.cons_task (h : host.Sound keyOf) (htask : task.Sound keyOf host) :
    EpochHost.Sound keyOf { host with tasks := task :: host.tasks } := by
  refine h.mono (.of_eq rfl fun _ => id) h.epochs (fun _ _ => .inl) (fun other hother => ?_)
    (fun _ => .inl) fun _ => .inl
  rcases mem_cons.1 hother with rfl | hother
  · exact .inr htask
  · exact .inl hother

theorem of_createEpochManifest_epoch {input : EpochInput} {signed : SignedEpochManifest}
    (h : createEpochManifest options.codec options.epochCodec publisher.signDomain input =
      .ok signed) : signed.manifest.epoch = input.epoch := by
  obtain ⟨-, wraps, encoded, -, -, rfl⟩ := of_createEpochManifest h
  rfl

/-- A record that is ingested, apart from the key in it. -/
theorem EpochHost.Sound.ingested (h : host.Sound keyOf) {record : TransportRecord}
    (hagrees : Agreeing options keyOf host (.ingested record)) (hplane : host'.plane =
      finalState (ingest options.keyless record host.plane))
    (hstored : host'.stored = host.stored) (htasks : host'.tasks = host.tasks)
    (hgranted : host'.granted = host.granted)
    (hinstalling : ∀ pending, host'.installing = some pending →
      pendingKey options record host.plane = some pending) : host'.Sound keyOf := by
  rcases @ingest_keyless_cases options record host.plane with
    ⟨hsame, hhistorical⟩ | ⟨signed, hpending, hepoch, hkeys, hmanifests, hcurrent⟩
  · rw [← hplane] at hsame
    have hextends : Extends keyOf host host' := .of_eq hsame.epochManifests (by simp [hstored])
    refine h.mono hextends (fun epoch hsome => ?_) (fun epoch key hget => ?_)
      (fun _ htask => .inl (htasks ▸ htask)) (fun pending hinstall => ?_)
      fun _ hsigned => .inl (hgranted ▸ hsigned)
    · rw [hsame.epochManifests] at hsome
      rw [hsame.currentEpoch]
      exact h.epochs epoch hsome
    · exact .inl (hsame.contentKeys ▸ hget)
    · have hpending := hinstalling pending hinstall
      obtain ⟨htrue, hhas⟩ := hhistorical pending hpending
      have hagree := hagrees pending hpending
      rw [if_pos htrue] at hagree
      rcases hagree with hown | hagree
      · exact .inr ((h.granted pending.signed hown).mono hextends)
      · obtain ⟨accepted, haccepted⟩ := has_iff.1 hhas
        exact .inr ⟨accepted, hextends.accepted _ _ haccepted, hagree accepted haccepted⟩
  · rw [← hplane] at hkeys hmanifests hcurrent
    have hnew : ∀ epoch, (host.plane.epochManifests.get? epoch).isSome →
        epoch ≠ signed.manifest.epoch := by
      intro epoch hsome heq
      have hle := h.epochs epoch hsome
      omega
    have hagree := hagrees _ hpending
    have hextends : Extends keyOf host host' := by
      refine ⟨fun epoch accepted haccepted => ?_, by simp [hstored],
        fun epoch accepted hnone haccepted => ?_⟩
      · rw [hmanifests, get?_set_of_ne (hnew epoch (by simp [haccepted]))]
        exact haccepted
      · rw [hmanifests, get?_set] at haccepted
        split_ifs at haccepted with heq
        · cases haccepted
          intro stored hstored' hepoch'
          exact hagree stored hstored' (hepoch'.trans heq)
        · cases hnone.symm.trans haccepted
    refine h.mono hextends (fun epoch hsome => ?_) (fun epoch key hget => .inl (hkeys ▸ hget))
      (fun _ htask => .inl (htasks ▸ htask)) (fun pending hinstall => ?_)
      fun _ hsigned => .inl (hgranted ▸ hsigned)
    · rw [hmanifests, get?_set] at hsome
      rw [hcurrent]
      split_ifs at hsome with heq
      · exact heq.le
      · have hle := h.epochs epoch hsome
        omega
    · cases hpending.symm.trans (hinstalling pending hinstall)
      refine .inr ⟨signed, ?_, rfl⟩
      rw [hmanifests]
      exact get?_set_self _ _ _

theorem EpochHost.Sound.step (h : host.Sound keyOf) (hwraps : WrapsKey options publisher keyOf)
    {event : EpochEvent} (hstep : EpochStep options publisher host event host')
    (hagrees : Agreeing options keyOf host event) : host'.Sound keyOf := by
  cases hstep with
  | rotateEpoch rootPrivateKey contentKey now howner => exact h.cons_task trivial
  | grantHistoricalAccess subjectId rootPrivateKey howner hreader =>
    exact h.cons_task fun entry hentry =>
      h.keys entry.1 entry.2 (mem_entries_iff.1 (mem_mergeSort.1 hentry))
  | publish htasks _ _ _ | drop htasks =>
    refine h.of_tasks htasks none rfl rfl rfl rfl (fun _ _ => .inl) ?_
    rintro - _ ⟨⟩
  | @skip before after grant epoch key keys htasks hnone =>
    refine h.of_tasks htasks (some (.granting grant keys)) rfl rfl rfl rfl (fun _ _ => .inl) ?_
    rintro hsound _ ⟨⟩
    exact fun entry hentry => hsound entry (mem_cons_of_mem _ hentry)
  | @next before after grant epoch key keys original now htasks horiginal =>
    refine h.of_tasks htasks (some _) rfl rfl rfl rfl (fun _ _ => .inl) ?_
    rintro hsound _ ⟨⟩
    refine ⟨?_, fun entry hentry => hsound entry (mem_cons_of_mem _ hentry)⟩
    -- The manifest is accepted by now, so the key is the accepted one's.
    rcases hsound (epoch, key) mem_cons_self with haccepted | ⟨hnone, -⟩
    · exact haccepted
    · cases hnone.symm.trans horiginal
  | @create before after grant input signed keys htasks hcreate =>
    refine h.of_tasks htasks (some (.offering grant signed keys)) rfl rfl rfl rfl (fun _ _ => .inl) ?_
    rintro hsound _ ⟨⟩
    refine ⟨?_, hsound.2⟩
    rw [of_createEpochManifest_epoch hcreate, hwraps.created input signed hcreate]
    exact hsound.1
  | @publishHistorical before after grant signed keys body envelope id now htasks hbody henvelope hnew =>
    refine h.of_tasks htasks (some (.awaiting grant id keys)) rfl rfl rfl rfl
      (fun hsound other hother => ?_) ?_
    · rcases mem_cons.1 hother with rfl | hother
      · exact .inr hsound.1
      · exact .inl hother
    · rintro hsound _ ⟨⟩
      exact hsound.2
  | @resume before after grant id keys htasks hingested =>
    refine h.of_tasks htasks (some (.granting grant keys)) rfl rfl rfl rfl (fun _ _ => .inl) ?_
    rintro hsound _ ⟨⟩
    exact hsound
  | @store before after input signed htasks hcreate =>
    have hepoch := of_createEpochManifest_epoch hcreate
    have hkey : input.contentKey = keyOf signed := (hwraps.created input signed hcreate).symm
    refine h.mono (.of_eq rfl fun _ hstored => mem_cons_of_mem _ hstored) h.epochs
      (fun epoch key hget => ?_) (fun task htask => ?_) (fun _ hpending => .inl hpending)
      fun _ hsigned => .inl hsigned
    · rw [get?_set] at hget
      split_ifs at hget with heq
      · cases hget
        refine .inr ?_
        rw [heq]
        cases haccepted : host.plane.epochManifests.get? input.epoch with
        | none => exact .inr ⟨haccepted, signed, mem_cons_self, hepoch, hkey⟩
        | some accepted =>
          exact .inl ⟨accepted, haccepted, hkey.trans (hagrees accepted (hepoch ▸ haccepted))⟩
      · exact .inl hget
    · rcases mem_append.1 htask with htask | htask
      · exact .inl (by simp [htasks, htask])
      · rcases mem_cons.1 htask with rfl | htask
        · exact .inr trivial
        · exact .inl (by simp [htasks, htask])
  | ingest record hidle hpending =>
    refine h.ingested hagrees rfl rfl rfl rfl fun pending hinstalling => ?_
    cases hidle.symm.trans hinstalling
  | accept record hidle hpending =>
    refine h.ingested hagrees rfl rfl rfl rfl fun pending hinstalling => ?_
    exact hpending.trans hinstalling
  | @install pending hinstalling =>
    obtain ⟨accepted, haccepted, hkeyOf⟩ := h.installing pending hinstalling
    obtain ⟨hmanifests, hcurrent, hkeys⟩ :=
      @installEpochKey_epochs options pending.signed pending.historical host.plane
    refine h.mono (.of_eq hmanifests fun _ => id) (fun epoch hsome => ?_) (fun epoch key hget => ?_)
      (fun _ => .inl) (fun _ hnone => ?_) fun _ => .inl
    · exact hcurrent ▸ h.epochs epoch (hmanifests ▸ hsome)
    · refine (hkeys epoch key hget).imp id ?_
      rintro ⟨rfl, unwrapEpochKey, hunwrap, hkey⟩
      rw [hwraps.unwrapped unwrapEpochKey hunwrap _ _ _ hkey]
      exact .inl ⟨accepted, hmanifests ▸ haccepted, hkeyOf⟩
    · cases hnone

/-- A step in which the keys agree. -/
def AgreeingStep (options : GovernanceControlPlaneOptions) (publisher : GovernancePublisher)
    (keyOf : SignedEpochManifest → Bytes) (host host' : EpochHost) : Prop :=
  ∃ event, EpochStep options publisher host event host' ∧ Agreeing options keyOf host event

/-- In a run in which the keys agree a historical manifest that was published wraps the key of the
    manifest that is accepted for its epoch. -/
theorem wraps_accepted_key {plane : GovernanceState} (hwraps : WrapsKey options publisher keyOf)
    (hcreate : create options = .ok plane)
    (hrun : ReflTransGen (AgreeingStep options publisher keyOf) { plane } host) :
    ∀ signed ∈ host.granted, ∃ accepted,
      host.plane.epochManifests.get? signed.manifest.epoch = some accepted ∧
        keyOf signed = keyOf accepted := by
  have hstart : EpochHost.Sound keyOf { plane } := by
    obtain ⟨snapshot, -, hplane⟩ := bind_eq_ok_iff.1 hcreate
    cases hplane
    exact ⟨nofun, nofun, nofun, nofun, nofun⟩
  have hsound : host.Sound keyOf := Reachable.invariant
    (fun h ⟨_, hstep, hagrees⟩ => h.step hwraps hstep hagrees) hrun hstart
  exact hsound.granted

end Keys

/-! ## Samples -/

namespace RacingRotations

open SmallLog (genesis governance key)

/-- The first epoch with a content key, which is sealed to subject 1, an auditor. -/
def manifest (contentKey : Bytes) : SignedEpochManifest :=
  ⟨⟨[0], 0, none, 0, [⟨[1], key 3, key 3, contentKey⟩]⟩, key 7, key 7⟩

def options : GovernanceControlPlaneOptions :=
  governance (.ofTables [] [] [] [] []) (genesis [TwiceReader.reads .audit 0]) [] []
    [([31], manifest (key 4))]

def publisher : GovernancePublisher := SmallLog.publisher [] []

/-- The control plane at the start. -/
def created : GovernanceState :=
  okValue (create options) (by decide +kernel)

/-- Keys are sealed by showing them. -/
def keyOf (signed : SignedEpochManifest) : Bytes :=
  ((signed.manifest.wraps.head?.map EpochKeyWrap.ciphertext).getD [])

theorem sealWraps_head {input : EpochInput} {previous : Option EpochRecipient}
    {recipients : List EpochRecipient} {wraps : List EpochKeyWrap} (hne : recipients ≠ [])
    (h : sealWraps options.codec options.epochCodec input previous recipients = .ok wraps) :
    wraps.head?.map EpochKeyWrap.ciphertext = some input.contentKey := by
  cases recipients with
  | nil => exact absurd rfl hne
  | cons recipient recipients =>
    rw [sealWraps] at h
    split_ifs at h
    · exact absurd h error_bind_ne_ok
    · obtain ⟨⟨encapsulatedKey, ciphertext⟩, hseal, h⟩ := bind_eq_ok_iff.1 h
      obtain ⟨rest, -, h⟩ := bind_eq_ok_iff.1 h
      cases h
      obtain ⟨-, rfl⟩ := Prod.mk.inj (Except.ok.inj hseal)
      rfl

theorem wrapsKey : WrapsKey options publisher keyOf where
  created input signed h := by
    rw [createEpochManifest] at h
    split_ifs at h
    · exact absurd h error_bind_ne_ok
    dsimp only at h
    split_ifs at h with hempty
    · exact absurd h error_bind_ne_ok
    obtain ⟨wraps, hwraps, h⟩ := bind_eq_ok_iff.1 h
    obtain ⟨encoded, -, h⟩ := bind_eq_ok_iff.1 h
    cases h
    simp only [keyOf]
    rw [sealWraps_head (by simpa using hempty) hwraps]
    rfl
  unwrapped _ h := by cases h

/-- The record of the accepted manifest. -/
def record : TransportRecord := ⟨"b", "g", 1, none, some 0, [31]⟩

/-- What a rotation with a content key is made of. -/
def input (contentKey : Bytes) : EpochInput :=
  epochInput (key 7) contentKey 0 created

/-- The control plane when the key of the manifest is stored. -/
def ready : GovernanceState :=
  { created with contentKeys := created.contentKeys.set (input (key 4)).epoch (key 4) }

/-- The control plane after the record. -/
def accepted : GovernanceState :=
  finalState (ingest options.keyless record ready)

/-- A rotation that is under way besides other calls. -/
def rotating (others : List EpochTask) : EpochHost where
  plane := created
  tasks := .creating (input (key 4)) :: others

/-- Its manifest is accepted. -/
def rotated (others : List EpochTask) : EpochHost where
  plane := accepted
  tasks := others
  history := [record]
  ingested := insert "b" ∅
  stored := [manifest (key 4)]

theorem agreeing_rotated (others : List EpochTask) :
    ReflTransGen (AgreeingStep options publisher keyOf) (rotating others) (rotated others) := by
  have hpending : pendingKey options record ready =
      some ⟨"b", manifest (key 4), false⟩ := by
    decide +kernel
  refine .head ⟨_, @EpochStep.store options publisher (rotating others) [] others (input (key 4))
      (manifest (key 4)) rfl (toOption_eq_some_iff.1 (by decide +kernel)), fun accepted h => ?_⟩ <|
    .head ⟨_, @EpochStep.publish options publisher _ [] others (manifest (key 4)) [31] [31] "b" 0 rfl
      (toOption_eq_some_iff.1 (by decide +kernel)) (toOption_eq_some_iff.1 (by decide +kernel))
      nofun, trivial⟩ <|
    .head ⟨_, .accept record rfl hpending, fun pending h => ?_⟩ <|
    .single ⟨_, @EpochStep.install options publisher _ ⟨"b", manifest (key 4), false⟩ rfl, trivial⟩
  · cases (by decide +kernel : created.epochManifests.get? 0 = none).symm.trans h
  · cases hpending.symm.trans h
    intro signed hsigned _
    rw [mem_singleton.1 hsigned]

/-- The auditor and the root. -/
def grant : HistoricalGrant := ⟨⟨[1], key 3⟩, key 7⟩

/-- The auditor's manifest of the epoch is published, with the key that is in the table. -/
def audited (host : EpochHost) (contentKey : Bytes) : EpochHost :=
  { host with
    tasks := .awaiting grant "c" [] :: host.tasks
    history := host.history ++ [host.nextRecord publisher [31] "c" 0]
    granted := manifest contentKey :: host.granted }

theorem agreeing_audited {host : EpochHost} {contentKey : Bytes}
    (hsnapshot : host.plane.snapshot = created.snapshot)
    (hkeys : host.plane.contentKeys.entries = [(0, contentKey)])
    (hmanifest : host.plane.epochManifests.get? 0 = some (manifest (key 4)))
    (hcreate : createEpochManifest options.codec options.epochCodec publisher.signDomain
      (historicalInput created (manifest (key 4)) 0 contentKey grant.recipient
        grant.rootPrivateKey 0) = .ok (manifest contentKey))
    (hbody : encodeSignedEpochManifest options.codec (manifest contentKey) = .ok [31])
    (hnew : ∀ record ∈ host.history, record.id ≠ "c") :
    ReflTransGen (AgreeingStep options publisher keyOf) host (audited host contentKey) := by
  obtain ⟨reader, hreader, hrecipient⟩ : ∃ reader,
      auditReader created.snapshot [1] = some reader ∧
        reader.recipient = grant.recipient := by
    refine ⟨_, Option.get_mem (by decide +kernel), by decide +kernel⟩
  have hsorted : sortedKeys host.plane = [(0, contentKey)] := by
    rw [sortedKeys, hkeys, mergeSort_singleton]
  have hgrant := @EpochStep.grantHistoricalAccess options publisher host reader [1] (key 7)
    (by
      rw [assertCapabilityFeedOwner, hsnapshot]
      exact toOption_eq_some_iff.1 (by decide +kernel))
    (by rw [hsnapshot]; exact hreader)
  rw [hrecipient, hsorted] at hgrant
  have hnext := @EpochStep.next options publisher
    { host with tasks := .granting grant [(0, contentKey)] :: host.tasks } [] host.tasks grant 0
    contentKey [] (manifest (key 4)) 0 rfl hmanifest
  have hinput : historicalInput host.plane (manifest (key 4)) 0 contentKey
      grant.recipient grant.rootPrivateKey 0 =
      historicalInput created (manifest (key 4)) 0 contentKey
        grant.recipient grant.rootPrivateKey 0 := by
    simp only [historicalInput, hsnapshot]
  have hcreated := @EpochStep.create options publisher
    { host with
      tasks := .sealing grant (historicalInput host.plane (manifest (key 4)) 0
        contentKey grant.recipient grant.rootPrivateKey 0) [] :: host.tasks } [] host.tasks grant _
    (manifest contentKey) [] rfl (by rw [hinput]; exact hcreate)
  have hpublish := @EpochStep.publishHistorical options publisher
    { host with tasks := .offering grant (manifest contentKey) [] :: host.tasks } [] host.tasks grant
    (manifest contentKey) [] [31] [31] "c" 0 rfl hbody (toOption_eq_some_iff.1 rfl) hnew
  exact (((ReflTransGen.single ⟨_, hgrant, trivial⟩).tail ⟨_, hnext, trivial⟩).tail
    ⟨_, hcreated, trivial⟩).tail ⟨_, hpublish, trivial⟩

theorem owner_created : assertCapabilityFeedOwner options publisher created = .ok () :=
  toOption_eq_some_iff.1 (by decide +kernel)

theorem accepted_eq : accepted.snapshot = created.snapshot ∧
    accepted.contentKeys.entries = [(0, key 4)] ∧
    accepted.epochManifests.get? 0 = some (manifest (key 4)) := by
  decide +kernel

/-- With one rotation the auditor gets the key of the epoch. -/
theorem audited_wraps_accepted_key :
    ∃ host, ReflTransGen (AgreeingStep options publisher keyOf) { plane := created } host ∧
      manifest (key 4) ∈ host.granted ∧ ∀ signed ∈ host.granted, ∃ accepted,
        host.plane.epochManifests.get? signed.manifest.epoch = some accepted ∧
          keyOf signed = keyOf accepted := by
  have hrotating : ReflTransGen (AgreeingStep options publisher keyOf) { plane := created }
      (rotating []) :=
    .single ⟨.other, .rotateEpoch (key 7) (key 4) 0 owner_created, trivial⟩
  have haudited : ReflTransGen (AgreeingStep options publisher keyOf) (rotated [])
      (audited (rotated []) (key 4)) :=
    agreeing_audited accepted_eq.1 accepted_eq.2.1 accepted_eq.2.2
      (toOption_eq_some_iff.1 (by decide +kernel)) (toOption_eq_some_iff.1 (by decide +kernel))
      (by decide)
  have hrun := (hrotating.trans (agreeing_rotated [])).trans haudited
  exact ⟨_, hrun, mem_cons_self, wraps_accepted_key wrapsKey (eq_ok_okValue _ _) hrun⟩

/-- Of two rotations for one epoch the slower one stores its key when the other's manifest is accepted.
    The auditor gets that key. -/
theorem wraps_other_key : WrapsKey options publisher keyOf ∧ create options = .ok created ∧
      ∃ host, ReflTransGen (fun host host' => ∃ event, EpochStep options publisher host event host')
          { plane := created } host ∧ ∃ signed ∈ host.granted, ∃ accepted,
          host.plane.epochManifests.get? signed.manifest.epoch = some accepted ∧
            keyOf signed ≠ keyOf accepted := by
  let slower : EpochTask := .creating (input (key 2))
  let late : EpochHost :=
    { rotated [slower] with
      plane := { accepted with
        contentKeys := accepted.contentKeys.set (input (key 2)).epoch (key 2) }
      tasks := [.publishing (manifest (key 2))]
      stored := [manifest (key 2), manifest (key 4)] }
  have hslower : EpochStep options publisher { plane := created } .other
      { plane := created, tasks := [slower] } :=
    .rotateEpoch (key 7) (key 2) 0 owner_created
  have hfaster : EpochStep options publisher { plane := created, tasks := [slower] } .other
      (rotating [slower]) :=
    .rotateEpoch (key 7) (key 4) 0 owner_created
  have hlate : EpochStep options publisher (rotated [slower]) (.stored (manifest (key 2))) late :=
    @EpochStep.store options publisher (rotated [slower]) [] [] (input (key 2)) (manifest (key 2)) rfl
      (toOption_eq_some_iff.1 (by decide +kernel))
  have haudited : ReflTransGen (AgreeingStep options publisher keyOf) late (audited late (key 2)) :=
    agreeing_audited accepted_eq.1 (by decide +kernel) accepted_eq.2.2
      (toOption_eq_some_iff.1 (by decide +kernel)) (toOption_eq_some_iff.1 (by decide +kernel))
      (by decide)
  have hplain : ∀ {host host' : EpochHost},
      ReflTransGen (AgreeingStep options publisher keyOf) host host' →
        ReflTransGen (fun host host' => ∃ event, EpochStep options publisher host event host')
          host host' :=
    fun hrun => hrun.lift id fun _ _ ⟨event, hstep, _⟩ => ⟨event, hstep⟩
  have hrotated := (((ReflTransGen.single ⟨_, hslower⟩).tail ⟨_, hfaster⟩).trans
    (hplain (agreeing_rotated [slower]))).tail ⟨_, hlate⟩
  exact ⟨wrapsKey, eq_ok_okValue _ _, _, hrotated.trans (hplain haudited), _, mem_cons_self, _,
    accepted_eq.2.2, by decide⟩

end RacingRotations

end Chronolog
