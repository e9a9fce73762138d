import Chronolog.NodeCore.Wire
import Chronolog.Lib.Procedure
import Mathlib.Data.List.Chain
import Mathlib.Data.List.Sort

/-!
# Encryption epochs

The content key of an encryption epoch is sealed to each reader, and the manifest
of the epoch carries the sealed keys. A manifest has a recipient, and none twice:
both `createEpochManifest` and the encoding of a manifest refuse a repetition
(`of_createEpochManifest`, `createEpochManifest_of_nodup`).
-/

namespace Chronolog

open Procedure List Canonical

/-- A reader to whom the key of an epoch is sealed. -/
structure EpochRecipient where
  recipientId : Bytes
  publicKey : Bytes
  deriving DecidableEq

/-- The key of an epoch, sealed to a reader. -/
structure EpochKeyWrap where
  recipientId : Bytes
  recipientPublicKey : Bytes
  encapsulatedKey : Bytes
  ciphertext : Bytes
  deriving DecidableEq

/-- The manifest of an encryption epoch. (Its suite is always the one below.) -/
structure EpochManifest where
  groupId : Bytes
  epoch : Int
  previousEpochDigest : Option Bytes
  createdAtMs : Int
  wraps : List EpochKeyWrap
  deriving DecidableEq

structure SignedEpochManifest where
  manifest : EpochManifest
  signerPublicKey : Bytes
  signature : Bytes
  deriving DecidableEq

/-- The source's `HPKE_SUITE`. -/
def hpkeSuite : String := "DHKEM(X25519,HKDF-SHA256)/HKDF-SHA256/AES-256-GCM"

/-- The cryptography and the decoding of epochs. A failure is the message of the error thrown. -/
structure EpochCodec where
  decodeSignedEpochManifest : Bytes → Except String SignedEpochManifest
  /-- The canonical CBOR of an epoch. -/
  epochId : Int → Bytes
  /-- What the cipher of a key and an epoch opens a payload to. -/
  openPayload : (key : Bytes) → (epoch : Int) → (ciphertext associatedData : Bytes) →
    Except String Bytes
  /-- The encapsulated key and the ciphertext of a key sealed to a public key. -/
  hpkeSealBase : (publicKey plaintext info associatedData : Bytes) → Except String (Bytes × Bytes)

section Manifest

variable (codec : Codec)

/-- A list sorted by the ids of recipients. -/
def sortByRecipient {α : Type} (recipientId : α → Bytes) (l : List α) : List α :=
  l.mergeSort fun a b => decide (BytesLe (recipientId a) (recipientId b))

def wrapContext (groupId : Bytes) (epoch : Int) (previous : Option Bytes) (recipientId : Bytes) :
    Bytes :=
  codec.encodeCanonicalCbor (.map [(.integer 0, .bytes groupId), (.integer 1, .integer epoch),
    (.integer 2, previous.elim .null .bytes), (.integer 3, .bytes recipientId),
    (.integer 4, .text hpkeSuite)])

def wrapToCbor (value : EpochKeyWrap) : CborValue :=
  .map [(.integer 0, .bytes value.recipientId), (.integer 1, .bytes value.recipientPublicKey),
    (.integer 2, .bytes value.encapsulatedKey), (.integer 3, .bytes value.ciphertext)]

/-- The values of neighbours of a list are checked in turn. -/
def checkNeighbours {α : Type} (recipientId : α → Bytes) (message : String) :
    List α → Except ProtocolError Unit
  | a :: b :: l => do
    protocolInvariant (compareBytes (recipientId a) (recipientId b) ≠ .eq) .schemaInvalid message
    checkNeighbours recipientId message (b :: l)
  | _ => .ok ()

/-- The CBOR of a manifest. -/
def manifestToCbor (value : EpochManifest) : Except ProtocolError CborValue := do
  protocolInvariant (0 ≤ value.epoch) .integerOutOfRange "Encryption epoch cannot be negative"
  protocolInvariant (0 < value.wraps.length) .schemaInvalid
    "Epoch manifest requires at least one recipient"
  let sorted := sortByRecipient EpochKeyWrap.recipientId value.wraps
  checkNeighbours EpochKeyWrap.recipientId "Epoch manifest contains duplicate recipient" sorted
  return .map [(.integer 0, .integer 1), (.integer 1, .bytes value.groupId),
    (.integer 2, .integer value.epoch), (.integer 3, value.previousEpochDigest.elim .null .bytes),
    (.integer 4, .text hpkeSuite), (.integer 5, .integer value.createdAtMs),
    (.integer 6, .array (sorted.map wrapToCbor))]

def encodeEpochManifest (value : EpochManifest) : Except String Bytes :=
  ((manifestToCbor value).mapError (·.message)).map codec.encodeCanonicalCbor

def encodeSignedEpochManifest (value : SignedEpochManifest) : Except String Bytes := do
  return codec.encodeCanonicalCbor (.map [(.integer 0, .integer 1),
    (.integer 1, .bytes (← encodeEpochManifest codec value.manifest)),
    (.integer 2, .bytes value.signerPublicKey), (.integer 3, .bytes value.signature)])

/-- Was the manifest signed by the trusted signer? -/
def verifyEpochManifest (signed : SignedEpochManifest) (trustedSigner : Bytes) :
    Except String Bool := do
  if signed.signerPublicKey ≠ trustedSigner then return false
  return codec.verifyDomain .epochManifest (← encodeEpochManifest codec signed.manifest)
    signed.signature trustedSigner

/-- What an epoch is made of. -/
structure EpochInput where
  groupId : Bytes
  epoch : Int
  previousEpochDigest : Option Bytes
  createdAtMs : Int
  recipients : List EpochRecipient
  signerPublicKey : Bytes
  signerPrivateKey : Bytes
  /-- The key that is given or drawn at random. -/
  contentKey : Bytes

variable (epochCodec : EpochCodec)

/-- The key sealed to the recipients in turn, each of which must differ from the one before. -/
def sealWraps (input : EpochInput) :
    Option EpochRecipient → List EpochRecipient → Except String (List EpochKeyWrap)
  | _, [] => .ok []
  | previous, recipient :: recipients => do
    if previous.any fun previous =>
        compareBytes previous.recipientId recipient.recipientId = .eq then
      .error "Epoch recipients must be unique"
    let context := wrapContext codec input.groupId input.epoch input.previousEpochDigest
      recipient.recipientId
    let (encapsulatedKey, ciphertext) ←
      epochCodec.hpkeSealBase recipient.publicKey input.contentKey context context
    let wraps ← sealWraps input (some recipient) recipients
    return ⟨recipient.recipientId, recipient.publicKey, encapsulatedKey, ciphertext⟩ :: wraps

/-- The signed manifest of a new epoch. -/
def createEpochManifest (signDomain : ProtocolDomain → (payload privateKey : Bytes) → Bytes)
    (input : EpochInput) : Except String SignedEpochManifest := do
  if input.contentKey.length ≠ 32 then .error "Epoch content key must contain 32 bytes"
  let recipients := sortByRecipient EpochRecipient.recipientId input.recipients
  if recipients.isEmpty then .error "Epoch requires at least one reader recipient"
  let wraps ← sealWraps codec epochCodec input none recipients
  let manifest : EpochManifest :=
    ⟨input.groupId, input.epoch, input.previousEpochDigest, input.createdAtMs, wraps⟩
  return ⟨manifest, input.signerPublicKey,
    signDomain .epochManifest (← encodeEpochManifest codec manifest) input.signerPrivateKey⟩

end Manifest

/-! ## Recipients of an epoch -/

section Recipients

variable {codec : Codec} {epochCodec : EpochCodec} {input : EpochInput}
  {signDomain : ProtocolDomain → (payload privateKey : Bytes) → Bytes} {α : Type}

theorem sortByRecipient_perm (recipientId : α → Bytes) (l : List α) :
    (sortByRecipient recipientId l).Perm l :=
  mergeSort_perm _ _

theorem pairwise_sortByRecipient (recipientId : α → Bytes) (l : List α) :
    (sortByRecipient recipientId l).Pairwise fun a b =>
      BytesLe (recipientId a) (recipientId b) := by
  have h := @pairwise_mergeSort α (fun a b => decide (BytesLe (recipientId a) (recipientId b)))
    (fun a b c hab hbc => by
      simp only [decide_eq_true_eq] at hab hbc ⊢
      exact IsTrans.trans _ _ _ hab hbc)
    (fun a b => by
      simp only [Bool.or_eq_true, decide_eq_true_eq]
      exact Std.Total.total _ _) l
  exact h.imp fun hab => by simpa using hab

variable {recipientId : α → Bytes}

/-- Whether a sorted list repeats an id shows at its neighbours. -/
theorem nodup_iff_isChain_of_sorted {l : List α}
    (h : l.Pairwise fun a b => BytesLe (recipientId a) (recipientId b)) :
    (l.map recipientId).Nodup ↔ l.IsChain fun a b => recipientId a ≠ recipientId b := by
  constructor
  · intro hnodup
    exact ((pairwise_map).1 hnodup).isChain
  · intro hchain
    induction l with
    | nil => exact nodup_nil
    | cons a l ih =>
      rw [pairwise_cons] at h
      rw [isChain_cons] at hchain
      refine nodup_cons.2 ⟨fun hmem => ?_, ih h.2 hchain.2⟩
      -- An equal id further on would be equal to the one in between.
      cases l with
      | nil => cases hmem
      | cons b l =>
        obtain ⟨c, hc, hid⟩ := mem_map.1 hmem
        refine hchain.1 b rfl (Std.Antisymm.antisymm (r := BytesLe) _ _ (h.1 b mem_cons_self) ?_)
        rcases mem_cons.1 hc with rfl | hc
        · rw [hid]
          exact Std.Refl.refl _
        · rw [← hid]
          exact (pairwise_cons.1 h.2).1 c hc

theorem checkNeighbours_eq_ok_iff {message : String} {l : List α} {u : Unit} :
    checkNeighbours recipientId message l = .ok u ↔
      l.IsChain fun a b => recipientId a ≠ recipientId b := by
  induction l with
  | nil => simp [checkNeighbours]
  | cons a l ih =>
    cases l with
    | nil => simp [checkNeighbours]
    | cons b l =>
      rw [checkNeighbours, bind_eq_ok_iff, isChain_cons_cons, ← ih]
      simp only [protocolInvariant_eq_ok_iff, decide_eq_true_eq, ne_eq,
        Std.LawfulEqCmp.compare_eq_iff_eq]
      exact ⟨fun ⟨_, hne, hrest⟩ => ⟨hne, hrest⟩, fun ⟨hne, hrest⟩ => ⟨(), hne, hrest⟩⟩

/-- The recipient of a sealed key. -/
def EpochKeyWrap.recipient (wrap : EpochKeyWrap) : EpochRecipient :=
  ⟨wrap.recipientId, wrap.recipientPublicKey⟩

variable {previous : Option EpochRecipient} {l : List EpochRecipient}

theorem of_sealWraps {wraps : List EpochKeyWrap}
    (h : sealWraps codec epochCodec input previous l = .ok wraps) :
    (previous.toList ++ l).IsChain (fun a b => a.recipientId ≠ b.recipientId) ∧
      wraps.map EpochKeyWrap.recipient = l := by
  induction l generalizing previous wraps with
  | nil =>
    cases h
    cases previous <;> simp
  | cons recipient l ih =>
    rw [sealWraps] at h
    split_ifs at h with hrepeats
    · exact absurd h error_bind_ne_ok
    obtain ⟨⟨encapsulatedKey, ciphertext⟩, -, h⟩ := bind_eq_ok_iff.1 h
    obtain ⟨rest, hrest, h⟩ := bind_eq_ok_iff.1 h
    cases h
    obtain ⟨hchain, hwraps⟩ := ih hrest
    refine ⟨?_, by rw [map_cons, hwraps]; rfl⟩
    cases previous with
    | none => exact hchain
    | some previous =>
      refine isChain_cons_cons.2 ⟨?_, hchain⟩
      simpa using hrepeats

theorem sealWraps_of_isChain
    (hseal : ∀ recipient ∈ l, ∀ context, ∃ sealed, epochCodec.hpkeSealBase recipient.publicKey input.contentKey context context = .ok sealed)
    (hchain : (previous.toList ++ l).IsChain fun a b => a.recipientId ≠ b.recipientId) :
    ∃ wraps, sealWraps codec epochCodec input previous l = .ok wraps := by
  induction l generalizing previous with
  | nil => exact ⟨[], rfl⟩
  | cons recipient l ih =>
    have hnew : ¬ previous.any fun previous =>
        compareBytes previous.recipientId recipient.recipientId = .eq := by
      cases previous with
      | none => simp
      | some previous => simpa using (isChain_cons_cons.1 hchain).1
    have hrest : ((some recipient).toList ++ l).IsChain fun a b =>
        a.recipientId ≠ b.recipientId := by
      cases previous with
      | none => exact hchain
      | some previous => exact (isChain_cons_cons.1 hchain).2
    obtain ⟨sealed, hsealed⟩ := hseal recipient mem_cons_self (wrapContext codec input.groupId
      input.epoch input.previousEpochDigest recipient.recipientId)
    obtain ⟨wraps, hwraps⟩ := ih (fun r hr => hseal r (mem_cons_of_mem _ hr)) hrest
    refine ⟨⟨recipient.recipientId, recipient.publicKey, sealed.1, sealed.2⟩ :: wraps, ?_⟩
    rw [sealWraps, if_neg hnew]
    simp only [hsealed, hwraps, bind, Except.bind, pure, Except.pure]

/-- A manifest that is created has the recipients, each once, in the order of
    their ids, and is signed. -/
theorem of_createEpochManifest {signed : SignedEpochManifest}
    (h : createEpochManifest codec epochCodec signDomain input = .ok signed) :
    (input.recipients.map EpochRecipient.recipientId).Nodup ∧
      ∃ wraps encoded, wraps.map EpochKeyWrap.recipient =
          sortByRecipient EpochRecipient.recipientId input.recipients ∧
        encodeEpochManifest codec ⟨input.groupId, input.epoch, input.previousEpochDigest,
          input.createdAtMs, wraps⟩ = .ok encoded ∧
        signed = ⟨⟨input.groupId, input.epoch, input.previousEpochDigest, input.createdAtMs, wraps⟩,
          input.signerPublicKey, signDomain .epochManifest encoded input.signerPrivateKey⟩ := by
  rw [createEpochManifest] at h
  split_ifs at h
  · exact absurd h error_bind_ne_ok
  dsimp only at h
  split_ifs at h
  · exact absurd h error_bind_ne_ok
  obtain ⟨wraps, hwraps, h⟩ := bind_eq_ok_iff.1 h
  obtain ⟨encoded, hencoded, h⟩ := bind_eq_ok_iff.1 h
  obtain ⟨hchain, hmap⟩ := of_sealWraps hwraps
  refine ⟨?_, wraps, encoded, hmap, hencoded, (Except.ok.inj h).symm⟩
  have hsorted := (nodup_iff_isChain_of_sorted (pairwise_sortByRecipient _ input.recipients)).2 hchain
  exact ((sortByRecipient_perm _ _).map _).nodup_iff.1 hsorted

/-- The manifest can be encoded. -/
theorem encodeEpochManifest_of_nodup {manifest : EpochManifest} (hepoch : 0 ≤ manifest.epoch)
    (hwraps : manifest.wraps ≠ []) (hnodup : (manifest.wraps.map EpochKeyWrap.recipientId).Nodup) :
    ∃ encoded, encodeEpochManifest codec manifest = .ok encoded := by
  have hcheck : checkNeighbours EpochKeyWrap.recipientId
      "Epoch manifest contains duplicate recipient"
      (sortByRecipient EpochKeyWrap.recipientId manifest.wraps) = .ok () := by
    refine checkNeighbours_eq_ok_iff.2 ((nodup_iff_isChain_of_sorted
      (pairwise_sortByRecipient _ _)).1 ?_)
    exact ((sortByRecipient_perm _ _).map _).nodup_iff.2 hnodup
  have hlength : 0 < manifest.wraps.length := length_pos_iff.2 hwraps
  simp only [encodeEpochManifest, manifestToCbor, hcheck, hepoch, hlength, decide_true,
    protocolInvariant_true, bind, Except.bind, pure, Except.pure, Except.map]
  exact ⟨_, rfl⟩

/-- An epoch can be created for recipients that differ. -/
theorem createEpochManifest_of_nodup (hkey : input.contentKey.length = 32)
    (hepoch : 0 ≤ input.epoch) (hne : input.recipients ≠ [])
    (hnodup : (input.recipients.map EpochRecipient.recipientId).Nodup)
    (hseal : ∀ recipient ∈ input.recipients, ∀ context, ∃ sealed,
      epochCodec.hpkeSealBase recipient.publicKey input.contentKey context context = .ok sealed) :
    ∃ signed, createEpochManifest codec epochCodec signDomain input = .ok signed := by
  have hperm := sortByRecipient_perm EpochRecipient.recipientId input.recipients
  have hsorted : ((sortByRecipient EpochRecipient.recipientId input.recipients).map
      EpochRecipient.recipientId).Nodup := (hperm.map _).nodup_iff.2 hnodup
  have hsome : (sortByRecipient EpochRecipient.recipientId input.recipients).isEmpty = false := by
    rw [isEmpty_eq_false_iff]
    exact fun hnil => hne (perm_nil.1 (hnil ▸ hperm.symm))
  obtain ⟨wraps, hwraps⟩ := @sealWraps_of_isChain codec epochCodec input none
    (sortByRecipient EpochRecipient.recipientId input.recipients)
    (fun recipient hrecipient => hseal recipient (hperm.mem_iff.1 hrecipient))
    ((nodup_iff_isChain_of_sorted (pairwise_sortByRecipient _ _)).1 hsorted)
  obtain ⟨-, hmap⟩ := of_sealWraps hwraps
  obtain ⟨encoded, hencoded⟩ := @encodeEpochManifest_of_nodup codec ⟨input.groupId, input.epoch,
    input.previousEpochDigest, input.createdAtMs, wraps⟩ hepoch
    (fun hnil => by simp only at hnil; subst hnil; rw [← hmap] at hsome; simp at hsome)
    (by rw [← hmap, map_map] at hsorted; exact hsorted)
  simp only [createEpochManifest, hkey, hsome, hwraps, hencoded, bind, Except.bind, pure,
    ne_eq, Bool.false_eq_true]
  exact ⟨_, rfl⟩

end Recipients

end Chronolog
