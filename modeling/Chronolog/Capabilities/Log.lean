import Chronolog.Capabilities.Reducer
import Mathlib.Data.Finset.Card
import Mathlib.Data.List.Sort

/-!
# Logs and recovery records

The revisions of a log go by their numbers, so the snapshot after a log does not
depend on the order in which they come: no log with two revisions of one number is
accepted (`pairwise_of_foldlM`), so the order of those that are is that of their
numbers (`reduceCapabilityLog_perm`).

The signatures of a recovery are combined before they are verified, and of several
signatures with one key index the last one is kept. What is verified is thus the
number of the keys whose last signature is valid (`verifyRecoveryRecord_combine`); a
signature that is not valid hides a valid one that comes before it.
-/

namespace Chronolog

open Procedure List

/-! ## Logs -/

/-- A revision is read back with its number. -/
def CapabilityCodec.KeepsNumbers (codec : CapabilityCodec) : Prop :=
  ∀ revision revision' encoded, codec.encodeCapabilityRevision revision = .ok encoded →
    codec.decodeCapabilityRevision encoded = .ok revision' →
    revision'.revision = revision.revision

section Log

variable {codec : CapabilityCodec} {snapshot snapshot' : CapabilitySnapshot}
  {genesis : SignedGenesis} {l l' : List SignedCapabilityRevision}

/-- The numbers of revisions that are applied one after the other. -/
theorem pairwise_of_foldlM (hcodec : codec.KeepsNumbers)
    (h : l.foldlM (applyCapabilityRevision codec) snapshot = .ok snapshot') :
    (∀ signed ∈ l, snapshot.revision < signed.revision.revision) ∧
      l.Pairwise fun a b => a.revision.revision < b.revision.revision := by
  induction l generalizing snapshot with
  | nil => exact ⟨forall_mem_nil _, .nil⟩
  | cons signed l ih =>
    obtain ⟨next, happly, h⟩ := bind_eq_ok_iff.1 h
    obtain ⟨encoded, revision, hencoded, hdecoded, happlied⟩ := of_applyCapabilityRevision happly
    obtain ⟨hlater, hpairwise⟩ := ih h
    -- The next snapshot has the number of the revision.
    have hnumber := hcodec _ _ _ hencoded hdecoded
    rw [happlied.number, hnumber] at hlater
    have hfirst : snapshot.revision < signed.revision.revision := by
      rw [← hnumber, happlied.next]
      omega
    refine ⟨forall_mem_cons.2 ⟨hfirst, fun other hother => ?_⟩, hpairwise.cons hlater⟩
    exact hfirst.trans (hlater other hother)

/-- Revisions with different numbers have one order. -/
theorem mergeSort_eq_of_pairwise (hperm : l.Perm l')
    (hl' : l'.Pairwise fun a b => a.revision.revision < b.revision.revision) :
    l.mergeSort (fun a b => a.revision.revision ≤ b.revision.revision) = l' := by
  have hsorted := @pairwise_mergeSort SignedCapabilityRevision
    (fun a b => a.revision.revision ≤ b.revision.revision)
    (fun a b c => by simpa using Int.le_trans)
    (fun a b => by simpa using Int.le_total a.revision.revision b.revision.revision) l
  refine Perm.eq_of_pairwise (fun a b ha hb hab hba => ?_) hsorted
    (hl'.imp fun h => decide_eq_true h.le) ((mergeSort_perm _ _).trans hperm)
  have ha' : a ∈ l' := hperm.mem_iff.1 ((mergeSort_perm _ _).mem_iff.1 ha)
  have hnodup : (l'.map fun signed => signed.revision.revision).Nodup :=
    pairwise_map.2 (hl'.imp ne_of_lt)
  exact inj_on_of_nodup_map hnodup ha' hb
    (le_antisymm (of_decide_eq_true hab) (of_decide_eq_true hba))

/-- A log that is accepted. -/
theorem reduceCapabilityLog_eq_ok (hcodec : codec.KeepsNumbers)
    (h : reduceCapabilityLog codec genesis l = .ok snapshot') :
    ∃ snapshot l₀, genesisSnapshot codec genesis = .ok snapshot ∧ l.Perm l₀ ∧
      (l₀.Pairwise fun a b => a.revision.revision < b.revision.revision) ∧
      l₀.foldlM (applyCapabilityRevision codec) snapshot = .ok snapshot' := by
  obtain ⟨snapshot, hgenesis, hfold⟩ := bind_eq_ok_iff.1 h
  exact ⟨snapshot, _, hgenesis, (mergeSort_perm _ _).symm,
    (pairwise_of_foldlM hcodec hfold).2, hfold⟩

theorem reduceCapabilityLog_of_perm {l₀ : List SignedCapabilityRevision} (hperm : l.Perm l₀)
    (hl₀ : l₀.Pairwise fun a b => a.revision.revision < b.revision.revision)
    (hgenesis : genesisSnapshot codec genesis = .ok snapshot) :
    reduceCapabilityLog codec genesis l = l₀.foldlM (applyCapabilityRevision codec) snapshot := by
  rw [reduceCapabilityLog, hgenesis, mergeSort_eq_of_pairwise hperm hl₀]
  rfl

/-- The result of a log does not depend on the order of its revisions, and is that of
    applying them by their numbers. -/
theorem reduceCapabilityLog_perm (hcodec : codec.KeepsNumbers) (genesis : SignedGenesis)
    (l : List SignedCapabilityRevision) :
    (∀ l', l.Perm l' → (reduceCapabilityLog codec genesis l').toOption =
      (reduceCapabilityLog codec genesis l).toOption) ∧
    ∀ snapshot', reduceCapabilityLog codec genesis l = .ok snapshot' →
      (l.map fun signed => signed.revision.revision).Nodup ∧
      ∀ l₀, l.Perm l₀ → (l₀.Pairwise fun a b => a.revision.revision ≤ b.revision.revision) →
        (genesisSnapshot codec genesis >>= l₀.foldlM (applyCapabilityRevision codec)) =
          .ok snapshot' := by
  have hkept {l l' : List SignedCapabilityRevision} {snapshot' : CapabilitySnapshot}
      (hperm : l.Perm l') (h : reduceCapabilityLog codec genesis l = .ok snapshot') :
      reduceCapabilityLog codec genesis l' = .ok snapshot' := by
    obtain ⟨snapshot, l₀, hgenesis, hl₀, hpairwise, hfold⟩ := reduceCapabilityLog_eq_ok hcodec h
    rw [reduceCapabilityLog_of_perm (hperm.symm.trans hl₀) hpairwise hgenesis, hfold]
  refine ⟨fun l' hperm => Option.ext fun snapshot' => ?_, fun snapshot' h => ?_⟩
  · rw [toOption_eq_some_iff, toOption_eq_some_iff]
    exact ⟨hkept hperm.symm, hkept hperm⟩
  · obtain ⟨snapshot, l₁, hgenesis, hl₁, hpairwise, hfold⟩ := reduceCapabilityLog_eq_ok hcodec h
    have hnodup : (l₁.map fun signed => signed.revision.revision).Nodup :=
      pairwise_map.2 (hpairwise.imp ne_of_lt)
    refine ⟨(hl₁.map _).nodup_iff.2 hnodup, fun l₀ hl₀ hsorted => ?_⟩
    have hstrict : l₀.Pairwise fun a b => a.revision.revision < b.revision.revision :=
      (hsorted.and (pairwise_map.1 (((hl₀.symm.trans hl₁).map _).nodup_iff.2 hnodup))).imp
        fun h => lt_of_le_of_ne h.1 h.2
    rw [hgenesis]
    exact (reduceCapabilityLog_of_perm hl₀ hstrict hgenesis).symm.trans h

end Log

namespace TwoRevisions

open SmallLog (genesis revision)

def first : SignedCapabilityRevision := revision 1 [9] [] []

def second : SignedCapabilityRevision := revision 2 [21] [] []

def codec : CapabilityCodec :=
  .ofTables [([9], (genesis []).manifest)] [([21], first), ([22], second)] []

theorem keepsNumbers : codec.KeepsNumbers := by
  intro revision revision' encoded hencoded hdecoded
  obtain ⟨_, -, hencoded⟩ := bind_eq_ok_iff.1 hencoded
  cases hencoded
  by_cases hfirst : first.revision = revision
  · subst hfirst
    exact congrArg _ (Except.ok.inj hdecoded).symm
  by_cases hsecond : second.revision = revision
  · subst hsecond
    exact congrArg _ (Except.ok.inj hdecoded).symm
  -- No other revision has an encoding.
  have hbytes : codec.revisionBytes revision = [] := by
    simp [codec, CapabilityCodec.ofTables, hfirst, hsecond]
  rw [hbytes] at hdecoded
  cases hdecoded

/-- The snapshot after both. -/
def reduced : CapabilitySnapshot :=
  okValue (genesisSnapshot codec (genesis []) >>=
    [first, second].foldlM (applyCapabilityRevision codec)) (by decide +kernel)

/-- Two revisions that come in the wrong order. -/
theorem reduce_swapped : reduceCapabilityLog codec (genesis []) [second, first] = .ok reduced := by
  have hsorted : [first, second].Pairwise fun a b => a.revision.revision ≤ b.revision.revision := by
    decide
  have hinorder : reduceCapabilityLog codec (genesis []) [first, second] = .ok reduced := by
    rw [reduceCapabilityLog, mergeSort_of_pairwise (hsorted.imp decide_eq_true)]
    exact eq_ok_okValue _ _
  have hperm := (reduceCapabilityLog_perm keepsNumbers (genesis []) [first, second]).1
    [second, first] (.swap ..)
  rw [hinorder] at hperm
  exact toOption_eq_some_iff.1 hperm

end TwoRevisions

/-! ## Signatures of a recovery -/

/-- Of the signatures with one key index the last one, by their indices. -/
def combineRecoverySignatures (payload : RecoveryPayload) (signatures : List RecoverySignature) :
    RecoveryRecord where
  payload
  signatures :=
    (signatures.foldl KeyedMap.put (.empty : KeyedMap RecoverySignature.recoveryKeyIndex)).values.mergeSort
      fun a b => a.recoveryKeyIndex ≤ b.recoveryKeyIndex

/-- The payload is about the snapshot, and goes on from it. -/
structure RecoveryPayload.Extends (payload : RecoveryPayload) (snapshot : CapabilitySnapshot) :
    Prop where
  groupId : payload.groupId = snapshot.groupId
  lastRevision : payload.lastRevision = snapshot.revision
  lastRevisionDigest : payload.lastRevisionDigest = snapshot.revisionDigest
  newRevision : snapshot.revision < payload.newRevision

section Signatures

variable (codec : CapabilityCodec) (recoveryPublicKeys : List Bytes) (bytes : Bytes)

/-- The key of the index has signed the bytes. -/
def validSignature (item : RecoverySignature) : Bool :=
  0 ≤ item.recoveryKeyIndex && (recoveryPublicKeys[item.recoveryKeyIndex.toNat]?).any fun publicKey =>
    codec.verifyDomain .recovery bytes item.signature publicKey

section

variable (signatures : List RecoverySignature)

/-- The key indices with a valid signature. -/
def validSigners : Finset Int :=
  ((signatures.filter (validSignature codec recoveryPublicKeys bytes)).map
    RecoverySignature.recoveryKeyIndex).toFinset

/-- The last signature with a key index. -/
def lastSignature (index : Int) : Option RecoverySignature :=
  signatures.reverse.find? fun item => item.recoveryKeyIndex = index

/-- The key indices whose last signature is valid. -/
def lastSigners : Finset Int :=
  (signatures.map RecoverySignature.recoveryKeyIndex).toFinset.filter fun index =>
    (lastSignature signatures index).any (validSignature codec recoveryPublicKeys bytes)

end

variable {codec recoveryPublicKeys bytes}

/-- Signatures of different keys are counted if they are valid. -/
theorem countSignatures_eq {seen : List Int} {items : List RecoverySignature}
    (hnodup : (items.map RecoverySignature.recoveryKeyIndex).Nodup)
    (hseen : ∀ item ∈ items, item.recoveryKeyIndex ∉ seen) :
    countSignatures codec recoveryPublicKeys bytes seen items =
      (items.filter (validSignature codec recoveryPublicKeys bytes)).length := by
  induction items generalizing seen with
  | nil => rfl
  | cons item items ih =>
    obtain ⟨hitem, hnodup⟩ := nodup_cons.1 hnodup
    obtain ⟨hfirst, hseen⟩ := forall_mem_cons.1 hseen
    have hrest : ∀ other ∈ items, other.recoveryKeyIndex ∉ item.recoveryKeyIndex :: seen :=
      fun other hother hmem => (mem_cons.1 hmem).elim
        (fun heq => hitem (mem_map.2 ⟨other, hother, heq⟩)) (hseen other hother)
    rw [countSignatures, filter_cons]
    by_cases hrange : item.recoveryKeyIndex < 0 ∨
        recoveryPublicKeys.length ≤ item.recoveryKeyIndex
    · -- No key has the index.
      have hinvalid : validSignature codec recoveryPublicKeys bytes item = false := by
        rcases hrange with hneg | hlong
        · simp [validSignature, not_le.2 hneg]
        · have hnone : recoveryPublicKeys[item.recoveryKeyIndex.toNat]? = none :=
            getElem?_eq_none (by omega)
          simp [validSignature, hnone]
      rw [if_pos (hrange.imp_right .inl), hinvalid, ih hnodup hseen]
      rfl
    · have hpresent : ¬(item.recoveryKeyIndex < 0 ∨
          recoveryPublicKeys.length ≤ item.recoveryKeyIndex ∨ item.recoveryKeyIndex ∈ seen) := by
        rw [← or_assoc]
        exact fun h => h.elim hrange hfirst
      rw [not_or, not_lt] at hrange
      obtain ⟨publicKey, hget⟩ : ∃ publicKey,
          recoveryPublicKeys[item.recoveryKeyIndex.toNat]? = some publicKey :=
        ⟨_, getElem?_eq_getElem (by omega)⟩
      rw [ih hnodup hrest]
      simp only [validSignature, hget, hrange.1, decide_true, Bool.true_and, Option.any_some]
      split_ifs
      · rw [length_cons, Int.natCast_succ, Int.add_comm]
      · exact Int.zero_add _

/-- What is combined has one signature for each key index. -/
theorem nodup_combined (payload : RecoveryPayload) (signatures : List RecoverySignature) :
    ((combineRecoverySignatures payload signatures).signatures.map
      RecoverySignature.recoveryKeyIndex).Nodup :=
  ((mergeSort_perm _ _).map _).nodup_iff.2 (KeyedMap.nodup_values_map_key _)

variable {payload : RecoveryPayload}

theorem mem_combined {signatures : List RecoverySignature} {item : RecoverySignature} :
    item ∈ (combineRecoverySignatures payload signatures).signatures ↔
      lastSignature signatures item.recoveryKeyIndex = some item := by
  refine (mergeSort_perm _ _).mem_iff.trans (KeyedMap.mem_values_iff.trans ?_)
  rw [KeyedMap.get?_foldl_put, KeyedMap.get?_empty, Option.or_none, lastSignature]

theorem validSigners_combined (payload : RecoveryPayload) (signatures : List RecoverySignature) :
    validSigners codec recoveryPublicKeys bytes
      (combineRecoverySignatures payload signatures).signatures =
      lastSigners codec recoveryPublicKeys bytes signatures := by
  ext index
  simp only [validSigners, lastSigners, mem_toFinset, mem_map, mem_filter,
    Finset.mem_filter, mem_combined, Option.any_eq_true]
  constructor
  · rintro ⟨item, ⟨hlast, hvalid⟩, rfl⟩
    exact ⟨⟨item, mem_reverse.1 (mem_of_find?_eq_some hlast), rfl⟩, item, hlast, hvalid⟩
  · rintro ⟨-, item, hlast, hvalid⟩
    have hindex : item.recoveryKeyIndex = index := by simpa using find?_some hlast
    exact ⟨item, ⟨hindex ▸ hlast, hvalid⟩, hindex⟩

theorem countSignatures_combined (payload : RecoveryPayload) (signatures : List RecoverySignature) :
    countSignatures codec recoveryPublicKeys bytes []
      (combineRecoverySignatures payload signatures).signatures =
      (lastSigners codec recoveryPublicKeys bytes signatures).card := by
  have hnodup := nodup_combined payload signatures
  rw [countSignatures_eq hnodup fun _ _ => not_mem_nil, ← validSigners_combined payload,
    validSigners, toFinset_card_of_nodup, length_map]
  exact hnodup.sublist (filter_sublist.map _)

/-- What is verified of signatures that were combined. -/
theorem verifyRecoveryRecord_combine {snapshot : CapabilitySnapshot}
    (hextends : payload.Extends snapshot)
    (hencoded : codec.encodeRecoveryPayload payload = .ok bytes)
    (signatures : List RecoverySignature) :
    verifyRecoveryRecord codec snapshot (combineRecoverySignatures payload signatures) =
      .ok (decide (snapshot.recoveryThreshold ≤
        (lastSigners codec snapshot.recoveryPublicKeys bytes signatures).card)) := by
  have hstale : ¬(payload.groupId ≠ snapshot.groupId ∨ payload.lastRevision ≠ snapshot.revision ∨
      payload.lastRevisionDigest ≠ snapshot.revisionDigest ∨
      payload.newRevision ≤ snapshot.revision) := by
    simp [hextends.groupId, hextends.lastRevision, hextends.lastRevisionDigest,
      hextends.newRevision]
  have hpayload : (combineRecoverySignatures payload signatures).payload = payload := rfl
  rw [verifyRecoveryRecord, hpayload, if_neg hstale, hencoded,
    ← countSignatures_combined payload]
  rfl

/-- The combined signatures are enough if enough keys have signed, unless signatures that are
    not valid come after valid ones of the same keys. -/
theorem verify_combined_iff {snapshot : CapabilitySnapshot} {payload : RecoveryPayload}
    (hextends : payload.Extends snapshot)
    (hencoded : codec.encodeRecoveryPayload payload = .ok bytes)
    (signatures : List RecoverySignature) :
    (verifyRecoveryRecord codec snapshot (combineRecoverySignatures payload signatures) = .ok true ↔
        snapshot.recoveryThreshold ≤
          (validSigners codec snapshot.recoveryPublicKeys bytes signatures).card) ↔
      (validSigners codec snapshot.recoveryPublicKeys bytes signatures).card <
          snapshot.recoveryThreshold ∨ snapshot.recoveryThreshold ≤
          (lastSigners codec snapshot.recoveryPublicKeys bytes signatures).card := by
  rw [verifyRecoveryRecord_combine hextends hencoded, Except.ok.injEq, decide_eq_true_eq]
  have hsubset : lastSigners codec snapshot.recoveryPublicKeys bytes signatures ⊆
      validSigners codec snapshot.recoveryPublicKeys bytes signatures := by
    intro index hindex
    simp only [lastSigners, Finset.mem_filter, Option.any_eq_true] at hindex
    obtain ⟨-, item, hlast, hvalid⟩ := hindex
    have heq : item.recoveryKeyIndex = index := by simpa using find?_some hlast
    refine mem_toFinset.2 (mem_map.2 ⟨item, mem_filter.2 ⟨?_, hvalid⟩, heq⟩)
    exact mem_reverse.1 (mem_of_find?_eq_some hlast)
  have hle := Finset.card_le_card hsubset
  omega

end Signatures

namespace LateSignature

open SmallLog (key)

/-- A group with three recovery keys, of which two are enough. -/
def group : CapabilitySnapshot where
  groupId := [0]
  revision := 0
  revisionDigest := [9]
  rootAdminPublicKey := key 7
  capabilityLogFeed := utf8 "g"
  capabilities := .empty
  policies := .empty
  recoveryPublicKeys := [key 4, key 5, key 6]
  recoveryThreshold := 2
  historyReopened := false
  recoveryEventDigest := none

/-- A recovery with a new root. -/
def payload : RecoveryPayload where
  groupId := [0]
  lastRevision := 0
  lastRevisionDigest := [9]
  newRevision := 1
  newRootPublicKey := key 8
  newCapabilityLogFeed := utf8 "h"
  validatorGrants := []
  reopenHistory := false
  reopeningReason := none

def codec : CapabilityCodec := .ofTables [] [] []

theorem extends_group : payload.Extends group := ⟨rfl, rfl, rfl, by decide⟩

theorem encoded_payload : codec.encodeRecoveryPayload payload = .ok [] := rfl

/-- Two keys have signed, and a signature that is not valid comes after the second one's. -/
def signatures : List RecoverySignature := [⟨0, key 4⟩, ⟨1, key 5⟩, ⟨1, key 6⟩]

theorem not_verified : payload.Extends group ∧
    (validSigners codec group.recoveryPublicKeys [] signatures).card = 2 ∧
    verifyRecoveryRecord codec group (combineRecoverySignatures payload signatures) = .ok false := by
  refine ⟨extends_group, by decide, ?_⟩
  rw [verifyRecoveryRecord_combine extends_group encoded_payload]
  decide

/-- The signature that is not valid comes first. -/
theorem verified : verifyRecoveryRecord codec group
    (combineRecoverySignatures payload [⟨1, key 6⟩, ⟨0, key 4⟩, ⟨1, key 5⟩]) = .ok true :=
  ((verify_combined_iff extends_group encoded_payload _).2 (.inr (by decide))).2 (by decide)

end LateSignature

end Chronolog
