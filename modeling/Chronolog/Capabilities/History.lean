import Chronolog.Capabilities.Reducer
import Mathlib.Logic.Relation
import Mathlib.Order.Lattice

/-!
# The history of the membership

A change of the membership adds capabilities that begin with its revision and
revokes others from its revision on (`Amends`); it leaves the past alone. So
what was in force at a revision stays so in every later snapshot
(`capabilities_persist`).

The timestamp floor of a new validator is compared with those of the validators
that are not revoked. While one of these has the highest floor, the floor of a
new validator is not below that of any earlier one (`floor_le_of_granted`); a
revision that revokes the validator with the highest floor reopens history
(`LoweredFloor.floor_lt`).
-/

namespace Chronolog

open Procedure EffectiveCapability KeyedMap List Option

/-! ## One change -/

section Amends

variable {revision : Int} {capabilities capabilities' capabilities'' : Capabilities}
variable {capability : EffectiveCapability}

/-- What a change to a revision may do to the capabilities. -/
structure Amends (revision : Int) (capabilities capabilities' : Capabilities) : Prop where
  kept : ∀ id capability, capabilities.get? id = some capability →
    ∃ capability', capabilities'.get? id = some capability' ∧
      capability'.grant = capability.grant ∧
      (capability'.revokedAtRevision = capability.revokedAtRevision ∨
        capability.revokedAtRevision = none ∧ capability'.revokedAtRevision = some revision)
  added : ∀ id capability', capabilities'.get? id = some capability' →
    capabilities.get? id = none → capability'.grant.validFromRevision = revision ∧
      checkGrant capability'.grant = .ok ()

theorem Amends.refl : Amends revision capabilities capabilities where
  kept _ capability h := ⟨capability, h, rfl, .inl rfl⟩
  added _ _ h hnone := absurd (h.symm.trans hnone) (by simp)

theorem Amends.trans (h : Amends revision capabilities capabilities')
    (h' : Amends revision capabilities' capabilities'') :
    Amends revision capabilities capabilities'' where
  kept id capability hget := by
    obtain ⟨capability', hget', hgrant, hrevoked⟩ := h.kept id capability hget
    obtain ⟨capability'', hget'', hgrant', hrevoked'⟩ := h'.kept id capability' hget'
    refine ⟨capability'', hget'', hgrant'.trans hgrant, ?_⟩
    rcases hrevoked' with hsame' | ⟨hnone', hsome'⟩
    · rwa [hsame']
    · rcases hrevoked with hsame | ⟨-, hsome⟩
      · exact .inr ⟨hsame.symm.trans hnone', hsome'⟩
      · cases hnone'.symm.trans hsome
  added id capability'' hget'' hnone := by
    cases hget' : capabilities'.get? id with
    | none => exact h'.added id capability'' hget'' hget'
    | some capability' =>
      obtain ⟨capability, hkept, hgrant, -⟩ := h'.kept id capability' hget'
      cases hget''.symm.trans hkept
      rw [hgrant]
      exact h.added id capability' hget' hnone

/-- A capability that is there is revoked. -/
theorem Amends.revoke (hget : capabilities.get? capability.id = some capability)
    (hactive : capability.revokedAtRevision = none) : Amends revision capabilities
      (capabilities.put { capability with revokedAtRevision := some revision }) where
  kept id capability' hget' := by
    rw [get?_put]
    split_ifs with hid
    · obtain rfl : capability = capability' :=
        some.inj (hget.symm.trans ((congrArg _ hid).symm.trans hget'))
      exact ⟨_, rfl, rfl, .inr ⟨hactive, rfl⟩⟩
    · exact ⟨capability', hget', rfl, .inl rfl⟩
  added id capability' hget' hnone := by
    rw [get?_put] at hget'
    split_ifs at hget' with hid
    · cases hget.symm.trans ((congrArg _ hid).symm.trans hnone)
    · cases hget'.symm.trans hnone

/-- A capability of the revision is added under an id that is free. -/
theorem Amends.add (hfree : capabilities.get? capability.id = none)
    (hvalid : capability.grant.validFromRevision = revision)
    (hchecked : checkGrant capability.grant = .ok ()) :
    Amends revision capabilities (capabilities.put capability) where
  kept id capability' hget' := by
    refine ⟨capability', ?_, rfl, .inl rfl⟩
    rwa [get?_put_of_ne]
    rintro rfl
    cases hfree.symm.trans hget'
  added id capability' hget' hnone := by
    rw [get?_put] at hget'
    split_ifs at hget' with hid
    · rw [← some.inj hget']
      exact ⟨hvalid, hchecked⟩
    · cases hget'.symm.trans hnone

/-- Capabilities are revoked, and none is added. -/
structure Revokes (revision : Int) (capabilities capabilities' : Capabilities) : Prop
    extends Amends revision capabilities capabilities' where
  absent : ∀ id, capabilities.get? id = none → capabilities'.get? id = none

theorem Revokes.refl : Revokes revision capabilities capabilities := ⟨Amends.refl, fun _ h => h⟩

theorem Revokes.trans (h : Revokes revision capabilities capabilities')
    (h' : Revokes revision capabilities' capabilities'') :
    Revokes revision capabilities capabilities'' :=
  ⟨h.toAmends.trans h'.toAmends, fun id hnone => h'.absent id (h.absent id hnone)⟩

theorem Revokes.put (hget : capabilities.get? capability.id = some capability)
    (hactive : capability.revokedAtRevision = none) : Revokes revision capabilities
      (capabilities.put { capability with revokedAtRevision := some revision }) := by
  refine ⟨Amends.revoke hget hactive, fun id hnone => ?_⟩
  rwa [get?_put_of_ne]
  rintro rfl
  cases hget.symm.trans hnone

end Amends

section Step

variable {codec : CapabilityCodec} {snapshot snapshot' snapshot'' : CapabilitySnapshot}
  {revision : Int} {capabilities capabilities' : Capabilities}
variable {grant : CapabilityGrant}

theorem of_addCapability {duplicate : String}
    (h : addCapability codec grant revision duplicate capabilities = .ok capabilities') :
    ∃ id, capabilities.get? id = none ∧ checkGrant grant = .ok () ∧
      capabilities' = capabilities.put ⟨id, grant, revision, none⟩ := by
  obtain ⟨id, hid, h⟩ := bind_eq_ok_iff.1 h
  obtain ⟨_, hchecked, -⟩ := bind_eq_ok_iff.1 hid
  obtain ⟨_, hfree, h⟩ := bind_eq_ok_iff.1 h
  rw [protocolInvariant_eq_ok_iff, Bool.not_eq_true'] at hfree
  exact ⟨id, OrdMap.has_eq_false_iff.1 hfree, hchecked, (Except.ok.inj h).symm⟩

theorem of_revokeCapability {id : Bytes}
    (h : revokeCapability revision capabilities id = .ok capabilities') :
    ∃ capability, capabilities.get? id = some capability ∧ capability.revokedAtRevision = none ∧
      capabilities' = capabilities.put { capability with revokedAtRevision := some revision } := by
  unfold revokeCapability at h
  cases hget : capabilities.get? id with
  | none => simp [hget] at h
  | some capability =>
    simp only [hget, bind_eq_ok_iff, protocolInvariant_eq_ok_iff] at h
    obtain ⟨_, hactive, h⟩ := h
    exact ⟨capability, rfl, isNone_iff_eq_none.1 hactive, (Except.ok.inj h).symm⟩

theorem of_grantCapability
    (h : grantCapability codec revision capabilities grant = .ok capabilities') :
    ∃ id, capabilities.get? id = none ∧ grant.validFromRevision = revision ∧
      checkGrant grant = .ok () ∧ (grant.role = .validator →
        validatorFloor capabilities ≤ grant.minimumAuthorTimestampMs.getD (-1)) ∧
      capabilities' = capabilities.put ⟨id, grant, revision, none⟩ := by
  obtain ⟨_, hvalid, h⟩ := bind_eq_ok_iff.1 h
  rw [protocolInvariant_eq_ok_iff, decide_eq_true_eq] at hvalid
  split_ifs at h with hrole
  · obtain ⟨_, hfloor, h⟩ := bind_eq_ok_iff.1 h
    rw [protocolInvariant_eq_ok_iff, decide_eq_true_eq] at hfloor
    obtain ⟨id, hfree, hchecked, rfl⟩ := of_addCapability h
    exact ⟨id, hfree, hvalid, hchecked, fun _ => hfloor, rfl⟩
  · obtain ⟨id, hfree, hchecked, rfl⟩ := of_addCapability h
    exact ⟨id, hfree, hvalid, hchecked, fun h => absurd h hrole, rfl⟩

theorem of_grantRecovered
    (h : grantRecovered codec revision capabilities grant = .ok capabilities') :
    ∃ id, capabilities.get? id = none ∧ grant.validFromRevision = revision ∧
      checkGrant grant = .ok () ∧ capabilities' = capabilities.put ⟨id, grant, revision, none⟩ := by
  obtain ⟨_, hvalid, h⟩ := bind_eq_ok_iff.1 h
  rw [protocolInvariant_eq_ok_iff, decide_eq_true_eq] at hvalid
  obtain ⟨id, hfree, hchecked, rfl⟩ := of_addCapability h
  exact ⟨id, hfree, hvalid, hchecked, rfl⟩

theorem revokes_revocations {revocations : List Bytes}
    (h : revocations.foldlM (revokeCapability revision) capabilities = .ok capabilities') :
    Revokes revision capabilities capabilities' := by
  refine rel_of_foldlM (fun _ => Revokes.refl) Revokes.trans (fun id _ s s' hstep => ?_) h
  obtain ⟨capability, hget, hactive, rfl⟩ := of_revokeCapability hstep
  exact Revokes.put (by rwa [key_eq hget]) hactive

variable {grants : List CapabilityGrant}

theorem amends_grants
    (h : grants.foldlM (grantCapability codec revision) capabilities = .ok capabilities') :
    Amends revision capabilities capabilities' := by
  refine rel_of_foldlM (fun _ => Amends.refl) Amends.trans (fun grant _ s s' hstep => ?_) h
  obtain ⟨id, hfree, hvalid, hchecked, -, rfl⟩ := of_grantCapability hstep
  exact Amends.add hfree hvalid hchecked

theorem amends_recovered
    (h : grants.foldlM (grantRecovered codec revision) capabilities = .ok capabilities') :
    Amends revision capabilities capabilities' := by
  refine rel_of_foldlM (fun _ => Amends.refl) Amends.trans (fun grant _ s s' hstep => ?_) h
  obtain ⟨id, hfree, hvalid, hchecked, rfl⟩ := of_grantRecovered hstep
  exact Amends.add hfree hvalid hchecked

/-- A recovery revokes capabilities of the snapshot. -/
theorem revokes_revokeForRecovery (snapshot : CapabilitySnapshot) (revision : Int) :
    Revokes revision snapshot.capabilities (revokeForRecovery snapshot revision) := by
  -- The capabilities still to come are as in the snapshot.
  have hfold : ∀ (l : List EffectiveCapability) (capabilities : Capabilities),
      (l.map EffectiveCapability.id).Nodup →
      (∀ capability ∈ l, capabilities.get? capability.id = some capability) →
      Revokes revision capabilities (l.foldl (fun capabilities effective =>
        if effective.revokedAtRevision.isNone ∧ (effective.grant.role = .validator ∨
            effective.grant.signingPublicKey = snapshot.rootAdminPublicKey) then
          capabilities.put { effective with revokedAtRevision := some revision }
        else capabilities) capabilities) := by
    intro l
    induction l with
    | nil => exact fun _ _ _ => Revokes.refl
    | cons capability l ih =>
      intro capabilities hnodup hget
      obtain ⟨hnotMem, hnodup⟩ := nodup_cons.1 hnodup
      rw [foldl_cons]
      split_ifs with hrevoked
      · refine (Revokes.put (hget capability mem_cons_self)
          (isNone_iff_eq_none.1 hrevoked.1)).trans (ih _ hnodup fun later hlater => ?_)
        rw [get?_put_of_ne, hget later (mem_cons_of_mem _ hlater)]
        rintro heq
        exact hnotMem (mem_map.2 ⟨later, hlater, heq⟩)
      · exact ih _ hnodup fun later hlater => hget later (mem_cons_of_mem _ hlater)
  exact hfold _ _ (nodup_values_map_key _) fun _ h => mem_values_iff.1 h

variable {change : MembershipChange}

/-- A change of the membership amends the capabilities. -/
theorem MembershipChange.amends (h : change.apply codec snapshot = .ok snapshot') :
    Amends snapshot'.revision snapshot.capabilities snapshot'.capabilities := by
  cases change with
  | revision signed =>
    obtain ⟨encoded, revision, -, -, happlied⟩ := of_applyCapabilityRevision h
    obtain ⟨revoked, hrevoked, hgranted⟩ := happlied.capabilities
    rw [happlied.number]
    exact (revokes_revocations hrevoked).toAmends.trans (amends_grants hgranted)
  | recovery record =>
    have happlied := of_applyRecoveryRecord h
    rw [happlied.number]
    exact (revokes_revokeForRecovery snapshot _).toAmends.trans (amends_recovered happlied.capabilities)

/-! ## Runs -/

/-- What a later snapshot has to say of the past of an earlier one. -/
structure Preserves (snapshot snapshot' : CapabilitySnapshot) : Prop where
  revision_le : snapshot.revision ≤ snapshot'.revision
  kept : ∀ id capability, snapshot.capabilities.get? id = some capability →
    ∃ capability', snapshot'.capabilities.get? id = some capability' ∧
      capability'.grant = capability.grant ∧ ∀ q ≤ snapshot.revision,
        isCapabilityActive capability' q = isCapabilityActive capability q
  added : ∀ id capability', snapshot'.capabilities.get? id = some capability' →
    snapshot.capabilities.get? id = none → ∀ q ≤ snapshot.revision,
      isCapabilityActive capability' q = false

theorem Preserves.refl : Preserves snapshot snapshot where
  revision_le := le_rfl
  kept _ capability h := ⟨capability, h, rfl, fun _ _ => rfl⟩
  added _ _ h hnone := absurd (h.symm.trans hnone) (by simp)

theorem Preserves.trans (h : Preserves snapshot snapshot') (h' : Preserves snapshot' snapshot'') :
    Preserves snapshot snapshot'' where
  revision_le := h.revision_le.trans h'.revision_le
  kept id capability hget := by
    obtain ⟨capability', hget', hgrant, hactive⟩ := h.kept id capability hget
    obtain ⟨capability'', hget'', hgrant', hactive'⟩ := h'.kept id capability' hget'
    exact ⟨capability'', hget'', hgrant'.trans hgrant, fun q hq =>
      (hactive' q (hq.trans h.revision_le)).trans (hactive q hq)⟩
  added id capability'' hget'' hnone q hq := by
    cases hget' : snapshot'.capabilities.get? id with
    | none => exact h'.added id capability'' hget'' hget' q (hq.trans h.revision_le)
    | some capability' =>
      obtain ⟨_, hkept, -, hactive⟩ := h'.kept id capability' hget'
      cases hget''.symm.trans hkept
      rw [hactive q (hq.trans h.revision_le)]
      exact h.added id capability' hget' hnone q hq

theorem MembershipChange.preserves (h : change.apply codec snapshot = .ok snapshot') :
    Preserves snapshot snapshot' := by
  have hlt := (place_of_apply h).2
  have hamends := change.amends h
  refine ⟨hlt.le, fun id capability hget => ?_, fun id capability' hget' hnone q hq => ?_⟩
  · obtain ⟨capability', hget', hgrant, hrevoked⟩ := hamends.kept id capability hget
    refine ⟨capability', hget', hgrant, fun q hq => ?_⟩
    rcases hrevoked with hsame | ⟨hnone, hsome⟩
    · simp only [isCapabilityActive, hgrant, hsame]
    · have hbefore : q < snapshot'.revision := hq.trans_lt hlt
      simp only [isCapabilityActive, hgrant, hnone, hsome, hbefore, decide_true]
  · have hlater : ¬ capability'.grant.validFromRevision ≤ q := by
      rw [(hamends.added id capability' hget' hnone).1]
      omega
    simp only [isCapabilityActive, hlater, decide_false, Bool.false_and]

/-- The later snapshot comes from the earlier one by changes of the membership. -/
def CapabilityCodec.Reaches (codec : CapabilityCodec) :
    CapabilitySnapshot → CapabilitySnapshot → Prop :=
  Relation.ReflTransGen fun snapshot snapshot' =>
    ∃ change : MembershipChange, change.apply codec snapshot = .ok snapshot'

theorem CapabilityCodec.Reaches.preserves (h : codec.Reaches snapshot snapshot') :
    Preserves snapshot snapshot' := by
  induction h with
  | refl => exact Preserves.refl
  | tail _ hstep ih =>
    obtain ⟨change, hstep⟩ := hstep
    exact ih.trans (change.preserves hstep)

/-- The grants of a reachable snapshot passed the checks of their encoding. -/
theorem CapabilityCodec.Reaches.checkGrant_eq_ok {genesis : SignedGenesis}
    (hgenesis : genesisSnapshot codec genesis = .ok snapshot) (h : codec.Reaches snapshot snapshot')
    {capability : EffectiveCapability} (hmem : capability ∈ snapshot'.capabilities.values) :
    checkGrant capability.grant = .ok () := by
  rw [mem_values_iff] at hmem
  induction h generalizing capability with
  | refl =>
    simp only [genesisSnapshot, bind_eq_ok_iff] at hgenesis
    obtain ⟨_, -, _, -, _, -, manifest, -, _, -, capabilities, hcapabilities, _, -, hgenesis⟩ :=
      hgenesis
    cases hgenesis
    have hamends : Amends 0 .empty capabilities := by
      refine rel_of_foldlM (fun _ => Amends.refl) Amends.trans (fun grant _ s s' hstep => ?_)
        hcapabilities
      obtain ⟨_, hvalid, hstep⟩ := bind_eq_ok_iff.1 hstep
      rw [protocolInvariant_eq_ok_iff, decide_eq_true_eq] at hvalid
      obtain ⟨id, hfree, hchecked, rfl⟩ := of_addCapability hstep
      exact Amends.add hfree hvalid hchecked
    exact (hamends.added _ _ hmem rfl).2
  | @tail middle _ _ hstep ih =>
    obtain ⟨change, hstep⟩ := hstep
    have hamends := change.amends hstep
    cases hget : middle.capabilities.get? capability.id with
    | none => exact (hamends.added _ _ hmem hget).2
    | some earlier =>
      obtain ⟨capability', hkept, hgrant, -⟩ := hamends.kept _ _ hget
      cases hmem.symm.trans hkept
      rw [hgrant]
      exact ih (by rwa [key_eq hget])

/-- A later snapshot has every capability of an earlier one, with the same grant
    and in force at the same revisions up to that of the earlier one; what it has
    besides was in force at none of them. -/
theorem capabilities_persist (h : codec.Reaches snapshot snapshot') :
    (∀ id capability, snapshot.capabilities.get? id = some capability →
      ∃ capability', snapshot'.capabilities.get? id = some capability' ∧
        capability'.grant = capability.grant ∧ ∀ q ≤ snapshot.revision,
          isCapabilityActive capability q = isCapabilityActive capability' q) ∧
    ∀ id capability', snapshot'.capabilities.get? id = some capability' →
      snapshot.capabilities.get? id = none → ∀ q ≤ snapshot.revision,
        isCapabilityActive capability' q = false := by
  refine ⟨fun id capability hget => ?_, h.preserves.added⟩
  obtain ⟨capability', hget', hgrant, hactive⟩ := h.preserves.kept id capability hget
  exact ⟨capability', hget', hgrant, fun q hq => (hactive q hq).symm⟩

end Step

/-! ## Timestamp floors -/

section Floor

variable {codec : CapabilityCodec} {snapshot snapshot' earlier : CapabilitySnapshot}
  {revision : Int} {capabilities capabilities' : Capabilities}
variable {capability : EffectiveCapability}

/-- The timestamp floor of a capability. -/
def EffectiveCapability.floor (capability : EffectiveCapability) : Int :=
  capability.grant.minimumAuthorTimestampMs.getD 0

/-- Is the capability that of a validator? -/
def EffectiveCapability.IsValidator (capability : EffectiveCapability) : Prop :=
  capability.grant.role = .validator

theorem foldl_max_le_iff {α : Type} {f : α → Int} {l : List α} {start bound : Int} :
    l.foldl (fun maximum a => max maximum (f a)) start ≤ bound ↔
      start ≤ bound ∧ ∀ a ∈ l, f a ≤ bound := by
  induction l generalizing start with
  | nil => simp
  | cons a l ih => rw [foldl_cons, ih, sup_le_iff, forall_mem_cons, and_assoc]

variable {bound : Int}

theorem validatorFloor_le_iff :
    validatorFloor capabilities ≤ bound ↔ 0 ≤ bound ∧ ∀ capability ∈ capabilities.values,
      capability.IsValidator → capability.revokedAtRevision = none → capability.floor ≤ bound := by
  simp only [validatorFloor, foldl_max_le_iff, mem_filter, Bool.and_eq_true,
    decide_eq_true_eq, isNone_iff_eq_none, and_imp]
  rfl

theorem floor_le_validatorFloor (hmem : capability ∈ capabilities.values)
    (hrole : capability.IsValidator) (hactive : capability.revokedAtRevision = none) :
    capability.floor ≤ validatorFloor capabilities :=
  (validatorFloor_le_iff.1 le_rfl).2 capability hmem hrole hactive

theorem validatorFloor_le_put (hfree : capabilities.get? capability.id = none) :
    validatorFloor capabilities ≤ validatorFloor (capabilities.put capability) := by
  refine validatorFloor_le_iff.2 ⟨(validatorFloor_le_iff.1 le_rfl).1, fun other hmem hrole hactive =>
    floor_le_validatorFloor ?_ hrole hactive⟩
  rw [mem_values_iff] at hmem ⊢
  rwa [get?_put_of_ne]
  rintro heq
  rw [heq, hfree] at hmem
  cases hmem

/-- The validators that are new among the capabilities have at least the floor. -/
def GrantsAbove (bound : Int) (capabilities capabilities' : Capabilities) : Prop :=
  ∀ id capability', capabilities'.get? id = some capability' → capabilities.get? id = none →
    capability'.IsValidator → bound ≤ capability'.floor

variable {start : Capabilities}

theorem GrantsAbove.put {id : Bytes} {grant : CapabilityGrant}
    (h : GrantsAbove bound start capabilities)
    (hfloor : grant.role = .validator → 0 ≤ bound ∧ bound ≤ grant.minimumAuthorTimestampMs.getD (-1)) :
    GrantsAbove bound start (capabilities.put ⟨id, grant, revision, none⟩) := by
  intro id' capability' hget' hnone hrole
  rw [get?_put] at hget'
  split_ifs at hget' with hid
  · cases hget'
    obtain ⟨hbound, hfloor⟩ := hfloor hrole
    unfold floor
    cases hminimum : grant.minimumAuthorTimestampMs with
    | none => rw [hminimum, getD_none] at hfloor; omega
    | some minimum => rw [hminimum] at hfloor; exact hfloor
  · exact h id' capability' hget' hnone hrole

variable {grants : List CapabilityGrant}

/-- The grants of a revision are above the floor of those that it does not revoke. -/
theorem grantsAbove_grants
    (h : grants.foldlM (grantCapability codec revision) capabilities = .ok capabilities') :
    GrantsAbove (validatorFloor capabilities) capabilities capabilities' := by
  have hfold : ∀ (grants : List CapabilityGrant) (current : Capabilities),
      validatorFloor capabilities ≤ validatorFloor current →
      GrantsAbove (validatorFloor capabilities) capabilities current →
      grants.foldlM (grantCapability codec revision) current = .ok capabilities' →
      GrantsAbove (validatorFloor capabilities) capabilities capabilities' := by
    intro grants
    induction grants with
    | nil =>
      intro current _ habove h
      rwa [← Except.ok.inj h]
    | cons grant grants ih =>
      intro current hle habove h
      obtain ⟨next, hnext, h⟩ := bind_eq_ok_iff.1 h
      obtain ⟨id, hfree, -, -, hfloor, rfl⟩ := of_grantCapability hnext
      refine ih _ (hle.trans (validatorFloor_le_put hfree)) (habove.put fun hrole => ?_) h
      exact ⟨(validatorFloor_le_iff.1 le_rfl).1, hle.trans (hfloor hrole)⟩
  exact hfold grants capabilities le_rfl
    (fun _ _ h hnone => absurd (h.symm.trans hnone) (by simp)) h

/-- So are the grants of a recovery, if each is. -/
theorem grantsAbove_recovered (hbound : 0 ≤ bound)
    (hfloor : ∀ grant ∈ grants, bound ≤ grant.minimumAuthorTimestampMs.getD (-1))
    (habove : GrantsAbove bound start capabilities)
    (h : grants.foldlM (grantRecovered codec revision) capabilities = .ok capabilities') :
    GrantsAbove bound start capabilities' := by
  induction grants generalizing capabilities with
  | nil => rwa [← Except.ok.inj h]
  | cons grant grants ih =>
    obtain ⟨next, hnext, h⟩ := bind_eq_ok_iff.1 h
    obtain ⟨id, -, -, -, rfl⟩ := of_grantRecovered hnext
    exact ih (fun grant' hgrant' => hfloor grant' (mem_cons_of_mem _ hgrant'))
      (habove.put fun _ => ⟨hbound, hfloor grant mem_cons_self⟩) h

/-- Revocations leave the other capabilities alone. -/
theorem get?_revocations {revocations : List Bytes} {id : Bytes} (hid : id ∉ revocations)
    (h : revocations.foldlM (revokeCapability revision) capabilities = .ok capabilities') :
    capabilities'.get? id = capabilities.get? id := by
  refine rel_of_foldlM (R := fun s s' : Capabilities => s'.get? id = s.get? id) (fun _ => rfl)
    (fun h h' => h'.trans h) (fun revoked hrevoked s s' hstep => ?_) h
  obtain ⟨capability, hget, -, rfl⟩ := of_revokeCapability hstep
  refine get?_put_of_ne (fun heq => hid ?_) _
  rw [heq]
  rwa [key_eq hget]

/-- The capabilities that a change revokes by name. -/
def MembershipChange.revocations (codec : CapabilityCodec) : MembershipChange → List Bytes
  | .revision signed =>
    match codec.encodeCapabilityRevision signed.revision >>= codec.decodeCapabilityRevision with
    | .ok revision => revision.revocations
    | .error _ => []
  | .recovery _ => []

/-- Does the change declare that history is reopened? -/
def MembershipChange.reopensHistory : MembershipChange → Bool
  | .revision _ => false
  | .recovery record => record.payload.reopenHistory

/-- The highest floor of the validators is that of one that is not revoked and that
    the change does not name. -/
def MembershipChange.KeepsFloor (codec : CapabilityCodec) (snapshot : CapabilitySnapshot)
    (change : MembershipChange) : Prop :=
  ∀ capability ∈ snapshot.capabilities.values, capability.IsValidator →
    capability.floor ≤ 0 ∨ ∃ capability' ∈ snapshot.capabilities.values, capability'.IsValidator ∧
      capability'.revokedAtRevision = none ∧ capability'.id ∉ change.revocations codec ∧
      capability.floor ≤ capability'.floor

theorem MembershipChange.KeepsFloor.floor_le {change : MembershipChange}
    (h : change.KeepsFloor codec snapshot)
    (hmem : capability ∈ snapshot.capabilities.values) (hrole : capability.IsValidator)
    (hget : ∀ id ∉ change.revocations codec, capabilities.get? id = snapshot.capabilities.get? id) :
    capability.floor ≤ validatorFloor capabilities := by
  rcases h capability hmem hrole with hle | ⟨capability', hmem', hrole', hactive, hid, hle⟩
  · exact hle.trans (validatorFloor_le_iff.1 le_rfl).1
  · refine hle.trans (floor_le_validatorFloor ?_ hrole' hactive)
    rw [mem_values_iff] at hmem' ⊢
    rwa [hget _ hid]

/-- If a change that does not declare to reopen history keeps the highest floor in force, the
    validators that it adds have at least the floor of every validator of every earlier snapshot. -/
theorem floor_le_of_granted (hearlier : codec.Reaches earlier snapshot) {change : MembershipChange}
    (happly : change.apply codec snapshot = .ok snapshot') (hreopen : change.reopensHistory = false)
    (hkeeps : change.KeepsFloor codec snapshot) {id : Bytes} {added : EffectiveCapability}
    (hadded : snapshot'.capabilities.get? id = some added)
    (hnew : snapshot.capabilities.get? id = none) (hrole : added.IsValidator)
    {capability : EffectiveCapability} (hcapability : capability ∈ earlier.capabilities.values)
    (hvalidator : capability.IsValidator) : capability.floor ≤ added.floor := by
  -- The earlier validator is still there, with the same grant.
  obtain ⟨current, hcurrent, hgrant, -⟩ :=
    hearlier.preserves.kept _ _ (mem_values_iff.1 hcapability)
  have hfloor : capability.floor = current.floor := by
    rw [floor, floor, hgrant]
  have hcurrentRole : current.IsValidator := by rwa [EffectiveCapability.IsValidator, hgrant]
  have hmem := mem_values_of_get? hcurrent
  rw [hfloor]
  cases change with
  | revision signed =>
    obtain ⟨encoded, revision, hencoded, hrevision, happlied⟩ := of_applyCapabilityRevision happly
    obtain ⟨revoked, hrevoked, hgranted⟩ := happlied.capabilities
    have hrevocations : MembershipChange.revocations codec (.revision signed) =
        revision.revocations := by
      simp only [MembershipChange.revocations, hencoded, hrevision, bind, Except.bind]
    have hold := (revokes_revocations hrevoked).absent id hnew
    refine (hkeeps.floor_le hmem hcurrentRole fun id hid => ?_).trans
      (grantsAbove_grants hgranted id added hadded hold hrole)
    exact get?_revocations (hrevocations ▸ hid) hrevoked
  | recovery record =>
    have happlied := of_applyRecoveryRecord happly
    have hnone : GrantsAbove (validatorFloor snapshot.capabilities) snapshot.capabilities
        (revokeForRecovery snapshot record.payload.newRevision) := fun id _ hget hnone =>
      absurd (((revokes_revokeForRecovery snapshot _).absent id hnone).symm.trans hget) (by simp)
    exact (hkeeps.floor_le hmem hcurrentRole fun _ _ => rfl).trans
      (grantsAbove_recovered (validatorFloor_le_iff.1 le_rfl).1 (happlied.floor hreopen) hnone
        happlied.capabilities id added hadded hnew hrole)

end Floor

/-! ## Samples -/

namespace LoweredFloor

open SmallLog (genesis grant revision key)

/-- A group whose validator has the floor 100. -/
def group : SignedGenesis := genesis [grant 1 "x" .validator 0 (some 100)]

/-- The validator is replaced by one with the floor 0. -/
def replaced : SignedCapabilityRevision :=
  revision 1 [9] [grant 2 "y" .validator 1 (some 0)] [[1, 0]]

/-- A validator with the floor 200 joins it. -/
def extended : SignedCapabilityRevision :=
  { revision 1 [9] [grant 2 "y" .validator 1 (some 200)] [] with signature := key 7 ++ [22] }

def codec : CapabilityCodec :=
  .ofTables [([9], group.manifest)] [([21], replaced), ([22], extended)] []

/-- The snapshot of the genesis. -/
def created : CapabilitySnapshot := okValue (genesisSnapshot codec group) (by decide +kernel)

/-- The snapshot after the replacement. -/
def afterReplaced : CapabilitySnapshot :=
  okValue (applyCapabilityRevision codec created replaced) (by decide +kernel)

/-- The snapshot after the extension. -/
def afterExtended : CapabilitySnapshot :=
  okValue (applyCapabilityRevision codec created extended) (by decide +kernel)

/-- What was in force at the genesis is in force at the genesis for the snapshot in
    which it is revoked. -/
theorem capability_persists : genesisSnapshot codec group = .ok created ∧
    ∃ capability', afterReplaced.capabilities.get? [1, 0] = some capability' ∧
      isCapabilityActive capability' 1 = false ∧ isCapabilityActive capability' 0 = true := by
  refine ⟨eq_ok_okValue _ _, ?_⟩
  have hreaches : codec.Reaches created afterReplaced :=
    .single ⟨.revision replaced, eq_ok_okValue _ _⟩
  obtain ⟨capability', hget', -, hactive⟩ := (capabilities_persist hreaches).1 [1, 0] _ rfl
  refine ⟨capability', hget', ?_, (hactive 0 le_rfl).symm⟩
  rw [← some.inj hget']
  rfl

/-- The new validator's floor is below that of the validator it replaces. -/
theorem floor_lt : genesisSnapshot codec group = .ok created ∧
    applyCapabilityRevision codec created replaced = .ok afterReplaced ∧
    (created.capabilities.get? [1, 0]).map (fun c => (c.grant.role, c.floor)) =
      some (.validator, 100) ∧ created.capabilities.get? [2, 1] = none ∧
    (afterReplaced.capabilities.get? [2, 1]).map (fun c => (c.grant.role, c.floor)) =
      some (.validator, 0) := by
  decide +kernel

/-- While the old validator stays, a new one comes in above it. -/
theorem joined_floor_le : ∃ added, afterExtended.capabilities.get? [2, 1] = some added ∧
    ∀ capability ∈ created.capabilities.values, capability.IsValidator →
      capability.floor ≤ added.floor := by
  have happly : MembershipChange.apply codec created (.revision extended) = .ok afterExtended :=
    eq_ok_okValue _ _
  obtain ⟨added, hadded, hvalidator⟩ : ∃ added,
      afterExtended.capabilities.get? [2, 1] = some added ∧ added.IsValidator := ⟨_, rfl, rfl⟩
  refine ⟨added, hadded, fun capability hmem hrole => ?_⟩
  refine floor_le_of_granted .refl happly rfl ?_ hadded rfl hvalidator hmem hrole
  unfold MembershipChange.KeepsFloor EffectiveCapability.IsValidator
  decide +kernel

end LoweredFloor

end Chronolog
