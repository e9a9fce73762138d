import Chronolog.Capabilities.Types
import Chronolog.Lib.Search
import Chronolog.Lib.Text
import Mathlib.Data.List.Sort
import Mathlib.Tactic.TFAE

/-!
# Validation policies

`evaluateValidationPolicy` decides whether evidence satisfies a policy and
selects a smallest part of it that does. It drops evidence of a capability seen
before, reports what is missing and, if nothing is, searches the sublists of the
evidence by a dynamic programme over capped policy states (`stateKey`).

What a policy asks for is stated without the search by `Meets`. The state of a
selection determines whether it meets the policy (`meets_congr`), and it
determines the state of the selection with one more item
(`stateKey_rightCongruent`): the search never fails to retain a satisfying state
(`evaluateValidationPolicy_eq_ok`), so the verdict is `Meets`.
-/

namespace Chronolog

open KeyedMap List

/-- The class minimums, ordered by the encoding of the class names. -/
def ValidationPolicy.sortedClassMinimums (policy : ValidationPolicy) : List (String × Int) :=
  policy.classMinimums.entries.insertionSort fun a b => BytesLe (utf8 a.1) (utf8 b.1)

/-- The required organizations, ordered by their encoding. -/
def ValidationPolicy.sortedOrganizations (policy : ValidationPolicy) : List String :=
  policy.requiredOrganizations.insertionSort fun a b => BytesLe (utf8 a) (utf8 b)

/-- The number of items of evidence of a validator class. -/
def classCount (className : String) (evidence : List ValidatorEvidence) : Int :=
  (evidence.filter fun item => item.validatorClass = some className).length

/-- Is there evidence of the organization? -/
def hasOrganization (organization : String) (evidence : List ValidatorEvidence) : Bool :=
  evidence.any fun item => item.organization = some organization

/-- The constraints of the policy that the evidence does not meet. -/
def missingConstraints (policy : ValidationPolicy) (evidence : List ValidatorEvidence) :
    List String :=
  let total : Int := evidence.length
  (if total < policy.minimumValidators then
    [s!"validators:{policy.minimumValidators - total}"] else []) ++
  (policy.sortedClassMinimums.filterMap fun (className, minimum) =>
    let count := classCount className evidence
    if count < minimum then some s!"class:{className}:{minimum - count}" else none) ++
  policy.sortedOrganizations.filterMap fun organization =>
    if hasOrganization organization evidence then none else some s!"organization:{organization}"

/-- The order in which satisfying selections are preferred: shorter ones first,
    then by their capability ids. -/
def selectionOrder (left right : List ValidatorEvidence) : Ordering :=
  if left.length ≠ right.length then compare left.length right.length
  else ((left.zip right).map fun (l, r) => compareBytes l.capabilityId r.capabilityId).find?
    (· ≠ .eq) |>.getD .eq

/-- The state of a selection: its counts, capped at what the policy asks for.
    (`minimumValidators` passes through a double in the source; that is exact
    wherever it does not exceed the number of items.) -/
def stateKey (policy : ValidationPolicy) (evidence : List ValidatorEvidence) : String :=
  let total : Int := min evidence.length policy.minimumValidators
  let classes := Text.labelled Prod.fst (fun (name, minimum) =>
    min (classCount name evidence) minimum) policy.sortedClassMinimums
  let organizations := String.join <| policy.sortedOrganizations.map fun name =>
    if hasOrganization name evidence then "1" else "0"
  toString total ++ "|" ++ classes ++ "|" ++ organizations

/-- The evidence without repeated capabilities, ordered by capability id. -/
def uniqueEvidence (evidence : List ValidatorEvidence) : List ValidatorEvidence :=
  let canonicalEvidence := evidence.insertionSort fun left right =>
    ((compareBytes left.capabilityId right.capabilityId).then
      (compareBytes left.validatorId right.validatorId)).isLE
  let uniqueCapabilities := canonicalEvidence.foldl KeyedMap.putNew
    (KeyedMap.empty : KeyedMap ValidatorEvidence.capabilityId)
  uniqueCapabilities.values.insertionSort fun a b => BytesLe a.capabilityId b.capabilityId

/-- The preferred one of the retained selections that satisfy the policy. -/
def satisfyingSelection (policy : ValidationPolicy) (sorted : List ValidatorEvidence) :
    Option (List ValidatorEvidence) :=
  let states := Search.retained (stateKey policy)
    (fun candidate existing => selectionOrder candidate existing = .lt) sorted
  let satisfying := states.values.filter fun items => (missingConstraints policy items).length = 0
  (satisfying.insertionSort fun left right => (selectionOrder left right).isLE).head?

/-- Decides whether the evidence satisfies the policy, and selects a smallest
    part of it that does. -/
def evaluateValidationPolicy (policy : ValidationPolicy) (evidence : List ValidatorEvidence) :
    Except ProtocolError PolicyEvaluation := do
  protocolInvariant (0 < policy.minimumValidators) .schemaInvalid
    "Validation threshold must be positive"
  let sorted := uniqueEvidence evidence
  let allMissing := missingConstraints policy sorted
  if 0 < allMissing.length then return ⟨false, [], allMissing⟩
  match satisfyingSelection policy sorted with
  | none => .error ⟨.schemaInvalid, "Policy solver failed to retain a satisfying state"⟩
  | some selected => return ⟨true, selected, []⟩

/-! ## What a policy asks for -/

/-- The evidence provides what the policy asks for. -/
structure ValidationPolicy.Meets (policy : ValidationPolicy) (evidence : List ValidatorEvidence) :
    Prop where
  total : policy.minimumValidators ≤ evidence.length
  classes : ∀ c ∈ policy.classMinimums.entries, c.2 ≤ classCount c.1 evidence
  organizations : ∀ o ∈ policy.requiredOrganizations, hasOrganization o evidence

variable {policy : ValidationPolicy}

theorem missingConstraints_eq_nil_iff {evidence : List ValidatorEvidence} :
    missingConstraints policy evidence = [] ↔ policy.Meets evidence := by
  have hclass : ∀ c : String × Int, c ∈ policy.sortedClassMinimums ↔
      c ∈ policy.classMinimums.entries := fun c => mem_insertionSort _
  have horg : ∀ o, o ∈ policy.sortedOrganizations ↔ o ∈ policy.requiredOrganizations :=
    fun o => mem_insertionSort _
  simp only [missingConstraints, append_eq_nil_iff, filterMap_eq_nil_iff,
    ite_eq_right_iff, ite_eq_left_iff, reduceCtorEq, imp_false, not_lt,
    Bool.not_eq_true, Bool.not_eq_false, hclass, horg]
  exact ⟨fun ⟨⟨h₁, h₂⟩, h₃⟩ => ⟨h₁, h₂, h₃⟩, fun h => ⟨⟨h.total, h.classes⟩, h.organizations⟩⟩

instance (policy : ValidationPolicy) (evidence : List ValidatorEvidence) :
    Decidable (policy.Meets evidence) :=
  decidable_of_iff _ missingConstraints_eq_nil_iff

/-- More evidence meets a policy that less evidence meets. -/
theorem ValidationPolicy.Meets.mono {evidence evidence' : List ValidatorEvidence}
    (h : policy.Meets evidence) (hsub : evidence.Subperm evidence') : policy.Meets evidence' where
  total := h.total.trans (by exact_mod_cast hsub.length_le)
  classes c hc := (h.classes c hc).trans (by
    rw [classCount, classCount]
    exact_mod_cast (hsub.filter _).length_le)
  organizations o ho := by
    obtain ⟨item, hitem, hitem'⟩ := any_eq_true.1 (h.organizations o ho)
    exact any_eq_true.2 ⟨item, hsub.subset hitem, hitem'⟩

/-! ## The state of a selection -/

section StateKey

variable {policy : ValidationPolicy} {s t : List ValidatorEvidence}

/-- The state of a selection determines its capped counts. -/
theorem stateKey_eq_iff : stateKey policy s = stateKey policy t ↔
    min (s.length : Int) policy.minimumValidators = min (t.length : Int) policy.minimumValidators ∧
    (∀ c ∈ policy.sortedClassMinimums, min (classCount c.1 s) c.2 = min (classCount c.1 t) c.2) ∧
    ∀ o ∈ policy.sortedOrganizations, hasOrganization o s = hasOrganization o t := by
  constructor
  · intro h
    have h := congrArg String.toList h
    simp only [stateKey, String.toList_append, append_assoc] at h
    obtain ⟨htotal, h⟩ := Text.toString_append_cons_inj (d := '|') (by decide) h
    obtain ⟨hclasses, h⟩ := Text.labelled_injective Prod.fst h
    refine ⟨htotal, hclasses, fun o ho => ?_⟩
    -- The flags of the organizations are single characters, so they line up.
    have hflag : ∀ u : List ValidatorEvidence,
        (String.join (policy.sortedOrganizations.map fun name =>
          if hasOrganization name u then "1" else "0")).toList =
        policy.sortedOrganizations.map fun name => if hasOrganization name u then '1' else '0' := by
      intro u
      rw [String.toList_join, flatMap_map]
      induction policy.sortedOrganizations with
      | nil => rfl
      | cons name l ih =>
        rw [flatMap_cons, ih, map_cons]
        split_ifs <;> rfl
    rw [hflag s, hflag t] at h
    have := map_inj_left.1 h o ho
    revert this
    cases hasOrganization o s <;> cases hasOrganization o t <;> simp
  · rintro ⟨htotal, hclasses, horgs⟩
    have hlabel : Text.labelled Prod.fst (fun c : String × Int => min (classCount c.1 s) c.2)
          policy.sortedClassMinimums =
        Text.labelled Prod.fst (fun c => min (classCount c.1 t) c.2)
          policy.sortedClassMinimums := by
      rw [Text.labelled, Text.labelled, map_congr_left fun c hc => by rw [hclasses c hc]]
    have hflags : policy.sortedOrganizations.map (fun name =>
          if hasOrganization name s then "1" else "0") =
        policy.sortedOrganizations.map fun name =>
          if hasOrganization name t then "1" else "0" :=
      map_congr_left fun o ho => by rw [horgs o ho]
    simp only [stateKey, htotal, hlabel, hflags]

theorem classCount_append (className : String) (s t : List ValidatorEvidence) :
    classCount className (s ++ t) = classCount className s + classCount className t := by
  simp [classCount]

theorem hasOrganization_append (o : String) (s t : List ValidatorEvidence) :
    hasOrganization o (s ++ t) = (hasOrganization o s || hasOrganization o t) :=
  any_append

/-- The state of a selection determines the state with one more item. -/
theorem stateKey_rightCongruent (policy : ValidationPolicy) :
    Search.RightCongruent (stateKey policy) := by
  intro s t h x
  obtain ⟨htotal, hclasses, horgs⟩ := stateKey_eq_iff.1 h
  refine stateKey_eq_iff.2 ⟨?_, fun c hc => ?_, fun o ho => ?_⟩
  · rw [length_append, length_append]
    omega
  · have := hclasses c hc
    have : 0 ≤ classCount c.1 [x] := Int.natCast_nonneg _
    rw [classCount_append, classCount_append]
    omega
  · rw [hasOrganization_append, hasOrganization_append, horgs o ho]

/-- The state of a selection determines whether it meets the policy. -/
theorem meets_congr (h : stateKey policy s = stateKey policy t) :
    policy.Meets s ↔ policy.Meets t := by
  have key : ∀ {s t : List ValidatorEvidence}, stateKey policy s = stateKey policy t →
      policy.Meets s → policy.Meets t := by
    intro s t h hs
    obtain ⟨htotal, hclasses, horgs⟩ := stateKey_eq_iff.1 h
    refine ⟨?_, fun c hc => ?_, fun o ho => ?_⟩
    · have := hs.total
      omega
    · have := hs.classes c hc
      have := hclasses c ((mem_insertionSort _).2 hc)
      omega
    · rw [← horgs o ((mem_insertionSort _).2 ho)]
      exact hs.organizations o ho
  exact ⟨key h, key h.symm⟩

end StateKey

/-! ## The verdict -/

section Evaluate

variable {policy : ValidationPolicy} {evidence : List ValidatorEvidence}

/-- Evidence that does not meet the policy is reported with what is missing. -/
theorem evaluateValidationPolicy_of_not_meets (hpos : 0 < policy.minimumValidators)
    (h : ¬ policy.Meets (uniqueEvidence evidence)) : evaluateValidationPolicy policy evidence =
      .ok ⟨false, [], missingConstraints policy (uniqueEvidence evidence)⟩ := by
  have hmissing : 0 < (missingConstraints policy (uniqueEvidence evidence)).length :=
    length_pos_iff.2 fun h' => h (missingConstraints_eq_nil_iff.1 h')
  simp only [evaluateValidationPolicy, decide_eq_true hpos, hmissing]
  rfl

/-- The search retains a selection that satisfies the policy if there is one. -/
theorem satisfyingSelection_of_meets {sorted : List ValidatorEvidence} (h : policy.Meets sorted) :
    ∃ selected, satisfyingSelection policy sorted = some selected ∧ selected.Sublist sorted ∧
      policy.Meets selected := by
  let states := Search.retained (stateKey policy)
    (fun candidate existing => selectionOrder candidate existing = .lt) sorted
  let satisfying := (states.values.filter fun items =>
    (missingConstraints policy items).length = 0).insertionSort
      fun left right => (selectionOrder left right).isLE
  have hmem : ∀ s, s ∈ satisfying ↔ s ∈ states.values ∧ policy.Meets s := fun s => by
    simp only [satisfying, mem_insertionSort, mem_filter, decide_eq_true_eq,
      length_eq_zero_iff, missingConstraints_eq_nil_iff]
  -- The items themselves have a retained selection of their state, and it meets
  -- the policy as they do; so there is a selection to choose.
  obtain ⟨s, hs⟩ : ∃ s, states.get? (stateKey policy sorted) = some s :=
    Search.exists_get?_retained (stateKey_rightCongruent policy) (Sublist.refl sorted)
  have hs' : s ∈ satisfying := (hmem s).2
    ⟨OrdMap.mem_values_iff.2 ⟨_, hs⟩, (meets_congr (Search.get?_retained hs).1).2 h⟩
  obtain ⟨selected, l, hl⟩ := exists_cons_of_ne_nil (ne_nil_of_mem hs')
  obtain ⟨hval, hmeets⟩ := (hmem selected).1 (hl ▸ mem_cons_self)
  obtain ⟨k, hk⟩ := OrdMap.mem_values_iff.1 hval
  refine ⟨selected, ?_, (Search.get?_retained hk).2, hmeets⟩
  change satisfying.head? = some selected
  rw [hl, head?_cons]

/-- From evidence that meets the policy a part is selected that meets it. -/
theorem evaluateValidationPolicy_of_meets (hpos : 0 < policy.minimumValidators)
    (h : policy.Meets (uniqueEvidence evidence)) :
    ∃ selected, evaluateValidationPolicy policy evidence = .ok ⟨true, selected, []⟩ ∧
      selected.Sublist (uniqueEvidence evidence) ∧ policy.Meets selected := by
  obtain ⟨selected, hsel, hsub, hmeets⟩ := satisfyingSelection_of_meets h
  refine ⟨selected, ?_, hsub, hmeets⟩
  simp only [evaluateValidationPolicy, decide_eq_true hpos, missingConstraints_eq_nil_iff.2 h,
    length_nil, Nat.lt_irrefl, hsel]
  rfl

/-- The evidence satisfies the policy, by the verdict of its evaluation. -/
def Satisfies (policy : ValidationPolicy) (evidence : List ValidatorEvidence) : Prop :=
  ∃ evaluation, evaluateValidationPolicy policy evidence = .ok evaluation ∧ evaluation.satisfied

theorem satisfies_iff : Satisfies policy evidence ↔
    0 < policy.minimumValidators ∧ policy.Meets (uniqueEvidence evidence) := by
  constructor
  · rintro ⟨evaluation, heval, hsat⟩
    by_cases hpos : 0 < policy.minimumValidators
    · refine ⟨hpos, ?_⟩
      by_contra h
      rw [evaluateValidationPolicy_of_not_meets hpos h] at heval
      cases heval
      cases hsat
    · rw [evaluateValidationPolicy, decide_eq_false hpos] at heval
      cases heval
  · rintro ⟨hpos, h⟩
    obtain ⟨selected, heval, _⟩ := evaluateValidationPolicy_of_meets hpos h
    exact ⟨_, heval, rfl⟩

/-- The search finds a part of the evidence that meets the policy, if there is one. -/
theorem satisfies_tfae (policy : ValidationPolicy) (evidence : List ValidatorEvidence) : TFAE
    [Satisfies policy evidence,
      0 < policy.minimumValidators ∧ ∃ part, part.Sublist (uniqueEvidence evidence) ∧ policy.Meets part,
      ∃ selected, evaluateValidationPolicy policy evidence = .ok ⟨true, selected, []⟩ ∧
        selected.Sublist (uniqueEvidence evidence) ∧ policy.Meets selected] := by
  tfae_have 1 → 2 := fun h => ⟨(satisfies_iff.1 h).1, _, .refl _, (satisfies_iff.1 h).2⟩
  tfae_have 2 → 3 := fun ⟨hpos, _, hsub, h⟩ =>
    evaluateValidationPolicy_of_meets hpos (h.mono hsub.subperm)
  tfae_have 3 → 1 := fun ⟨_, heval, _⟩ => ⟨_, heval, rfl⟩
  tfae_finish

end Evaluate

/-! ## Evidence without repeated capabilities -/

section UniqueEvidence

variable {policy : ValidationPolicy} {evidence evidence' : List ValidatorEvidence}
  {e : ValidatorEvidence}

/-- Evidence of the same capability is the same. -/
def OnePerCapability (evidence : List ValidatorEvidence) : Prop :=
  ∀ e ∈ evidence, ∀ e' ∈ evidence, e.capabilityId = e'.capabilityId → e = e'

theorem nodup_uniqueEvidence (evidence : List ValidatorEvidence) :
    (uniqueEvidence evidence).Nodup := by
  rw [uniqueEvidence, (perm_insertionSort _ _).nodup_iff]
  exact (nodup_values_map_key _).of_map

theorem mem_of_mem_uniqueEvidence (h : e ∈ uniqueEvidence evidence) : e ∈ evidence := by
  rw [uniqueEvidence, mem_insertionSort, mem_values_iff,
    get?_foldl_putNew, get?_empty] at h
  exact (mem_insertionSort _).1 (mem_of_find?_eq_some h)

theorem exists_mem_uniqueEvidence (h : e ∈ evidence) :
    ∃ e' ∈ uniqueEvidence evidence, e'.capabilityId = e.capabilityId := by
  obtain ⟨e', he'⟩ : ∃ e', (insertionSort (fun left right : ValidatorEvidence =>
      ((compareBytes left.capabilityId right.capabilityId).then
        (compareBytes left.validatorId right.validatorId)).isLE = true) evidence).find?
        (fun v => v.capabilityId = e.capabilityId) = some e' := by
    rw [← Option.isSome_iff_exists, find?_isSome]
    exact ⟨e, (mem_insertionSort _).2 h, by simp⟩
  have hid : e'.capabilityId = e.capabilityId := by simpa using find?_some he'
  refine ⟨e', ?_, hid⟩
  rw [uniqueEvidence, mem_insertionSort, mem_values_iff,
    get?_foldl_putNew, get?_empty, hid]
  exact he'

theorem mem_uniqueEvidence_iff (hone : OnePerCapability evidence) :
    e ∈ uniqueEvidence evidence ↔ e ∈ evidence := by
  refine ⟨mem_of_mem_uniqueEvidence, fun h => ?_⟩
  obtain ⟨e', he', hid⟩ := exists_mem_uniqueEvidence h
  rwa [hone e h e' (mem_of_mem_uniqueEvidence he') hid.symm]

/-- Evidence of different capabilities is only reordered. -/
theorem perm_uniqueEvidence (hone : OnePerCapability evidence) (hnodup : evidence.Nodup) :
    (uniqueEvidence evidence).Perm evidence :=
  (perm_ext_iff_of_nodup (nodup_uniqueEvidence evidence) hnodup).2
    fun _ => mem_uniqueEvidence_iff hone

/-- A policy asks for at least one validator. -/
theorem not_satisfies_nil : ¬ Satisfies policy [] := fun h => by
  obtain ⟨hpos, hmeets⟩ := satisfies_iff.1 h
  have htotal := hmeets.total
  rw [eq_nil_iff_forall_not_mem.2 fun e he =>
    absurd (mem_of_mem_uniqueEvidence he) not_mem_nil] at htotal
  exact absurd htotal (not_le.2 hpos)

theorem Satisfies.ne_nil (h : Satisfies policy evidence) : evidence ≠ [] := by
  rintro rfl
  exact not_satisfies_nil h

/-- More evidence satisfies a policy that less evidence satisfies, if a
    capability has only one evidence. -/
theorem Satisfies.mono (h : Satisfies policy evidence) (hsub : evidence ⊆ evidence')
    (hone : OnePerCapability evidence') : Satisfies policy evidence' := by
  obtain ⟨hpos, hmeets⟩ := satisfies_iff.1 h
  refine satisfies_iff.2 ⟨hpos, hmeets.mono (subperm_of_subset
    (nodup_uniqueEvidence evidence) fun e he => (mem_uniqueEvidence_iff hone).2 ?_)⟩
  exact hsub (mem_of_mem_uniqueEvidence he)

/-- Whether evidence satisfies a policy only depends on which evidence it is. -/
theorem satisfies_congr (hmem : ∀ e, e ∈ evidence ↔ e ∈ evidence')
    (hone : OnePerCapability evidence') : Satisfies policy evidence ↔ Satisfies policy evidence' :=
  ⟨fun h => h.mono (fun e he => (hmem e).1 he) hone,
    fun h => h.mono (fun e he => (hmem e).2 he) fun e he e' he' =>
      hone e ((hmem e).1 he) e' ((hmem e').1 he')⟩

end UniqueEvidence

end Chronolog
