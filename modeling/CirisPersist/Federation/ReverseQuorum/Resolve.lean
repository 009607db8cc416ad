import CirisPersist.Federation.ReverseQuorum.Fold

/-!
# Objections read from a directory

The fold's inputs are read from the rows a node holds: the objection plane of
the actor, with every dismissal counted again against the roster.
-/

namespace CirisPersist.Federation

inductive Cohort where
  | selfId
  | family
  | community
  | affiliations
deriving DecidableEq

/-- What the roster folds read from a federation directory.  Steward binding,
role terms, appointed moderators and signature checks are answers of their own
planes. -/
structure GroupDirectory where
  store : AttestationStore
  isStewardBound : String -> Bool
  affiliationRoleTermAt : String -> Instant -> Option Int
  appointedModeratorsOf : String -> String -> List String
  verifiesEnvelope : Json -> ScrubSig -> Bool

namespace ReverseQuorum

def objectionStem :=
  "objection:"

def objectionsAgainst (dir : GroupDirectory) (action : ActionRef) : List Attestation :=
  (dir.store.read ((AttestationQuery.toKey action.actorKeyId).withDimensionStem
    objectionStem)).filter fun r =>
      (r.dimension == some dimensionObjection || r.dimension == some dimensionDismissal ||
        isBallotRow r) &&
      envelopeStr r Field.objectsTo == some action.actionId

def countDistinctRosterScrubs (dir : GroupDirectory) (envelope : Json)
    (scrubs : List ScrubSig) (roster : List String) : Finset String :=
  scrubs.foldl
    (fun counted scrub =>
      if scrub.scrubKeyId ∈ counted ∨ scrub.scrubKeyId ∉ roster then
        counted
      else if dir.verifiesEnvelope envelope scrub then
        insert scrub.scrubKeyId counted
      else
        counted)
    ∅

theorem mem_objectionsAgainst_iff
    (dir : GroupDirectory) (action : ActionRef) (r : Attestation) :
    r ∈ objectionsAgainst dir action <->
      r ∈ dir.store.rows ∧ r.tier = .federation ∧
        r.attestedKeyId = action.actorKeyId ∧
        (r.dimension = some dimensionObjection ∨ r.dimension = some dimensionDismissal ∨
          isBallotRow r = true) ∧
        envelopeStr r Field.objectsTo = some action.actionId := by
  -- the exact dimensions all carry the stem the read asks for
  have hstem : (r.dimension = some dimensionObjection ∨
      r.dimension = some dimensionDismissal ∨ isBallotRow r = true) ->
      r.dimension.any (Text.startsWith objectionStem) = true := by
    simp only [isBallotRow, Bool.or_eq_true, beq_iff_eq]
    rintro (h | h | h | h) <;> rw [h] <;> decide
  simp only [objectionsAgainst, List.mem_filter, AttestationStore.mem_read_iff,
    AttestationQuery.admits, AttestationQuery.toKey, AttestationQuery.withDimensionStem,
    Option.all_none, Option.all_some, Bool.true_and, Bool.and_true, List.isEmpty_nil,
    Bool.true_or, Bool.and_eq_true, Bool.or_eq_true, beq_iff_eq]
  constructor
  · rintro ⟨⟨hrow, ⟨hto, htier⟩, -⟩, hdim, hnames⟩
    exact ⟨hrow, htier, hto, or_assoc.mp hdim, hnames⟩
  · rintro ⟨hrow, htier, hto, hdim, hnames⟩
    exact ⟨⟨hrow, ⟨hto, htier⟩, hstem hdim⟩, or_assoc.mpr hdim, hnames⟩

def delegationScopeModerate :=
  "moderate"

section Resolve

variable [External]

/-- A dismissal by the objection's own author needs one signature. -/
def dismissalVerified (dir : GroupDirectory) (policy : ReverseQuorumPolicy)
    (roster : List String) (objectionRows : List Attestation) (d : Attestation) : Bool :=
  let selfDismissal := (envelopeStr d Field.dismisses).any fun oid =>
    objectionRows.any fun o =>
      o.attestationId == oid && o.attestingKeyId == d.attestingKeyId
  decide (dismissalRequired policy roster.length selfDismissal ≤
    (countDistinctRosterScrubs dir d.envelope d.scrubs roster).card)

def resolvedDutyHolders (dir : GroupDirectory) (cohort : Cohort) (cohortKeyId : String)
    (policy : Option ReverseQuorumPolicy) (given : Option (List String)) : List String :=
  match given with
  | some holders => holders
  | none =>
      if (policy.bind ReverseQuorumPolicy.steward).isSome ∧
          (cohort = .community ∨ cohort = .affiliations) then
        dir.appointedModeratorsOf cohortKeyId delegationScopeModerate
      else
        []

def resolvedInputs (dir : GroupDirectory) (cohort : Cohort) (cohortKeyId : String)
    (roster : List String) (policy : Option ReverseQuorumPolicy)
    (dutyHolders : Option (List String)) (action : ActionRef) (now : Instant) :
    ReverseQuorumInputs :=
  let rows := objectionsAgainst dir action
  let ballotRows := rows.filter isBallotRow
  let others := rows.filter fun r => !isBallotRow r
  let dismissalRows := others.filter fun r => r.dimension == some dimensionDismissal
  let objectionRows := others.filter fun r => r.dimension != some dimensionDismissal
  { action := action
    objections := objectionRows
    dismissals := match policy with
      | some policy => dismissalRows.filter (dismissalVerified dir policy roster objectionRows)
      | none => []
    ballots := ballotRows
    roster := roster
    dutyHolders := resolvedDutyHolders dir cohort cohortKeyId policy dutyHolders
    policy := policy
    now := now }

def resolveReverseQuorumWith (dir : GroupDirectory) (cohort : Cohort) (cohortKeyId : String)
    (roster : List String) (policy : Option ReverseQuorumPolicy)
    (dutyHolders : Option (List String)) (action : ActionRef) (now : Instant) :
    ReverseQuorumFold :=
  (resolvedInputs dir cohort cohortKeyId roster policy dutyHolders action now).foldOver

/-!
## Without dismissals and stewards

The objectors are then the roster members who hold an objection to the action
dated inside its window.
-/

/-- The row is an objection to the action by `k`, inside the window. -/
def isObjectionBy (policy : ReverseQuorumPolicy) (action : ActionRef) (k : String)
    (o : Attestation) : Bool :=
  o.tier == .federation && o.attestedKeyId == action.actorKeyId &&
    o.attestingKeyId == k && o.dimension == some dimensionObjection &&
    envelopeStr o Field.objectsTo == some action.actionId &&
    decide ((policy.window action.assertedAt).1 ≤ o.assertedAt) &&
    decide (o.assertedAt ≤ (policy.window action.assertedAt).2)

def objectsInWindow (dir : GroupDirectory) (policy : ReverseQuorumPolicy) (action : ActionRef)
    (k : String) : Bool :=
  dir.store.rows.any (isObjectionBy policy action k)

variable {dir : GroupDirectory} {cohort : Cohort} {cohortKeyId : String}
  {roster : List String} {policy : ReverseQuorumPolicy}
  {dutyHolders : Option (List String)} {action : ActionRef} {now : Instant}

theorem dismissedIds_eq_empty
    (hnone : forall r, r ∈ dir.store.rows -> r.dimension ≠ some dimensionDismissal) :
    (resolvedInputs dir cohort cohortKeyId roster (some policy) dutyHolders action
      now).dismissedIds = ∅ := by
  have hempty : (resolvedInputs dir cohort cohortKeyId roster (some policy) dutyHolders action
      now).dismissals = [] := by
    rw [List.eq_nil_iff_forall_not_mem]
    intro r hr
    simp only [resolvedInputs, List.mem_filter, mem_objectionsAgainst_iff, beq_iff_eq] at hr
    exact hnone r hr.1.1.1.1 hr.1.2
  rw [ReverseQuorumInputs.dismissedIds, hempty]
  rfl

theorem mem_resolved_objectors_iff
    (hsteward : policy.steward = none)
    (hnone : forall r, r ∈ dir.store.rows -> r.dimension ≠ some dimensionDismissal) (k : String) :
    k ∈ ((resolvedInputs dir cohort cohortKeyId roster (some policy) dutyHolders action
        now).objectionTally policy).objectors <->
      k ∈ roster ∧ objectsInWindow dir policy action k = true := by
  have hcounts : forall o, (resolvedInputs dir cohort cohortKeyId roster (some policy)
      dutyHolders action now).counts policy o = (resolvedInputs dir cohort cohortKeyId roster
      (some policy) dutyHolders action now).heard policy o := by
    intro o
    simp [ReverseQuorumInputs.counts, ReverseQuorumInputs.overruled, hsteward,
      dismissedIds_eq_empty hnone]
  rw [ReverseQuorumInputs.mem_objectors_iff]
  simp only [hcounts]
  simp only [ReverseQuorumInputs.heard, objectsInWindow, isObjectionBy,
    List.any_eq_true, resolvedInputs, List.mem_filter, mem_objectionsAgainst_iff,
    Bool.and_eq_true, beq_iff_eq, bne_iff_ne, Bool.not_eq_true', decide_eq_true_iff,
    List.contains_iff_mem]
  constructor
  · rintro ⟨o, ⟨⟨⟨hrow, htier, hto, -, hnames⟩, -⟩, -⟩, ⟨⟨⟨⟨hdim, -⟩, hmember⟩, hopens⟩, hcloses⟩,
      rfl⟩
    exact ⟨hmember, o, hrow, ⟨⟨⟨⟨⟨htier, hto⟩, rfl⟩, hdim⟩, hnames⟩, of_decide_eq_true hopens⟩,
      of_decide_eq_true hcloses⟩
  · rintro ⟨hmember, o, hrow, ⟨⟨⟨⟨⟨htier, hto⟩, hby⟩, hdim⟩, hnames⟩, hopens⟩, hcloses⟩
    refine ⟨o, ⟨⟨⟨hrow, htier, hto, Or.inl hdim, hnames⟩, ?_⟩, hnone o hrow⟩,
      ⟨⟨⟨⟨hdim, hnames⟩, by rw [hby]; exact hmember⟩, decide_eq_true hopens⟩,
        decide_eq_true hcloses⟩, hby⟩
    rw [isBallotRow, hdim]
    decide

theorem resolve_reversed_iff
    (hsteward : policy.steward = none)
    (hnone : forall r, r ∈ dir.store.rows -> r.dimension ≠ some dimensionDismissal) :
    (resolveReverseQuorumWith dir cohort cohortKeyId roster (some policy) dutyHolders action
        now).standing = .reversed <->
      policy.reversalThreshold roster.length ≤
        (roster.toFinset.filter fun k => objectsInWindow dir policy action k = true).card := by
  rw [resolveReverseQuorumWith, ReverseQuorumInputs.foldOver_reversed_iff rfl]
  have hobjectors : ((resolvedInputs dir cohort cohortKeyId roster (some policy) dutyHolders
      action now).objectionTally policy).objectors =
        roster.toFinset.filter fun k => objectsInWindow dir policy action k = true := by
    ext k
    rw [mem_resolved_objectors_iff hsteward hnone, Finset.mem_filter, List.mem_toFinset]
  rw [hobjectors]
  rfl

end Resolve

end ReverseQuorum

end CirisPersist.Federation
