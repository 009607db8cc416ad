import CirisPersist.Federation.Lineage.Agree

/-!
# A verdict until it expires

The accord's roster is prepared at the wall clock, not at the verdict's instant.
Under `reverse_quorum` the objection fold then moves with the clock, and the
deadlines and ballots it compares with it are registered nowhere.  A verdict holds
until it expires as long as none of these, for a signed row that was objected to, lies
between two readings of the clock and the witnesses' persons stay the same.
-/

namespace CirisPersist.Federation

/-!
## The objection fold between two readings of the clock
-/

namespace ReverseQuorum

variable [External]

theorem escalateObjection_congr
    (action : ActionRef) (objection : Attestation) {ballots : List Attestation}
    (roster dutyHolders : List String) (policy : ReverseQuorumPolicy) {now now' : Instant}
    (hballots : forall b, b ∈ ballots -> (b.assertedAt ≤ now' <-> b.assertedAt ≤ now))
    (hdeadline : forall d, policy.stewardDeadline action.assertedAt = some d ->
      (d ≤ now' <-> d ≤ now)) :
    escalateObjection action objection ballots roster dutyHolders policy now' =
      escalateObjection action objection ballots roster dutyHolders policy now := by
  have hrelevant : (ballots.filter fun b => isBallotOn b action objection now') =
      ballots.filter fun b => isBallotOn b action objection now := by
    refine List.filter_congr fun b hb => ?_
    simp only [isBallotOn, decide_eq_decide.mpr (hballots b hb)]
  have hpassed : ((policy.stewardDeadline action.assertedAt).any fun d => decide (d ≤ now')) =
      (policy.stewardDeadline action.assertedAt).any fun d => decide (d ≤ now) := by
    cases hd : policy.stewardDeadline action.assertedAt with
    | none => rfl
    | some d => exact decide_eq_decide.mpr (hdeadline d hd)
  simp only [escalateObjection, hrelevant, hpassed]

namespace ReverseQuorumInputs

structure ClockAlike (inp : ReverseQuorumInputs) (now' : Instant) : Prop where
  ballots : forall policy, inp.policy = some policy -> policy.steward.isSome = true ->
    forall b, b ∈ inp.ballots -> (b.assertedAt ≤ now' <-> b.assertedAt ≤ inp.now)
  deadlines : forall policy d, inp.policy = some policy ->
    policy.stewardDeadline inp.action.assertedAt = some d -> (d ≤ now' <-> d ≤ inp.now)

variable {inp : ReverseQuorumInputs} {now' : Instant}

theorem ClockAlike.objectionTally_eq
    (h : inp.ClockAlike now') {policy : ReverseQuorumPolicy} (hpolicy : inp.policy = some policy) :
    { inp with now := now' }.objectionTally policy = inp.objectionTally policy := by
  have hstep : { inp with now := now' }.tallyObjection policy = inp.tallyObjection policy := by
    funext acc o
    unfold tallyObjection overruled
    cases hsteward : policy.steward.isSome with
    | false => rfl
    | true =>
        have hescalation : { inp with now := now' }.escalationOf policy o =
            inp.escalationOf policy o :=
          escalateObjection_congr inp.action o inp.roster inp.dutyHolders policy
            (h.ballots policy hpolicy hsteward) fun d => h.deadlines policy d hpolicy
        rw [hescalation]
        rfl
  unfold objectionTally
  rw [hstep]

theorem foldOver_distinctObjectors
    {inp : ReverseQuorumInputs} {policy : ReverseQuorumPolicy}
    (hpolicy : inp.policy = some policy) :
    inp.foldOver.distinctObjectors = (inp.objectionTally policy).objectors.card := by
  unfold foldOver
  rw [hpolicy]

theorem ClockAlike.rosterReversalStands_eq
    (h : inp.ClockAlike now') (isAdd : Bool) :
    rosterReversalStands isAdd { inp with now := now' }.foldOver =
      rosterReversalStands isAdd inp.foldOver := by
  by_cases hnone : inp.policy = none
  · simp [rosterReversalStands, foldOver, hnone]
  · rcases Option.ne_none_iff_exists'.mp hnone with ⟨policy, hpolicy⟩
    have hold := foldOver_reversed_iff hpolicy
    have hnew : { inp with now := now' }.foldOver.standing = .reversed <->
        _ := foldOver_reversed_iff hpolicy
    have hcount : { inp with now := now' }.foldOver.distinctObjectors = _ :=
      foldOver_distinctObjectors hpolicy
    rw [h.objectionTally_eq hpolicy] at hnew hcount
    unfold rosterReversalStands
    rw [decide_eq_decide.mpr (hnew.trans hold.symm), hcount, foldOver_distinctObjectors hpolicy]

/-- What nobody objected to is judged alike, whoever could object and whenever. -/
theorem rosterReversalStands_eq_of_unopposed
    {inp' : ReverseQuorumInputs} (hnone : inp.objections = []) (hnone' : inp'.objections = [])
    (hpolicy : inp'.policy = inp.policy) (isAdd : Bool) :
    rosterReversalStands isAdd inp'.foldOver = rosterReversalStands isAdd inp.foldOver := by
  have hempty : forall (i : ReverseQuorumInputs) (policy : ReverseQuorumPolicy),
      i.objections = [] -> (i.objectionTally policy).objectors.card = 0 := by
    intro i policy hobjections
    rw [objectionTally, hobjections]
    rfl
  have hthreshold : forall (policy : ReverseQuorumPolicy) (seats : Nat),
      policy.reversalThreshold seats ≤ 0 <-> policy.m = 0 := by
    intro policy seats
    unfold ReverseQuorumPolicy.reversalThreshold
    omega
  cases hp : inp.policy with
  | none =>
      rw [hp] at hpolicy
      simp [rosterReversalStands, foldOver, hp, hpolicy]
  | some policy =>
      rw [hp] at hpolicy
      have hold := foldOver_reversed_iff hp
      have hnew := foldOver_reversed_iff hpolicy
      rw [hempty _ _ hnone, hthreshold] at hold
      rw [hempty _ _ hnone', hthreshold] at hnew
      unfold rosterReversalStands
      rw [decide_eq_decide.mpr (hnew.trans hold.symm), foldOver_distinctObjectors hp,
        foldOver_distinctObjectors hpolicy, hempty _ _ hnone, hempty _ _ hnone']

end ReverseQuorumInputs

end ReverseQuorum

/-!
## The accord's roster between two readings of the clock
-/

namespace LineageDirectory

open Expiring Lineage

section Edges

variable [External] [KeyVerifier]

def contestedActions (dir : LineageDirectory) : List ReverseQuorum.ActionRef :=
  dir.objectedActions.filter fun action =>
    (ReverseQuorum.objectionsAgainst dir.groupDirectory action).any fun r =>
      r.dimension == some ReverseQuorum.dimensionObjection

/-- What the objection fold over the contested rows compares with the clock: the instants of
the stored events, which make the roster that may object, and, under a steward tier, the
deadline of each row and the ballots about it. -/
def wallEdges (dir : LineageDirectory) (family : FamilyRecord) : List Instant :=
  match ReverseQuorumPolicy.parse family.consensusProtocol with
  | none => []
  | some policy =>
      dir.contestedActions.flatMap fun action =>
        dir.familyEventInstants ++ (policy.stewardDeadline action.assertedAt).toList ++
          if policy.steward.isSome then
            ((ReverseQuorum.objectionsAgainst dir.groupDirectory action).filter
              ReverseQuorum.isBallotRow).map Attestation.assertedAt
          else
            []

def ClockFree (dir : LineageDirectory) (wall wall' : Instant) : Prop :=
  forall family, dir.accordFamily = some family ->
    Text.startsWith ConsensusProtocol.reverseQuorumPrefix family.consensusProtocol = true ->
    forall b, b ∈ dir.wallEdges family -> (b ≤ wall' <-> b ≤ wall)

end Edges

section Reversals

variable {W : Type} [RubricNum W] [External] [KeyVerifier] {dir : LineageDirectory}
  {wall wall' : Instant} {family : FamilyRecord}

theorem objectionRoster_eq
    (hedges : forall b, b ∈ dir.familyEventInstants -> (b ≤ wall' <-> b ≤ wall)) :
    (dir.accordInput wall' family).objectionRoster W =
      (dir.accordInput wall family).objectionRoster W := by
  let events := (dir.accordInput wall family).unreversedEvents W
  have horder : rosterOrder events wall' = rosterOrder events wall := by
    refine rosterOrder_congr fun e he => ?_
    rcases List.mem_map.mp he with ⟨ev, hev, rfl⟩
    rcases RosterInput.unreversedEvent_eq W (dir.accordInput wall family) ev with ⟨roots, heq⟩
    rw [heq]
    exact hedges _ (effectiveAt_mem_of_stored hev)
  have hstate : (dir.accordInput wall' family).unreversedState W =
      (dir.accordInput wall family).unreversedState W := by
    change (foldRoster W family.members (RosterRules.ofFamily family) events wall').1 =
      (foldRoster W family.members (RosterRules.ofFamily family) events wall).1
    unfold foldRoster
    rw [horder]
  unfold RosterInput.objectionRoster
  rw [hstate]

theorem objections_eq_nil_of_uncontested
    {action : ReverseQuorum.ActionRef} (haction : action ∈ dir.objectedActions)
    (hfree : action ∉ dir.contestedActions) (groupKeyId : String) (roster : List String)
    (policy : Option ReverseQuorumPolicy) (now : Instant) :
    (ReverseQuorum.resolvedInputs dir.groupDirectory .family groupKeyId roster policy none
      action now).objections = [] := by
  have hnone : forall r, r ∈ ReverseQuorum.objectionsAgainst dir.groupDirectory action ->
      r.dimension ≠ some ReverseQuorum.dimensionObjection := by
    intro r hr hdimension
    refine hfree (List.mem_filter.mpr ⟨haction, List.any_eq_true.mpr ⟨r, hr, ?_⟩⟩)
    rw [hdimension]
    exact beq_self_eq_true _
  change ((ReverseQuorum.objectionsAgainst dir.groupDirectory action).filter _).filter _ = []
  rw [List.filter_filter, List.filter_eq_nil_iff]
  intro r hr
  rcases ((ReverseQuorum.mem_objectionsAgainst_iff _ _ r).mp hr).2.2.2.1 with
    hobjection | hdismissal | hballot
  · exact absurd hobjection (hnone r hr)
  · simp [hdismissal]
  · simp [hballot]

theorem isReversed_eq
    (hfree : dir.ClockFree wall wall') (hfamily : dir.accordFamily = some family)
    {ev : StoredRosterEvent} (hev : ev ∈ dir.storedFamilyEvents) :
    (dir.accordInput wall' family).isReversed W ev =
      (dir.accordInput wall family).isReversed W ev := by
  refine isReversed_congr rfl fun hreverse policy actor hparse hactor => ?_
  have haction := objectedAction_mem hev hactor
  by_cases hcontested : RosterInput.objectedAction actor ev ∈ dir.contestedActions
  · have hedges : forall b, b ∈ dir.familyEventInstants ++
          (policy.stewardDeadline ev.effectiveAt).toList ++
          (if policy.steward.isSome then
            ((ReverseQuorum.objectionsAgainst dir.groupDirectory
              (RosterInput.objectedAction actor ev)).filter
                ReverseQuorum.isBallotRow).map Attestation.assertedAt
          else []) -> (b ≤ wall' <-> b ≤ wall) := by
      intro b hb
      refine hfree family hfamily hreverse b ?_
      rw [wallEdges, hparse]
      exact List.mem_flatMap.mpr ⟨_, hcontested, hb⟩
    have hevents : forall b, b ∈ dir.familyEventInstants -> (b ≤ wall' <-> b ≤ wall) :=
      fun b hb => hedges b (List.mem_append_left _ (List.mem_append_left _ hb))
    have halike : (dir.reversalInputs W wall family ev actor).ClockAlike wall' := by
      constructor
      · intro policy' hpolicy hsteward b hb
        cases hparse.symm.trans hpolicy
        refine hedges _ (List.mem_append_right _ ?_)
        rw [if_pos hsteward]
        exact List.mem_map_of_mem hb
      · intro policy' d hpolicy hd
        cases hparse.symm.trans hpolicy
        refine hedges d (List.mem_append_left _ (List.mem_append_right _ ?_))
        rw [Option.mem_toList]
        exact hd
    unfold reversalInputs
    rw [objectionRoster_eq hevents]
    exact halike.rosterReversalStands_eq ev.isAdd
  · have hnone : forall now, (dir.reversalInputs W now family ev actor).objections = [] :=
      fun now => objections_eq_nil_of_uncontested haction hcontested _ _ _ now
    exact ReverseQuorum.ReverseQuorumInputs.rosterReversalStands_eq_of_unopposed
      (hnone wall) (hnone wall') rfl ev.isAdd

theorem readsAlike_of_clockFree
    (hfree : dir.ClockFree wall wall') (id : String) (chain : List Version) :
    ReadsAlike W dir dir wall wall' id chain where
  family := rfl
  events family hfamily := by
    refine List.map_congr_left fun ev hev => ?_
    rw [isReversed_eq hfree hfamily hev]
    rfl
  holders := rfl
  records _ _ := rfl
  nodeBearing _ _ := rfl
  conferrals _ _ _ := rfl
  resigned _ _ _ := rfl

end Reversals

/-!
## The witnesses between two readings of the clock
-/

/-- The lineage is not in witnessed mode, or the persons its witnesses and founders
resolve to are the same at both readings. -/
def PersonsKept (dir : LineageDirectory) (wall wall' : Instant) (signed : SignedCommunity) :
    Prop :=
  dir.witnessQuorumFor signed.community.communityKeyId = 0 ∨
    (forall c, c ∈ dir.headCosigns signed.community.communityKeyId ->
      dir.personOf wall' c.witnessKeyId = dir.personOf wall c.witnessKeyId) ∧
    forall v f, v ∈ chainOf signed -> f ∈ founders v.community ->
      dir.personOf wall' f = dir.personOf wall f

theorem witnessAnswersAlike_of_personsKept
    {dir : LineageDirectory} {wall wall' : Instant} {signed : SignedCommunity}
    (h : dir.PersonsKept wall wall' signed) :
    WitnessAnswersAlike dir dir wall wall' signed :=
  h.imp_right fun hpersons => ⟨fun c hc => ⟨rfl, rfl, hpersons.1 c hc⟩, hpersons.2⟩

/-!
## The verdict
-/

section Verdict

variable {W : Type} [RubricNum W] [External] [KeyVerifier] [LineageCodec]

theorem outcome_kept
    {dir : LineageDirectory} {wall wall' now t : Instant} {signed : SignedCommunity}
    (hclock : dir.ClockFree wall wall') (hle : now ≤ t)
    (hbefore : Before t ((dir.standingOf W wall signed).expiry now))
    (hkept : dir.PersonsKept wall wall' signed) :
    (dir.standingOf W wall' signed).outcome t = (dir.standingOf W wall signed).outcome now := by
  have hreads : ReadsAlike W dir dir wall wall' signed.community.communityKeyId
      (chainOf signed) := readsAlike_of_clockFree hclock _ _
  have hopen : Judged.Window.untilExpiry.Open now t ((dir.standingOf W wall signed).expiry now) :=
    ⟨hle, hbefore⟩
  rcases hreads.exists_standings rfl rfl hopen with ⟨standing, standing', hnow, ht, -, hwhole⟩
  rw [ht, hnow, hwhole (witnessAnswersAlike_of_personsKept hkept)]

end Verdict

/-!
## Samples

Five holders sit on the accord's roster.  One of them removed another, whose removal a
third objected to; the three who are left voted to overrule the objection, which takes
effect at the steward deadline.  A trust root's sole founder is the member removed.
-/

section Samples

open Reference

local instance sampleKeys : KeyVerifier where
  verifiesHybrid := fun _ _ _ => true
  verifiesThreshold := fun _ _ _ => true
  confersSteward := fun _ _ => false
  accordHolderRosterKeyIds := []

local instance nameCodec : LineageCodec where
  rowHash := Community.communityName
  signingEnvelope := fun _ => .null
  signingBytes := fun _ => some ""

def rootRecord (name founder : String) : Community where
  communityKeyId := "r"
  communityName := name
  members := [⟨founder, 0, some memberRoleFounder⟩]
  foundedAt := Instant.ofSeconds (-10)
  consensusProtocol := "quorum:1/1"
  policyBlob := some (.obj [
    ("cohort_subkind", .str cohortSubkindInfrastructure),
    ("cohort_subkind_payload", .obj [("infrastructure_constraint",
      .obj [("admission_quorum_basis", .str admissionQuorumBasisFounders)])]),
    ("consensus_protocol_entrenched", .bool true)])
  prevHeadDigest := ""
  charterDigest := ""

def rootBirth (founder : String) (holders : List String) : Version where
  community := rootRecord "a" founder
  authorityKeyId := founder
  scrubSignatureClassical := ""
  scrubSignaturePqc := none
  supersedeProof := none
  cosignatures := holders.map fun k => ⟨k, "", none⟩

def contestRow (id author dimension : String) (fields : List (String × Json)) : Attestation :=
  .ofAuthor id author "h" .scores (Instant.ofSeconds 5)
    (("dimension", .str dimension) ::
      (ReverseQuorum.Field.objectsTo, .str "e") :: fields)

def overrulingBallot (id voter : String) : Attestation :=
  contestRow id voter ReverseQuorum.dimensionOverruled
    [(ReverseQuorum.Field.ballotOn, .str "o")]

def contestedRows : AttestationStore :=
  ⟨[contestRow "o" "y" ReverseQuorum.dimensionObjection [], overrulingBallot "b1" "y",
    overrulingBallot "b2" "z", overrulingBallot "b3" "v"], by decide⟩

def accordNode (protocol : String) (rows : AttestationStore) : LineageDirectory where
  plane :=
    { store := rows
      isStewardBound := fun _ => true
      affiliationRoleTermAt := fun _ _ => none
      appointedModeratorsOf := fun _ _ => []
      verifiesEnvelope := fun _ _ => true }
  keyRecord := fun k => some ⟨k, "", none, [identityTypeWitness], 0, none, k⟩
  occurrenceIntervals := fun _ => []
  accordFamily := some ⟨⟨"f", protocol⟩, ⟨"h", 0, some memberRoleFounder⟩ ::
    ["x", "y", "z", "v"].map fun k => ⟨k, 0, none⟩⟩
  accordWidenings := []
  accordRevocations := [⟨"x", 0, "e"⟩]
  accordSigners := ⟨[], [⟨"x", 0, some "h", []⟩]⟩
  roleWithdrawal := fun _ => none
  proposalWindowUntil := fun _ => none
  communityRevocationSigners := fun _ => []
  headCosigns := fun _ => []
  charterMembers := fun _ => none
  revocationInstants := fun _ => []
  admissionIdentityForWriter := fun _ k => some k
  keyed := by
    intro k record h
    cases h
    rfl

def removedFounderRow : SignedCommunity :=
  { rootBirth "x" ["h", "y", "z", "v"] with lineage := [] }

end Samples

end LineageDirectory

end CirisPersist.Federation
