import CirisPersist.Federation.Lineage.Clock

/-!
# The key a verdict is cached under

A verdict is cached under a digest of what it reads.  The digest covers the row, the
cosigns, the charter, the accord's stored roster and, for each key the chain or the
accord names, its record, conferral and `node` intervals.  It does not cover the
witnesses' own records, revocations and persons, nor the objections that a
`reverse_quorum` accord folds.
-/

namespace CirisPersist.Federation

/-!
## What is fed to the digest
-/

structure KeyFeed where
  key : String
  record : Option String
  withdrawal : Option RoleWithdrawal
  windowUntil : Option String
  node : Bool × List InstantInterval
deriving DecidableEq

structure StandingFeed where
  row : SignedCommunity
  lineageCosigns : List LineageHeadCosign
  charterMembers : Option CharterMembers
  family : Option FamilyRecord
  widenings : List FamilyWidening
  revocations : List FamilyRevocation
  signers : Option CommunityRosterSigners
  keys : List KeyFeed
  resignations : List (String × Instant)

namespace Lineage

def noProposal : String :=
  "no-proposal"

def versionKeys (v : Version) : List String :=
  v.community.members.map CommunityMember.keyId ++ v.authorityKeyId ::
    v.cosignatures.map RosterCosignature.authorityKeyId ++
    v.supersedeProof.toList.flatMap fun p =>
      p.quorumSignatures.map ThresholdSignature.memberId

def resignationBefore (a b : String × Instant) : Prop :=
  a.1 < b.1 ∨ (a.1 = b.1 ∧ a.2 ≤ b.2)

instance : DecidableRel resignationBefore := by
  intro a b
  unfold resignationBefore
  infer_instance

end Lineage

namespace LineageDirectory

open Expiring Lineage

section Feed

variable (dir : LineageDirectory)

def resignations (id : String) : List (String × Instant) :=
  ((dir.communityRevocationSigners id).filter fun r =>
    r.authorityKeyId == some r.memberKeyId && r.cosignerKeyIds.isEmpty).map fun r =>
      (r.memberKeyId, r.effectiveAt)

def keyFeed (key : String) : KeyFeed where
  key := key
  record := (dir.keyRecord key).map KeyRecord.persistRowHash
  withdrawal := dir.roleWithdrawal key
  windowUntil := (dir.roleWithdrawal key).map fun w =>
    (dir.proposalWindowUntil w.authorityDecisionDigest).getD noProposal
  node := dir.nodeBearingOf key

variable [KeyVerifier]

def feedKeys (signed : SignedCommunity) : List String :=
  Sorting.sortDedup (KeyVerifier.accordHolderRosterKeyIds ++
    (dir.accordFamily.toList.flatMap fun f => f.members.map CommunityMember.keyId) ++
    (dir.accordWidenings.map fun w => w.member.keyId) ++
    (chainOf signed).flatMap versionKeys)

def standingCacheKey (signed : SignedCommunity) : StandingFeed where
  row := signed
  lineageCosigns := dir.headCosigns signed.community.communityKeyId
  charterMembers := dir.charterMembers signed.community.communityKeyId
  family := dir.accordFamily
  widenings := dir.accordWidenings
  revocations := dir.accordRevocations
  signers := dir.accordFamily.map fun _ => dir.accordSigners
  keys := (dir.feedKeys signed).map dir.keyFeed
  resignations :=
    (dir.resignations signed.community.communityKeyId).insertionSort resignationBefore

end Feed

/-!
## What an equal key settles
-/

section Resigned

variable {dir dir' : LineageDirectory} {id : String}

theorem resignedWithin_iff
    {key : String} {after upTo : Instant} :
    dir.resignedWithin id key after upTo = true <->
      exists r, (key, r) ∈ dir.resignations id ∧ after < r ∧ r ≤ upTo := by
  simp only [resignedWithin, resignationsOf, resignations, List.any_eq_true, List.mem_map,
    List.mem_filter, Bool.and_eq_true, decide_eq_true_eq, Prod.mk.injEq]
  constructor
  · rintro ⟨r, ⟨s, ⟨hs, ⟨hmember, hself⟩, halone⟩, rfl⟩, hafter⟩
    exact ⟨s.effectiveAt, ⟨s, ⟨hs, hself, halone⟩, hmember, rfl⟩, hafter⟩
  · rintro ⟨r, ⟨s, ⟨hs, hself, halone⟩, hmember, rfl⟩, hafter⟩
    exact ⟨s.effectiveAt, ⟨s, ⟨hs, ⟨hmember, hself⟩, halone⟩, rfl⟩, hafter⟩

theorem resignedWithin_eq_of_sorted_eq
    (h : (dir'.resignations id).insertionSort resignationBefore =
      (dir.resignations id).insertionSort resignationBefore)
    (key : String) (after upTo : Instant) :
    dir'.resignedWithin id key after upTo = dir.resignedWithin id key after upTo := by
  have hmem : forall x, x ∈ dir'.resignations id <-> x ∈ dir.resignations id := by
    intro x
    rw [← List.mem_insertionSort resignationBefore, h, List.mem_insertionSort]
  rw [Bool.eq_iff_iff, resignedWithin_iff, resignedWithin_iff]
  exact exists_congr fun r => and_congr_left fun _ => hmem (key, r)

end Resigned

/-- Two directories' records of a key with one content hash are one record. -/
def RecordsHashed (dir dir' : LineageDirectory) : Prop :=
  forall key record record', dir.keyRecord key = some record ->
    dir'.keyRecord key = some record' -> record'.persistRowHash = record.persistRowHash ->
      record' = record

section Keys

variable {dir dir' : LineageDirectory} {key : String}

theorem keyRecord_eq_of_keyFeed_eq
    (hhashed : RecordsHashed dir dir') (h : dir'.keyFeed key = dir.keyFeed key) :
    dir'.keyRecord key = dir.keyRecord key := by
  have hrecord : (dir'.keyRecord key).map KeyRecord.persistRowHash =
      (dir.keyRecord key).map KeyRecord.persistRowHash := congrArg KeyFeed.record h
  cases hold : dir.keyRecord key with
  | none =>
      rw [hold] at hrecord
      exact Option.map_eq_none_iff.mp hrecord
  | some record =>
      rw [hold] at hrecord
      rcases Option.map_eq_some_iff.mp hrecord with ⟨record', hnew, hhash⟩
      rw [hnew, hhashed key record record' hold hnew hhash]

theorem keepsConferral_eq_of_keyFeed_eq
    [External] (hno : External.parseRfc3339 noProposal = none)
    (h : dir'.keyFeed key = dir.keyFeed key) (at? : Option Instant) :
    dir'.keepsConferral key at? = dir.keepsConferral key at? := by
  have hwithdrawal : dir'.roleWithdrawal key = dir.roleWithdrawal key :=
    congrArg KeyFeed.withdrawal h
  have hwindow : (dir'.roleWithdrawal key).map _ = (dir.roleWithdrawal key).map _ :=
    congrArg KeyFeed.windowUntil h
  have hread : forall until? : Option String,
      until?.bind External.parseRfc3339 = External.parseRfc3339 (until?.getD noProposal) := by
    intro until?
    cases until? with
    | none => exact hno.symm
    | some u => rfl
  unfold keepsConferral
  rw [hwithdrawal] at hwindow ⊢
  cases hw : dir.roleWithdrawal key with
  | none => rfl
  | some w =>
      rw [hw] at hwindow
      have huntil := Option.some.inj hwindow
      simp only [withdrawalInstant, hread, huntil]

end Keys

/-!
## Objections, which are not fed
-/

section Objections

variable [External] [KeyVerifier]

/-- The same objections, dismissals and ballots about a row of the accord's roster, and the
scrubs of the dismissals verify alike. -/
structure SameObjections (dir dir' : LineageDirectory) (action : ReverseQuorum.ActionRef) :
    Prop where
  rows : ReverseQuorum.objectionsAgainst dir'.groupDirectory action =
    ReverseQuorum.objectionsAgainst dir.groupDirectory action
  verifies : forall row scrub, row ∈ ReverseQuorum.objectionsAgainst dir.groupDirectory action ->
    row.dimension = some ReverseQuorum.dimensionDismissal -> scrub ∈ row.scrubs ->
      dir'.verifiesEnvelope row.envelope scrub = dir.verifiesEnvelope row.envelope scrub

/-- Under a `reverse_quorum` policy, the objections are the same to each signed row of the
accord's roster that somebody objected to. -/
def ObjectionsAlike (dir dir' : LineageDirectory) : Prop :=
  forall family policy, dir.accordFamily = some family ->
    Text.startsWith ConsensusProtocol.reverseQuorumPrefix family.consensusProtocol = true ->
    ReverseQuorumPolicy.parse family.consensusProtocol = some policy ->
    forall action, action ∈ dir.objectedActions ->
      (action ∉ dir.contestedActions ∧ action ∉ dir'.contestedActions) ∨
        SameObjections dir dir' action

variable {dir dir' : LineageDirectory} {family : FamilyRecord}

theorem SameObjections.resolvedInputs_eq
    {action : ReverseQuorum.ActionRef} (h : SameObjections dir dir' action) (groupKeyId : String)
    (roster : List String) (policy : Option ReverseQuorumPolicy) (now : Instant) :
    ReverseQuorum.resolvedInputs dir'.groupDirectory .family groupKeyId roster policy none
        action now =
      ReverseQuorum.resolvedInputs dir.groupDirectory .family groupKeyId roster policy none
        action now := by
  have hduty : forall d : GroupDirectory,
      ReverseQuorum.resolvedDutyHolders d .family groupKeyId policy none = [] := by
    intro d
    simp [ReverseQuorum.resolvedDutyHolders]
  have hdismissed : forall (policy : ReverseQuorumPolicy) objections row,
      row ∈ ReverseQuorum.objectionsAgainst dir.groupDirectory action ->
      row.dimension = some ReverseQuorum.dimensionDismissal ->
      ReverseQuorum.dismissalVerified dir'.groupDirectory policy roster objections row =
        ReverseQuorum.dismissalVerified dir.groupDirectory policy roster objections row := by
    intro policy objections row hrow hdimension
    unfold ReverseQuorum.dismissalVerified
    rw [countDistinctRosterScrubs_congr (d := dir.groupDirectory) fun s hs =>
      h.verifies row s hrow hdimension hs]
  unfold ReverseQuorum.resolvedInputs
  rw [h.rows, hduty, hduty]
  cases policy with
  | none => rfl
  | some policy =>
      simp only
      rw [List.filter_congr fun row hrow => hdismissed policy _ row
        (List.mem_filter.mp (List.mem_filter.mp hrow).1).1
        (beq_iff_eq.mp (List.mem_filter.mp hrow).2)]

variable {W : Type} [RubricNum W] {wall : Instant}

theorem isReversed_eq_of_objectionsAlike
    (hstored : dir'.storedFamilyEvents = dir.storedFamilyEvents)
    (hsigners : dir'.accordSigners = dir.accordSigners) (h : ObjectionsAlike dir dir')
    (hfamily : dir.accordFamily = some family) {ev : StoredRosterEvent}
    (hev : ev ∈ dir.storedFamilyEvents) :
    (dir'.accordInput wall family).isReversed W ev =
      (dir.accordInput wall family).isReversed W ev := by
  have hevents : (dir'.accordInput wall family).unreversedEvents W =
      (dir.accordInput wall family).unreversedEvents W := by
    change dir'.storedFamilyEvents.map (signedEvent dir'.accordSigners) =
      dir.storedFamilyEvents.map (signedEvent dir.accordSigners)
    rw [hstored, hsigners]
  refine isReversed_congr hsigners fun hreverse policy actor hparse hactor => ?_
  have haction := objectedAction_mem hev hactor
  rcases h family policy hfamily hreverse hparse _ haction with ⟨hfree, hfree'⟩ | hsame
  · have haction' : RosterInput.objectedAction actor ev ∈ dir'.objectedActions :=
      objectedAction_mem (hstored ▸ hev) (hsigners ▸ hactor)
    exact ReverseQuorum.ReverseQuorumInputs.rosterReversalStands_eq_of_unopposed
      (objections_eq_nil_of_uncontested haction hfree _ _ _ _)
      (objections_eq_nil_of_uncontested haction' hfree' _ _ _ _) rfl ev.isAdd
  · unfold reversalInputs RosterInput.objectionRoster RosterInput.unreversedState
    rw [hevents, hsame.resolvedInputs_eq]
    rfl

end Objections

/-!
## Verdicts under one key
-/

section Verdict

variable [KeyVerifier] {dir dir' : LineageDirectory} {signed : SignedCommunity}

theorem keyFeed_eq_of_key_eq
    (hkey : dir'.standingCacheKey signed = dir.standingCacheKey signed) {key : String}
    (hmem : key ∈ dir.feedKeys signed) :
    dir'.keyFeed key = dir.keyFeed key := by
  have hfamily : dir'.accordFamily = dir.accordFamily := congrArg StandingFeed.family hkey
  have hwidenings : dir'.accordWidenings = dir.accordWidenings :=
    congrArg StandingFeed.widenings hkey
  have hkeys : (dir'.feedKeys signed).map dir'.keyFeed = (dir.feedKeys signed).map dir.keyFeed :=
    congrArg StandingFeed.keys hkey
  have hsame : dir'.feedKeys signed = dir.feedKeys signed := by
    unfold feedKeys
    rw [hfamily, hwidenings]
  rw [hsame] at hkeys
  exact List.map_inj_left.mp hkeys key hmem

theorem mem_feedKeys_of_namesKey
    {key : String} (h : NamesKey (chainOf signed) key) :
    key ∈ dir.feedKeys signed := by
  rw [feedKeys, Sorting.mem_sortDedup_iff]
  refine List.mem_append_right _ ?_
  rcases h with ⟨v, hv, hnamed⟩
  refine List.mem_flatMap.mpr ⟨v, hv, ?_⟩
  rcases hnamed with ⟨m, hm, rfl⟩ | ⟨s, hs, rfl⟩
  · exact List.mem_append_left _ (List.mem_append_left _ (List.mem_map_of_mem hm))
  · refine List.mem_append_left _ (List.mem_append_right _ ?_)
    rcases List.mem_cons.mp hs with rfl | hs
    · exact List.mem_cons_self
    · rcases List.mem_map.mp hs with ⟨c, hc, rfl⟩
      exact List.mem_cons_of_mem _ (List.mem_map_of_mem hc)

section SameKey

variable (hkey : dir'.standingCacheKey signed = dir.standingCacheKey signed)

include hkey

theorem storedFamilyEvents_eq_of_key_eq :
    dir'.storedFamilyEvents = dir.storedFamilyEvents := by
  have hwidenings : dir'.accordWidenings = dir.accordWidenings :=
    congrArg StandingFeed.widenings hkey
  have hrevocations : dir'.accordRevocations = dir.accordRevocations :=
    congrArg StandingFeed.revocations hkey
  unfold storedFamilyEvents
  rw [hwidenings, hrevocations]

theorem accordSigners_eq_of_key_eq
    {family : FamilyRecord} (hfamily : dir.accordFamily = some family) :
    dir'.accordSigners = dir.accordSigners := by
  have hnew : dir'.accordFamily = some family := (congrArg StandingFeed.family hkey).trans hfamily
  have hfed : dir'.accordFamily.map (fun _ => dir'.accordSigners) =
      dir.accordFamily.map fun _ => dir.accordSigners := congrArg StandingFeed.signers hkey
  rw [hnew, hfamily] at hfed
  exact Option.some.inj hfed

theorem witnessQuorumFor_eq_of_key_eq :
    dir'.witnessQuorumFor signed.community.communityKeyId =
      dir.witnessQuorumFor signed.community.communityKeyId := by
  have hcharter : dir'.charterMembers signed.community.communityKeyId =
      dir.charterMembers signed.community.communityKeyId :=
    congrArg StandingFeed.charterMembers hkey
  rw [witnessQuorumFor, hcharter, witnessQuorumFor]

end SameKey

variable {W : Type} [RubricNum W] [External] {wall : Instant}

/-- Under one key a chain cannot tell two directories apart but by its witnesses, and by
the objections of a `reverse_quorum` accord. -/
theorem readsAlike_of_key_eq
    (hkey : dir'.standingCacheKey signed = dir.standingCacheKey signed)
    (hhashed : RecordsHashed dir dir') (hno : External.parseRfc3339 noProposal = none)
    (hobjections : ObjectionsAlike dir dir') :
    ReadsAlike W dir dir' wall wall signed.community.communityKeyId (chainOf signed) where
  family := congrArg StandingFeed.family hkey
  events family hfamily := by
    have hstored := storedFamilyEvents_eq_of_key_eq hkey
    have hsigners := accordSigners_eq_of_key_eq hkey hfamily
    change dir'.storedFamilyEvents.map (fun ev => { signedEvent dir'.accordSigners ev with
        reversed := (dir'.accordInput wall family).isReversed W ev }) =
      dir.storedFamilyEvents.map fun ev => { signedEvent dir.accordSigners ev with
        reversed := (dir.accordInput wall family).isReversed W ev }
    rw [hstored]
    refine List.map_congr_left fun ev hev => ?_
    rw [isReversed_eq_of_objectionsAlike hstored hsigners hobjections hfamily hev, hsigners]
  holders := List.filterMap_congr fun key hmem => by
    have hfed : key ∈ dir.feedKeys signed := by
      rw [feedKeys, Sorting.mem_sortDedup_iff]
      exact List.mem_append_left _ (List.mem_append_left _ (List.mem_append_left _ hmem))
    exact keyRecord_eq_of_keyFeed_eq hhashed (keyFeed_eq_of_key_eq hkey hfed)
  records _ hnamed :=
    keyRecord_eq_of_keyFeed_eq hhashed (keyFeed_eq_of_key_eq hkey (mem_feedKeys_of_namesKey hnamed))
  nodeBearing _ hnamed :=
    congrArg KeyFeed.node (keyFeed_eq_of_key_eq hkey (mem_feedKeys_of_namesKey hnamed))
  conferrals _ at? hnamed :=
    keepsConferral_eq_of_keyFeed_eq hno
      (keyFeed_eq_of_key_eq hkey (mem_feedKeys_of_namesKey hnamed)) at?
  resigned := resignedWithin_eq_of_sorted_eq (congrArg StandingFeed.resignations hkey)

variable [LineageCodec]

end Verdict

/-!
## Samples

A trust root of two versions, whose charter asks for one witness.  The witness cosigned
the birth.
-/

section Samples

local instance sampleDates : External where
  parseRfc3339 := fun s =>
    if s = "1969-12-31T23:59:50Z" then some (Instant.ofSeconds (-10))
    else if s = "1970-01-01T00:00:20Z" then some (Instant.ofSeconds 20)
    else none
  strictMajority := fun n => n / 2 + 1
  minUtc := -8334601228800000000000
  maxUtc := 8210266876799999999999

local instance heldKeys : KeyVerifier :=
  sampleKeys

local instance heldCodec : LineageCodec :=
  nameCodec

def rootAmendment (founder : String) : Version where
  community := rootRecord "b" founder
  authorityKeyId := founder
  scrubSignatureClassical := ""
  scrubSignaturePqc := none
  supersedeProof := some {
    priorPersistRowHash := "a"
    changeEnvelope := .obj [
      ("family_key_id", .str "r"),
      ("consensus_protocol", .str "quorum:1/1"),
      ("members", .arr [.obj [("key_id", .str founder),
        ("role", .str memberRoleFounder)]]),
      (nextPersistRowHash, .str "b"),
      (amendedAtField, .str "1970-01-01T00:00:20Z")]
    quorumSignatures := [⟨founder, "", none⟩] }
  cosignatures := []

def amendedRow : SignedCommunity :=
  { rootAmendment "h" with lineage := [rootBirth "h" ["y", "z"]] }

/-- The node holds a cosign of the birth by `w`, and the revocations of some keys. -/
def witnessedNode (revoked : List String) : LineageDirectory :=
  { accordNode "majority" ⟨[], by decide⟩ with
    headCosigns := fun _ => [⟨"a", "1969-12-31T23:59:50Z", none, "1970-01-01T00:00:20Z", "w"⟩]
    charterMembers := fun _ => some ⟨none, none, some 1⟩
    revocationInstants := fun k => if k ∈ revoked then [0] else [] }

theorem recordsHashed_witnessedNode
    (revoked revoked' : List String) :
    RecordsHashed (witnessedNode revoked) (witnessedNode revoked') := by
  intro key record record' hold hnew _
  exact Option.some.inj (hnew.symm.trans hold)

/-- An accord under `reverse_quorum` whose roster was never changed. -/
def unchangedAccord (rows : AttestationStore) : LineageDirectory :=
  { accordNode "reverse_quorum:1/5:10+escalate:10:3" rows with
    accordRevocations := []
    accordSigners := ⟨[], []⟩ }

end Samples

end LineageDirectory

end CirisPersist.Federation
