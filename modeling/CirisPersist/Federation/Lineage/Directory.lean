import CirisPersist.Federation.Lineage.Standing
import CirisPersist.Federation.Roster.Prepare
import CirisPersist.Federation.TrustRoot.Quorum

/-!
# What a standing reads from a directory

A verdict about a trust root asks the node who sits on the accord's roster, which
keys bear `node`, who was conferred, withdrew or resigned, and what the witnesses
cosigned.  The accord's roster is prepared at the wall clock; everything else is
asked at the verdict's own instant, which registers where its answer may change.
-/

namespace CirisPersist.Federation

/-!
## Stored rows
-/

structure FamilyRecord extends Family where
  members : List CommunityMember
deriving DecidableEq

structure FamilyWidening where
  member : CommunityMember
  effectiveAt : Instant
  persistRowHash : String
deriving DecidableEq

structure FamilyRevocation where
  removedIdentityKeyId : String
  effectiveAt : Instant
  persistRowHash : String
deriving DecidableEq

structure RoleWithdrawal where
  authorityDecisionDigest : String
  supersededBy : Option String
deriving DecidableEq

structure CharterMembers where
  attachWindowSecs : Option Nat
  witnessCadenceSecs : Option Nat
  witnessQuorum : Option Nat
deriving DecidableEq

structure LineageHeadCosign where
  headDigest : String
  headAssertedAt : String
  priorHeadDigest : Option String
  signedAt : String
  witnessKeyId : String
deriving DecidableEq

inductive FounderArm where
  | holder
  | steward
  | neither
deriving DecidableEq

inductive WitnessStanding where
  | notRegistered
  | notWitness
  | notValidAt
  | counts (principal : String)
deriving DecidableEq

def identityTypeUser : String :=
  "user"

def identityTypeNode : String :=
  "node"

def identityTypeWitness : String :=
  "witness"

/-- What the signature crate decides about a key record, and the holder keys it was
built with.  A record carries a steward conferral when it claims the role and enough of
the holders scrubbed it. -/
class KeyVerifier where
  verifiesHybrid : KeyRecord -> Json -> ScrubSig -> Bool
  verifiesThreshold : String -> KeyRecord -> ThresholdSignature -> Bool
  confersSteward : KeyRecord -> List KeyRecord -> Bool
  accordHolderRosterKeyIds : List String

/-- A directory as a verdict reads it.  A key's person may change with the wall clock. -/
structure LineageDirectory where
  plane : GroupDirectory
  keyRecord : String -> Option KeyRecord
  occurrenceIntervals : String -> List InstantInterval
  accordFamily : Option FamilyRecord
  accordWidenings : List FamilyWidening
  accordRevocations : List FamilyRevocation
  accordSigners : CommunityRosterSigners
  roleWithdrawal : String -> Option RoleWithdrawal
  proposalWindowUntil : String -> Option String
  communityRevocationSigners : String -> List RosterEventSigner
  headCosigns : String -> List LineageHeadCosign
  charterMembers : String -> Option CharterMembers
  revocationInstants : String -> List Instant
  admissionIdentityForWriter : Instant -> String -> Option String
  keyed : forall k record, keyRecord k = some record -> record.keyId = k

def RosterRules.ofFamily (family : FamilyRecord) : RosterRules where
  protocol := family.consensusProtocol
  subkind := none
  policyBlob := none
  nodeBearing := NodeBearingSeats.none

namespace Lineage

open Checks Expiring

/-!
## Interval edges
-/

def intervalEdges (intervals : List InstantInterval) : List Instant :=
  intervals.flatMap fun i => i.1 :: i.2.toList

def nextEdge (intervals : List InstantInterval) (t : Instant) : Option Instant :=
  ((intervalEdges intervals).filter fun e => decide (t < e)).min?

def communityScrubs (v : Version) : List ScrubSig :=
  ⟨v.authorityKeyId, v.scrubSignatureClassical, v.scrubSignaturePqc⟩ ::
    v.cosignatures.map fun c =>
      ⟨c.authorityKeyId, c.scrubSignatureClassical, c.scrubSignaturePqc⟩

end Lineage

namespace LineageDirectory

open Checks Expiring Lineage

section Plain

variable (dir : LineageDirectory)

/-!
## Keys
-/

/-- A key's own `node` bearing, and the intervals it is an occurrence of a `node`. -/
def nodeBearingOf (key : String) : Bool × List InstantInterval :=
  if (dir.keyRecord key).any fun r => r.identityType.contains identityTypeNode then
    (true, [])
  else
    (false, dir.occurrenceIntervals key)

def nodeBearingAt (key : String) (t : Instant) : Bool :=
  (dir.nodeBearingOf key).1 || (dir.nodeBearingOf key).2.any (InstantInterval.holdsAt t)

/-- The instants a founder resigned at, alone, by its own signature. -/
def resignationsOf (id key : String) : List Instant :=
  ((dir.communityRevocationSigners id).filter fun r =>
    decide (r.memberKeyId = key) && r.authorityKeyId == some r.memberKeyId &&
      r.cosignerKeyIds.isEmpty).map RosterEventSigner.effectiveAt

def resignedWithin (id key : String) (after upTo : Instant) : Bool :=
  (dir.resignationsOf id key).any fun r => decide (after < r) && decide (r ≤ upTo)

/-!
## The accord family
-/

def familyEventInstants : List Instant :=
  dir.accordWidenings.map FamilyWidening.effectiveAt ++
    dir.accordRevocations.map FamilyRevocation.effectiveAt

def storedFamilyEvents : List StoredRosterEvent :=
  dir.accordWidenings.map (fun w => ⟨true, w.member, w.effectiveAt, w.persistRowHash⟩) ++
    dir.accordRevocations.map fun r =>
      ⟨false, ⟨r.removedIdentityKeyId, r.effectiveAt, none⟩, r.effectiveAt, r.persistRowHash⟩

/-- A key's person; a key whose person cannot be told is its own. -/
def personOf (wall : Instant) (key : String) : String :=
  (dir.admissionIdentityForWriter wall key).getD key

/-!
## Witnesses
-/

def witnessStandingAt (wall : Instant) (witnessKeyId : String) (t : Instant) :
    WitnessStanding :=
  match dir.keyRecord witnessKeyId with
  | none => .notRegistered
  | some record =>
      if !record.identityType.contains identityTypeWitness then
        .notWitness
      else if decide (t < record.validFrom) || record.validUntil.any fun u => decide (u ≤ t) then
        .notValidAt
      else if (dir.revocationInstants witnessKeyId).any fun r => decide (r ≤ t) then
        .notValidAt
      else
        .counts (dir.personOf wall witnessKeyId)

def witnessQuorumFor (id : String) : Nat :=
  ((dir.charterMembers id).bind CharterMembers.witnessQuorum).getD 0

end Plain

section Cosigns

variable [External] (dir : LineageDirectory)

/-- A cosign of a held version names its instant, and no prior after it. -/
def fitsKnown (known : List (String × Instant)) (c : LineageHeadCosign) (headAt : Instant) :
    Bool :=
  match chainIndex (known.map Prod.fst) c.headDigest with
  | none => true
  | some pos =>
      (known[pos]?).any (fun v => decide (v.2 = headAt)) &&
        (c.priorHeadDigest.bind (chainIndex (known.map Prod.fst))).all fun p => decide (p < pos)

def effectiveCosign (wall : Instant) (known : List (String × Instant))
    (c : LineageHeadCosign) : Option EffectiveCosign := do
  let signedAt ← External.parseRfc3339 c.signedAt
  let headAt ← External.parseRfc3339 c.headAssertedAt
  match dir.witnessStandingAt wall c.witnessKeyId signedAt with
  | .counts principal =>
      if fitsKnown known c headAt then
        some ⟨c.headDigest, c.priorHeadDigest, principal, c.witnessKeyId, signedAt⟩
      else
        none
  | _ => none

def effectiveCosigns (wall : Instant) (cosigns : List LineageHeadCosign)
    (known : List (String × Instant)) : List EffectiveCosign :=
  cosigns.filterMap (dir.effectiveCosign wall known)

def witnessedHeadOf [LineageCodec] (wall : Instant) (chain : List Version) : WitnessedHead :=
  match chain.getLast? with
  | none => ⟨none, 0, none, none⟩
  | some head =>
      let id := head.community.communityKeyId
      let known := chain.map fun v => (LineageCodec.rowHash v.community, headInstant v)
      witnessedHead (known.map Prod.fst)
        ((chain.flatMap fun v => founders v.community).map (dir.personOf wall))
        (dir.witnessQuorumFor id)
        (dir.effectiveCosigns wall (dir.headCosigns id) known)

end Cosigns

section Accord

variable [KeyVerifier] (dir : LineageDirectory)

def verifiesEnvelope (envelope : Json) (scrub : ScrubSig) : Bool :=
  (dir.keyRecord scrub.scrubKeyId).any fun record =>
    KeyVerifier.verifiesHybrid record envelope scrub

def groupDirectory : GroupDirectory :=
  { dir.plane with verifiesEnvelope := dir.verifiesEnvelope }

def accordInput (wall : Instant) (family : FamilyRecord) : RosterInput where
  dir := dir.groupDirectory
  cohort := .family
  groupKeyId := family.familyKeyId
  record := family.members
  rules := RosterRules.ofFamily family
  stored := dir.storedFamilyEvents
  signers := dir.accordSigners
  moderationRoots := none
  now := wall

def isConferred (record : KeyRecord) : Bool :=
  KeyVerifier.confersSteward record
    (KeyVerifier.accordHolderRosterKeyIds.filterMap dir.keyRecord)

/-- The authority's scrub and each cosigner's verify, and no signer comes twice. -/
def versionAdmitted [LineageCodec] (v : Version) : Bool :=
  (communityScrubs v).all (dir.verifiesEnvelope (LineageCodec.signingEnvelope v.community)) &&
    decide ((communityScrubs v).map ScrubSig.scrubKeyId).Nodup

end Accord

section Founders

variable (W : Type) [RubricNum W] [External] [KeyVerifier] (dir : LineageDirectory)
  (wall : Instant)

def accordRosterAt (family : FamilyRecord) (asOf : Instant) : List CommunityMember :=
  authorizedRosterAt W family.members (RosterRules.ofFamily family)
    ((dir.accordInput wall family).prepareRosterEvents W) asOf

def accordHolderSeatedAt (key : String) (t : Instant) : Bool :=
  dir.accordFamily.any fun family =>
    (dir.accordRosterAt W wall family t).any fun m => decide (m.keyId = key)

def founderArmAt (record : KeyRecord) (t : Instant) : FounderArm :=
  if dir.nodeBearingAt record.keyId t then
    .neither
  else if dir.accordHolderSeatedAt W wall record.keyId t then
    .holder
  else if record.identityType.contains identityTypeUser then
    .steward
  else
    .neither

/-- The signed end of the withdrawing proposal's window; the first instant there is where
the node holds no proposal. -/
def withdrawalInstant (w : RoleWithdrawal) : Instant :=
  ((dir.proposalWindowUntil w.authorityDecisionDigest).bind External.parseRfc3339).getD
    External.minUtc

/-- Not withdrawn, rotated in, or withdrawn only after the instant asked about. -/
def keepsConferral (key : String) (at? : Option Instant) : Bool :=
  match dir.roleWithdrawal key with
  | none => true
  | some w =>
      w.supersededBy == some key || at?.any fun t => decide (t < dir.withdrawalInstant w)

def countsAt (id key : String) (record : KeyRecord) (at? : Option Instant)
    (seatedSince asked : Instant) : Bool :=
  match dir.founderArmAt W wall record asked with
  | .neither => false
  | .holder => !dir.resignedWithin id key seatedSince asked
  | .steward =>
      dir.isConferred record && !dir.resignedWithin id key seatedSince asked &&
        dir.keepsConferral key at?

def founderBounds (id key : String) (record : KeyRecord) (now : Instant) : List Instant :=
  (nextEdge (dir.nodeBearingOf record.keyId).2 now).toList ++ dir.familyEventInstants ++
    dir.resignationsOf id key

def founderCounts (id key : String) (at? : Option Instant) (seatedSince : Instant) :
    Judged Instant ChainError Bool :=
  match dir.keyRecord key with
  | none => pure false
  | some record =>
      Judged.withNow fun now => do
        Judged.boundAll (if at?.isNone then dir.founderBounds id key record now else [])
        Judged.lift (.ok
          (dir.countsAt W wall id key record at? seatedSince (at?.getD now)))

/-- Do the seated holders who signed a birth meet the accord's threshold now? -/
def accordQuorumMet [LineageCodec] (birth : Version) : Judged Instant ChainError Bool :=
  match dir.accordFamily with
  | none => pure false
  | some family =>
      Judged.withNow fun now => do
        Judged.boundAll dir.familyEventInstants
        Judged.lift (.ok (TrustRoot.familyQuorumHoldersOverRoster dir.groupDirectory
          (LineageCodec.signingEnvelope birth.community) (communityScrubs birth)
          family.toFamily
          ((dir.accordRosterAt W wall family now).map CommunityMember.keyId)).1.met)

def standingReads [LineageCodec] : StandingReads where
  founderCounts := dir.founderCounts W wall
  accordQuorumMet := dir.accordQuorumMet W wall
  keyRecord := dir.keyRecord
  verifiesSignature := KeyVerifier.verifiesThreshold
  nodeBearingAt := dir.nodeBearingAt
  versionAdmitted := dir.versionAdmitted
  witness := dir.witnessedHeadOf wall

def standingOf [LineageCodec] (signed : SignedCommunity) :
    Judged Instant ChainError StoredStanding :=
  computeStanding W (dir.standingReads W wall) signed

/-!
## A verdict is always returned
-/

theorem exists_founderCounts_eq_ok
    (id key : String) (at? : Option Instant) (seatedSince now : Instant) :
    exists counts, (dir.founderCounts W wall id key at? seatedSince).outcome now = .ok counts := by
  unfold founderCounts
  cases dir.keyRecord key with
  | none => exact ⟨false, rfl⟩
  | some record =>
      refine ⟨dir.countsAt W wall id key record at? seatedSince (at?.getD now), ?_⟩
      simp only [Judged.outcome_withNow, Judged.outcome_bind, Judged.outcome_boundAll,
        Judged.outcome_lift]
      rfl

theorem exists_standingOf_eq_ok
    [LineageCodec] (signed : SignedCommunity) (now : Instant) :
    exists standing, (dir.standingOf W wall signed).outcome now = .ok standing :=
  exists_computeStanding_eq_ok (fun id key at? since =>
    exists_founderCounts_eq_ok W dir wall id key at? since now) signed

end Founders

end LineageDirectory

end CirisPersist.Federation
