import CirisPersist.Federation.Precedence
import CirisPersist.Federation.TrustRoot.Quorum
import CirisPersist.Library.Sorting

/-!
# Subscriptions to trust roots

A node subscribes to a root by a `delegates_to` row of its own.  The row must be
live: not retired, not expired, not rotated away, and not claiming another job.
-/

namespace CirisPersist.Federation

/-- What the trust-root plane reads beside the rows of a group directory.  The
active members of a family, the pinned bundle and the rows whose direction stood
when the rule arrived are answers of their own planes, and so is the shared
admission behind a put. -/
structure TrustDirectory extends GroupDirectory where
  lookupFamily : String -> Option Family
  activeFamilyMembers : String -> List String
  isPinnedBundleRow : Attestation -> Bool
  trustDirectionHeld : String -> Bool
  putAccepts : Attestation -> Bool

namespace TrustRoot

def trustCharterDimension : String :=
  "trust:charter:v1"

def trustConfersDimension : String :=
  "trust:confers:v1"

def trustAcceptsDimension : String :=
  "trust:accepts:v1"

def trustJobDimensions : List String :=
  [trustCharterDimension, trustConfersDimension, trustAcceptsDimension]

/-- A label of another job is a contradiction; no label leaves the direction to
decide. -/
def jobDimensionAdmits (row : Attestation) (expected : String) : Bool :=
  row.dimension.all fun d => !trustJobDimensions.contains d || d == expected

def namesNoTrustJob (row : Attestation) : Bool :=
  row.dimension.all fun d => !trustJobDimensions.contains d

def isExpired (row : Attestation) (now : Instant) : Bool :=
  row.expiresAt.any fun e => decide (e ≤ now)

def assertedLater (a b : Attestation) : Prop :=
  b.assertedAt ≤ a.assertedAt

instance : DecidableRel assertedLater := by
  intro a b
  unfold assertedLater
  infer_instance

/-- `list_composers_referencing_any` over one author's rows. -/
def composersBy (store : AttestationStore) (ids : List String) (author : String) :
    List Attestation :=
  (store.rows.filter fun r =>
    r.tier == .federation && isStructuralComposer r.attestationType &&
      r.attestingKeyId == author &&
      (referencesAttestationId r).any fun id => ids.contains id).insertionSort assertedLater

def withSliceComposers (store : AttestationStore) (selected : List Attestation)
    (author : String) : List Attestation :=
  let ids := selected.map Attestation.attestationId
  let composers := (composersBy store ids author).filter fun c => !ids.contains c.attestationId
  (selected ++ composers).insertionSort assertedLater

def maxGrantRotations : Nat :=
  64

/-- The chain of `supersedes` rows from `target` reaches a `delegates_to`, every link
by `author`. -/
def rotationReachesGrant (store : AttestationStore) (author : String) :
    Nat -> Option String -> Bool
  | 0, _ => false
  | _ + 1, none => false
  | fuel + 1, some targetId =>
      match store.rows.find? fun r => decide (r.attestationId = targetId) with
      | none => false
      | some target =>
          if target.attestingKeyId ≠ author then
            false
          else if target.attestationType = .delegatesTo then
            true
          else if target.attestationType ≠ .supersedes then
            false
          else
            rotationReachesGrant store author fuel (referencesAttestationId target)

def rotatesOwnGrant (store : AttestationStore) (succ : Attestation) : Bool :=
  rotationReachesGrant store succ.attestingKeyId maxGrantRotations (referencesAttestationId succ)

def isRotatedAway (store : AttestationStore) (row : Attestation) : Bool :=
  store.rows.any fun r =>
    r.tier == .federation && r.attestationType == .supersedes &&
      referencesAttestationId r == some row.attestationId &&
      r.attestingKeyId == row.attestingKeyId && r.attestationId != row.attestationId

def liveConferrals (store : AttestationStore) (shaped : List Attestation) : List Attestation :=
  shaped.filter fun row =>
    !(row.attestationType == .supersedes && !rotatesOwnGrant store row) &&
      !isRotatedAway store row

/-- An unlabelled delegation outside the pinned bundle, and not held when the rule
arrived. -/
def directionDenied (dir : TrustDirectory) (row : Attestation) : Bool :=
  row.attestationType == .delegatesTo && namesNoTrustJob row &&
    !dir.isPinnedBundleRow row && !dir.trustDirectionHeld row.attestationId

def trustedRootsOf (dir : TrustDirectory) (nodeKeyId : String) (now : Instant) : List String :=
  let read := (dir.store.read ((AttestationQuery.byKey nodeKeyId).withTypes
    [.delegatesTo, .supersedes])).filter fun r =>
      jobDimensionAdmits r trustAcceptsDimension
  let byNode := withSliceComposers dir.store read nodeKeyId
  let dead := retiredIds byNode
  let shaped := byNode.filter fun a =>
    (a.attestationType == .delegatesTo ||
      a.attestationType == .supersedes) &&
      a.attestedKeyId != nodeKeyId && !decide (a.attestationId ∈ dead) && !isExpired a now &&
      a.tier == .federation && jobDimensionAdmits a trustAcceptsDimension
  Sorting.sortDedup
    (((liveConferrals dir.store shaped).filter fun a => !directionDenied dir a).map
      Attestation.attestedKeyId)

def familyQuorumOver [External] (dir : TrustDirectory) (row : Attestation) (family : Family) :
    CharterQuorum :=
  (familyQuorumHoldersOverRoster dir.toGroupDirectory row.envelope row.scrubs family
    (dir.activeFamilyMembers family.familyKeyId)).1

end TrustRoot

end CirisPersist.Federation
