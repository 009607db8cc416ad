import CirisPersist.Federation.TrustRoot.Verdict

/-!
# Transit eligibility

A peer may carry a node's traffic when both trust one root.  The verdict names the
instant until which it may be kept, made of the peer's key and of the rows that
counted.  The seats of a family are not among these: a change of the roster that is
already stored, and takes effect later, can end the verdict before the instant it
names.
-/

namespace CirisPersist.Federation

structure TransitEligibility where
  eligible : Bool
  validUntil : Option Instant
  viaRoot : Option String
deriving DecidableEq

def TransitEligibility.denied : TransitEligibility where
  eligible := false
  validUntil := none
  viaRoot := none

/-- A hop until an instant; an end that has passed is the peer's own key's, and an expired
key is no hop. -/
def TransitEligibility.via (root : String) (validUntil : Option Instant) (now : Instant) :
    TransitEligibility :=
  if validUntil.any fun t => decide (t ≤ now) then
    TransitEligibility.denied
  else
    ⟨true, validUntil, some root⟩

theorem TransitEligibility.via_eligible_iff
    (root : String) (validUntil : Option Instant) (now : Instant) :
    (TransitEligibility.via root validUntil now).eligible = true <->
      Expiring.Before now validUntil := by
  unfold TransitEligibility.via
  cases validUntil with
  | none => simp
  | some t =>
      by_cases hpassed : t ≤ now
      · simp [hpassed, TransitEligibility.denied]
      · simp [hpassed, not_le.mp hpassed]

variable {root : String}

theorem TransitEligibility.via_validUntil
    {validUntil : Option Instant} {now : Instant}
    (h : (TransitEligibility.via root validUntil now).eligible = true) :
    (TransitEligibility.via root validUntil now).validUntil = validUntil := by
  unfold TransitEligibility.via at h ⊢
  split at h
  · cases h
  · rename_i hlive
    rw [if_neg hlive]

namespace TrustRoot

def infraTransport : String :=
  "infra:transport"

def transitCandidateRoots (byUser : List Attestation) (userKeyId : String) (now : Instant) :
    List String :=
  let dead := retiredIds byUser
  Search.fresh (fun root => root) ∅
    ((byUser.filter fun a =>
      (a.attestationType == .delegatesTo ||
        a.attestationType == .supersedes) &&
        a.attestedKeyId != userKeyId && !decide (a.attestationId ∈ dead) && !isExpired a now &&
        a.tier == .federation && jobDimensionAdmits a trustAcceptsDimension).map
      Attestation.attestedKeyId)

end TrustRoot

namespace RootDirectory

open Expiring TrustRoot

section Walk

variable (W : Type) [RubricNum W] [External] [KeyVerifier] [LineageCodec] (dir : RootDirectory)

/-!
## The walk
-/

def claimsRole (record : KeyRecord) (role : String) : Bool :=
  record.identityType.contains role || (dir.capabilityRoles record.keyId).contains role

/-- The earliest end among the peer's key and what counted on each side. -/
def sharedUntil (userKeyId peerKeyId : String) (peerValidUntil : Option Instant)
    (now : Instant) (root : String) : Option Instant :=
  earlierBound
    (earlierBound peerValidUntil (dir.trustRootValid W userKeyId root now).boundedUntil)
    (dir.trustRootValid W peerKeyId root now).boundedUntil

/-- The first root that both sides validly trust decides; beside the verdict stands the
number of roots walked. -/
def walkRoots (userKeyId peerKeyId : String) (peerValidUntil : Option Instant)
    (now : Instant) : List String -> TransitEligibility × Nat
  | [] => (TransitEligibility.denied, 0)
  | root :: rest =>
      if !(dir.trustRootValid W userKeyId root now).valid ||
          !(dir.trustRootValid W peerKeyId root now).valid then
        let walked := walkRoots userKeyId peerKeyId peerValidUntil now rest
        (walked.1, walked.2 + 1)
      else
        (TransitEligibility.via root
          (dir.sharedUntil W userKeyId peerKeyId peerValidUntil now root) now, 1)

def transitEligibilityWalk (userKeyId peerKeyId : String) (now : Instant) :
    TransitEligibility × Nat :=
  if userKeyId = peerKeyId then
    (TransitEligibility.denied, 0)
  else
    match dir.keyRecord peerKeyId with
    | none => (TransitEligibility.denied, 0)
    | some peer =>
        if !peer.identityType.contains identityTypeNode then
          (TransitEligibility.denied, 0)
        else if !dir.claimsRole peer infraTransport then
          (TransitEligibility.denied, 0)
        else
          dir.walkRoots W userKeyId peerKeyId peer.validUntil now
            (transitCandidateRoots (dir.acceptanceSlice userKeyId) userKeyId now)

end Walk

/-!
## Who may be a hop
-/

section Eligible

variable {W : Type} [RubricNum W] [External] [KeyVerifier] {dir : RootDirectory}
  {userKeyId peerKeyId : String} {now : Instant}

theorem mem_transitCandidateRoots_of_accepts
    (h : dir.Accepts W userKeyId root now) :
    root ∈ transitCandidateRoots (dir.acceptanceSlice userKeyId) userKeyId now := by
  rcases List.exists_mem_of_ne_nil _ h.2 with ⟨a, ha⟩
  unfold liveEdges liveConferrals at ha
  have hshaped := (List.mem_filter.mp (List.mem_filter.mp ha).1).1
  simp only [List.mem_filter, Bool.and_eq_true, beq_iff_eq] at hshaped
  rcases hshaped with ⟨hslice, ⟨⟨⟨⟨htype, hroot⟩, hdead⟩, hlive⟩, htier⟩, hjob⟩
  have hmem : root ∈ ((dir.acceptanceSlice userKeyId).filter fun a =>
      (a.attestationType == .delegatesTo ||
        a.attestationType == .supersedes) &&
        a.attestedKeyId != userKeyId &&
        !decide (a.attestationId ∈ retiredIds (dir.acceptanceSlice userKeyId)) &&
        !isExpired a now && a.tier == .federation &&
        jobDimensionAdmits a trustAcceptsDimension).map Attestation.attestedKeyId := by
    refine List.mem_map.mpr ⟨a, List.mem_filter.mpr ⟨hslice, ?_⟩, hroot⟩
    have hother : (a.attestedKeyId != userKeyId) = true := by
      rw [hroot]
      exact bne_iff_ne.mpr (Ne.symm h.1)
    simp only [htype, hother, hdead, hlive, htier, hjob, Bool.and_self, beq_self_eq_true]
  rcases Search.seen_or_fresh (fun root => root) _ ∅ root hmem with hseen | ⟨m, hm, hkey⟩
  · exact absurd hseen (Finset.notMem_empty root)
  · exact hkey ▸ hm

variable [LineageCodec]

theorem before_boundedUntil_of_valid
    {key : String} (h : (dir.trustRootValid W key root now).valid = true) :
    Before now (dir.trustRootValid W key root now).boundedUntil := by
  rw [boundedUntil_of_valid h]
  refine before_earlier_iff.mpr ⟨before_latestBound fun a ha => ?_, before_latestBound fun a ha => ?_⟩
  · exact isExpired_of_mem_liveEdges ha
  · exact isExpired_of_mem_recoveryCharters ha

variable {peerValidUntil : Option Instant}

theorem walkRoots_of_eligible
    {roots : List String}
    (h : (dir.walkRoots W userKeyId peerKeyId peerValidUntil now roots).1.eligible = true) :
    exists earlier root later, roots = earlier ++ root :: later ∧
      (forall r, r ∈ earlier -> (dir.trustRootValid W userKeyId r now).valid = false ∨
        (dir.trustRootValid W peerKeyId r now).valid = false) ∧
      (dir.trustRootValid W userKeyId root now).valid = true ∧
      (dir.trustRootValid W peerKeyId root now).valid = true ∧
      (dir.walkRoots W userKeyId peerKeyId peerValidUntil now roots).1.validUntil =
        dir.sharedUntil W userKeyId peerKeyId peerValidUntil now root ∧
      Before now (dir.sharedUntil W userKeyId peerKeyId peerValidUntil now root) := by
  induction roots with
  | nil => cases h
  | cons root rest ih =>
      unfold walkRoots at h ⊢
      split at h
      · rename_i hinvalid
        rw [if_pos hinvalid]
        rcases ih h with ⟨earlier, found, later, hroots, hearlier, hfound⟩
        refine ⟨root :: earlier, found, later, by rw [hroots, List.cons_append], ?_, hfound⟩
        intro r hr
        rcases List.mem_cons.mp hr with rfl | hr
        · simpa using hinvalid
        · exact hearlier r hr
      · rename_i hvalid
        rw [if_neg hvalid]
        simp only [Bool.or_eq_true, Bool.not_eq_true', not_or, Bool.not_eq_false] at hvalid
        exact ⟨[], root, rest, rfl, by simp, hvalid.1, hvalid.2,
          TransitEligibility.via_validUntil h, (TransitEligibility.via_eligible_iff _ _ _).mp h⟩

theorem walkRoots_eligible_of_shared
    {roots : List String} (hpeer : Before now peerValidUntil) (hroot : root ∈ roots)
    (hours : (dir.trustRootValid W userKeyId root now).valid = true)
    (htheirs : (dir.trustRootValid W peerKeyId root now).valid = true) :
    (dir.walkRoots W userKeyId peerKeyId peerValidUntil now roots).1.eligible = true := by
  induction roots with
  | nil => cases hroot
  | cons first rest ih =>
      unfold walkRoots
      split
      · rename_i hinvalid
        rcases List.mem_cons.mp hroot with rfl | hrest
        · simp [hours, htheirs] at hinvalid
        · exact ih hrest
      · rename_i hvalid
        simp only [Bool.or_eq_true, Bool.not_eq_true', not_or, Bool.not_eq_false] at hvalid
        have hbefore : Before now
            (dir.sharedUntil W userKeyId peerKeyId peerValidUntil now first) :=
          before_earlier_iff.mpr ⟨before_earlier_iff.mpr
            ⟨hpeer, before_boundedUntil_of_valid hvalid.1⟩, before_boundedUntil_of_valid hvalid.2⟩
        exact (TransitEligibility.via_eligible_iff _ _ _).mpr hbefore

end Eligible

/-!
## What the walk decides
-/

section Decides

variable (W : Type) [RubricNum W] [External] [KeyVerifier] [LineageCodec] (dir : RootDirectory)

def SharesRoot (userKeyId peerKeyId root : String) (now : Instant) : Prop :=
  dir.Accepts W userKeyId root now ∧ dir.Accepts W peerKeyId root now ∧ dir.Chartered W root now

/-- The root is the first, in the order of the user's edges, that both sides share. -/
def FirstShared (userKeyId peerKeyId root : String) (now : Instant) : Prop :=
  exists earlier later,
    transitCandidateRoots (dir.acceptanceSlice userKeyId) userKeyId now = earlier ++ root :: later ∧
    dir.SharesRoot W userKeyId peerKeyId root now ∧
    forall r, r ∈ earlier -> ¬ dir.SharesRoot W userKeyId peerKeyId r now

/-- A registered node, other than the user, that offers transport. -/
def OffersTransport (userKeyId peerKeyId : String) (peer : KeyRecord) : Prop :=
  userKeyId ≠ peerKeyId ∧ dir.keyRecord peerKeyId = some peer ∧
    peer.identityType.contains identityTypeNode = true ∧
    dir.claimsRole peer infraTransport = true

variable {W dir} {userKeyId peerKeyId : String} {now : Instant}

theorem walk_of_offersTransport
    {peer : KeyRecord} (h : dir.OffersTransport userKeyId peerKeyId peer) (now : Instant) :
    dir.transitEligibilityWalk W userKeyId peerKeyId now =
      dir.walkRoots W userKeyId peerKeyId peer.validUntil now
        (transitCandidateRoots (dir.acceptanceSlice userKeyId) userKeyId now) := by
  rcases h with ⟨hother, hrecord, hnode, hrole⟩
  unfold transitEligibilityWalk
  rw [if_neg hother, hrecord]
  simp only [hnode, hrole, Bool.not_true, Bool.false_eq_true, if_false]

theorem offersTransport_of_eligible
    (h : (dir.transitEligibilityWalk W userKeyId peerKeyId now).1.eligible = true) :
    exists peer, dir.OffersTransport userKeyId peerKeyId peer := by
  unfold transitEligibilityWalk at h
  split at h
  · cases h
  · rename_i hother
    split at h
    · cases h
    · rename_i peer hrecord
      split at h
      · cases h
      · rename_i hnode
        split at h
        · cases h
        · rename_i hrole
          exact ⟨peer, hother, hrecord, by simpa using hnode, by simpa using hrole⟩

theorem eligible_iff
    {peer : KeyRecord} (hpeer : dir.OffersTransport userKeyId peerKeyId peer) (now : Instant) :
    (dir.transitEligibilityWalk W userKeyId peerKeyId now).1.eligible = true <->
      Before now peer.validUntil ∧ exists root, dir.SharesRoot W userKeyId peerKeyId root now := by
  rw [walk_of_offersTransport hpeer]
  constructor
  · intro h
    rcases walkRoots_of_eligible h with ⟨_, root, _, -, -, hours, htheirs, -, hbefore⟩
    rw [trustRootValid_valid_iff] at hours htheirs
    exact ⟨(before_earlier_iff.mp (before_earlier_iff.mp hbefore).1).1,
      root, hours.1, htheirs.1, hours.2⟩
  · rintro ⟨hlive, root, hours, htheirs, hcharter⟩
    exact walkRoots_eligible_of_shared hlive (mem_transitCandidateRoots_of_accepts hours)
      ((trustRootValid_valid_iff _ _ _).mpr ⟨hours, hcharter⟩)
      ((trustRootValid_valid_iff _ _ _).mpr ⟨htheirs, hcharter⟩)

end Decides

/-!
## What stands between two instants
-/

section Kept

variable (W : Type) [RubricNum W] [External] [KeyVerifier] (dir : RootDirectory)

/-- No stored change of the family's roster takes effect in between, and under
`reverse_quorum` the objection fold compares nothing with the clock in between. -/
structure RosterKept (rows : FamilyRows) (now t : Instant) : Prop where
  events : forall b, b ∈ (dir.seatedBy rows).familyEventInstants -> now < b -> t < b
  clock : (dir.seatedBy rows).ClockFree now t

/-- The standing of a stored community does not expire in between. -/
structure StandingKept [LineageCodec] (signed : SignedCommunity) (now t : Instant) : Prop where
  clock : dir.ClockFree now t
  expiry : Before t ((dir.standingOf W now signed).expiry now)
  persons : dir.PersonsKept now t signed

def SeatsKept [LineageCodec] (root : String) (now t : Instant) : Prop :=
  match dir.families root with
  | some plane => dir.RosterKept plane.toFamilyRows now t
  | none =>
      forall signed, dir.communities root = some (.signed signed) ->
        dir.StandingKept W signed now t ∧
        forall plane, dir.families accordFamilyKeyId = some plane ->
          dir.RosterKept plane.toFamilyRows now t

variable {W dir} {now t : Instant}

theorem activeFamilyMembers_kept
    (hle : now ≤ t) {id : String} {plane : FamilyPlane} (hplane : dir.families id = some plane)
    (hkept : dir.RosterKept plane.toFamilyRows now t) :
    dir.activeFamilyMembers W t id = dir.activeFamilyMembers W now id := by
  have halike := LineageDirectory.readsAlike_of_clockFree (W := W) hkept.clock "" []
  unfold activeFamilyMembers
  rw [hplane]
  simp only
  rw [LineageDirectory.accordRosterAt_kept halike rfl hle hkept.events]

variable [LineageCodec]

theorem storedStandingAt_kept
    (hle : now ≤ t) (hfamily : dir.families root = none) (hkept : dir.SeatsKept W root now t) :
    dir.storedStandingAt W root t = dir.storedStandingAt W root now := by
  unfold SeatsKept at hkept
  rw [hfamily] at hkept
  unfold storedStandingAt
  cases hrow : dir.communities root with
  | none => rfl
  | some row =>
      cases row with
      | unsigned c => rfl
      | signed s =>
          have hstanding := (hkept s hrow).1
          simp only [LineageDirectory.outcome_kept hstanding.clock hle hstanding.expiry
            hstanding.persons]

theorem rootLegs_kept
    (hle : now ≤ t) (hkept : dir.SeatsKept W root now t) :
    dir.rootLegs W root t = dir.rootLegs W root now := by
  unfold rootLegs
  cases hfamily : dir.families root with
  | some plane => rfl
  | none => simp only [rootedCommunityFamily, storedStandingAt_kept hle hfamily hkept]

theorem rootedCommunityFamily_eq_some
    {family : String} (h : dir.rootedCommunityFamily W root now = some family) :
    family = accordFamilyKeyId ∧
      exists signed, dir.communities root = some (.signed signed) := by
  have hfamily : family = accordFamilyKeyId := by
    unfold rootedCommunityFamily at h
    split at h
    · exact (Option.some.inj h).symm
    · exact (Option.some.inj h).symm
    · cases h
  refine ⟨hfamily, ?_⟩
  unfold rootedCommunityFamily storedStandingAt at h
  cases hrow : dir.communities root with
  | none => simp [hrow] at h
  | some row =>
      cases row with
      | unsigned c =>
          rw [hrow] at h
          cases hgrade : Lineage.isTrustRootGrade c with
          | true => simp [StoredRow.community, hgrade] at h
          | false => simp [StoredRow.community, hgrade] at h
      | signed s => exact ⟨s, rfl⟩

theorem sameSeats_of_seatsKept
    (hle : now ≤ t) (hkept : dir.SeatsKept W root now t) :
    dir.SameSeats W (dir.rootLegs W root now) now t := by
  intro plane hplane
  unfold rootLegs at hplane
  unfold SeatsKept at hkept
  cases hfamily : dir.families root with
  | some held =>
      rw [hfamily] at hplane hkept
      cases hplane
      have hkey := dir.familyKeyed root plane hfamily
      exact activeFamilyMembers_kept hle (hkey.symm ▸ hfamily) hkept
  | none =>
      rw [hfamily] at hplane hkept
      simp only at hplane
      split at hplane
      · rename_i family hrooted
        rcases rootedCommunityFamily_eq_some hrooted with ⟨rfl, signed, hsigned⟩
        have hkey := dir.familyKeyed _ plane hplane
        exact activeFamilyMembers_kept hle (hkey.symm ▸ hplane) ((hkept signed hsigned).2 plane hplane)
      · cases hplane

end Kept

/-!
## Until the bound
-/

section Until

variable {W : Type} [RubricNum W] [External] [KeyVerifier] [LineageCodec] {dir : RootDirectory}
  {userKeyId peerKeyId : String} {now t : Instant}

end Until

/-!
## Samples

A node and a peer accept the family `hall`, whose charter two of its three seats signed.
The stored roster says that one of the two leaves at 100 s.
-/

section Samples

open Reference

local instance acceptsKeys : KeyVerifier where
  verifiesHybrid := fun _ _ _ => true
  verifiesThreshold := fun _ _ _ => true
  confersSteward := fun _ _ => false
  accordHolderRosterKeyIds := []

local instance plainCodec : LineageCodec where
  rowHash := Community.communityName
  signingEnvelope := fun _ => .null
  signingBytes := fun _ => some ""

def hallRow (id author : String) (fields : List (String × Json)) (cosigners : List String) :
    Attestation :=
  { Attestation.ofAuthor id author "hall" .delegatesTo 0 fields with
    additionalScrubs := cosigners.map fun k => ⟨k, "", none⟩ }

def hallCharter : Attestation :=
  hallRow "charter" "ada"
    [("dimension", .str trustCharterDimension),
      ("scope", .arr [.str infraServeScope, .str infraAttestScope]),
      (charterPreRotationField, .str (String.ofList (List.replicate 64 'a')))] ["ben"]

def hallAcceptance (author : String) : Attestation :=
  hallRow author author [("dimension", .str trustAcceptsDimension)] []

def hallStore : AttestationStore :=
  ⟨[hallCharter, hallAcceptance "node", hallAcceptance "peer"], by decide⟩

def hallPlane : FamilyPlane where
  record := ⟨⟨"hall", "quorum:2/3"⟩,
    [⟨"ada", 0, some memberRoleFounder⟩, ⟨"ben", 0, none⟩, ⟨"cyd", 0, none⟩]⟩
  widenings := []
  revocations := [⟨"ben", Instant.ofSeconds 100, "leave"⟩]
  signers := ⟨[], [⟨"ben", Instant.ofSeconds 100, some "ben", []⟩]⟩
  charterDigest := "charter"
  dissolvedAt := none

def hallNode : RootDirectory where
  plane :=
    { store := hallStore
      isStewardBound := fun _ => true
      affiliationRoleTermAt := fun _ _ => none
      appointedModeratorsOf := fun _ _ => []
      verifiesEnvelope := fun _ _ => true }
  keyRecord := fun k => some ⟨k, "", none, [identityTypeNode], 0, none, k⟩
  occurrenceIntervals := fun _ => []
  accordFamily := none
  accordWidenings := []
  accordRevocations := []
  accordSigners := ⟨[], []⟩
  roleWithdrawal := fun _ => none
  proposalWindowUntil := fun _ => none
  communityRevocationSigners := fun _ => []
  headCosigns := fun _ => []
  charterMembers := fun _ => none
  revocationInstants := fun _ => []
  admissionIdentityForWriter := fun _ k => some k
  keyed := by
    intro k record h
    cases h
    rfl
  families := fun k => if k = "hall" then some hallPlane else none
  communities := fun _ => none
  capabilityRoles := fun _ => [infraTransport]
  persistRowHash := Attestation.attestationId
  isPinnedBundleRow := fun _ => false
  trustDirectionHeld := fun _ => false
  putAccepts := fun _ => true
  evaluateHolderHardware := fun record => ⟨record.keyId, none, true, none, none⟩
  haltLatched := fun _ => some false
  familyKeyed := by
    intro k plane h
    split at h
    · rename_i hk
      cases h
      exact hk.symm
    · cases h
  accordRows := rfl

/-- What the node holds of the peer, and the number of roots walked. -/
def hallWalk (seconds : Int) : TransitEligibility × Nat :=
  hallNode.transitEligibilityWalk Rat "node" "peer" (Instant.ofSeconds seconds)

theorem hall_offersTransport :
    hallNode.OffersTransport "node" "peer" ⟨"peer", "", none, [identityTypeNode], 0, none, "peer"⟩ :=
  ⟨by decide, rfl, by decide, by decide⟩

theorem of_expiries_eq
    {rows : List Attestation} (h : rows.map Attestation.expiresAt = [none]) :
    rows ≠ [] ∧ latestBound rows = none := by
  constructor
  · rintro rfl
    cases h
  · rw [latestBound, h]
    rfl

theorem hallWalk_fifty :
    (hallWalk 50).1.eligible = true ∧ (hallWalk 50).1.validUntil = none := by
  have hnode : hallNode.liveEdges Rat "node" "hall" (Instant.ofSeconds 50) ≠ [] ∧
      latestBound (hallNode.liveEdges Rat "node" "hall" (Instant.ofSeconds 50)) = none :=
    of_expiries_eq (by decide +kernel)
  have hpeer : hallNode.liveEdges Rat "peer" "hall" (Instant.ofSeconds 50) ≠ [] ∧
      latestBound (hallNode.liveEdges Rat "peer" "hall" (Instant.ofSeconds 50)) = none :=
    of_expiries_eq (by decide +kernel)
  have hrecovery : hallNode.recoveryCharters Rat
        (hallNode.rootLegs Rat "hall" (Instant.ofSeconds 50)) (Instant.ofSeconds 50) ≠ [] ∧
      latestBound (hallNode.recoveryCharters Rat
        (hallNode.rootLegs Rat "hall" (Instant.ofSeconds 50)) (Instant.ofSeconds 50)) = none :=
    of_expiries_eq (by decide +kernel)
  have hshares : hallNode.SharesRoot Rat "node" "peer" "hall" (Instant.ofSeconds 50) :=
    ⟨⟨by decide, hnode.1⟩, ⟨by decide, hpeer.1⟩, hrecovery.1, fun _ _ => rfl⟩
  unfold hallWalk
  have heligible := (eligible_iff hall_offersTransport (Instant.ofSeconds 50)).mpr
    ⟨before_none _, "hall", hshares⟩
  refine ⟨heligible, ?_⟩
  have hcandidates : transitCandidateRoots (hallNode.acceptanceSlice "node") "node"
      (Instant.ofSeconds 50) = ["hall"] := by
    decide +kernel
  rw [walk_of_offersTransport hall_offersTransport, hcandidates] at heligible ⊢
  rcases walkRoots_of_eligible heligible with
    ⟨_, root, _, hroots, -, hours, htheirs, huntil, -⟩
  have hroot : root ∈ ["hall"] := hroots ▸ List.mem_append_right _ List.mem_cons_self
  cases List.mem_singleton.mp hroot
  rw [huntil, sharedUntil, boundedUntil_of_valid hours, boundedUntil_of_valid htheirs,
    hrecovery.2, hnode.2, hpeer.2]
  rfl

end Samples

end RootDirectory

end CirisPersist.Federation
