import CirisPersist.Federation.Lineage.Apply
import CirisPersist.Federation.Lineage.Clock
import CirisPersist.Federation.TrustRoot.Subscription

/-!
# The verdict about a trust root

A key trusts a root by a live acceptance edge, and the root must be chartered: a key
by its own signature, a family by a quorum of its seats, a community by the family it
is rooted in.  The verdict names the instant at which its rows expire.
-/

namespace CirisPersist.Federation

/-!
## What a verdict reads
-/

structure FamilyRows where
  record : FamilyRecord
  widenings : List FamilyWidening
  revocations : List FamilyRevocation
  signers : CommunityRosterSigners

/-- The head names the charter in force; a dissolved family has no members. -/
structure FamilyPlane extends FamilyRows where
  charterDigest : String
  dissolvedAt : Option Instant

structure HolderHardware where
  keyId : String
  hardwareClass : Option String
  layerA : Bool
  layerB : Option Bool
  refusal : Option String
deriving DecidableEq

def HolderHardware.attested (h : HolderHardware) : Bool :=
  h.layerA && h.layerB != some false

def accordFamilyKeyId : String :=
  "humanity-accord"

/-- A directory as a trust-root verdict reads it.  The hardware policy, the pinned
bundle, the halt table and the shared admission behind a put answer for themselves. -/
structure RootDirectory extends LineageDirectory where
  families : String -> Option FamilyPlane
  communities : String -> Option StoredRow
  capabilityRoles : String -> List String
  persistRowHash : Attestation -> String
  isPinnedBundleRow : Attestation -> Bool
  trustDirectionHeld : String -> Bool
  putAccepts : Attestation -> Bool
  evaluateHolderHardware : KeyRecord -> HolderHardware
  haltLatched : String -> Option Bool
  familyKeyed : forall k plane, families k = some plane -> plane.record.familyKeyId = k
  accordRows : (families accordFamilyKeyId).map FamilyPlane.toFamilyRows =
    accordFamily.map fun family => ⟨family, accordWidenings, accordRevocations, accordSigners⟩

/-!
## Charters
-/

inductive HeadCharter where
  | keyRoot
  | named (digest : String)
  | unnamed
deriving DecidableEq

def HeadCharter.ofDigest (charterDigest : String) : HeadCharter :=
  if charterDigest.isEmpty then unnamed else named charterDigest

inductive RootKind where
  | key
  | family
  | community
deriving DecidableEq

/-- The id and the family that the legs of a root are judged by. -/
structure RootLegs where
  kind : RootKind
  legsRef : String
  family : Option FamilyPlane

/-- The charters that count, who holds them, and the best count of a family's. -/
structure CharterLeg where
  charters : List Attestation
  holders : Finset String
  quorum : Option CharterQuorum

inductive DrillFreshness where
  | green
  | yellow
  | red
deriving DecidableEq

structure TrustRootVerdict where
  edgeExists : Bool
  rootSelfDeclares : Bool
  charterHasRecovery : Bool
  lastDrillAt : Option Instant
  drillFreshness : DrillFreshness
  haltLatched : Option Bool
  valid : Bool
  rootKind : RootKind
  charterQuorum : Option CharterQuorum
  holdersHardware : List HolderHardware
  holdersHardwareAttested : Bool
  boundedUntil : Option Instant

namespace TrustRoot

open Expiring

def infraServeScope : String :=
  "infra:serve"

def infraAttestScope : String :=
  "infra:attest"

def accordHeartbeatDimension : String :=
  "accord:lifecycle:v1"

def charterPreRotationField : String :=
  "pre_rotation_commitment"

def drillGreenMaxDays : Int :=
  90

def drillYellowMaxDays : Int :=
  180

def DrillFreshness.ofAge (age : Option Int) : DrillFreshness :=
  match age with
  | none => .red
  | some d =>
      if d < Instant.ofSeconds (drillGreenMaxDays * 86400) then .green
      else if d < Instant.ofSeconds (drillYellowMaxDays * 86400) then .yellow
      else .red

/-- A bare string or an array of strings; any other shape holds no token. -/
def scopeContains (envelope : Json) (token : String) : Bool :=
  match envelope.get? "scope" with
  | some (.str s) => s == token
  | some (.arr items) =>
      items.all (fun v => v.asStr.isSome) && items.any fun v => v.asStr == some token
  | _ => false

def charterCommitmentWellFormed (envelope : Json) : Bool :=
  (envelope.getStr? charterPreRotationField).any fun h =>
    decide (h.toList.length = 64) &&
      h.toList.all fun c => c.isDigit || (decide ('a' ≤ c) && decide (c ≤ 'f'))

def earlierBound (a b : Option Instant) : Option Instant :=
  earlier a b

def latestBound (rows : List Attestation) : Option Instant :=
  latest (rows.map Attestation.expiresAt)

/-- `with_slice_composers` over the rows about one subject. -/
def withSliceComposersTo (store : AttestationStore) (selected : List Attestation)
    (subject : String) : List Attestation :=
  let ids := selected.map Attestation.attestationId
  let composers := (store.listComposersReferencingAny ids subject).filter fun c =>
    !ids.contains c.attestationId
  (selected ++ composers).insertionSort assertedLater

def holdersOf (signers : Attestation -> Finset String) (charters : List Attestation) :
    Finset String :=
  charters.foldr (fun c holders => signers c ∪ holders) ∅

/-- The largest count of distinct holders, the first one where several share it. -/
def bestQuorum (quorums : List CharterQuorum) : Option CharterQuorum :=
  quorums.foldl
    (fun best q =>
      if best.all fun b => decide (b.distinctHolders < q.distinctHolders) then some q else best)
    none

def familyQuorumHoldersOver [External] (dir : TrustDirectory) (row : Attestation)
    (family : Family) : CharterQuorum × Finset String :=
  familyQuorumHoldersOverRoster dir.toGroupDirectory row.envelope row.scrubs family
    (dir.activeFamilyMembers family.familyKeyId)

/-!
## Expiry
-/

theorem isExpired_eq_false_iff
    (row : Attestation) (now : Instant) :
    isExpired row now = false <-> Before now row.expiresAt := by
  unfold isExpired
  cases row.expiresAt with
  | none => simp
  | some e => simp

theorem isExpired_mono
    {row : Attestation} {now t : Instant} (hle : now ≤ t) (h : isExpired row t = false) :
    isExpired row now = false := by
  rw [isExpired_eq_false_iff] at h ⊢
  intro b hb
  exact lt_of_le_of_lt hle (h b hb)

theorem before_latestBound
    {rows : List Attestation} {now : Instant} (h : forall a, a ∈ rows -> isExpired a now = false) :
    Before now (latestBound rows) := by
  refine before_latest fun x hx => ?_
  rcases List.mem_map.mp hx with ⟨a, ha, rfl⟩
  exact (isExpired_eq_false_iff a now).mp (h a ha)

theorem filter_unexpired_ne_nil
    {rows : List Attestation} {t : Instant} (hne : rows ≠ []) (h : Before t (latestBound rows)) :
    (rows.filter fun a => !isExpired a t) ≠ [] := by
  have hne' : rows.map Attestation.expiresAt ≠ [] := by
    simpa using hne
  rcases exists_before_of_before_latest hne' h with ⟨x, hx, hbefore⟩
  rcases List.mem_map.mp hx with ⟨a, ha, rfl⟩
  have hlive := (isExpired_eq_false_iff a t).mpr hbefore
  exact List.ne_nil_of_mem (List.mem_filter.mpr ⟨ha, by simp [hlive]⟩)

theorem mem_holdersOf_iff
    (signers : Attestation -> Finset String) (charters : List Attestation) (k : String) :
    k ∈ holdersOf signers charters <-> exists c, c ∈ charters ∧ k ∈ signers c := by
  induction charters with
  | nil => simp [holdersOf]
  | cons c rest ih =>
      unfold holdersOf at ih ⊢
      simp [ih]

theorem holdersOf_filter_subset
    (signers : Attestation -> Finset String) (charters : List Attestation)
    (p : Attestation -> Bool) :
    holdersOf signers (charters.filter p) ⊆ holdersOf signers charters := by
  intro k hk
  rcases (mem_holdersOf_iff _ _ k).mp hk with ⟨c, hc, hsigned⟩
  exact (mem_holdersOf_iff _ _ k).mpr ⟨c, (List.mem_filter.mp hc).1, hsigned⟩

end TrustRoot

namespace RootDirectory

open Expiring TrustRoot

section Rosters

variable (W : Type) [RubricNum W] [External] [KeyVerifier] (dir : RootDirectory)

/-!
## Rosters and standings
-/

/-- The directory with a family in the accord's place: one fold reads every family. -/
def seatedBy (rows : FamilyRows) : LineageDirectory :=
  { dir.toLineageDirectory with
    accordFamily := some rows.record
    accordWidenings := rows.widenings
    accordRevocations := rows.revocations
    accordSigners := rows.signers }

def activeFamilyMembers (now : Instant) (familyKeyId : String) : List String :=
  match dir.families familyKeyId with
  | none => []
  | some plane =>
      if plane.dissolvedAt.isSome then
        []
      else
        ((dir.seatedBy plane.toFamilyRows).accordRosterAt W now plane.record now).map
          CommunityMember.keyId

def trustAt (now : Instant) : TrustDirectory :=
  { dir.groupDirectory with
    lookupFamily := fun k => (dir.families k).map fun plane => plane.record.toFamily
    activeFamilyMembers := dir.activeFamilyMembers W now
    isPinnedBundleRow := dir.isPinnedBundleRow
    trustDirectionHeld := dir.trustDirectionHeld
    putAccepts := dir.putAccepts }

def storedStandingAt [LineageCodec] (id : String) (now : Instant) :
    Except ChainError StoredStanding :=
  match dir.communities id with
  | none => .ok .absent
  | some row =>
      if !Lineage.isTrustRootGrade row.community then
        .ok (.notRooted .notTrustRoot)
      else
        match row with
        | .unsigned _ =>
            .ok (.notRooted .notSigned)
        | .signed s => (dir.standingOf W now s).outcome now

def rootedCommunityFamily [LineageCodec] (id : String) (now : Instant) : Option String :=
  match dir.storedStandingAt W id now with
  | .ok (.rooted _) => some accordFamilyKeyId
  | .ok (.stalled _ _) => some accordFamilyKeyId
  | _ => none

def rootLegs [LineageCodec] (root : String) (now : Instant) : RootLegs :=
  match dir.families root with
  | some plane => ⟨.family, root, some plane⟩
  | none =>
      match dir.rootedCommunityFamily W root now with
      | some family => ⟨.community, family, dir.families family⟩
      | none => ⟨.key, root, none⟩

end Rosters

section Rows

variable (dir : RootDirectory)

/-!
## Rows
-/

def acceptanceSlice (key : String) : List Attestation :=
  withSliceComposers dir.plane.store
    ((dir.plane.store.read ((AttestationQuery.byKey key).withTypes
      [.delegatesTo, .supersedes])).filter fun r =>
        jobDimensionAdmits r trustAcceptsDimension) key

def charterSlice (legsRef : String) : List Attestation :=
  withSliceComposers dir.plane.store
    ((dir.plane.store.read ((AttestationQuery.byKey legsRef).withTypes
      [.delegatesTo])).filter fun r =>
        jobDimensionAdmits r trustCharterDimension) legsRef

/-- The drills about a root and, for a family, the charters toward it, with the
composers that name one. -/
def aboutSlice (legs : RootLegs) : List Attestation :=
  let drills := dir.plane.store.read ((AttestationQuery.toKey legs.legsRef).withDimensionStem
    accordHeartbeatDimension)
  let selected := match legs.family with
    | none => drills
    | some _ =>
        (drills ++ (dir.plane.store.read ((AttestationQuery.toKey legs.legsRef).withTypes
          [.delegatesTo])).filter fun r =>
            jobDimensionAdmits r trustCharterDimension).insertionSort TrustRoot.assertedLater
  withSliceComposersTo dir.plane.store selected legs.legsRef

def charterInForce (root : String) : String × HeadCharter :=
  match dir.families root with
  | some plane => (root, HeadCharter.ofDigest plane.charterDigest)
  | none =>
      match dir.communities root with
      | none => (root, .keyRoot)
      | some _ =>
          (accordFamilyKeyId,
            match dir.families accordFamilyKeyId with
            | some plane => HeadCharter.ofDigest plane.charterDigest
            | none => .unnamed)

def headAdmits (head : HeadCharter) (charter : Attestation) : Bool :=
  match head with
  | .keyRoot => true
  | .named digest => dir.persistRowHash charter == digest
  | .unnamed => false

def holderHardware (key : String) : HolderHardware :=
  match dir.keyRecord key with
  | none => ⟨key, none, false, none, some "no key record for this holder"⟩
  | some record => dir.evaluateHolderHardware record

def lastDrillAt (legs : RootLegs) (now : Instant) : Option Instant :=
  let about := dir.aboutSlice legs
  let dead := retiredIds about
  ((about.filter fun a =>
    a.attestationType == .scores &&
      a.dimension == some accordHeartbeatDimension && !decide (a.attestationId ∈ dead) &&
      !isExpired a now && a.tier == .federation).map
    Attestation.assertedAt).max?

end Rows

section Verdict

variable (W : Type) [RubricNum W] [External] [KeyVerifier] (dir : RootDirectory)

/-!
## The legs
-/

def liveEdges (key root : String) (now : Instant) : List Attestation :=
  let byUser := dir.acceptanceSlice key
  let dead := retiredIds byUser
  let shaped := byUser.filter fun a =>
    (a.attestationType == .delegatesTo ||
      a.attestationType == .supersedes) &&
      a.attestedKeyId == root && !decide (a.attestationId ∈ dead) && !isExpired a now &&
      a.tier == .federation && jobDimensionAdmits a trustAcceptsDimension
  (liveConferrals dir.plane.store shaped).filter fun a => !directionDenied (dir.trustAt W now) a

def charterShaped (legsRef : String) (dead : Finset String) (now : Instant)
    (a : Attestation) : Bool :=
  a.attestationType == .delegatesTo && a.attestedKeyId == legsRef &&
    !decide (a.attestationId ∈ dead) && !isExpired a now &&
    a.tier == .federation && jobDimensionAdmits a trustCharterDimension &&
    !directionDenied (dir.trustAt W now) a && scopeContains a.envelope infraServeScope &&
    scopeContains a.envelope infraAttestScope

/-- The charters of a family that its head names and the rows ask a count for. -/
def charterCandidates (legs : RootLegs) (plane : FamilyPlane) (now : Instant) :
    List Attestation :=
  let about := dir.aboutSlice legs
  let head := (dir.charterInForce plane.record.familyKeyId).2
  about.filter fun a =>
    dir.charterShaped W legs.legsRef (retiredIds about) now a && dir.headAdmits head a

def charterLeg (legs : RootLegs) (now : Instant) : CharterLeg :=
  match legs.family with
  | none =>
      let byRoot := dir.charterSlice legs.legsRef
      let charters := byRoot.filter fun a =>
        dir.charterShaped W legs.legsRef (retiredIds byRoot) now a &&
          a.attestingKeyId == legs.legsRef
      ⟨charters, holdersOf (fun a => {a.attestingKeyId}) charters, none⟩
  | some plane =>
      let family := plane.record.toFamily
      let counted := fun a => familyQuorumHoldersOver (dir.trustAt W now) a family
      let candidates := dir.charterCandidates W legs plane now
      let quorate := candidates.filter fun a => (counted a).1.met
      let rosterSize := (dir.activeFamilyMembers W now family.familyKeyId).length
      ⟨quorate, holdersOf (fun a => (counted a).2) quorate,
        some ((bestQuorum (candidates.map fun a => (counted a).1)).getD
          ⟨0, familyCharterThreshold family rosterSize, rosterSize⟩)⟩

def recoveryCharters (legs : RootLegs) (now : Instant) : List Attestation :=
  (dir.charterLeg W legs now).charters.filter fun a => charterCommitmentWellFormed a.envelope

/-!
## The verdict
-/

variable [LineageCodec]

def trustRootValid (key root : String) (now : Instant) : TrustRootVerdict :=
  if key = root then
    { edgeExists := false
      rootSelfDeclares := false
      charterHasRecovery := false
      lastDrillAt := none
      drillFreshness := .red
      haltLatched := none
      valid := false
      rootKind := .key
      charterQuorum := none
      holdersHardware := []
      holdersHardwareAttested := false
      boundedUntil := none }
  else
    let legs := dir.rootLegs W root now
    let edges := dir.liveEdges W key root now
    let leg := dir.charterLeg W legs now
    let recovery := dir.recoveryCharters W legs now
    let hardware := (Sorting.ascending leg.holders).map dir.holderHardware
    let drill := dir.lastDrillAt legs now
    let valid := !edges.isEmpty && !leg.charters.isEmpty && !recovery.isEmpty &&
      hardware.all HolderHardware.attested
    { edgeExists := !edges.isEmpty
      rootSelfDeclares := !leg.charters.isEmpty
      charterHasRecovery := !recovery.isEmpty
      lastDrillAt := drill
      drillFreshness := DrillFreshness.ofAge (drill.map fun d => now - d)
      haltLatched := dir.haltLatched legs.legsRef
      valid := valid
      rootKind := legs.kind
      charterQuorum := leg.quorum
      holdersHardware := hardware
      holdersHardwareAttested := hardware.all HolderHardware.attested
      boundedUntil :=
        if valid then earlierBound (latestBound edges) (latestBound recovery) else none }

def Accepts (key root : String) (now : Instant) : Prop :=
  key ≠ root ∧ dir.liveEdges W key root now ≠ []

/-- A charter with a recovery stands, and every holder is attested. -/
def Chartered (root : String) (now : Instant) : Prop :=
  dir.recoveryCharters W (dir.rootLegs W root now) now ≠ [] ∧
    forall k, k ∈ (dir.charterLeg W (dir.rootLegs W root now) now).holders ->
      (dir.holderHardware k).attested = true

def SameSeats (legs : RootLegs) (now t : Instant) : Prop :=
  forall plane, legs.family = some plane ->
    dir.activeFamilyMembers W t plane.record.familyKeyId =
      dir.activeFamilyMembers W now plane.record.familyKeyId

variable {W dir}

theorem trustRootValid_valid_iff
    (key root : String) (now : Instant) :
    (dir.trustRootValid W key root now).valid = true <->
      dir.Accepts W key root now ∧ dir.Chartered W root now := by
  unfold trustRootValid Accepts Chartered
  by_cases hself : key = root
  · simp [hself]
  · have hcharters : forall legs, dir.recoveryCharters W legs now ≠ [] ->
        (dir.charterLeg W legs now).charters ≠ [] := by
      intro legs hrecovery hnil
      exact hrecovery (by rw [recoveryCharters, hnil]; rfl)
    rw [if_neg hself]
    simp only [Bool.and_eq_true, Bool.not_eq_true', List.isEmpty_eq_false_iff, List.all_eq_true,
      List.mem_map, Sorting.mem_ascending_iff, forall_exists_index, and_imp, forall_apply_eq_imp_iff₂]
    constructor
    · rintro ⟨⟨⟨hedges, -⟩, hrecovery⟩, hhardware⟩
      exact ⟨⟨hself, hedges⟩, hrecovery, hhardware⟩
    · rintro ⟨⟨-, hedges⟩, hrecovery, hhardware⟩
      exact ⟨⟨⟨hedges, hcharters _ hrecovery⟩, hrecovery⟩, hhardware⟩

theorem boundedUntil_of_valid
    {key root : String} {now : Instant} (h : (dir.trustRootValid W key root now).valid = true) :
    (dir.trustRootValid W key root now).boundedUntil =
      earlierBound (latestBound (dir.liveEdges W key root now))
        (latestBound (dir.recoveryCharters W (dir.rootLegs W root now) now)) := by
  have hself := ((trustRootValid_valid_iff key root now).mp h).1.1
  unfold trustRootValid at h ⊢
  rw [if_neg hself] at h ⊢
  exact if_pos h

end Verdict

/-!
## The legs at a later instant

Only expiry and the seats of a family move with the instant: over the same seats, the
rows that count later are those that count now and have not expired.
-/

section Later

variable {W : Type} [RubricNum W] [External] [KeyVerifier] {dir : RootDirectory}
  {now t : Instant}

theorem directionDenied_trustAt
    (a : Attestation) (now t : Instant) :
    directionDenied (dir.trustAt W t) a = directionDenied (dir.trustAt W now) a := by
  unfold directionDenied trustAt
  rfl

theorem liveEdges_later
    (hle : now ≤ t) (key root : String) :
    dir.liveEdges W key root t = (dir.liveEdges W key root now).filter fun a => !isExpired a t := by
  unfold liveEdges liveConferrals
  simp only [List.filter_filter]
  refine List.filter_congr fun a _ => ?_
  cases hexpired : isExpired a t with
  | true => simp
  | false => simp [directionDenied_trustAt a now t, isExpired_mono hle hexpired]

theorem charterShaped_later
    (hle : now ≤ t) (legsRef : String) (dead : Finset String) (a : Attestation) :
    dir.charterShaped W legsRef dead t a =
      (dir.charterShaped W legsRef dead now a && !isExpired a t) := by
  unfold charterShaped
  cases hexpired : isExpired a t with
  | true => simp
  | false => simp [directionDenied_trustAt a now t, isExpired_mono hle hexpired]

theorem familyQuorumHoldersOver_kept
    {family : Family}
    (h : dir.activeFamilyMembers W t family.familyKeyId =
      dir.activeFamilyMembers W now family.familyKeyId) (a : Attestation) :
    familyQuorumHoldersOver (dir.trustAt W t) a family =
      familyQuorumHoldersOver (dir.trustAt W now) a family := by
  change familyQuorumHoldersOverRoster dir.groupDirectory a.envelope a.scrubs family
      (dir.activeFamilyMembers W t family.familyKeyId) =
    familyQuorumHoldersOverRoster dir.groupDirectory a.envelope a.scrubs family
      (dir.activeFamilyMembers W now family.familyKeyId)
  rw [h]

variable {legs : RootLegs}

theorem charters_later
    (hle : now ≤ t) (hseats : dir.SameSeats W legs now t) :
    (dir.charterLeg W legs t).charters =
      (dir.charterLeg W legs now).charters.filter fun a => !isExpired a t := by
  cases hfamily : legs.family with
  | none =>
      simp only [charterLeg, hfamily, List.filter_filter]
      refine List.filter_congr fun a _ => ?_
      rw [charterShaped_later hle, Bool.and_comm (!isExpired a t), Bool.and_right_comm]
  | some plane =>
      simp only [charterLeg, charterCandidates, hfamily, List.filter_filter]
      refine List.filter_congr fun a _ => ?_
      rw [charterShaped_later hle, familyQuorumHoldersOver_kept (hseats plane hfamily)]
      cases isExpired a t with
      | true => simp
      | false => simp

theorem holders_later
    (hle : now ≤ t) (hseats : dir.SameSeats W legs now t) :
    (dir.charterLeg W legs t).holders ⊆ (dir.charterLeg W legs now).holders := by
  have hcharters := charters_later hle hseats
  cases hfamily : legs.family with
  | none =>
      have hholders : forall instant, (dir.charterLeg W legs instant).holders =
          holdersOf (fun a => {a.attestingKeyId}) (dir.charterLeg W legs instant).charters := by
        intro instant
        simp only [charterLeg, hfamily]
      rw [hholders t, hholders now, hcharters]
      exact holdersOf_filter_subset _ _ _
  | some plane =>
      have hholders : forall instant, (dir.charterLeg W legs instant).holders =
          holdersOf (fun a => (familyQuorumHoldersOver (dir.trustAt W instant) a
            plane.record.toFamily).2) (dir.charterLeg W legs instant).charters := by
        intro instant
        simp only [charterLeg, hfamily]
      rw [hholders t, hholders now, hcharters]
      simp only [familyQuorumHoldersOver_kept (hseats plane hfamily)]
      exact holdersOf_filter_subset _ _ _

theorem recoveryCharters_later
    (hle : now ≤ t) (hseats : dir.SameSeats W legs now t) :
    dir.recoveryCharters W legs t =
      (dir.recoveryCharters W legs now).filter fun a => !isExpired a t := by
  unfold recoveryCharters
  rw [charters_later hle hseats, List.filter_filter, List.filter_filter]
  exact List.filter_congr fun a _ => Bool.and_comm _ _

variable {root : String}

theorem isExpired_of_mem_liveEdges
    {key : String} {a : Attestation} (h : a ∈ dir.liveEdges W key root now) :
    isExpired a now = false := by
  rw [liveEdges_later (le_refl now)] at h
  simpa using (List.mem_filter.mp h).2

theorem isExpired_of_mem_recoveryCharters
    {a : Attestation} (h : a ∈ dir.recoveryCharters W legs now) :
    isExpired a now = false := by
  rw [recoveryCharters_later (le_refl now) fun _ _ => rfl] at h
  simpa using (List.mem_filter.mp h).2

theorem accepts_later
    (hle : now ≤ t) {key : String} (h : dir.Accepts W key root now)
    (hbefore : Before t (latestBound (dir.liveEdges W key root now))) :
    dir.Accepts W key root t := by
  refine ⟨h.1, ?_⟩
  rw [liveEdges_later hle]
  exact filter_unexpired_ne_nil h.2 hbefore

theorem chartered_later
    [LineageCodec] (hle : now ≤ t) (hlegs : dir.rootLegs W root t = dir.rootLegs W root now)
    (hseats : dir.SameSeats W (dir.rootLegs W root now) now t) (h : dir.Chartered W root now)
    (hbefore : Before t (latestBound (dir.recoveryCharters W (dir.rootLegs W root now) now))) :
    dir.Chartered W root t := by
  unfold Chartered
  rw [hlegs]
  constructor
  · rw [recoveryCharters_later hle hseats]
    exact filter_unexpired_ne_nil h.1 hbefore
  · intro k hk
    exact h.2 k (holders_later hle hseats hk)

end Later

end RootDirectory

end CirisPersist.Federation
