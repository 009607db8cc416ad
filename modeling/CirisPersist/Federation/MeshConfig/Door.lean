import CirisPersist.Federation.MeshConfig.Fold
import CirisPersist.Federation.TrustRoot.Subscription
import CirisPersist.Library.Checks

/-!
# The mesh configuration door

A row enters through a sequence of gates: its shape, its attribution, the bound
on emergency relief, the owner's consent, the node's subscription, the author's
authority and signature, and last what the root already holds.  A durable row
passes that last gate in one of two ways, by ratifying an emergency or under the
root's own quorum.
-/

namespace CirisPersist.Federation

inductive MeshConfigRefusalReason where
  | dimensionMismatch
  | unknownKey
  | malformedEnvelope
  | valueOutOfDomain
  | unattributed
  | delegationIdNotConferring
  | notFiledAgainstRoot
  | rootNotTrusted
  | authorNotRootAuthorized
  | unverifiableSignature
  | ttlMissing
  | ttlTooLong
  | backToBackRenewal
  | durableUnratified
  | durableWithoutRootQuorum
  | expandsBeyondConsent
deriving DecidableEq

inductive MeshConfigOutcome where
  | admitted
  | refused (reason : MeshConfigRefusalReason)
deriving DecidableEq

inductive AuthorAuthority where
  | inherent
  | conferred (edges : List String)
  | none
deriving DecidableEq

namespace MeshConfig

open Checks TrustRoot

abbrev Reason :=
  MeshConfigRefusalReason

/-!
## Authority
-/

/-- The root itself, or a key the root confers to by a live `trust:confers:v1` edge. -/
def rootAuthorizesAuthor (dir : TrustDirectory) (rootRef author : String) (now : Instant) :
    AuthorAuthority :=
  if rootRef = author then
    .inherent
  else
    let rows := (dir.store.read ((AttestationQuery.byKey rootRef).withTypes
      [.delegatesTo])).filter fun a =>
        a.attestedKeyId == author && a.dimension == some trustConfersDimension
    let byRoot := withSliceComposers dir.store rows rootRef
    let dead := retiredIds byRoot
    let conferring := byRoot.filter fun a =>
      a.attestationType == .delegatesTo && a.attestedKeyId == author &&
        a.tier == .federation && !decide (a.attestationId ∈ dead) &&
        !isExpired a now && a.dimension == some trustConfersDimension
    if conferring.isEmpty then
      .none
    else
      .conferred
        ((conferring.map Attestation.attestationId).insertionSort (· ≤ ·))

def humanityAccordFamilyKeyId : String :=
  "humanity-accord"

/-- For a family its holders' signatures over the row; for a key its own authorship. -/
def rootQuorumReached [External] (dir : TrustDirectory) (rootRef : String) (row : Attestation) :
    Bool :=
  match dir.lookupFamily rootRef with
  | some family => (familyQuorumOver dir row family).met
  | none =>
      if rootRef = humanityAccordFamilyKeyId then false
      else decide (row.attestingKeyId = rootRef)

def SignedAlone (key : String) (row : Attestation) : Prop :=
  row.attestingKeyId = key ∧ forall s, s ∈ row.scrubs -> s.scrubKeyId = key

/-- `key` is neither the root nor one of the seats of the root's family. -/
def IsOutside (dir : TrustDirectory) (root key : String) : Prop :=
  key ≠ root ∧
    forall family, dir.lookupFamily root = some family ->
      key ∉ dir.activeFamilyMembers family.familyKeyId

variable {row : Attestation}

theorem rootQuorumReached_of_outside
    [External] (hmajority : forall n, External.strictMajority n = n / 2 + 1) {dir : TrustDirectory}
    {root key : String} (houtside : IsOutside dir root key) (halone : SignedAlone key row) :
    rootQuorumReached dir root row = false := by
  unfold rootQuorumReached
  cases hfamily : dir.lookupFamily root with
  | none =>
      have hauthor : row.attestingKeyId ≠ root := by
        rw [halone.1]
        exact houtside.1
      simp [hauthor]
  | some family =>
      have hcounted : ReverseQuorum.countDistinctRosterScrubs dir.toGroupDirectory row.envelope
          row.scrubs (dir.activeFamilyMembers family.familyKeyId) = ∅ := by
        refine Finset.eq_empty_of_forall_notMem fun k hk => ?_
        rcases mem_countDistinctRosterScrubs _ _ _ _ hk with ⟨hseat, s, hs, rfl⟩
        rw [halone.2 s hs] at hseat
        exact houtside.2 family hfamily hseat
      have hfloor : 0 < familyCharterThreshold family
          (dir.activeFamilyMembers family.familyKeyId).length := by
        refine lt_of_lt_of_le ?_ (le_max_right _ _)
        rw [hmajority]
        exact Nat.succ_pos _
      simp only [familyQuorumOver, familyQuorumHoldersOverRoster, hcounted, CharterQuorum.met,
        Finset.card_empty, decide_eq_false_iff_not]
      omega

/-!
## The gates
-/

section Gates

variable [DateReader]

def parseKey (row : Attestation) : Except Reason MeshConfigKey := do
  let dimension ← orRefuse (envStr row "dimension") .dimensionMismatch
  require (Text.startsWith "mesh_config:" dimension) .dimensionMismatch
  let key ← orRefuse (MeshConfigKey.fromDimension dimension) .unknownKey
  let named ← orRefuse (envStr row "mesh_config_key") .malformedEnvelope
  require (decide (named = key.wireName)) .unknownKey
  return key

def readShape (row : Attestation) : Except Reason ParsedRow := do
  let key ← parseKey row
  let value ← orRefuse (row.envelope.getI64? "value") .malformedEnvelope
  require (key.inDomain value) .valueOutOfDomain
  let rootRef ← orRefuse (envNonempty row "root_ref") .malformedEnvelope
  let form ← orRefuse ((envStr row "form").bind MeshConfigForm.fromWire)
    .malformedEnvelope
  let validUntil ← orRefuse (parseValidUntil row) .malformedEnvelope
  return ⟨key, value, rootRef, form, validUntil⟩

theorem readShape_ok
    {p : ParsedRow} (h : readShape row = .ok p) :
    envNonempty row "root_ref" = some p.rootRef ∧
      (envStr row "form").bind MeshConfigForm.fromWire = some p.form := by
  simp only [readShape, bind_eq_ok_iff, orRefuse_eq_ok_iff] at h
  rcases h with ⟨_, _, _, _, _, _, rootRef, hroot, form, hform, _, _, hp⟩
  cases hp
  exact ⟨hroot, hform⟩

def emergencyMaxTtlHours : Int :=
  72

/-- Emergency relief carries an end, at most three days after it was asserted. -/
def checkTtl (row : Attestation) (p : ParsedRow) : Except Reason Unit :=
  match p.form with
  | .durable => .ok ()
  | .emergency => do
      let vu ← orRefuse p.validUntil .ttlMissing
      let window := vu - row.assertedAt
      require (!(decide (window ≤ 0) ||
          decide (Instant.ofSeconds (emergencyMaxTtlHours * 3600) < window)))
        .ttlTooLong

def checkAuthority (dir : TrustDirectory) (row : Attestation) (p : ParsedRow) (now : Instant) :
    Except Reason Unit :=
  match rootAuthorizesAuthor dir p.rootRef row.attestingKeyId now with
  | .none => .error .authorNotRootAuthorized
  | .conferred edges =>
      require (edges.contains ((envStr row "delegation_id").getD ""))
        .delegationIdNotConferring
  | .inherent => .ok ()

/-- Everything that is asked of a row before what the root already holds. -/
def checkStanding (dir : TrustDirectory) (nodeKeyId : String) (baseline : MeshConfigBaseline)
    (row : Attestation) (p : ParsedRow) (now : Instant) : Except Reason Unit := do
  require (envNonempty row "delegation_id").isSome .unattributed
  require (decide (row.attestedKeyId = p.rootRef)) .notFiledAgainstRoot
  checkTtl row p
  require (!p.key.expandsBeyond p.value (baseline.get p.key))
    .expandsBeyondConsent
  require ((trustedRootsOf dir nodeKeyId now).contains p.rootRef)
    .rootNotTrusted
  checkAuthority dir row p now
  require (dir.verifiesEnvelope row.envelope ⟨row.attestingKeyId,
      row.scrub.scrubSignatureClassical, row.scrub.scrubSignaturePqc⟩)
    .unverifiableSignature

def sameKeyRows (dir : TrustDirectory) (p : ParsedRow) : List LiveRow :=
  ((dir.store.read ((AttestationQuery.toKey p.rootRef).withDimensionStem
    "mesh_config:")).filterMap fun r => (parseRow r).map fun q => (r, q)).filter fun live =>
      decide (live.2.key = p.key) && decide (live.2.rootRef = p.rootRef)

/-- An emergency of the same author whose window has not closed before this one opens. -/
def chainsOn (row : Attestation) (prior : LiveRow) : Bool :=
  prior.2.form == .emergency && prior.1.attestingKeyId == row.attestingKeyId &&
    prior.1.attestationId != row.attestationId &&
    prior.2.validUntil.all fun vu => decide (row.assertedAt < vu)

/-- The prior row is the emergency that `ratifies` names, agreeing about the value. -/
def isRatifiedBy (ratifies : String) (p : ParsedRow) (prior : LiveRow) : Bool :=
  decide (prior.1.attestationId = ratifies) && prior.2.form == .emergency &&
    decide (prior.2.value = p.value)

variable [External]

def checkHistory (dir : TrustDirectory) (row : Attestation) (p : ParsedRow) :
    Except Reason Unit :=
  match p.form with
  | .emergency =>
      require (!(sameKeyRows dir p).any (chainsOn row)) .backToBackRenewal
  | .durable =>
      match envNonempty row "ratifies_row_id" with
      -- conversion of an emergency this node holds
      | some ratifies =>
          require ((sameKeyRows dir p).any (isRatifiedBy ratifies p))
            .durableUnratified
      -- cold durable
      | none =>
          require (rootQuorumReached dir p.rootRef row)
            .durableWithoutRootQuorum

def checkMeshConfigRow (dir : TrustDirectory) (nodeKeyId : String)
    (baseline : MeshConfigBaseline) (row : Attestation) (now : Instant) :
    Except Reason ParsedRow := do
  let p ← readShape row
  checkStanding dir nodeKeyId baseline row p now
  checkHistory dir row p
  return p

/-- The outcome and the store after it; nothing when the shared admission behind the
put fails. -/
def recordMeshConfigRow (dir : TrustDirectory) (nodeKeyId : String)
    (baseline : MeshConfigBaseline) (row : Attestation) (now : Instant) :
    Option (MeshConfigOutcome × AttestationStore) :=
  match checkMeshConfigRow dir nodeKeyId baseline row now with
  | .error reason => some (.refused reason, dir.store)
  | .ok _ =>
      if dir.putAccepts row then
        some (.admitted, dir.store.put row)
      else
        none

end Gates

/-!
## What makes a setting durable
-/

section Durable

variable [DateReader] [External]

/-- If the row is admitted as durable, the quorum of its root was reached over it. -/
def DurableByQuorum (dir : TrustDirectory) (nodeKeyId : String) (baseline : MeshConfigBaseline)
    (row : Attestation) (now : Instant) : Prop :=
  forall store',
    recordMeshConfigRow dir nodeKeyId baseline row now =
      some (.admitted, store') ->
    (envStr row "form").bind MeshConfigForm.fromWire = some .durable ->
    exists root, envNonempty row "root_ref" = some root ∧ rootQuorumReached dir root row = true

/-- A durable row, otherwise in order, ratifies a held emergency without the quorum of
its root. -/
structure ConvertsAlone (dir : TrustDirectory) (nodeKeyId : String)
    (baseline : MeshConfigBaseline) (row : Attestation) (now : Instant) (p : ParsedRow)
    (ratifies : String) : Prop where
  shape : readShape row = .ok p
  standing : checkStanding dir nodeKeyId baseline row p now = .ok ()
  durable : p.form = .durable
  names : envNonempty row "ratifies_row_id" = some ratifies
  held : exists prior, prior ∈ sameKeyRows dir p ∧ isRatifiedBy ratifies p prior = true
  stored : dir.putAccepts row = true
  short : rootQuorumReached dir p.rootRef row = false

variable (dir : TrustDirectory) (nodeKeyId : String) (baseline : MeshConfigBaseline)

theorem checkMeshConfigRow_ok_iff
    (row : Attestation) (now : Instant) (p : ParsedRow) :
    checkMeshConfigRow dir nodeKeyId baseline row now = .ok p <->
      readShape row = .ok p ∧ checkStanding dir nodeKeyId baseline row p now = .ok () ∧
        checkHistory dir row p = .ok () := by
  simp only [checkMeshConfigRow, bind_eq_ok_iff]
  constructor
  · rintro ⟨q, hshape, _, hstanding, _, hhistory, hq⟩
    cases hq
    exact ⟨hshape, hstanding, hhistory⟩
  · rintro ⟨hshape, hstanding, hhistory⟩
    exact ⟨p, hshape, (), hstanding, (), hhistory, rfl⟩

theorem recordMeshConfigRow_admitted_iff
    (row : Attestation) (now : Instant) (store' : AttestationStore) :
    recordMeshConfigRow dir nodeKeyId baseline row now =
        some (.admitted, store') <->
      (exists p, checkMeshConfigRow dir nodeKeyId baseline row now = .ok p) ∧
        dir.putAccepts row = true ∧ store' = dir.store.put row := by
  unfold recordMeshConfigRow
  cases hcheck : checkMeshConfigRow dir nodeKeyId baseline row now with
  | error reason => simp
  | ok p =>
      cases haccepts : dir.putAccepts row with
      | false => simp
      | true =>
          constructor
          · intro h
            cases h
            exact ⟨⟨p, rfl⟩, rfl, rfl⟩
          · rintro ⟨-, -, rfl⟩
            rfl

theorem checkHistory_durable_iff
    {dir : TrustDirectory} {p : ParsedRow} (hdurable : p.form = .durable) :
    checkHistory dir row p = .ok () <->
      (exists ratifies, envNonempty row "ratifies_row_id" = some ratifies ∧
        exists prior, prior ∈ sameKeyRows dir p ∧ isRatifiedBy ratifies p prior = true) ∨
      (envNonempty row "ratifies_row_id" = none ∧ rootQuorumReached dir p.rootRef row = true) := by
  unfold checkHistory
  rw [hdurable]
  cases hratifies : envNonempty row "ratifies_row_id" with
  | none => simp [require_eq_ok_iff]
  | some ratifies => simp [require_eq_ok_iff, List.any_eq_true]

theorem durableByQuorum_iff
    (row : Attestation) (now : Instant) :
    DurableByQuorum dir nodeKeyId baseline row now <->
      ¬ exists p ratifies, ConvertsAlone dir nodeKeyId baseline row now p ratifies := by
  constructor
  · rintro hquorum ⟨p, ratifies, halone⟩
    have hhistory := (checkHistory_durable_iff halone.durable).mpr
      (Or.inl ⟨ratifies, halone.names, halone.held⟩)
    have hcheck := (checkMeshConfigRow_ok_iff dir nodeKeyId baseline row now p).mpr
      ⟨halone.shape, halone.standing, hhistory⟩
    have hadmitted := (recordMeshConfigRow_admitted_iff dir nodeKeyId baseline row now _).mpr
      ⟨⟨p, hcheck⟩, halone.stored, rfl⟩
    rcases readShape_ok halone.shape with ⟨hroot, hform⟩
    rcases hquorum _ hadmitted (hform.trans (by rw [halone.durable])) with
      ⟨root, hroot', hreached⟩
    cases hroot.symm.trans hroot'
    rw [halone.short] at hreached
    cases hreached
  · intro hnot store' hadmitted hform
    rcases (recordMeshConfigRow_admitted_iff dir nodeKeyId baseline row now store').mp hadmitted
      with ⟨⟨p, hcheck⟩, hstored, -⟩
    rcases (checkMeshConfigRow_ok_iff dir nodeKeyId baseline row now p).mp hcheck with
      ⟨hshape, hstanding, hhistory⟩
    rcases readShape_ok hshape with ⟨hroot, hform'⟩
    have hdurable : p.form = .durable := Option.some.inj (hform'.symm.trans hform)
    refine ⟨p.rootRef, hroot, ?_⟩
    rcases (checkHistory_durable_iff hdurable).mp hhistory with ⟨ratifies, hnames, hheld⟩ | hcold
    · cases hreached : rootQuorumReached dir p.rootRef row with
      | true => rfl
      | false =>
          exact absurd ⟨p, ratifies, hshape, hstanding, hdurable, hnames, hheld, hstored, hreached⟩
            hnot
    · exact hcold.2

/-!
## Sequences of offers
-/

structure Offer where
  nodeKeyId : String
  baseline : MeshConfigBaseline
  row : Attestation
  now : Instant

def offerStep (dir : TrustDirectory) (o : Offer) : TrustDirectory :=
  match recordMeshConfigRow dir o.nodeKeyId o.baseline o.row o.now with
  | some (_, store') => { dir with store := store' }
  | none => dir

def runOffers (dir : TrustDirectory) (offers : List Offer) : TrustDirectory :=
  offers.foldl offerStep dir

theorem offerStep_frame
    (o : Offer) :
    exists store', offerStep dir o = { dir with store := store' } := by
  unfold offerStep
  cases recordMeshConfigRow dir o.nodeKeyId o.baseline o.row o.now with
  | none => exact ⟨dir.store, rfl⟩
  | some result => exact ⟨result.2, rfl⟩

theorem runOffers_frame
    (offers : List Offer) (dir : TrustDirectory) :
    exists store', runOffers dir offers = { dir with store := store' } := by
  refine List.foldlRecOn (motive := fun d => exists store', d = { dir with store := store' })
    offers _ ⟨dir.store, rfl⟩ ?_
  rintro _ ⟨store1, rfl⟩ o -
  exact offerStep_frame { dir with store := store1 } o

/-- A durable setting is admitted by the quorum of its root just when no row converts
an emergency alone; and then a key outside the root gets none admitted, whatever
it offers. -/
theorem durable_by_quorum_iff_no_lone_conversion
    (hmajority : forall n, External.strictMajority n = n / 2 + 1) :
    (forall (dir : TrustDirectory) (nodeKeyId : String) (baseline : MeshConfigBaseline)
        (row : Attestation) (now : Instant),
      DurableByQuorum dir nodeKeyId baseline row now <->
        ¬ exists p ratifies, ConvertsAlone dir nodeKeyId baseline row now p ratifies) ∧
    (forall (dir : TrustDirectory) (offers : List Offer),
      (forall before o after, offers = before ++ o :: after ->
        ¬ exists p ratifies, ConvertsAlone (runOffers dir before) o.nodeKeyId o.baseline o.row
          o.now p ratifies) ->
      (forall before o after, offers = before ++ o :: after ->
        DurableByQuorum (runOffers dir before) o.nodeKeyId o.baseline o.row o.now) ∧
      (forall key, (forall o, o ∈ offers -> SignedAlone key o.row) ->
        forall before o after store' root, offers = before ++ o :: after ->
          recordMeshConfigRow (runOffers dir before) o.nodeKeyId o.baseline o.row o.now =
            some (MeshConfigOutcome.admitted, store') ->
          (envStr o.row "form").bind MeshConfigForm.fromWire = some MeshConfigForm.durable ->
          envNonempty o.row "root_ref" = some root ->
          ¬ IsOutside dir root key)) := by
  refine ⟨fun dir nodeKeyId baseline row now =>
    durableByQuorum_iff dir nodeKeyId baseline row now, ?_⟩
  intro dir offers hnone
  have hquorum : forall before o after, offers = before ++ o :: after ->
      DurableByQuorum (runOffers dir before) o.nodeKeyId o.baseline o.row o.now := by
    intro before o after hoffers
    exact (durableByQuorum_iff _ _ _ _ _).mpr (hnone before o after hoffers)
  refine ⟨hquorum, ?_⟩
  intro key hsigned before o after store' root hoffers hadmitted hform hroot houtside
  rcases hquorum before o after hoffers store' hadmitted hform with ⟨root', hroot', hreached⟩
  cases hroot.symm.trans hroot'
  have halone := hsigned o (by rw [hoffers]; simp)
  -- the seats and families are those the run started with
  rcases runOffers_frame before dir with ⟨store, hframe⟩
  rw [hframe] at hreached
  have houtside' : IsOutside { dir with store := store } root key := houtside
  rw [rootQuorumReached_of_outside hmajority houtside' halone] at hreached
  cases hreached

end Durable

section Samples

open Reference

def trustEdge (id granter grantee job : String) : Attestation :=
  { Attestation.ofAuthor id granter grantee .delegatesTo 0
      [("dimension", .str job)] with
    scrub := ⟨granter, "sig", none⟩ }

def delegateRow (id form : String) (extra : List (String × Json)) : Attestation :=
  { Attestation.ofAuthor id "delegate" "root" .scores (Instant.ofSeconds 1)
      ([("dimension", .str "mesh_config:load.ceiling:v1"),
        ("mesh_config_key", .str "load.ceiling"), ("value", .num (.int 1)),
        ("root_ref", .str "root"), ("form", .str form),
        ("delegation_id", .str "confers")] ++ extra) with
    scrub := ⟨"delegate", "sig", none⟩ }

def reliefRow : Attestation :=
  delegateRow "relief" "emergency" [("valid_until", .str "1970-01-02T00:00:00.000Z")]

def permanentRow : Attestation :=
  delegateRow "permanent" "durable" [("ratifies_row_id", .str "relief")]

def meshDirectory : TrustDirectory where
  store := ⟨[trustEdge "accepts" "node" "root" "trust:accepts:v1",
    trustEdge "confers" "root" "delegate" "trust:confers:v1"], by decide⟩
  isStewardBound := fun _ => false
  affiliationRoleTermAt := fun _ _ => none
  appointedModeratorsOf := fun _ _ => []
  verifiesEnvelope := fun _ _ => true
  lookupFamily := fun _ => none
  activeFamilyMembers := fun _ => []
  isPinnedBundleRow := fun _ => false
  trustDirectionHeld := fun _ => false
  putAccepts := fun _ => true

def sampleOffer (row : Attestation) (seconds : Int) : Offer :=
  ⟨"node", MeshConfigBaseline.ownerDefaults, row, Instant.ofSeconds seconds⟩

theorem delegate_makes_relief_permanent :
    (recordMeshConfigRow meshDirectory "node" MeshConfigBaseline.ownerDefaults reliefRow
        (Instant.ofSeconds 2)).map Prod.fst = some .admitted ∧
      (recordMeshConfigRow (runOffers meshDirectory [sampleOffer reliefRow 2]) "node"
        MeshConfigBaseline.ownerDefaults permanentRow (Instant.ofSeconds 3)).map Prod.fst =
          some .admitted ∧
      (envStr permanentRow "form").bind MeshConfigForm.fromWire = some .durable ∧
      envNonempty permanentRow "root_ref" = some "root" ∧
      rootQuorumReached (runOffers meshDirectory [sampleOffer reliefRow 2]) "root" permanentRow =
        false := by
  refine ⟨?_, ?_, ?_, ?_, ?_⟩ <;> decide

def rootRow : Attestation :=
  { delegateRow "own" "durable" [] with
    attestingKeyId := "root"
    scrub := ⟨"root", "sig", none⟩ }

theorem root_setting_by_quorum :
    (recordMeshConfigRow meshDirectory "node" MeshConfigBaseline.ownerDefaults rootRow
        (Instant.ofSeconds 2)).map Prod.fst = some .admitted ∧
      DurableByQuorum meshDirectory "node" MeshConfigBaseline.ownerDefaults rootRow
        (Instant.ofSeconds 2) := by
  refine ⟨by decide, ?_⟩
  refine ((durable_by_quorum_iff_no_lone_conversion (fun _ => rfl)).1 meshDirectory "node"
    MeshConfigBaseline.ownerDefaults rootRow (Instant.ofSeconds 2)).mpr ?_
  rintro ⟨p, ratifies, halone⟩
  have hnone : envNonempty rootRow "ratifies_row_id" = none := by decide
  rw [halone.names] at hnone
  cases hnone

end Samples

end MeshConfig
end CirisPersist.Federation
