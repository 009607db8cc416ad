import CirisPersist.Federation.Quarantine.Fold
import CirisPersist.Library.Checks

/-!
# The marker door and the fold

A release is admitted at the marker door only when it names a withhold that is held about
the same key.  The fold does not ask again: the newest marker governs whatever it names.
A row that came by replication never met the door, so the two agree on exactly the lists
in which every release that leads its instant names a withhold.
-/

namespace CirisPersist.Federation
namespace Quarantine

open Checks

/-!
## The door
-/

inductive QuarantineRefusalReason where
  | dimensionMismatch
  | malformedEnvelope
  | unattributed
  | notFiledAgainstSubject
  | subjectKeyUnknown
  | unverifiableSignature
  | slashUnauthorized
  | markerUnknown
deriving DecidableEq

def QuarantineRefusalReason.asStr : QuarantineRefusalReason -> String
  | dimensionMismatch => "dimension_mismatch"
  | malformedEnvelope => "malformed_envelope"
  | unattributed => "unattributed"
  | notFiledAgainstSubject => "not_filed_against_subject"
  | subjectKeyUnknown => "subject_key_unknown"
  | unverifiableSignature => "unverifiable_signature"
  | slashUnauthorized => "slash_unauthorized"
  | markerUnknown => "marker_unknown"

inductive QuarantineOutcome where
  | admitted
  | refused (reason : QuarantineRefusalReason)
deriving DecidableEq

/-- How a marker's way through the door ends early: refused, or the backend failed. -/
inductive MarkerHalt where
  | refused (reason : QuarantineRefusalReason)
  | failed (error : String)
deriving DecidableEq

/-- What the door asks of the rest of the node: the directory's keys, the hybrid
signature, the `slash` duty and the gates of `put_attestation`. -/
class MarkerGates where
  lookupPublicKey : String -> Except String Bool
  verifySignature : Attestation -> Bool
  slashGate : AttestationStore -> Attestation -> Except MarkerHalt Unit
  putGate : AttestationStore -> Attestation -> Except String Unit

def getAttestation (store : AttestationStore) (id : String) : Option Attestation :=
  store.rows.find? fun row => decide (row.attestationId = id)

def resolves (store : AttestationStore) (subject id : String) : Bool :=
  (getAttestation store id).any fun row =>
    envelopeStr row "dimension" == some dimensionWithheld &&
      envelopeStr row Field.quarantines == some subject

def checkMarker [MarkerGates] (store : AttestationStore) (marker : Attestation) :
    Except MarkerHalt Unit := do
  let refuse := MarkerHalt.refused
  let dimension ← orRefuse (envelopeStr marker "dimension") (refuse .dimensionMismatch)
  require (isMarkerDimension dimension) (refuse .dimensionMismatch)
  let isRelease := dimension == dimensionReleased
  let subject ← orRefuse (envelopeNonempty marker Field.quarantines) (refuse .malformedEnvelope)
  require (envelopeNonempty marker Field.communityId).isSome (refuse .malformedEnvelope)
  let releases := envelopeNonempty marker Field.releases
  require (!(isRelease && releases.isNone)) (refuse .malformedEnvelope)
  require (envelopeNonempty marker Field.delegationId).isSome (refuse .unattributed)
  require (decide (marker.attestedKeyId = subject)) (refuse .notFiledAgainstSubject)
  let known ← (MarkerGates.lookupPublicKey subject).mapError MarkerHalt.failed
  require known (refuse .subjectKeyUnknown)
  require (MarkerGates.verifySignature marker) (refuse .unverifiableSignature)
  require (releases.all (resolves store subject)) (refuse .markerUnknown)
  MarkerGates.slashGate store marker

def recordQuarantineMarker [MarkerGates] (store : AttestationStore) (marker : Attestation) :
    Except String (QuarantineOutcome × AttestationStore) :=
  match checkMarker store marker with
  | .error (.refused reason) => .ok (.refused reason, store)
  | .error (.failed error) => .error error
  | .ok () => do
      MarkerGates.putGate store marker
      .ok (.admitted, store.put marker)

/-!
## What the node reads and serves
-/

def markersAbout (store : AttestationStore) (keyId : String) : List Attestation :=
  (store.read ((AttestationQuery.toKey keyId).withDimensionStem "quarantine:")).filter fun r =>
    (envelopeStr r "dimension").any isMarkerDimension

def resolveQuarantine (store : AttestationStore) (keyId : String) (now : Instant) :
    QuarantineFold :=
  foldQuarantine keyId (markersAbout store keyId) now

def isWithheld (store : AttestationStore) (keyId : String) (now : Instant) : Bool :=
  (resolveQuarantine store keyId now).withholds

/-- The loop over a page, with the answers for the authors met so far. -/
def filterWithheldFrom (store : AttestationStore) (now : Instant) :
    List (String × Bool) -> List Attestation -> List Attestation
  | _, [] => []
  | decided, row :: rows =>
      if (envelopeStr row "dimension").any isMarkerDimension then
        row :: filterWithheldFrom store now decided rows
      else
        match decided.lookup row.attestingKeyId with
        | some withheld =>
            if withheld then filterWithheldFrom store now decided rows
            else row :: filterWithheldFrom store now decided rows
        | none =>
            let withheld := isWithheld store row.attestingKeyId now
            let decided' := (row.attestingKeyId, withheld) :: decided
            if withheld then filterWithheldFrom store now decided' rows
            else row :: filterWithheldFrom store now decided' rows

def filterWithheldRows (store : AttestationStore) (rows : List Attestation) (now : Instant) :
    List Attestation :=
  filterWithheldFrom store now [] rows

theorem filterWithheldFrom_eq_filter
    (store : AttestationStore) (now : Instant) (rows : List Attestation) :
    forall decided,
      (forall author withheld, decided.lookup author = some withheld ->
        withheld = isWithheld store author now) ->
      filterWithheldFrom store now decided rows = rows.filter fun row =>
        (envelopeStr row "dimension").any isMarkerDimension ||
          !isWithheld store row.attestingKeyId now := by
  induction rows with
  | nil =>
      intro decided _
      rfl
  | cons row rows ih =>
      intro decided hdecided
      rw [filterWithheldFrom, List.filter_cons]
      cases hmarker : (envelopeStr row "dimension").any isMarkerDimension with
      | true => rw [if_pos rfl, Bool.true_or, if_pos rfl, ih decided hdecided]
      | false =>
          rw [if_neg Bool.false_ne_true, Bool.false_or]
          cases hlookup : decided.lookup row.attestingKeyId with
          | some withheld =>
              rw [hdecided _ _ hlookup, ih decided hdecided]
              cases isWithheld store row.attestingKeyId now with
              | true => rfl
              | false => rfl
          | none =>
              have hgrown : forall author withheld,
                  ((row.attestingKeyId, isWithheld store row.attestingKeyId now) ::
                    decided).lookup author = some withheld ->
                  withheld = isWithheld store author now := by
                intro author withheld h
                rw [List.lookup_cons] at h
                split at h
                · rename_i hsame
                  rw [eq_of_beq hsame]
                  exact (Option.some.inj h).symm
                · exact hdecided author withheld h
              simp only [ih _ hgrown]
              cases isWithheld store row.attestingKeyId now with
              | true => rfl
              | false => rfl

theorem filterWithheldRows_eq_filter
    (store : AttestationStore) (rows : List Attestation) (now : Instant) :
    filterWithheldRows store rows now = rows.filter fun row =>
      (envelopeStr row "dimension").any isMarkerDimension ||
        !isWithheld store row.attestingKeyId now :=
  filterWithheldFrom_eq_filter store now rows [] nofun

/-!
## What a release names
-/

def NamesWithhold (keyId : String) (rows : List Attestation) (r : Attestation) : Prop :=
  exists w, w ∈ rows ∧ envelopeStr r Field.releases = some w.attestationId ∧
    envelopeStr w "dimension" = some dimensionWithheld ∧
    envelopeStr w Field.quarantines = some keyId

def IsReleaseOf (keyId : String) (r : Attestation) : Prop :=
  isMarkerAbout keyId r = true ∧ envelopeStr r "dimension" = some dimensionReleased

def LeadsInstant (keyId : String) (markers : List Attestation) (r : Attestation) : Prop :=
  forall m, m ∈ markers -> isMarkerAbout keyId m = true -> m.assertedAt = r.assertedAt ->
    envelopeStr m "dimension" = some dimensionReleased ∧ m.attestationId ≤ r.attestationId

def ReleaseResolves (keyId : String) (markers : List Attestation) (now : Instant) : Prop :=
  (foldQuarantine keyId markers now).state = .released ->
    exists r, (effectiveMarkers keyId markers now).getLast? = some r ∧
      NamesWithhold keyId markers r

section Fold

variable {keyId : String} {markers : List Attestation} {now : Instant}

theorem exists_governing_release
    (h : (foldQuarantine keyId markers now).state = .released) :
    exists r, (effectiveMarkers keyId markers now).getLast? = some r ∧ r ∈ markers ∧
      r.assertedAt ≤ now ∧ IsReleaseOf keyId r := by
  cases hlast : (effectiveMarkers keyId markers now).getLast? with
  | none =>
      rw [state_of_getLast_none hlast] at h
      cases h
  | some r =>
      rw [state_eq_of_getLast hlast] at h
      rcases List.mem_filter.mp (governs_of_getLast hlast).1 with ⟨hmem, hin⟩
      have habout := isMarkerAbout_of_isEffective hin
      have hdate : r.assertedAt ≤ now := of_decide_eq_true (Bool.and_eq_true_iff.mp hin).2
      exact ⟨r, rfl, hmem, hdate, habout, dimension_of_released habout h⟩

theorem leadsInstant_of_getLast
    {r : Attestation} (hlast : (effectiveMarkers keyId markers now).getLast? = some r)
    (hdate : r.assertedAt ≤ now) (hrelease : IsReleaseOf keyId r) :
    LeadsInstant keyId markers r := by
  intro m hm habout hsame
  have hin : isEffective keyId now m = true := by
    rw [isEffective, habout, hsame, decide_eq_true hdate]
    rfl
  have hbefore := (markerBefore_iff m r).mpr
    ((governs_of_getLast hlast).2 m (List.mem_filter.mpr ⟨hm, hin⟩))
  rw [markerBefore, withholdRank_of_released hrelease.2] at hbefore
  rcases hbefore with hearlier | ⟨-, hrank | ⟨hrank, hid⟩⟩
  · exact absurd hsame (ne_of_lt hearlier)
  · exact absurd hrank (Nat.not_lt_zero _)
  · -- a withhold of the instant would outrank the release
    rcases dimension_of_isMarkerAbout habout with hwithheld | hreleased
    · rw [withholdRank_of_withheld hwithheld] at hrank
      cases hrank
    · exact ⟨hreleased, hid⟩

theorem releaseResolves_of_leading
    (h : forall r, r ∈ markers -> IsReleaseOf keyId r -> LeadsInstant keyId markers r ->
      NamesWithhold keyId markers r) :
    ReleaseResolves keyId markers now := by
  intro hreleased
  rcases exists_governing_release hreleased with ⟨r, hlast, hmem, hdate, hrelease⟩
  exact ⟨r, hlast, h r hmem hrelease (leadsInstant_of_getLast hlast hdate hrelease)⟩

theorem getLast_of_leadsInstant
    (hids : (markers.map Attestation.attestationId).Nodup) {r : Attestation} (hmem : r ∈ markers)
    (hrelease : IsReleaseOf keyId r) (hleads : LeadsInstant keyId markers r) :
    (effectiveMarkers keyId markers r.assertedAt).getLast? = some r := by
  apply (getLast_eq_some_iff hids r).mpr
  constructor
  · apply List.mem_filter.mpr
    rw [isEffective, hrelease.1, decide_eq_true (le_refl _)]
    exact ⟨hmem, rfl⟩
  · intro m hm
    rcases List.mem_filter.mp hm with ⟨hm, hin⟩
    have habout := isMarkerAbout_of_isEffective hin
    have hdate : m.assertedAt ≤ r.assertedAt := of_decide_eq_true (Bool.and_eq_true_iff.mp hin).2
    apply (markerBefore_iff m r).mp
    rcases lt_or_eq_of_le hdate with hearlier | hsame
    · exact Or.inl hearlier
    · rcases hleads m hm habout hsame with ⟨hdimension, hid⟩
      have hrank := withholdRank_of_released hdimension
      exact Or.inr ⟨hsame, Or.inr ⟨hrank.trans (withholdRank_of_released hrelease.2).symm, hid⟩⟩

theorem releaseResolves_iff
    (hids : (markers.map Attestation.attestationId).Nodup) :
    (forall now, ReleaseResolves keyId markers now) <->
      forall r, r ∈ markers -> IsReleaseOf keyId r -> LeadsInstant keyId markers r ->
        NamesWithhold keyId markers r := by
  constructor
  · intro h r hmem hrelease hleads
    have hlast := getLast_of_leadsInstant hids hmem hrelease hleads
    have hstate : (foldQuarantine keyId markers r.assertedAt).state = .released := by
      rw [state_eq_of_getLast hlast, stateOf, hrelease.2]
      rfl
    rcases h r.assertedAt hstate with ⟨r', hlast', hnames⟩
    rw [hlast] at hlast'
    cases hlast'
    exact hnames
  · intro h now
    exact releaseResolves_of_leading h

end Fold

/-!
## Rows that came through the door
-/

theorem envelopeStr_of_nonempty
    {row : Attestation} {key s : String} (h : envelopeNonempty row key = some s) :
    envelopeStr row key = some s :=
  (Option.filter_eq_some_iff.mp h).1

variable {store : AttestationStore}

theorem resolves_iff
    {subject id : String} :
    resolves store subject id = true <-> exists w, w ∈ store.rows ∧ w.attestationId = id ∧
      envelopeStr w "dimension" = some dimensionWithheld ∧
      envelopeStr w Field.quarantines = some subject := by
  rw [resolves, Option.any_eq_true]
  simp only [getAttestation, FirstWins.find_key_eq_some_iff store.distinct, Bool.and_eq_true,
    beq_iff_eq, and_assoc]

theorem NamesWithhold.mono
    {keyId : String} {rows rows' : List Attestation} {r : Attestation}
    (h : NamesWithhold keyId rows r) (hsub : rows ⊆ rows') :
    NamesWithhold keyId rows' r := by
  rcases h with ⟨w, hw, hnames⟩
  exact ⟨w, hsub hw, hnames⟩

theorem eq_or_mem_of_mem_put
    {a r : Attestation} (h : r ∈ (store.put a).rows) :
    r = a ∨ r ∈ store.rows := by
  unfold AttestationStore.put at h
  split at h
  · exact Or.inr h
  · exact List.mem_cons.mp h

theorem rows_subset_put
    (store : AttestationStore) (a : Attestation) :
    store.rows ⊆ (store.put a).rows := by
  unfold AttestationStore.put
  split
  · exact List.Subset.refl _
  · exact List.subset_cons_self a store.rows

section Door

variable [MarkerGates]

theorem namesWithhold_of_checkMarker
    {marker : Attestation} {keyId : String} (h : checkMarker store marker = .ok ())
    (hrelease : IsReleaseOf keyId marker) :
    NamesWithhold keyId store.rows marker := by
  simp only [checkMarker, bind_eq_ok_iff, require_eq_ok_iff, orRefuse_eq_ok_iff] at h
  -- of the door's clauses four speak of the release: dimension, subject, member, row
  rcases h with ⟨dimension, hdimension, _, _, subject, hsubject, _, _, _, hnamed, _, _, _, _, _, _,
    _, _, _, _, _, hresolves, _⟩
  have hkey : keyId = subject := by
    have habout := (Bool.and_eq_true_iff.mp hrelease.1).2
    rw [envelopeStr_of_nonempty hsubject, beq_iff_eq, Option.some.injEq] at habout
    exact habout.symm
  have hkind : dimension = dimensionReleased := by
    rw [hrelease.2, Option.some.injEq] at hdimension
    exact hdimension.symm
  cases hreleases : envelopeNonempty marker Field.releases with
  | none =>
      rw [hreleases, hkind] at hnamed
      cases hnamed
  | some id =>
      rw [hreleases, Option.all_some, resolves_iff] at hresolves
      rcases hresolves with ⟨w, hw, rfl, hwithheld, hsame⟩
      rw [hkey]
      exact ⟨w, hw, envelopeStr_of_nonempty hreleases, hwithheld, hsame⟩

/-- The store after a marker was offered; a failure leaves it as it was. -/
def offer (store : AttestationStore) (marker : Attestation) : AttestationStore :=
  match recordQuarantineMarker store marker with
  | .ok (_, after) => after
  | .error _ => store

theorem offer_cases
    (store : AttestationStore) (marker : Attestation) :
    offer store marker = store ∨
      (checkMarker store marker = .ok () ∧ offer store marker = store.put marker) := by
  cases hcheck : checkMarker store marker with
  | error halt =>
      left
      cases halt with
      | refused reason => simp only [offer, recordQuarantineMarker, hcheck]
      | failed error => simp only [offer, recordQuarantineMarker, hcheck]
  | ok u =>
      cases hput : MarkerGates.putGate store marker with
      | error e =>
          left
          simp only [offer, recordQuarantineMarker, hcheck, hput]
          rfl
      | ok v =>
          right
          refine ⟨rfl, ?_⟩
          simp only [offer, recordQuarantineMarker, hcheck, hput]
          rfl

def DoorInv (store : AttestationStore) : Prop :=
  forall keyId r, r ∈ store.rows -> IsReleaseOf keyId r -> NamesWithhold keyId store.rows r

theorem doorInv_offer
    (h : DoorInv store) (marker : Attestation) :
    DoorInv (offer store marker) := by
  rcases offer_cases store marker with hsame | ⟨hcheck, hput⟩
  · rw [hsame]
    exact h
  · rw [hput]
    intro keyId r hr hrelease
    have hsub := rows_subset_put store marker
    rcases eq_or_mem_of_mem_put hr with rfl | hr
    · exact (namesWithhold_of_checkMarker hcheck hrelease).mono hsub
    · exact (h keyId r hr hrelease).mono hsub

theorem doorInv_offers
    (offered : List Attestation) :
    DoorInv (offered.foldl offer AttestationStore.empty) := by
  apply List.foldlRecOn
  · intro keyId r hr
    cases hr
  · intro store h marker _
    exact doorInv_offer h marker

/-- The fold releases a key only by a marker that names a withhold on exactly the lists
whose leading releases all do, and rows that came through the door are such a list. -/
theorem quarantine_release_resolves_iff
    (keyId : String) (markers : List Attestation) :
    ((forall r, r ∈ markers -> IsReleaseOf keyId r -> LeadsInstant keyId markers r ->
        NamesWithhold keyId markers r) ->
      forall now, ReleaseResolves keyId markers now) ∧
    ((markers.map Attestation.attestationId).Nodup ->
      ((forall now, ReleaseResolves keyId markers now) <->
        forall r, r ∈ markers -> IsReleaseOf keyId r -> LeadsInstant keyId markers r ->
          NamesWithhold keyId markers r)) ∧
    (forall offered now,
      ReleaseResolves keyId (List.foldl offer AttestationStore.empty offered).rows now) := by
  refine ⟨?_, ?_, ?_⟩
  · intro h now
    exact releaseResolves_of_leading h
  · intro hids
    exact releaseResolves_iff hids
  · intro offered now
    exact releaseResolves_of_leading fun r hr hrelease _ => doorInv_offers offered keyId r hr hrelease

end Door

/-- A replicated release that names no row held lifts a quarantine the node never raised. -/
theorem quarantine_released_without_withhold :
    let release := markerRow "r" 5 (releaseEnvelope "k" "c" "nothing" "d" "appealed")
    (foldQuarantine "k" [release] 9).state = .released ∧
      ¬ ReleaseResolves "k" [release] 9 := by
  intro release
  have hstate : (foldQuarantine "k" [release] 9).state = .released := by
    rfl
  refine ⟨hstate, ?_⟩
  intro hresolves
  rcases hresolves hstate with ⟨r, hlast, w, hw, -, hwithheld, -⟩
  rw [List.mem_singleton.mp hw] at hwithheld
  exact absurd hwithheld (by decide)

end Quarantine
end Federation

namespace Reference

scoped instance markerGates : Federation.Quarantine.MarkerGates where
  lookupPublicKey _ := .ok true
  verifySignature _ := true
  slashGate _ _ := .ok ()
  putGate _ _ := .ok ()

end Reference

namespace Federation
namespace Quarantine

/-- Of two releases of one instant the first names no marker, but the second leads. -/
def replicatedMarkers : List Attestation :=
  [markerRow "a" 5 (withholdEnvelope "k" "c" "d" "spam"),
    markerRow "b" 6 (releaseEnvelope "k" "c" "nothing" "d" "appealed"),
    markerRow "r" 6 (releaseEnvelope "k" "c" "a" "d" "appealed")]

theorem replicatedMarkers_lead
    (r : Attestation) (hr : r ∈ replicatedMarkers) (hrelease : IsReleaseOf "k" r)
    (hleads : LeadsInstant "k" replicatedMarkers r) :
    NamesWithhold "k" replicatedMarkers r := by
  simp only [replicatedMarkers, List.mem_cons, List.not_mem_nil, or_false] at hr
  rcases hr with rfl | rfl | rfl
  · exact absurd hrelease.2 (by decide)
  · have hlast := hleads (markerRow "r" 6 (releaseEnvelope "k" "c" "a" "d" "appealed"))
      (by simp [replicatedMarkers]) (by decide) rfl
    exact absurd hlast.2 (by decide)
  · exact ⟨markerRow "a" 5 (withholdEnvelope "k" "c" "d" "spam"), by simp [replicatedMarkers],
      by decide, by decide, by decide⟩

open Reference in
theorem quarantine_release_resolves_after_door :
    let store := replicatedMarkers.foldl offer AttestationStore.empty
    ((foldQuarantine "k" store.rows 9).state = QuarantineState.released ∧
      ReleaseResolves "k" store.rows 9) ∧
    (foldQuarantine "k" replicatedMarkers 9).state = QuarantineState.released ∧
      ReleaseResolves "k" replicatedMarkers 9 := by
  intro store
  refine ⟨⟨rfl, (quarantine_release_resolves_iff "k" []).2.2 _ 9⟩, rfl, ?_⟩
  exact ((quarantine_release_resolves_iff "k" replicatedMarkers).2.1 (by decide)).mpr
    replicatedMarkers_lead 9

end Quarantine
end CirisPersist.Federation
