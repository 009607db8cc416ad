import CirisPersist.Federation.Attestation
import CirisPersist.Library.Sorting
import Mathlib.Data.Prod.Lex

/-!
# The quarantine fold

A quarantine withholds a key's rows from serving and is lifted by a release.  Both are
marker rows, and the state of a key is read off the markers held about it: of those in
force the newest governs, and of two at one instant the one that withholds.

The order of the markers is total on rows of distinct ids, so the fold is a function of
the rows held and not of the order in which they came.
-/

namespace CirisPersist.Federation
namespace Quarantine

/-!
## Markers
-/

def dimensionWithheld :=
  "quarantine:withheld:v1"

def dimensionReleased :=
  "quarantine:released:v1"

namespace Field

def quarantines :=
  "quarantines_key_id"

def communityId :=
  "community_id"

def delegationId :=
  "delegation_id"

def releases :=
  "releases_marker_id"

def grounds :=
  "grounds"

end Field

def isMarkerDimension (dimension : String) : Bool :=
  dimension == dimensionWithheld || dimension == dimensionReleased

def envelopeStr (row : Attestation) (key : String) : Option String :=
  row.envelope.getStr? key

def envelopeNonempty (row : Attestation) (key : String) : Option String :=
  (envelopeStr row key).filter fun s => !s.isEmpty

def isMarkerAbout (keyId : String) (m : Attestation) : Bool :=
  (envelopeStr m "dimension").any isMarkerDimension &&
    envelopeStr m Field.quarantines == some keyId

def isEffective (keyId : String) (now : Instant) (m : Attestation) : Bool :=
  isMarkerAbout keyId m && decide (m.assertedAt ≤ now)

/-!
## The fold
-/

inductive QuarantineState where
  | notQuarantined
  | withheld
  | released
deriving DecidableEq

def QuarantineState.withholds : QuarantineState -> Bool
  | withheld => true
  | _ => false

def QuarantineState.asStr : QuarantineState -> String
  | notQuarantined => "not_quarantined"
  | withheld => "withheld"
  | released => "released"

structure QuarantineFold where
  keyId : String
  state : QuarantineState
  markerId : Option String
  decidedBy : Option String
  delegationId : Option String
  effectiveAt : Option Instant
  grounds : Option String
  markerIds : List String
deriving DecidableEq

def QuarantineFold.withholds (fold : QuarantineFold) : Bool :=
  fold.state.withholds

def QuarantineFold.noneFor (keyId : String) : QuarantineFold where
  keyId := keyId
  state := .notQuarantined
  markerId := none
  decidedBy := none
  delegationId := none
  effectiveAt := none
  grounds := none
  markerIds := []

def withholdRank (m : Attestation) : Nat :=
  if envelopeStr m "dimension" = some dimensionWithheld then 1 else 0

def markerBefore (a b : Attestation) : Prop :=
  a.assertedAt < b.assertedAt ∨
    (a.assertedAt = b.assertedAt ∧
      (withholdRank a < withholdRank b ∨
        (withholdRank a = withholdRank b ∧ a.attestationId ≤ b.attestationId)))

instance : DecidableRel markerBefore := by
  intro a b
  unfold markerBefore
  infer_instance

def effectiveMarkers (keyId : String) (markers : List Attestation) (now : Instant) :
    List Attestation :=
  (markers.filter (isEffective keyId now)).insertionSort markerBefore

def stateOf (governing : Attestation) : QuarantineState :=
  if envelopeStr governing "dimension" = some dimensionWithheld then
    .withheld
  else
    .released

def foldQuarantine (keyId : String) (markers : List Attestation) (now : Instant) :
    QuarantineFold :=
  let effective := effectiveMarkers keyId markers now
  match effective.getLast? with
  | none => QuarantineFold.noneFor keyId
  | some governing =>
      { keyId := keyId
        state := stateOf governing
        markerId := some governing.attestationId
        decidedBy := some governing.attestingKeyId
        delegationId := envelopeNonempty governing Field.delegationId
        effectiveAt := some governing.assertedAt
        grounds := envelopeNonempty governing Field.grounds
        markerIds := (effective.map Attestation.attestationId).insertionSort (· ≤ ·) }

def withholdEnvelope (quarantinedKeyId communityId delegationId grounds : String) : Json :=
  .obj [("dimension", .str dimensionWithheld),
    (Field.quarantines, .str quarantinedKeyId), (Field.communityId, .str communityId),
    (Field.delegationId, .str delegationId), (Field.grounds, .str grounds)]

def releaseEnvelope (quarantinedKeyId communityId releasesMarkerId delegationId grounds : String) :
    Json :=
  .obj [("dimension", .str dimensionReleased),
    (Field.quarantines, .str quarantinedKeyId), (Field.communityId, .str communityId),
    (Field.releases, .str releasesMarkerId), (Field.delegationId, .str delegationId),
    (Field.grounds, .str grounds)]

/-!
## The governing marker
-/

def markerKey (m : Attestation) : Instant ×ₗ (Nat ×ₗ String) :=
  toLex (m.assertedAt, toLex (withholdRank m, m.attestationId))

theorem markerBefore_iff
    (a b : Attestation) :
    markerBefore a b <-> markerKey a ≤ markerKey b := by
  simp only [markerBefore, markerKey, Prod.Lex.toLex_le_toLex]

theorem markerKey_inj
    {markers : List Attestation} (hids : (markers.map Attestation.attestationId).Nodup) :
    forall a, a ∈ markers -> forall b, b ∈ markers -> markerKey a = markerKey b -> a = b := by
  intro a ha b hb hkey
  exact List.inj_on_of_nodup_map hids ha hb
    (congrArg (fun k : Instant ×ₗ (Nat ×ₗ String) => (ofLex (ofLex k).2).2) hkey)

def Governs (keyId : String) (markers : List Attestation) (now : Instant) (m : Attestation) :
    Prop :=
  MaxByKey.IsMaxBy markerKey (markers.filter (isEffective keyId now)) m

section Governing

variable {keyId : String} {markers : List Attestation} {now : Instant}

variable {m : Attestation}

theorem governs_of_getLast
    (h : (effectiveMarkers keyId markers now).getLast? = some m) :
    Governs keyId markers now m :=
  Sorting.isMaxBy_of_getLast_sort markerBefore_iff h

theorem getLast_eq_some_iff
    (hids : (markers.map Attestation.attestationId).Nodup) (m : Attestation) :
    (effectiveMarkers keyId markers now).getLast? = some m <-> Governs keyId markers now m := by
  apply Sorting.getLast_sort_eq_some_iff markerBefore_iff
  intro a ha b hb
  exact markerKey_inj hids a (List.mem_of_mem_filter ha) b (List.mem_of_mem_filter hb)

theorem getLast_eq_none_iff :
    (effectiveMarkers keyId markers now).getLast? = none <->
      forall m, m ∈ markers -> isEffective keyId now m = false := by
  rw [effectiveMarkers, Sorting.getLast_sort_eq_none_iff, List.filter_eq_nil_iff]
  simp only [Bool.not_eq_true]

theorem state_eq_of_getLast
    (h : (effectiveMarkers keyId markers now).getLast? = some m) :
    (foldQuarantine keyId markers now).state = stateOf m := by
  simp only [foldQuarantine, h]

theorem state_of_getLast_none
    (h : (effectiveMarkers keyId markers now).getLast? = none) :
    (foldQuarantine keyId markers now).state = .notQuarantined := by
  simp only [foldQuarantine, h, QuarantineFold.noneFor]

theorem stateOf_eq_withheld_iff
    (m : Attestation) :
    stateOf m = .withheld <-> envelopeStr m "dimension" = some dimensionWithheld := by
  unfold stateOf
  split
  · simp [*]
  · simp [*]

theorem isMarkerAbout_of_isEffective
    (h : isEffective keyId now m = true) :
    isMarkerAbout keyId m = true :=
  (Bool.and_eq_true_iff.mp h).1

theorem dimension_of_isMarkerAbout
    (h : isMarkerAbout keyId m = true) :
    envelopeStr m "dimension" = some dimensionWithheld ∨
      envelopeStr m "dimension" = some dimensionReleased := by
  rw [isMarkerAbout, Bool.and_eq_true, Option.any_eq_true] at h
  rcases h.1 with ⟨dimension, hdimension, hmarker⟩
  rw [isMarkerDimension, Bool.or_eq_true, beq_iff_eq, beq_iff_eq] at hmarker
  rw [hdimension, Option.some.injEq, Option.some.injEq]
  exact hmarker

theorem dimension_of_released
    (h : isMarkerAbout keyId m = true) (hstate : stateOf m = .released) :
    envelopeStr m "dimension" = some dimensionReleased := by
  rcases dimension_of_isMarkerAbout h with hwithheld | hreleased
  · rw [(stateOf_eq_withheld_iff m).mpr hwithheld] at hstate
    cases hstate
  · exact hreleased

theorem withholdRank_of_withheld
    (h : envelopeStr m "dimension" = some dimensionWithheld) :
    withholdRank m = 1 :=
  if_pos h

theorem withholdRank_of_released
    (h : envelopeStr m "dimension" = some dimensionReleased) :
    withholdRank m = 0 := by
  rw [withholdRank, h]
  rfl

theorem stateOf_ne_notQuarantined
    (m : Attestation) :
    stateOf m ≠ .notQuarantined := by
  unfold stateOf
  split
  · exact nofun
  · exact nofun

theorem withheld_iff_governed
    (hids : (markers.map Attestation.attestationId).Nodup) :
    (foldQuarantine keyId markers now).state = .withheld <->
      exists m, Governs keyId markers now m ∧
        envelopeStr m "dimension" = some dimensionWithheld := by
  constructor
  · intro h
    cases hlast : (effectiveMarkers keyId markers now).getLast? with
    | none =>
        rw [state_of_getLast_none hlast] at h
        cases h
    | some m =>
        rw [state_eq_of_getLast hlast] at h
        exact ⟨m, governs_of_getLast hlast, (stateOf_eq_withheld_iff m).mp h⟩
  · rintro ⟨m, hm, hdimension⟩
    rw [state_eq_of_getLast ((getLast_eq_some_iff hids m).mpr hm)]
    exact (stateOf_eq_withheld_iff m).mpr hdimension

theorem notQuarantined_iff :
    (foldQuarantine keyId markers now).state = .notQuarantined <->
      forall m, m ∈ markers -> isEffective keyId now m = false := by
  rw [← getLast_eq_none_iff]
  cases hlast : (effectiveMarkers keyId markers now).getLast? with
  | none => exact iff_of_true (state_of_getLast_none hlast) rfl
  | some m =>
      rw [state_eq_of_getLast hlast]
      exact iff_of_false (stateOf_ne_notQuarantined m) nofun

theorem foldQuarantine_eq_of_perm
    {markers' : List Attestation} (hids : (markers.map Attestation.attestationId).Nodup)
    (h : (markers'.filter (isEffective keyId now)).Perm (markers.filter (isEffective keyId now))) :
    foldQuarantine keyId markers' now = foldQuarantine keyId markers now := by
  have hsorted : effectiveMarkers keyId markers' now = effectiveMarkers keyId markers now := by
    apply Sorting.insertionSort_eq_of_perm markerBefore_iff _ h
    intro a ha b hb
    exact markerKey_inj hids a (List.mem_of_mem_filter ha) b (List.mem_of_mem_filter hb)
  rw [foldQuarantine, hsorted, foldQuarantine]

theorem not_released_of_late_withhold
    {w : Attestation} (hw : w ∈ markers) (heffective : isEffective keyId now w = true)
    (hwithhold : envelopeStr w "dimension" = some dimensionWithheld)
    (hlate : forall r, r ∈ markers -> isEffective keyId now r = true ->
      envelopeStr r "dimension" = some dimensionReleased -> r.assertedAt ≤ w.assertedAt) :
    (foldQuarantine keyId markers now).state ≠ .released := by
  intro hreleased
  cases hlast : (effectiveMarkers keyId markers now).getLast? with
  | none =>
      rw [state_of_getLast_none hlast] at hreleased
      cases hreleased
  | some m =>
      rw [state_eq_of_getLast hlast] at hreleased
      rcases governs_of_getLast hlast with ⟨hmem, hmax⟩
      rcases List.mem_filter.mp hmem with ⟨hm, hin⟩
      have hdimension := dimension_of_released (isMarkerAbout_of_isEffective hin) hreleased
      have hle := hlate m hm hin hdimension
      have hbefore := (markerBefore_iff w m).mpr (hmax w (List.mem_filter.mpr ⟨hw, heffective⟩))
      -- at one instant a release sorts before a withhold
      rw [markerBefore, withholdRank_of_withheld hwithhold, withholdRank_of_released hdimension]
        at hbefore
      rcases hbefore with hlater | ⟨-, hrank | ⟨hrank, -⟩⟩
      · exact absurd hlater (not_lt.mpr hle)
      · exact absurd hrank (Nat.not_lt_zero 1)
      · exact absurd hrank Nat.one_ne_zero

end Governing

/-- The fold is the largest marker in force, of a total order. -/
theorem quarantine_fold_is_maximum
    (keyId : String) (markers : List Attestation) (now : Instant)
    (hids : (markers.map Attestation.attestationId).Nodup) :
    (forall markers',
      (markers'.filter (isEffective keyId now)).Perm (markers.filter (isEffective keyId now)) ->
      foldQuarantine keyId markers' now = foldQuarantine keyId markers now) ∧
    ((foldQuarantine keyId markers now).state = QuarantineState.withheld <->
      exists m, Governs keyId markers now m ∧
        envelopeStr m "dimension" = some dimensionWithheld) ∧
    ((foldQuarantine keyId markers now).state = QuarantineState.notQuarantined <->
      forall m, m ∈ markers -> isEffective keyId now m = false) ∧
    (forall w grown, grown.Perm (w :: markers) ->
      w.attestationId ∉ markers.map Attestation.attestationId ->
      isEffective keyId now w = true -> envelopeStr w "dimension" = some dimensionWithheld ->
      (forall r, r ∈ markers -> isEffective keyId now r = true ->
        envelopeStr r "dimension" = some dimensionReleased -> r.assertedAt ≤ w.assertedAt) ->
      (foldQuarantine keyId grown now).state ≠ QuarantineState.released) := by
  refine ⟨?_, withheld_iff_governed hids, notQuarantined_iff, ?_⟩
  · intro markers' h
    exact foldQuarantine_eq_of_perm hids h
  · intro w grown hgrown _ heffective hwithhold hlate
    apply not_released_of_late_withhold (hgrown.mem_iff.mpr List.mem_cons_self) heffective hwithhold
    intro r hr hin hreleased
    rcases List.mem_cons.mp (hgrown.mem_iff.mp hr) with rfl | hr
    · exact le_refl _
    · exact hlate r hr hin hreleased

def markerRow (id : String) (assertedAt : Instant) (envelope : Json) : Attestation :=
  { Attestation.ofAuthor id "moderator" "k" .scores assertedAt [] with envelope }

theorem quarantine_fold_is_maximum_at_tie :
    (foldQuarantine "k"
      [markerRow "a" 5 (withholdEnvelope "k" "c" "d" "spam"),
        markerRow "b" 5 (releaseEnvelope "k" "c" "a" "d" "appealed")] 9).state ≠
      .released := by
  have hfold := quarantine_fold_is_maximum "k"
    [markerRow "b" 5 (releaseEnvelope "k" "c" "a" "d" "appealed")] 9 (by decide)
  apply hfold.2.2.2 (markerRow "a" 5 (withholdEnvelope "k" "c" "d" "spam")) _ (List.Perm.refl _)
  · decide
  · rfl
  · rfl
  · intro r hr _ _
    rw [List.mem_singleton.mp hr]
    exact le_refl _

end Quarantine
end CirisPersist.Federation
