import CirisPersist.Federation.MeshConfig.Door
import CirisPersist.Library.Spells

/-!
# Emergency relief over time

One holder may relieve the mesh alone, for at most three days at a time.  The door measures
each window and compares its start with the ends of the holder's windows it holds already.
Over a whole history of offers the admitted windows therefore follow one another.  They may
touch, though: the comparison lets a window open at the very instant the last one closes.
-/

namespace CirisPersist.Federation
namespace MeshConfig

open Checks

/-!
## The rows a history admits
-/

section Histories

variable [DateReader] [External]

def isAdmitted (dir : TrustDirectory) (o : Offer) : Bool :=
  (recordMeshConfigRow dir o.nodeKeyId o.baseline o.row o.now).any fun result =>
    decide (result.1 = .admitted)

/-- The admitted rows of a sequence of offers, each decided after the ones before it. -/
def admittedRows : TrustDirectory -> List Offer -> List Attestation
  | _, [] => []
  | dir, o :: rest =>
      if isAdmitted dir o then
        o.row :: admittedRows (offerStep dir o) rest
      else
        admittedRows (offerStep dir o) rest

end Histories

section Windows

variable [DateReader]

/-- From the signed start to the declared end of a holder's emergency row on a key. -/
def reliefWindow (holder root : String) (key : MeshConfigKey) (r : Attestation) :
    Option (Instant × Instant) := do
  let p ← parseRow r
  if r.attestingKeyId = holder ∧ p.rootRef = root ∧ p.key = key ∧
      p.form = .emergency then
    let vu ← p.validUntil
    return (r.assertedAt, vu)
  else
    none

theorem reliefWindow_eq_some_iff
    {holder root : String} {key : MeshConfigKey} {r : Attestation} {w : Instant × Instant} :
    reliefWindow holder root key r = some w <->
      exists p, parseRow r = some p ∧ r.attestingKeyId = holder ∧ p.rootRef = root ∧
        p.key = key ∧ p.form = .emergency ∧ r.assertedAt = w.1 ∧
        p.validUntil = some w.2 := by
  unfold reliefWindow
  rw [Option.bind_eq_bind, Option.bind_eq_some_iff]
  refine exists_congr fun p => and_congr_right fun _ => ?_
  split
  · rename_i hp
    simp only [hp, true_and, Option.bind_eq_bind, Option.bind_eq_some_iff, Option.pure_def,
      Option.some.injEq]
    constructor
    · rintro ⟨vu, hvu, rfl⟩
      exact ⟨rfl, hvu⟩
    · rintro ⟨hstart, hvu⟩
      exact ⟨w.2, hvu, by rw [hstart]⟩
  · rename_i hp
    simp only [reduceCtorEq, false_iff]
    rintro ⟨hholder, hroot, hkey, hform, -⟩
    exact hp ⟨hholder, hroot, hkey, hform⟩

variable [External]

def reliefWindows (dir : TrustDirectory) (offers : List Offer) (holder root : String)
    (key : MeshConfigKey) : List (Instant × Instant) :=
  (admittedRows dir offers).filterMap (reliefWindow holder root key)

end Windows

/-!
## One admission

The door and the later reads parse a row alike, so the history gate finds every admitted row
again.
-/

variable {row : Attestation} {p : ParsedRow}

theorem window_of_checkTtl
    (hform : p.form = .emergency) {vu : Instant} (hvu : p.validUntil = some vu)
    (h : checkTtl row p = .ok ()) :
    row.assertedAt < vu ∧
      vu - row.assertedAt ≤ Instant.ofSeconds (emergencyMaxTtlHours * 3600) := by
  unfold checkTtl at h
  rw [hform] at h
  simp only [bind_eq_ok_iff, orRefuse_eq_ok_iff, require_eq_ok_iff] at h
  rcases h with ⟨vu', hvu', hlength⟩
  cases hvu.symm.trans hvu'
  simp only [Bool.not_eq_true', Bool.or_eq_false_iff, decide_eq_false_iff_not, not_le, not_lt]
    at hlength
  exact ⟨Int.lt_of_sub_pos hlength.1, hlength.2⟩

variable {dir : TrustDirectory}

theorem checkStanding_ok
    {nodeKeyId : String} {baseline : MeshConfigBaseline} {now : Instant}
    (h : checkStanding dir nodeKeyId baseline row p now = .ok ()) :
    row.attestedKeyId = p.rootRef ∧ checkTtl row p = .ok () := by
  simp only [checkStanding, bind_eq_ok_iff, require_eq_ok_iff] at h
  rcases h with ⟨_, _, _, hfiled, _, httl, _⟩
  exact ⟨of_decide_eq_true hfiled, httl⟩

section Admission

variable [DateReader]

theorem parseRow_of_readShape
    (h : readShape row = .ok p) :
    parseRow row = some p ∧ (row.dimension.any (Text.startsWith "mesh_config:")) = true := by
  simp only [readShape, parseKey, bind_eq_ok_iff, orRefuse_eq_ok_iff, require_eq_ok_iff] at h
  rcases h with ⟨key, ⟨dimension, hdimension, _, hstem, key', hkey, named, hnamed, _, hname, hsame⟩,
    value, hvalue, _, hdomain, rootRef, hroot, form, hform, validUntil, huntil, hp⟩
  cases hsame
  cases hp
  refine ⟨?_, ?_⟩
  · unfold parseRow
    simp only [hdimension, hkey, hnamed, of_decide_eq_true hname, hvalue, hdomain, hroot, hform,
      huntil, Option.bind_eq_bind, Option.bind_some]
    simp
  · have hd : row.dimension = some dimension := hdimension
    rw [hd, Option.any_some, hstem]

/-- An emergency row the door has let in: the history gate reads it again, and its window is
open for at most three days. -/
structure Filed (r : Attestation) : Prop where
  tier : r.tier = .federation
  stem : (r.dimension.any (Text.startsWith "mesh_config:")) = true
  root : forall p, parseRow r = some p -> r.attestedKeyId = p.rootRef
  window : forall holder root key w, reliefWindow holder root key r = some w ->
    w.1 < w.2 ∧ w.2 - w.1 ≤ Instant.ofSeconds (emergencyMaxTtlHours * 3600)

/-- The windows of the later row open after those of the earlier one have closed. -/
def Follows (earlier later : Attestation) : Prop :=
  forall holder root key w v, reliefWindow holder root key earlier = some w ->
    reliefWindow holder root key later = some v -> w.2 ≤ v.1

theorem mem_sameKeyRows_iff
    {r : Attestation} {q : ParsedRow} :
    (r, q) ∈ sameKeyRows dir p <->
      r ∈ dir.store.rows ∧ r.attestedKeyId = p.rootRef ∧
        r.tier = .federation ∧
        (r.dimension.any (Text.startsWith "mesh_config:")) = true ∧ parseRow r = some q ∧
        q.key = p.key ∧ q.rootRef = p.rootRef := by
  simp [sameKeyRows, AttestationQuery.admits, AttestationQuery.toKey,
    AttestationQuery.withDimensionStem, and_assoc]

variable [External]

theorem isAdmitted_iff
    (dir : TrustDirectory) (o : Offer) :
    isAdmitted dir o = true <->
      exists p, readShape o.row = .ok p ∧
        checkStanding dir o.nodeKeyId o.baseline o.row p o.now = .ok () ∧
        checkHistory dir o.row p = .ok () ∧ dir.putAccepts o.row = true ∧
        offerStep dir o = { dir with store := dir.store.put o.row } := by
  unfold isAdmitted
  rw [Option.any_eq_true]
  constructor
  · rintro ⟨⟨outcome, store'⟩, hresult, houtcome⟩
    have houtcome' : outcome = .admitted := of_decide_eq_true houtcome
    subst houtcome'
    rcases (recordMeshConfigRow_admitted_iff _ _ _ _ _ _).mp hresult with
      ⟨⟨p, hcheck⟩, haccepts, hstore⟩
    rcases (checkMeshConfigRow_ok_iff _ _ _ _ _ _).mp hcheck with ⟨hshape, hstanding, hhistory⟩
    refine ⟨p, hshape, hstanding, hhistory, haccepts, ?_⟩
    unfold offerStep
    rw [hresult, hstore]
  · rintro ⟨p, hshape, hstanding, hhistory, haccepts, -⟩
    have hcheck := (checkMeshConfigRow_ok_iff _ _ _ _ _ _).mpr ⟨hshape, hstanding, hhistory⟩
    exact ⟨_, (recordMeshConfigRow_admitted_iff _ _ _ _ _ _).mpr ⟨⟨p, hcheck⟩, haccepts, rfl⟩,
      by simp⟩

variable {o : Offer}

theorem filed_of_isAdmitted
    (htier : o.row.tier = .federation) (h : isAdmitted dir o = true) :
    Filed o.row := by
  rcases (isAdmitted_iff dir o).mp h with ⟨p, hshape, hstanding, -⟩
  rcases parseRow_of_readShape hshape with ⟨hparse, hstem⟩
  rcases checkStanding_ok hstanding with ⟨hroot, httl⟩
  refine ⟨htier, hstem, ?_, ?_⟩
  · intro q hq
    cases hparse.symm.trans hq
    exact hroot
  · intro holder root key w hw
    rcases reliefWindow_eq_some_iff.mp hw with ⟨q, hq, -, -, -, hform, hstart, hend⟩
    cases hparse.symm.trans hq
    rw [← hstart]
    exact window_of_checkTtl hform hend httl

theorem follows_of_isAdmitted
    {r : Attestation} (h : isAdmitted dir o = true) (hheld : r ∈ dir.store.rows) (hfiled : Filed r)
    (hid : r.attestationId ≠ o.row.attestationId) :
    Follows r o.row := by
  intro holder root key w v hw hv
  rcases (isAdmitted_iff dir o).mp h with ⟨p, hshape, -, hhistory, -⟩
  have hparse := (parseRow_of_readShape hshape).1
  rcases reliefWindow_eq_some_iff.mp hw with ⟨q, hq, hby, hqroot, hqkey, hqform, -, hqend⟩
  rcases reliefWindow_eq_some_iff.mp hv with ⟨p', hp', hby', hroot, hkey, hform, hstart, -⟩
  cases hparse.symm.trans hp'
  have hsame : (r, q) ∈ sameKeyRows dir p := by
    refine mem_sameKeyRows_iff.mpr ⟨hheld, ?_, hfiled.tier, hfiled.stem, hq, ?_, ?_⟩
    · rw [hfiled.root q hq, hqroot, hroot]
    · rw [hqkey, hkey]
    · rw [hqroot, hroot]
  unfold checkHistory at hhistory
  rw [hform] at hhistory
  simp only [require_eq_ok_iff, Bool.not_eq_true', List.any_eq_false] at hhistory
  have hchains := hhistory _ hsame
  simp only [chainsOn, hqform, hby, hby', hqend, Option.all_some, Bool.and_eq_true, beq_iff_eq,
    bne_iff_ne, decide_eq_true_iff, true_and, not_and, not_lt] at hchains
  rw [← hstart]
  exact hchains hid

/-!
## A history of admissions

The held rows grow by the admitted ones, so each admitted row is compared with all those
before it.
-/

theorem offerStep_of_not_admitted
    (h : isAdmitted dir o = false) :
    offerStep dir o = dir := by
  unfold isAdmitted at h
  unfold offerStep recordMeshConfigRow at *
  cases hcheck : checkMeshConfigRow dir o.nodeKeyId o.baseline o.row o.now with
  | error reason => rfl
  | ok p =>
      cases haccepts : dir.putAccepts o.row with
      | false => rfl
      | true => simp [hcheck, haccepts] at h

/-- The offers carry ids of their own, none of which the store holds yet. -/
structure FreshIds (dir : TrustDirectory) (offers : List Offer) : Prop where
  distinct : (offers.map fun o => o.row.attestationId).Nodup
  unheld : forall o r, o ∈ offers -> r ∈ dir.store.rows ->
    r.attestationId ≠ o.row.attestationId

theorem rows_offerStep
    {rest : List Offer} (hfresh : FreshIds dir (o :: rest)) (h : isAdmitted dir o = true) :
    (offerStep dir o).store.rows = o.row :: dir.store.rows := by
  rcases (isAdmitted_iff dir o).mp h with ⟨_, _, _, _, _, hstep⟩
  have hunheld : o.row.attestationId ∉ dir.store.rows.map Attestation.attestationId := by
    intro hmem
    rcases List.mem_map.mp hmem with ⟨r, hr, hid⟩
    exact hfresh.unheld o r List.mem_cons_self hr hid
  rw [hstep]
  simp only [AttestationStore.put, hunheld, dite_false, AttestationStore.insert]

theorem FreshIds.next
    {rest : List Offer} (h : FreshIds dir (o :: rest)) :
    FreshIds (offerStep dir o) rest := by
  have hnodup := List.nodup_cons.mp h.distinct
  refine ⟨hnodup.2, ?_⟩
  intro o' r ho' hr
  have hold : r ∈ dir.store.rows -> r.attestationId ≠ o'.row.attestationId :=
    h.unheld o' r (List.mem_cons_of_mem _ ho')
  cases hadmitted : isAdmitted dir o with
  | false =>
      rw [offerStep_of_not_admitted hadmitted] at hr
      exact hold hr
  | true =>
      rw [rows_offerStep h hadmitted] at hr
      rcases List.mem_cons.mp hr with rfl | hr
      · intro hid
        exact hnodup.1 (List.mem_map.mpr ⟨o', ho', hid.symm⟩)
      · exact hold hr

theorem admittedRows_follow
    (offers : List Offer) :
    forall dir, FreshIds dir offers ->
      (forall o, o ∈ offers -> o.row.tier = .federation) ->
      (forall r, r ∈ admittedRows dir offers -> Filed r) ∧
      (admittedRows dir offers).Pairwise Follows ∧
      forall held r, held ∈ dir.store.rows -> Filed held -> r ∈ admittedRows dir offers ->
        Follows held r := by
  induction offers with
  | nil =>
      intro dir _ _
      refine ⟨?_, List.Pairwise.nil, ?_⟩
      · intro r hr
        cases hr
      · intro held r _ _ hr
        cases hr
  | cons o rest ih =>
      intro dir hfresh htier
      have hrest := ih (offerStep dir o) hfresh.next fun o' ho' =>
        htier o' (List.mem_cons_of_mem _ ho')
      cases hadmitted : isAdmitted dir o with
      | false =>
          rw [offerStep_of_not_admitted hadmitted] at hrest
          have hrows : admittedRows dir (o :: rest) = admittedRows dir rest := by
            rw [admittedRows, hadmitted, offerStep_of_not_admitted hadmitted]
            rfl
          rw [hrows]
          exact hrest
      | true =>
          have hrows : admittedRows dir (o :: rest) =
              o.row :: admittedRows (offerStep dir o) rest := by
            rw [admittedRows, hadmitted]
            rfl
          have hfiled := filed_of_isAdmitted (htier o List.mem_cons_self) hadmitted
          rcases hrest with ⟨hallFiled, hpairs, hheld⟩
          rw [rows_offerStep hfresh hadmitted] at hheld
          rw [hrows]
          refine ⟨?_, ?_, ?_⟩
          · intro r hr
            rcases List.mem_cons.mp hr with rfl | hr
            · exact hfiled
            · exact hallFiled r hr
          · exact List.pairwise_cons.mpr
              ⟨fun r hr => hheld o.row r List.mem_cons_self hfiled hr, hpairs⟩
          · intro held r hmem hheldFiled hr
            rcases List.mem_cons.mp hr with rfl | hr
            · exact follows_of_isAdmitted hadmitted hmem hheldFiled
                (hfresh.unheld o held List.mem_cons_self hmem)
            · exact hheld held r (List.mem_cons_of_mem _ hmem) hheldFiled hr

/-- Relief by one holder on one key comes in disjoint windows of at most three days; and where
no window opens at the instant another one closes, no longer stretch is covered. -/
theorem relief_never_continuous
    (dir : TrustDirectory) (offers : List Offer) (hfresh : FreshIds dir offers)
    (htier : forall o, o ∈ offers -> o.row.tier = AttestationTier.federation)
    (holder root : String) (key : MeshConfigKey) :
    let windows := reliefWindows dir offers holder root key
    windows.Pairwise Spells.Separate ∧
      (forall w, w ∈ windows -> w.2 - w.1 ≤ Instant.ofSeconds (72 * 3600)) ∧
      (Spells.Apart windows -> forall a b, Spells.Covers windows a b ->
        b - a ≤ Instant.ofSeconds (72 * 3600)) := by
  intro windows
  rcases admittedRows_follow offers dir hfresh htier with ⟨hfiled, hpairs, -⟩
  have hseparate : windows.Pairwise Spells.Separate := by
    refine List.Pairwise.filterMap _ ?_ hpairs
    intro r r' hfollows w hw v hv t htw htv
    exact absurd htw.2 (not_lt.mpr (le_trans (hfollows holder root key w v hw hv) htv.1))
  have hshort : forall w, w ∈ windows -> w.2 - w.1 ≤ Instant.ofSeconds (72 * 3600) := by
    intro w hw
    rcases List.mem_filterMap.mp hw with ⟨r, hr, hwindow⟩
    exact ((hfiled r hr).window holder root key w hwindow).2
  refine ⟨hseparate, hshort, ?_⟩
  intro hapart a b hcovers
  rcases lt_or_ge a b with hab | hba
  · rcases Spells.within_one_of_covers hseparate hapart hab hcovers with ⟨w, hw, hstart, hend⟩
    exact le_trans (Int.sub_le_sub hend hstart) (hshort w hw)
  · exact le_trans (Int.sub_nonpos_of_le hba) (by decide)

end Admission

section Samples

namespace Midnights

scoped instance dateReader : DateReader where
  parseDateTime := fun s =>
    if s = "1970-01-04T00:00:00Z" then some (Instant.ofSeconds 259200)
    else if s = "1970-01-07T00:00:00Z" then some (Instant.ofSeconds 518400)
    else if s = "1970-01-08T00:00:00Z" then some (Instant.ofSeconds 604800)
    else none

scoped instance external : External :=
  Reference.external

end Midnights

open Midnights

def reliefFrom (id : String) (seconds : Int) (validUntil : String) : Attestation :=
  { delegateRow id "emergency" [("valid_until", .str validUntil)] with
    assertedAt := Instant.ofSeconds seconds }

/-- Three days from the first instant on, and three more from their last instant on. -/
def chainedOffers : List Offer :=
  [sampleOffer (reliefFrom "first" 0 "1970-01-04T00:00:00Z") 0,
    sampleOffer (reliefFrom "second" 259200 "1970-01-07T00:00:00Z") 259200]

theorem relief_chained_for_six_days :
    (chainedOffers.map fun o => o.row.attestationId).Nodup ∧
      reliefWindows meshDirectory chainedOffers "delegate" "root" .loadCeiling =
        [(0, Instant.ofSeconds 259200), (Instant.ofSeconds 259200, Instant.ofSeconds 518400)] ∧
      Spells.Covers (reliefWindows meshDirectory chainedOffers "delegate" "root"
        .loadCeiling) 0 (Instant.ofSeconds 518400) ∧
      ¬ Instant.ofSeconds 518400 - 0 ≤ Instant.ofSeconds (72 * 3600) := by
  have hwindows : reliefWindows meshDirectory chainedOffers "delegate" "root"
      .loadCeiling =
        [(0, Instant.ofSeconds 259200), (Instant.ofSeconds 259200, Instant.ofSeconds 518400)] := by
    decide
  refine ⟨by decide, hwindows, ?_, by decide⟩
  intro t ht
  rw [hwindows]
  rcases lt_or_ge t (Instant.ofSeconds 259200) with hfirst | hsecond
  · exact ⟨(0, Instant.ofSeconds 259200), by simp, ht.1, hfirst⟩
  · exact ⟨(Instant.ofSeconds 259200, Instant.ofSeconds 518400), by simp, hsecond, ht.2⟩

def spacedOffers : List Offer :=
  [sampleOffer (reliefFrom "first" 0 "1970-01-04T00:00:00Z") 0,
    sampleOffer (reliefFrom "second" 345600 "1970-01-08T00:00:00Z") 345600]

theorem spacedOffers_short :
    reliefWindows meshDirectory spacedOffers "delegate" "root" .loadCeiling =
        [(0, Instant.ofSeconds 259200), (Instant.ofSeconds 345600, Instant.ofSeconds 604800)] ∧
      ¬ Spells.Covers (reliefWindows meshDirectory spacedOffers "delegate" "root"
        .loadCeiling) 0 (Instant.ofSeconds 604800) := by
  have hwindows : reliefWindows meshDirectory spacedOffers "delegate" "root"
      .loadCeiling =
        [(0, Instant.ofSeconds 259200), (Instant.ofSeconds 345600, Instant.ofSeconds 604800)] := by
    decide
  have hfresh : FreshIds meshDirectory spacedOffers := by
    constructor
    · decide
    · simp only [spacedOffers, meshDirectory, List.mem_cons, List.not_mem_nil, or_false]
      rintro o r (rfl | rfl) (rfl | rfl) <;> decide
  have htier : forall o, o ∈ spacedOffers -> o.row.tier = .federation := by
    simp only [spacedOffers, List.mem_cons, List.not_mem_nil, or_false]
    rintro o (rfl | rfl) <;> rfl
  have hshort := (relief_never_continuous meshDirectory spacedOffers hfresh htier "delegate" "root"
    .loadCeiling).2.2
  refine ⟨hwindows, fun hcovers => ?_⟩
  have hapart : Spells.Apart (reliefWindows meshDirectory spacedOffers "delegate" "root"
      .loadCeiling) := by
    rw [hwindows]
    simp only [Spells.Apart, List.mem_cons, List.not_mem_nil, or_false]
    rintro w v (rfl | rfl) (rfl | rfl) <;> decide
  exact absurd (hshort hapart 0 (Instant.ofSeconds 604800) hcovers) (by decide)

end Samples

end MeshConfig
end CirisPersist.Federation
