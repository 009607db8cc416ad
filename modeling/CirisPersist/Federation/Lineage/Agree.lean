import CirisPersist.Federation.Lineage.Directory

/-!
# Directories that answer a verdict alike

Two nodes, or one node at two wall clocks, give a row the same verdict when they
agree about the keys its chain names, the accord's prepared roster events and the
resignations.  Between two instants of one verdict only registered instants matter.
-/

namespace CirisPersist.Federation
namespace Lineage

open Expiring

/-!
## Answers that change only at registered instants
-/

variable {now t : Instant}

theorem le_iff_le_of_not_passed
    {b : Instant} (hle : now ≤ t) (h : now < b -> t < b) :
    b ≤ t <-> b ≤ now :=
  ⟨fun hb => not_lt.mp fun hlt => not_lt.mpr hb (h hlt), fun hb => le_trans hb hle⟩

theorem holdsAt_eq_of_not_passed
    {i : InstantInterval} (hle : now ≤ t)
    (hedges : forall e, e ∈ i.1 :: i.2.toList -> now < e -> t < e) :
    InstantInterval.holdsAt t i = InstantInterval.holdsAt now i := by
  rcases i with ⟨start, stop⟩
  have hstart := le_iff_le_of_not_passed hle (hedges start List.mem_cons_self)
  cases stop with
  | none => simp [InstantInterval.holdsAt, hstart]
  | some e =>
      have hstop : t < e <-> now < e := ⟨fun h => lt_of_le_of_lt hle h, hedges e (by simp)⟩
      simp [InstantInterval.holdsAt, hstart, hstop]

theorem any_holdsAt_eq_of_not_passed
    {intervals : List InstantInterval} (hle : now ≤ t)
    (hedges : forall e, e ∈ intervalEdges intervals -> now < e -> t < e) :
    intervals.any (InstantInterval.holdsAt t) = intervals.any (InstantInterval.holdsAt now) := by
  induction intervals with
  | nil => rfl
  | cons i intervals ih =>
      have hi := holdsAt_eq_of_not_passed (i := i) hle fun e he =>
        hedges e (List.mem_append_left _ he)
      have hrest := ih fun e he => hedges e (List.mem_append_right _ he)
      rw [List.any_cons, List.any_cons, hi, hrest]

theorem not_passed_of_nextEdge
    {intervals : List InstantInterval}
    (hnext : forall b, b ∈ (nextEdge intervals now).toList -> now < b -> t < b) :
    forall e, e ∈ intervalEdges intervals -> now < e -> t < e := by
  intro e he hnow
  have hmem : e ∈ (intervalEdges intervals).filter fun e => decide (now < e) :=
    List.mem_filter.mpr ⟨he, decide_eq_true hnow⟩
  cases hmin : nextEdge intervals now with
  | none =>
      rw [nextEdge, List.min?_eq_none_iff] at hmin
      rw [hmin] at hmem
      cases hmem
  | some b =>
      have hb := List.min?_eq_some_iff.mp hmin
      have hlt := of_decide_eq_true (List.mem_filter.mp hb.1).2
      have htb := hnext b (by rw [hmin]; exact List.mem_singleton.mpr rfl) hlt
      exact lt_of_lt_of_le htb (hb.2 e hmem)

theorem rosterOrder_congr
    {events : List RosterEvent} {t' : Instant}
    (h : forall e, e ∈ events -> (e.effectiveAt ≤ t' <-> e.effectiveAt ≤ t)) :
    rosterOrder events t' = rosterOrder events t := by
  unfold rosterOrder
  exact congrArg sortRosterEvents (List.filter_congr fun e he => decide_eq_decide.mpr (h e he))

/-- The keys whose rows a chain makes a node read: members, authorities and cosigners. -/
def NamesKey (chain : List Version) (key : String) : Prop :=
  exists v, v ∈ chain ∧
    ((exists m, m ∈ v.community.members ∧ m.keyId = key) ∨
      exists s, s ∈ communityScrubs v ∧ s.scrubKeyId = key)

end Lineage

namespace LineageDirectory

open Expiring Lineage

theorem effectiveAt_mem_of_stored
    {dir : LineageDirectory} {ev : StoredRosterEvent} (h : ev ∈ dir.storedFamilyEvents) :
    ev.effectiveAt ∈ dir.familyEventInstants := by
  rcases List.mem_append.mp h with hadd | hremove
  · rcases List.mem_map.mp hadd with ⟨a, ha, rfl⟩
    exact List.mem_append_left _ (List.mem_map_of_mem ha)
  · rcases List.mem_map.mp hremove with ⟨r, hr, rfl⟩
    exact List.mem_append_right _ (List.mem_map_of_mem hr)

variable {key : String}

theorem resignedWithin_eq_of_not_passed
    {dir : LineageDirectory} {id : String} {after now t : Instant} (hle : now ≤ t)
    (hresign : forall b, b ∈ dir.resignationsOf id key -> now < b -> t < b) :
    dir.resignedWithin id key after t = dir.resignedWithin id key after now := by
  unfold resignedWithin
  rw [Bool.eq_iff_iff, List.any_eq_true, List.any_eq_true]
  simp only [Bool.and_eq_true, decide_eq_true_eq]
  refine exists_congr fun r => and_congr_right fun hr => and_congr_right fun _ => ?_
  exact le_iff_le_of_not_passed hle (hresign r hr)

theorem countDistinctRosterScrubs_congr
    {d d' : GroupDirectory} {envelope : Json} {scrubs : List ScrubSig}
    (hverify : forall s, s ∈ scrubs ->
      d'.verifiesEnvelope envelope s = d.verifiesEnvelope envelope s)
    (roster : List String) :
    ReverseQuorum.countDistinctRosterScrubs d' envelope scrubs roster =
      ReverseQuorum.countDistinctRosterScrubs d envelope scrubs roster := by
  unfold ReverseQuorum.countDistinctRosterScrubs
  refine List.foldl_ext _ _ _ fun counted s hs => ?_
  rw [hverify s hs]

section Agree

variable (W : Type) [RubricNum W] [External] [KeyVerifier]

/-- Two directories, each at its wall clock, that a chain of one community cannot tell
apart but by its witnesses. -/
structure ReadsAlike (dir dir' : LineageDirectory) (wall wall' : Instant) (id : String)
    (chain : List Version) : Prop where
  family : dir'.accordFamily = dir.accordFamily
  events : forall family, dir.accordFamily = some family ->
    (dir'.accordInput wall' family).prepareRosterEvents W =
      (dir.accordInput wall family).prepareRosterEvents W
  holders : KeyVerifier.accordHolderRosterKeyIds.filterMap dir'.keyRecord =
    KeyVerifier.accordHolderRosterKeyIds.filterMap dir.keyRecord
  records : forall key, NamesKey chain key -> dir'.keyRecord key = dir.keyRecord key
  nodeBearing : forall key, NamesKey chain key -> dir'.nodeBearingOf key = dir.nodeBearingOf key
  conferrals : forall key at?, NamesKey chain key ->
    dir'.keepsConferral key at? = dir.keepsConferral key at?
  resigned : forall key after upTo,
    dir'.resignedWithin id key after upTo = dir.resignedWithin id key after upTo

variable {W} {dir dir' : LineageDirectory} {wall wall' : Instant} {id : String}
  {chain : List Version} {now t : Instant}

theorem effectiveAt_mem_familyEventInstants
    {family : FamilyRecord} {e : RosterEvent}
    (h : e ∈ (dir.accordInput wall family).prepareRosterEvents W) :
    e.effectiveAt ∈ dir.familyEventInstants := by
  rcases List.mem_map.mp h with ⟨ev, hev, rfl⟩
  rcases RosterInput.unreversedEvent_eq W (dir.accordInput wall family) ev with ⟨roots, heq⟩
  rw [heq]
  exact effectiveAt_mem_of_stored hev

section Alike

variable (h : ReadsAlike W dir dir' wall wall' id chain)

include h

theorem accordRosterAt_kept
    {family : FamilyRecord} (hfamily : dir.accordFamily = some family) (hle : now ≤ t)
    (hevents : forall b, b ∈ dir.familyEventInstants -> now < b -> t < b) :
    dir'.accordRosterAt W wall' family t = dir.accordRosterAt W wall family now := by
  have horder : rosterOrder ((dir.accordInput wall family).prepareRosterEvents W) t =
      rosterOrder ((dir.accordInput wall family).prepareRosterEvents W) now :=
    rosterOrder_congr fun e he =>
      le_iff_le_of_not_passed hle (hevents _ (effectiveAt_mem_familyEventInstants he))
  unfold accordRosterAt
  rw [h.events family hfamily]
  simp only [authorizedRosterAt, authorizedRosterStateAt, foldRoster, horder]

theorem accordHolderSeatedAt_kept
    (key : String) (hle : now ≤ t)
    (hevents : forall b, b ∈ dir.familyEventInstants -> now < b -> t < b) :
    dir'.accordHolderSeatedAt W wall' key t = dir.accordHolderSeatedAt W wall key now := by
  unfold accordHolderSeatedAt
  rw [h.family]
  cases hfamily : dir.accordFamily with
  | none => rfl
  | some family =>
      rw [Option.any_some, Option.any_some, accordRosterAt_kept h hfamily hle hevents]

theorem nodeBearingAt_kept
    (hkey : NamesKey chain key) (hle : now ≤ t)
    (hedges : forall e, e ∈ intervalEdges (dir.nodeBearingOf key).2 -> now < e -> t < e) :
    dir'.nodeBearingAt key t = dir.nodeBearingAt key now := by
  unfold nodeBearingAt
  rw [h.nodeBearing key hkey, any_holdsAt_eq_of_not_passed hle hedges]

theorem founderArmAt_kept
    {record : KeyRecord} (hkey : NamesKey chain record.keyId) (hle : now ≤ t)
    (hedges : forall e, e ∈ intervalEdges (dir.nodeBearingOf record.keyId).2 -> now < e -> t < e)
    (hevents : forall b, b ∈ dir.familyEventInstants -> now < b -> t < b) :
    dir'.founderArmAt W wall' record t = dir.founderArmAt W wall record now := by
  unfold founderArmAt
  rw [nodeBearingAt_kept h hkey hle hedges, accordHolderSeatedAt_kept h _ hle hevents]

theorem countsAt_kept
    {record : KeyRecord} (hkey : NamesKey chain key) (hrecord : record.keyId = key)
    (at? : Option Instant) (seatedSince : Instant) (hle : now ≤ t)
    (hedges : forall e, e ∈ intervalEdges (dir.nodeBearingOf record.keyId).2 -> now < e -> t < e)
    (hevents : forall b, b ∈ dir.familyEventInstants -> now < b -> t < b)
    (hresign : forall b, b ∈ dir.resignationsOf id key -> now < b -> t < b) :
    dir'.countsAt W wall' id key record at? seatedSince t =
      dir.countsAt W wall id key record at? seatedSince now := by
  have hconferred : dir'.isConferred record = dir.isConferred record := by
    unfold isConferred
    rw [h.holders]
  unfold countsAt
  rw [founderArmAt_kept h (hrecord ▸ hkey) hle hedges hevents, h.resigned,
    resignedWithin_eq_of_not_passed hle hresign, hconferred, h.conferrals key at? hkey]

variable {w : Judged.Window Instant}

theorem keeps_founderCounts
    (hkey : NamesKey chain key) (at? : Option Instant) (seatedSince : Instant) :
    Judged.Keeps w now (dir.founderCounts W wall id key at? seatedSince)
      (dir'.founderCounts W wall' id key at? seatedSince) := by
  unfold founderCounts
  rw [h.records key hkey]
  cases hrecord : dir.keyRecord key with
  | none => exact Judged.keeps_pure false
  | some record =>
      have hid := dir.keyed key record hrecord
      refine Judged.keeps_withNow_boundAll fun t hle hpassed => congrArg Except.ok ?_
      cases at? with
      | some asked =>
          -- a fixed instant is asked about: nothing can pass
          exact countsAt_kept h hkey hid _ _ (le_refl asked) (fun _ _ hlt => hlt)
            (fun _ _ hlt => hlt) (fun _ _ hlt => hlt)
      | none =>
          have hbounds : forall b, b ∈ dir.founderBounds id key record now -> now < b -> t < b :=
            hpassed
          unfold founderBounds at hbounds
          refine countsAt_kept h hkey hid _ _ hle ?_ ?_ ?_
          · exact not_passed_of_nextEdge fun b hb =>
              hbounds b (List.mem_append_left _ (List.mem_append_left _ hb))
          · exact fun b hb => hbounds b (List.mem_append_left _ (List.mem_append_right _ hb))
          · exact fun b hb => hbounds b (List.mem_append_right _ hb)

variable {v : Version}

theorem verifiesEnvelope_eq
    (hv : v ∈ chain) (envelope : Json) {scrub : ScrubSig} (hscrub : scrub ∈ communityScrubs v) :
    dir'.verifiesEnvelope envelope scrub = dir.verifiesEnvelope envelope scrub := by
  unfold verifiesEnvelope
  rw [h.records scrub.scrubKeyId ⟨v, hv, Or.inr ⟨scrub, hscrub, rfl⟩⟩]

variable [LineageCodec]

theorem versionAdmitted_eq
    (hv : v ∈ chain) :
    dir'.versionAdmitted v = dir.versionAdmitted v := by
  have hscrubs : (communityScrubs v).all
        (dir'.verifiesEnvelope (LineageCodec.signingEnvelope v.community)) =
      (communityScrubs v).all
        (dir.verifiesEnvelope (LineageCodec.signingEnvelope v.community)) := by
    rw [Bool.eq_iff_iff, List.all_eq_true, List.all_eq_true]
    refine forall_congr' fun s => forall_congr' fun hs => ?_
    rw [verifiesEnvelope_eq h hv _ hs]
  unfold versionAdmitted
  rw [hscrubs]

theorem keeps_accordQuorumMet
    (hv : v ∈ chain) :
    Judged.Keeps w now (dir.accordQuorumMet W wall v) (dir'.accordQuorumMet W wall' v) := by
  unfold accordQuorumMet
  rw [h.family]
  cases hfamily : dir.accordFamily with
  | none => exact Judged.keeps_pure false
  | some family =>
      refine Judged.keeps_withNow_boundAll fun t hle hpassed => congrArg Except.ok ?_
      unfold TrustRoot.familyQuorumHoldersOverRoster
      rw [accordRosterAt_kept h hfamily hle hpassed,
        countDistinctRosterScrubs_congr (d := dir.groupDirectory) fun s hs =>
          verifiesEnvelope_eq h hv _ hs]

theorem ReadsAlike.keeps :
    (dir.standingReads W wall).toChainReads.Keeps w now id chain
      (dir'.standingReads W wall').toChainReads where
  founderCounts v m at? since hv hm := keeps_founderCounts h ⟨v, hv, Or.inl ⟨m, hm, rfl⟩⟩ at? since
  accordQuorumMet _ hv := keeps_accordQuorumMet h hv
  keyRecord v m hv hm := h.records m.keyId ⟨v, hv, Or.inl ⟨m, hm, rfl⟩⟩
  verifiesSignature := rfl
  nodeBearingAt v m t hv hm :=
    nodeBearingAt_kept h ⟨v, hv, Or.inl ⟨m, hm, rfl⟩⟩ (le_refl t) fun _ _ hlt => hlt
  versionAdmitted _ hv := versionAdmitted_eq h hv

end Alike

end Agree

/-!
## Reversals
-/

/-- The signed stored rows of the accord's roster: only these can be objected to. -/
def objectedActions (dir : LineageDirectory) : List ReverseQuorum.ActionRef :=
  dir.storedFamilyEvents.filterMap fun ev =>
    ((rowSigner dir.accordSigners ev).bind RosterEventSigner.authorityKeyId).map fun actor =>
      RosterInput.objectedAction actor ev

theorem objectedAction_mem
    {dir : LineageDirectory} {ev : StoredRosterEvent} {actor : String}
    (hev : ev ∈ dir.storedFamilyEvents)
    (hactor : (rowSigner dir.accordSigners ev).bind RosterEventSigner.authorityKeyId = some actor) :
    RosterInput.objectedAction actor ev ∈ dir.objectedActions :=
  List.mem_filterMap.mpr ⟨ev, hev, by rw [hactor, Option.map_some]⟩

section Reversals

variable {W : Type} [RubricNum W] [External] [KeyVerifier]

theorem dutyHolders_accordInput
    (dir : LineageDirectory) (wall : Instant) (family : FamilyRecord) :
    (dir.accordInput wall family).dutyHolders W = none :=
  if_neg fun h => nomatch h.1

variable (W) in
/-- What the objections to an event of the accord are folded over. -/
def reversalInputs (dir : LineageDirectory) (wall : Instant) (family : FamilyRecord)
    (ev : StoredRosterEvent) (actor : String) : ReverseQuorum.ReverseQuorumInputs :=
  ReverseQuorum.resolvedInputs dir.groupDirectory .family family.familyKeyId
    ((dir.accordInput wall family).objectionRoster W)
    (ReverseQuorumPolicy.parse family.consensusProtocol) none
    (RosterInput.objectedAction actor ev) wall

/-- Where the signers are the same, an event is reversed alike once its objections are judged
alike; and they count only under a `reverse_quorum` policy and for signed rows. -/
theorem isReversed_congr
    {dir dir' : LineageDirectory} {wall wall' : Instant} {family : FamilyRecord}
    {ev : StoredRosterEvent} (hsigners : dir'.accordSigners = dir.accordSigners)
    (h : Text.startsWith ConsensusProtocol.reverseQuorumPrefix family.consensusProtocol = true ->
      forall policy actor, ReverseQuorumPolicy.parse family.consensusProtocol = some policy ->
        (rowSigner dir.accordSigners ev).bind RosterEventSigner.authorityKeyId = some actor ->
        rosterReversalStands ev.isAdd (dir'.reversalInputs W wall' family ev actor).foldOver =
          rosterReversalStands ev.isAdd (dir.reversalInputs W wall family ev actor).foldOver) :
    (dir'.accordInput wall' family).isReversed W ev =
      (dir.accordInput wall family).isReversed W ev := by
  unfold RosterInput.isReversed
  change (Text.startsWith _ family.consensusProtocol &&
      Option.any _ ((rowSigner dir'.accordSigners ev).bind _)) =
    (Text.startsWith _ family.consensusProtocol &&
      Option.any _ ((rowSigner dir.accordSigners ev).bind _))
  rw [hsigners]
  cases hreverse :
      Text.startsWith ConsensusProtocol.reverseQuorumPrefix family.consensusProtocol with
  | false => rfl
  | true =>
      refine congrArg (true && ·) ?_
      cases hactor :
          (rowSigner dir.accordSigners ev).bind RosterEventSigner.authorityKeyId with
      | none => rfl
      | some actor =>
          rw [Option.any_some, Option.any_some]
          unfold RosterInput.objectionFold ReverseQuorum.resolveReverseQuorumWith
          rw [dutyHolders_accordInput, dutyHolders_accordInput]
          change rosterReversalStands _ (dir'.reversalInputs W wall' family ev actor).foldOver =
            rosterReversalStands _ (dir.reversalInputs W wall family ev actor).foldOver
          cases hparse : ReverseQuorumPolicy.parse family.consensusProtocol with
          | some policy => exact h hreverse policy actor hparse hactor
          | none =>
              have hungoverned : forall (d : LineageDirectory) (now : Instant),
                  (d.reversalInputs W now family ev actor).policy = none := fun _ _ => hparse
              simp [rosterReversalStands, ReverseQuorum.ReverseQuorumInputs.foldOver, hungoverned]

end Reversals

/-!
## Witnesses
-/

section Witnesses

/-- Witnessed mode is off, or the answers about each cosigning witness and the persons of
the founders are the same. -/
def WitnessAnswersAlike (dir dir' : LineageDirectory) (wall wall' : Instant)
    (signed : SignedCommunity) : Prop :=
  dir.witnessQuorumFor signed.community.communityKeyId = 0 ∨
    (forall c, c ∈ dir.headCosigns signed.community.communityKeyId ->
      dir'.keyRecord c.witnessKeyId = dir.keyRecord c.witnessKeyId ∧
      dir'.revocationInstants c.witnessKeyId = dir.revocationInstants c.witnessKeyId ∧
      dir'.personOf wall' c.witnessKeyId = dir.personOf wall c.witnessKeyId) ∧
    forall v f, v ∈ chainOf signed -> f ∈ founders v.community ->
      dir'.personOf wall' f = dir.personOf wall f

variable [External] [LineageCodec] {dir dir' : LineageDirectory} {wall wall' : Instant}
  {signed : SignedCommunity}

theorem judgedVersion_eq_self_of_off
    (h : dir.witnessQuorumFor signed.community.communityKeyId = 0) (wall : Instant) :
    judgedVersion signed (dir.witnessedHeadOf wall (chainOf signed)) = signed := by
  refine judgedVersion_of_judged_none ?_
  unfold witnessedHeadOf
  rw [getLast?_chainOf]
  simp only [h, witnessedHead_judged_of_off]

theorem judgedVersion_eq_of_witnessAnswersAlike
    (hquorum : dir'.witnessQuorumFor signed.community.communityKeyId =
      dir.witnessQuorumFor signed.community.communityKeyId)
    (hcosigns : dir'.headCosigns signed.community.communityKeyId =
      dir.headCosigns signed.community.communityKeyId)
    (h : WitnessAnswersAlike dir dir' wall wall' signed) :
    judgedVersion signed (dir'.witnessedHeadOf wall' (chainOf signed)) =
      judgedVersion signed (dir.witnessedHeadOf wall (chainOf signed)) := by
  rcases h with hoff | ⟨hwitnesses, hfounders⟩
  · rw [judgedVersion_eq_self_of_off (hquorum.trans hoff), judgedVersion_eq_self_of_off hoff]
  · have hprincipals : ((chainOf signed).flatMap fun v => founders v.community).map
          (dir'.personOf wall') =
        ((chainOf signed).flatMap fun v => founders v.community).map (dir.personOf wall) := by
      refine List.map_congr_left fun f hf => ?_
      rcases List.mem_flatMap.mp hf with ⟨v, hv, hf⟩
      exact hfounders v f hv hf
    have heffective : forall known,
        dir'.effectiveCosigns wall' (dir.headCosigns signed.community.communityKeyId) known =
          dir.effectiveCosigns wall (dir.headCosigns signed.community.communityKeyId) known := by
      intro known
      refine List.filterMap_congr fun c hc => ?_
      rcases hwitnesses c hc with ⟨hrecord, hrevoked, hperson⟩
      unfold effectiveCosign witnessStandingAt
      rw [hrecord, hrevoked, hperson]
    unfold witnessedHeadOf
    rw [getLast?_chainOf]
    simp only [hquorum, hcosigns, hprincipals, heffective]

end Witnesses

/-!
## Verdicts
-/

/-- Two directories that a row's chain cannot tell apart give it the same verdict, while
the first one's is open, exactly when the row holds no version or the witnesses judge
the same one; and they do, whole, when the witnesses answer alike. -/
theorem ReadsAlike.exists_standings
    {W : Type} [RubricNum W] [External] [KeyVerifier] [LineageCodec]
    {dir dir' : LineageDirectory} {wall wall' now t : Instant} {signed : SignedCommunity}
    {w : Judged.Window Instant}
    (h : ReadsAlike W dir dir' wall wall' signed.community.communityKeyId (chainOf signed))
    (hquorum : dir'.witnessQuorumFor signed.community.communityKeyId =
      dir.witnessQuorumFor signed.community.communityKeyId)
    (hcosigns : dir'.headCosigns signed.community.communityKeyId =
      dir.headCosigns signed.community.communityKeyId)
    (hopen : w.Open now t ((dir.standingOf W wall signed).expiry now)) :
    exists standing standing',
      (dir.standingOf W wall signed).outcome now = .ok standing ∧
      (dir'.standingOf W wall' signed).outcome t = .ok standing' ∧
      (standing.SameVerdict standing' <->
        standing.held = none ∨
          judgedVersion signed (dir'.witnessedHeadOf wall' (chainOf signed)) =
            judgedVersion signed (dir.witnessedHeadOf wall (chainOf signed))) ∧
      (WitnessAnswersAlike dir dir' wall wall' signed -> standing' = standing) := by
  rcases exists_standingOf_eq_ok W dir wall signed now with ⟨standing, hnow⟩
  rcases exists_standingOf_eq_ok W dir' wall' signed t with ⟨standing', ht⟩
  have hkeeps : (dir.standingReads W wall).toChainReads.Keeps w now
      signed.community.communityKeyId (chainOf signed) (dir'.standingReads W wall').toChainReads :=
    h.keeps
  refine ⟨standing, standing', hnow, ht,
    sameVerdict_iff_judgedVersion_eq hkeeps hopen hnow ht, fun hwitnesses => ?_⟩
  have hjudged := judgedVersion_eq_of_witnessAnswersAlike hquorum hcosigns hwitnesses
  have hsame := keeps_computeStanding (W := W) hkeeps hjudged t hopen
  exact Except.ok.inj (ht.symm.trans (hsame.trans hnow))

end LineageDirectory

end CirisPersist.Federation
