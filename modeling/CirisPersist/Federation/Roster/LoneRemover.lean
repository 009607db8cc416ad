import CirisPersist.Federation.Roster.Safety
import CirisPersist.Federation.Roster.Prepare

/-!
# One member removing the others

Under `reverse_quorum` one member may remove another at once, and the members who
object inside the window undo it.  The objections are counted against the roster
with no reversals applied.  Whoever the same signer also removed is not on that
roster, and their objections are not heard.
-/

namespace CirisPersist.Federation

/-!
## The removals

A removal that only `x` signed, and a group whose stored rows are all such
removals, each with the objections its policy asks for.
-/

structure LoneRemoval (x : CommunityMember) (e : RosterEvent) : Prop where
  removes : e.isAdd = false
  signers : e.signers = {x.keyId}
  spares : e.member.keyId ≠ x.keyId
  unreversed : e.reversed = false

/-- The member holds an objection to the removal, dated inside its window. -/
def RosterInput.objectsTo [External] (inp : RosterInput) (policy : ReverseQuorumPolicy)
    (x : CommunityMember) (ev : StoredRosterEvent) (m : CommunityMember) : Bool :=
  ReverseQuorum.objectsInWindow inp.dir policy (RosterInput.objectedAction x.keyId ev) m.keyId

structure LoneRemover [External] (inp : RosterInput) (policy : ReverseQuorumPolicy)
    (x : CommunityMember) : Prop where
  parsed : inp.policy = some policy
  noSteward : policy.steward = none
  distinctRecord : (inp.record.map CommunityMember.keyId).Nodup
  founded : exists m, m ∈ inp.record ∧ m.role = some memberRoleFounder
  onRecord : x ∈ inp.record
  noDismissals : forall r, r ∈ inp.dir.store.rows ->
    r.dimension ≠ some ReverseQuorum.dimensionDismissal
  removes : forall ev, ev ∈ inp.stored -> ev.isAdd = false
  spares : forall ev, ev ∈ inp.stored -> ev.member.keyId ≠ x.keyId
  distinctRemoved : (inp.stored.map fun ev => ev.member.keyId).Nodup
  due : forall ev, ev ∈ inp.stored -> ev.effectiveAt ≤ inp.now
  signed : forall ev, ev ∈ inp.stored -> exists s, rowSigner inp.signers ev = some s ∧
    s.authorityKeyId = some x.keyId ∧ forall k, k ∈ s.cosignerKeyIds -> k = x.keyId
  objected : forall ev, ev ∈ inp.stored ->
    policy.m ≤ inp.record.countP fun m => m.keyId != x.keyId && inp.objectsTo policy x ev m

/-!
## Replaying them with no objection heard

Each removal takes the member it names off the list, unless the signer has no
standing at its instant or it would take the last founder.
-/

def seatedFounders (rules : RosterRules) (ms : List CommunityMember) (t : Instant) :
    List CommunityMember :=
  ms.filter fun m => m.isFounder && !rules.nodeBearing.bearsAt m.keyId t

def takesLastFounder (rules : RosterRules) (ms : List CommunityMember) (e : RosterEvent) :
    Bool :=
  let founders := seatedFounders rules ms e.effectiveAt
  founders.any (fun f => f.keyId == e.member.keyId) &&
    founders.all fun f => f.keyId == e.member.keyId

/-- The signer's seat counts at the event's instant, or a founder appointed
them. -/
def actsAlone (rules : RosterRules) (x : CommunityMember) (e : RosterEvent) : Bool :=
  rules.subkind != some cohortSubkindInfrastructure ||
    (x.isFounder && !rules.nodeBearing.bearsAt x.keyId e.effectiveAt) ||
    decide (e.moderatorRoots ≠ ∅)

def unheardStep (rules : RosterRules) (x : CommunityMember) (ms : List CommunityMember)
    (e : RosterEvent) : List CommunityMember :=
  if actsAlone rules x e && !takesLastFounder rules ms e then
    ms.filter fun m => m.keyId != e.member.keyId
  else
    ms

def RosterInput.leftSeated (W : Type) [RubricNum W] [External] (inp : RosterInput)
    (x : CommunityMember) : List CommunityMember :=
  (rosterOrder (inp.unreversedEvents W) inp.now).foldl (unheardStep inp.rules x) inp.record

/-!
## One removal
-/

variable {ms : List CommunityMember} {s : RosterState}

theorem isActiveFounder_iff
    (hs : ActiveIsRecord ms s) (rules : RosterRules) (t : Instant) (k : String) :
    isActiveFounder rules s t k = true <->
      exists f, f ∈ seatedFounders rules ms t ∧ f.keyId = k := by
  simp only [isActiveFounder, seatedFounders, Bool.and_eq_true, Option.any_eq_true, List.mem_filter]
  constructor
  · rintro ⟨⟨f, hf, hfounder⟩, hnode⟩
    have hmem := (hs k f).mp hf
    exact ⟨f, ⟨hmem.1, hfounder, by rw [hmem.2]; exact hnode⟩, hmem.2⟩
  · rintro ⟨f, ⟨hmem, hfounder, hnode⟩, rfl⟩
    exact ⟨⟨f, (hs f.keyId f).mpr ⟨hmem, rfl⟩, hfounder⟩, hnode⟩

theorem takesLastFounder_eq_false_iff
    (rules : RosterRules) (ms : List CommunityMember) (e : RosterEvent) :
    takesLastFounder rules ms e = false <->
      ((exists f, f ∈ seatedFounders rules ms e.effectiveAt ∧ f.keyId = e.member.keyId) ->
        exists f, f ∈ seatedFounders rules ms e.effectiveAt ∧ f.keyId ≠ e.member.keyId) := by
  rw [← Bool.not_eq_true]
  simp only [takesLastFounder, Bool.and_eq_true, List.any_eq_true, List.all_eq_true,
    beq_iff_eq, not_and, not_forall, exists_prop, ne_eq]

variable {e : RosterEvent}

theorem lastFounder_rule_iff
    (hs : ActiveIsRecord ms s) {x : CommunityMember} (hx : x ∈ ms) (rules : RosterRules)
    (he : LoneRemoval x e) :
    (losesFounder rules s e = true -> othersAfter s e ≠ [] ->
        foundersAfter rules s e ≠ []) <->
      takesLastFounder rules ms e = false := by
  have hloses : losesFounder rules s e = true <->
      exists f, f ∈ seatedFounders rules ms e.effectiveAt ∧ f.keyId = e.member.keyId := by
    rw [← isActiveFounder_iff hs]
    simp [losesFounder, he.removes]
  have hothers : othersAfter s e ≠ [] := by
    have hmem : x ∈ othersAfter s e :=
      (mem_othersAfter_iff s e x).mpr ⟨(hs x.keyId x).mpr ⟨hx, rfl⟩, Ne.symm he.spares⟩
    exact List.ne_nil_of_mem hmem
  have hfounders : foundersAfter rules s e ≠ [] <->
      exists f, f ∈ seatedFounders rules ms e.effectiveAt ∧ f.keyId ≠ e.member.keyId := by
    constructor
    · intro hne
      rcases List.exists_mem_of_ne_nil _ hne with ⟨m, hm⟩
      rw [foundersAfter, List.mem_filter, mem_othersAfter_iff, isActiveFounder_iff hs] at hm
      rcases hm with ⟨⟨-, hkey⟩, f, hf, hfm⟩
      exact ⟨f, hf, by rw [hfm]; exact hkey⟩
    · rintro ⟨f, hf, hkey⟩
      have hmem : f ∈ ms := (List.mem_filter.mp hf).1
      refine List.ne_nil_of_mem (a := f) (List.mem_filter.mpr ⟨?_, ?_⟩)
      · exact (mem_othersAfter_iff s e f).mpr ⟨(hs f.keyId f).mpr ⟨hmem, rfl⟩, hkey⟩
      · exact (isActiveFounder_iff hs rules e.effectiveAt f.keyId).mpr ⟨f, hf, rfl⟩
  rw [takesLastFounder_eq_false_iff, hloses, hfounders]
  simp only [hothers, ne_eq, not_false_eq_true, true_implies]

theorem mem_unheardStep
    (rules : RosterRules) {x : CommunityMember} (hx : x ∈ ms) (he : LoneRemoval x e) :
    x ∈ unheardStep rules x ms e := by
  unfold unheardStep
  split
  · exact List.mem_filter.mpr ⟨hx, by simpa using Ne.symm he.spares⟩
  · exact hx

theorem unheardStep_sublist
    (rules : RosterRules) (x : CommunityMember) (ms : List CommunityMember) (e : RosterEvent) :
    (unheardStep rules x ms e).Sublist ms := by
  unfold unheardStep
  split
  · exact List.filter_sublist
  · exact List.Sublist.refl ms

section Replay

variable {W : Type} [RubricNum W] [External] {rules : RosterRules}

section LoneEvent

variable {policy : ReverseQuorumPolicy}
  (hpolicy : ReverseQuorumPolicy.parse rules.protocol = some policy) (hs : ActiveIsRecord ms s)
  {x : CommunityMember} (hx : x ∈ ms) (he : LoneRemoval x e)

include hpolicy hs hx he

theorem standing_of_lone_signer_iff :
    (standingWithoutProtocol rules e = true ∨
        evaluate W (eventBallot rules s e) = .admitted) <->
      actsAlone rules x e = true := by
  have hopen : rules.protocol ≠ ConsensusProtocol.openSelfAdmit := by
    intro heq
    have hstarts := ReverseQuorumPolicy.startsWith_of_parse hpolicy
    rw [heq] at hstarts
    exact absurd hstarts (by decide)
  have hwithout : standingWithoutProtocol rules e = true <-> e.moderatorRoots ≠ ∅ := by
    simp [standingWithoutProtocol, moderatorMayAct, he.removes, he.signers, he.spares, hopen]
  have hactive : s.active? x.keyId = some x := (hs x.keyId x).mpr ⟨hx, rfl⟩
  have hprotocol : evaluate W (eventBallot rules s e) = .admitted <->
      (rules.subkind = some cohortSubkindInfrastructure ->
        x.role = some memberRoleFounder ∧
          rules.nodeBearing.bearsAt x.keyId e.effectiveAt = false) := by
    rw [evaluate_reverseQuorum_removal_iff W (b := eventBallot rules s e) hpolicy
      (by simp [eventBallot, he.removes])]
    constructor
    · rintro ⟨seat, ⟨hseat, helig⟩, hsigner⟩ hinfra
      have hkey : seat.keyId = x.keyId := by
        simpa [eventBallot, he.signers] using hsigner
      rcases (mem_activeSeats_iff rules s e.effectiveAt seat).mp hseat with
        ⟨m, hm, hrole, hnode⟩
      rw [hkey, hactive] at hm
      cases hm
      rw [← hrole, ← hkey, ← hnode]
      exact helig hinfra
    · intro helig
      refine ⟨⟨x.keyId, x.role, rules.nodeBearing.bearsAt x.keyId e.effectiveAt⟩,
        ⟨(mem_activeSeats_iff rules s e.effectiveAt _).mpr ⟨x, hactive, rfl, rfl⟩, helig⟩, ?_⟩
      simp [eventBallot, he.signers]
  rw [hwithout, hprotocol]
  by_cases hinfra : rules.subkind = some cohortSubkindInfrastructure
  · simp [actsAlone, hinfra, CommunityMember.isFounder, or_comm]
  · simp [actsAlone, hinfra]

theorem activeIsRecord_unheardStep :
    ActiveIsRecord (unheardStep rules x ms e) (rosterStep W rules s e) := by
  have happlies : eventApplies W rules s e = true <->
      actsAlone rules x e = true ∧ takesLastFounder rules ms e = false := by
    rw [← standing_of_lone_signer_iff (W := W) hpolicy hs hx he,
      ← lastFounder_rule_iff hs hx rules he, ← rosterEventStanding_isOk_iff]
    simp [eventApplies, he.unreversed]
  unfold rosterStep unheardStep
  by_cases h : eventApplies W rules s e = true
  · have hboth := happlies.mp h
    rw [if_pos h, if_pos (by simp [hboth]), he.removes]
    exact activeIsRecord_remove hs e.member
  · have hnot : (actsAlone rules x e && !takesLastFounder rules ms e) ≠ true := by
      intro hboth
      exact h (happlies.mpr (by simpa using hboth))
    rw [if_neg h, if_neg hnot]
    exact hs

end LoneEvent

/-!
## All of them

The replay of the removals, and the objectors counted against what it leaves.
-/

namespace LoneRemover

variable {inp : RosterInput} {policy : ReverseQuorumPolicy} {x : CommunityMember}

section Lone

variable (h : LoneRemover inp policy x)

include h

theorem loneRemoval
    (he : e ∈ inp.unreversedEvents W) :
    LoneRemoval x e := by
  rcases List.mem_map.mp he with ⟨ev, hev, rfl⟩
  rcases inp.unreversedEvent_eq W ev with ⟨roots, heq⟩
  rcases h.signed ev hev with ⟨s, hs, hauthority, hcosigners⟩
  rw [heq]
  refine ⟨h.removes ev hev, ?_, h.spares ev hev, rfl⟩
  show ((rowSigner inp.signers ev).map signerSet).getD ∅ = {x.keyId}
  rw [hs]
  ext k
  simp only [Option.map_some, Option.getD_some, signerSet, hauthority, Option.toList_some,
    List.mem_toFinset, List.cons_append, List.nil_append, List.mem_cons, Finset.mem_singleton]
  exact ⟨fun hk => hk.elim id (hcosigners k), Or.inl⟩

theorem leftSeated_spec :
    ActiveIsRecord (inp.leftSeated W x) (inp.unreversedState W) ∧
      x ∈ inp.leftSeated W x ∧ (inp.leftSeated W x).Sublist inp.record := by
  rw [RosterInput.unreversedState, authorizedRosterStateAt_eq_replay]
  refine List.foldl_rel
    (r := fun s ms => ActiveIsRecord ms s ∧ x ∈ ms ∧ ms.Sublist inp.record)
    ⟨activeIsRecord_ofRecord h.distinctRecord, h.onRecord, List.Sublist.refl _⟩ ?_
  rintro e he s ms ⟨hs, hx, hsub⟩
  have hlone := h.loneRemoval ((mem_rosterOrder_iff _ _ e).mp he).1
  exact ⟨activeIsRecord_unheardStep h.parsed hs hx hlone, mem_unheardStep inp.rules hx hlone,
    (unheardStep_sublist inp.rules x ms e).trans hsub⟩

theorem nodup_leftSeated :
    ((inp.leftSeated W x).map CommunityMember.keyId).Nodup :=
  h.distinctRecord.sublist (h.leftSeated_spec.2.2.map CommunityMember.keyId)

theorem objectionRoster_perm :
    (inp.objectionRoster W).Perm ((inp.leftSeated W x).map CommunityMember.keyId) := by
  refine (List.perm_ext_iff_of_nodup (RosterState.nodup_keyId_activeMembers _)
    h.nodup_leftSeated).mpr ?_
  intro k
  simp only [List.mem_map, RosterState.mem_activeMembers_iff]
  constructor
  · rintro ⟨m, hm, rfl⟩
    exact ⟨m, ((h.leftSeated_spec.1 m.keyId m).mp hm).1, rfl⟩
  · rintro ⟨m, hm, rfl⟩
    exact ⟨m, (h.leftSeated_spec.1 m.keyId m).mpr ⟨hm, rfl⟩, rfl⟩

theorem card_objectors
    (ev : StoredRosterEvent) :
    ((inp.objectionRoster W).toFinset.filter fun k =>
        ReverseQuorum.objectsInWindow inp.dir policy
          (RosterInput.objectedAction x.keyId ev) k = true).card =
      (inp.leftSeated W x).countP (inp.objectsTo policy x ev) := by
  have hobjecting := h.nodup_leftSeated (W := W) |>.sublist
    ((List.filter_sublist (p := inp.objectsTo policy x ev)).map CommunityMember.keyId)
  rw [List.toFinset_eq_of_perm _ _ h.objectionRoster_perm, List.countP_eq_length_filter,
    ← List.length_map CommunityMember.keyId, ← List.toFinset_card_of_nodup hobjecting]
  congr 1
  ext k
  simp only [Finset.mem_filter, List.mem_toFinset, List.mem_map, List.mem_filter,
    RosterInput.objectsTo]
  constructor
  · rintro ⟨⟨m, hm, rfl⟩, hobjects⟩
    exact ⟨m, ⟨hm, hobjects⟩, rfl⟩
  · rintro ⟨m, ⟨hm, hobjects⟩, rfl⟩
    exact ⟨⟨m, hm, rfl⟩, hobjects⟩

theorem isReversed_iff
    {ev : StoredRosterEvent} (hev : ev ∈ inp.stored) :
    inp.isReversed W ev = true <->
      min policy.m (inp.leftSeated W x).length ≤
        (inp.leftSeated W x).countP (inp.objectsTo policy x ev) := by
  rcases h.signed ev hev with ⟨s, hs, hauthority, -⟩
  have hreversed : inp.isReversed W ev = true <->
      (inp.objectionFold W x.keyId ev).standing = .reversed := by
    simp [RosterInput.isReversed, ReverseQuorumPolicy.startsWith_of_parse h.parsed, hs,
      hauthority, rosterReversalStands, h.removes ev hev]
  have hsize : max (inp.objectionRoster W).length 1 = (inp.leftSeated W x).length := by
    rw [h.objectionRoster_perm.length_eq, List.length_map]
    exact max_eq_left (List.length_pos_of_mem h.leftSeated_spec.2.1)
  rw [hreversed, RosterInput.objectionFold, h.parsed,
    ReverseQuorum.resolve_reversed_iff h.noSteward h.noDismissals, h.card_objectors,
    ReverseQuorumPolicy.reversalThreshold, hsize]

theorem authorizedRosterAt_of_reversed
    {events : List RosterEvent} (hreversed : forall e, e ∈ events -> e.reversed = true) :
    authorizedRosterAt W inp.record inp.rules events inp.now = inp.record := by
  apply authorizedRosterAt_of_activeIsRecord
  rw [authorizedRosterStateAt_eq_replay]
  apply List.foldlRecOn _ _ (activeIsRecord_ofRecord h.distinctRecord)
  intro s hs e he
  have hinert : eventApplies W inp.rules s e = false := by
    simp [eventApplies, hreversed e ((mem_rosterOrder_iff events inp.now e).mp he).1]
  rw [rosterStep, hinert]
  exact hs

end Lone

end LoneRemover

variable (W)

theorem lone_remover_undone_iff
    (inp : RosterInput) (policy : ReverseQuorumPolicy) (x : CommunityMember)
    (h : LoneRemover inp policy x) :
    ((forall e, e ∈ inp.prepareRosterEvents W -> e.reversed = true) ∧
      (forall m, m ∈ inp.record ->
        m ∈ authorizedRosterAt W inp.record inp.rules (inp.prepareRosterEvents W) inp.now)) <->
    forall ev, ev ∈ inp.stored ->
      min policy.m (inp.leftSeated W x).length ≤
        (inp.leftSeated W x).countP (inp.objectsTo policy x ev) := by
  constructor
  · rintro ⟨hreversed, -⟩ ev hev
    exact (h.isReversed_iff hev).mp (hreversed _ (List.mem_map_of_mem hev))
  · intro hcount
    have hreversed : forall e, e ∈ inp.prepareRosterEvents W -> e.reversed = true := by
      intro e he
      rcases List.mem_map.mp he with ⟨ev, hev, rfl⟩
      exact (h.isReversed_iff hev).mpr (hcount ev hev)
    refine ⟨hreversed, ?_⟩
    rw [h.authorizedRosterAt_of_reversed hreversed]
    exact fun m hm => hm

end Replay

section Samples

open Reference

def objectionRow (id objector actor actionId : String) (seconds : Int) : Attestation :=
  .ofAuthor id objector actor .scores (Instant.ofSeconds seconds)
    [("dimension", .str ReverseQuorum.dimensionObjection),
      (ReverseQuorum.Field.objectsTo, .str actionId)]

def removalRow (member : String) (seconds : Int) (rowHash : String) : StoredRosterEvent where
  isAdd := false
  member := ⟨member, 0, none⟩
  effectiveAt := Instant.ofSeconds seconds
  rowHash := rowHash

def soleSigner (member : String) (seconds : Int) (signer : String) : RosterEventSigner where
  memberKeyId := member
  effectiveAt := Instant.ofSeconds seconds
  authorityKeyId := some signer
  cosignerKeyIds := []

def ada : CommunityMember :=
  ⟨"ada", 0, some memberRoleFounder⟩

def twoOfThree : ReverseQuorumPolicy where
  m := 2
  n := 3
  windowSecs := 3600
  steward := none

def room (store : AttestationStore) (others : List String) (stored : List StoredRosterEvent)
    (revocationSigners : List RosterEventSigner) : RosterInput where
  dir :=
    { store := store
      isStewardBound := fun _ => true
      affiliationRoleTermAt := fun _ _ => none
      appointedModeratorsOf := fun _ _ => []
      verifiesEnvelope := fun _ _ => true }
  cohort := .community
  groupKeyId := "room"
  record := ada :: others.map fun k => ⟨k, 0, none⟩
  rules :=
    { protocol := "reverse_quorum:2/3:3600"
      subkind := none
      policyBlob := none
      nodeBearing := NodeBearingSeats.none }
  stored := stored
  signers := { wideningSigners := [], revocationSigners := revocationSigners }
  moderationRoots := some {"ada"}
  now := Instant.ofSeconds 100

/-- A founder removes two of the three others.  Each removal has an objection by
the member who is left and one by the other member removed. -/
def thinnedRoom : RosterInput :=
  room ⟨[objectionRow "o1" "cal" "ada" "r1" 30, objectionRow "o2" "dan" "ada" "r1" 31,
      objectionRow "o3" "bob" "ada" "r2" 32, objectionRow "o4" "dan" "ada" "r2" 33], by decide⟩
    ["bob", "cal", "dan"]
    [removalRow "bob" 10 "r1", removalRow "cal" 20 "r2"]
    [soleSigner "bob" 10 "ada", soleSigner "cal" 20 "ada"]

theorem thinnedRoom_objections_unheard :
    LoneRemover thinnedRoom twoOfThree ada ∧
      (thinnedRoom.prepareRosterEvents Rat).map RosterEvent.reversed = [false, false] ∧
      authorizedRosterAt Rat thinnedRoom.record thinnedRoom.rules
        (thinnedRoom.prepareRosterEvents Rat) thinnedRoom.now = [ada, ⟨"dan", 0, none⟩] := by
  refine ⟨⟨by decide, rfl, by decide, ⟨ada, by decide, rfl⟩, by decide, by decide, by decide,
    by decide, by decide, by decide, ?_, by decide⟩, by decide, by decide⟩
  exact List.forall_mem_cons.mpr ⟨⟨soleSigner "bob" 10 "ada", rfl, rfl, by decide⟩,
    List.forall_mem_cons.mpr ⟨⟨soleSigner "cal" 20 "ada", rfl, rfl, by decide⟩, by decide⟩⟩

/-- The founder removes one member, and the two who are left besides them object. -/
def contestedRoom : RosterInput :=
  room ⟨[objectionRow "o1" "bob" "ada" "r1" 30, objectionRow "o2" "cal" "ada" "r1" 31],
      by decide⟩
    ["bob", "cal", "dan"] [removalRow "dan" 10 "r1"] [soleSigner "dan" 10 "ada"]

theorem contestedRoom_undone :
    (contestedRoom.prepareRosterEvents Rat).map RosterEvent.reversed = [true] ∧
      forall m, m ∈ contestedRoom.record ->
        m ∈ authorizedRosterAt Rat contestedRoom.record contestedRoom.rules
          (contestedRoom.prepareRosterEvents Rat) contestedRoom.now := by
  have hlone : LoneRemover contestedRoom twoOfThree ada := by
    refine ⟨by decide, rfl, by decide, ⟨ada, by decide, rfl⟩, by decide, by decide, by decide,
      by decide, by decide, by decide, ?_, by decide⟩
    exact List.forall_mem_cons.mpr ⟨⟨soleSigner "dan" 10 "ada", rfl, rfl, by decide⟩,
      by decide⟩
  have hundone := (lone_remover_undone_iff Rat contestedRoom twoOfThree ada hlone).mpr
    (by decide)
  exact ⟨by decide, hundone.2⟩

end Samples

end CirisPersist.Federation
