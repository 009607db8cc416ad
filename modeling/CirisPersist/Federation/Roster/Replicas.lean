import CirisPersist.Federation.Roster.Prepare
import CirisPersist.Library.Sorting
import Mathlib.Data.Prod.Lex

/-!
# Replicas of a roster

A node stores the widenings and revocations of a community that its doors admit.
Each table keeps the first row for a member and an instant.  The door judges a row
against the roster without the row that holds its place, so that a repeated row is
admitted again; a different row for the same place is admitted as well, and then
ignored.

Nodes that hold the same rows replay the same roster, whatever order they read them
in.  They hold the same rows in every order of arrival exactly when no two rows of
one kind are for the same member and instant.
-/

namespace CirisPersist.Federation

/-!
## The replay does not see the order of the rows
-/

section Order

def eventKey (e : RosterEvent) : Instant ×ₗ (Bool ×ₗ String) :=
  toLex (e.effectiveAt, toLex (!e.isAdd, e.member.keyId))

theorem rosterEventBefore_iff
    (a b : RosterEvent) :
    rosterEventBefore a b <-> eventKey a ≤ eventKey b := by
  unfold rosterEventBefore eventKey
  rw [Prod.Lex.toLex_le_toLex, Prod.Lex.toLex_le_toLex]
  cases a.isAdd <;> cases b.isAdd <;> simp

def DistinctEvents (events : List RosterEvent) : Prop :=
  (events.map eventKey).Nodup

variable {events events' : List RosterEvent}

theorem sortRosterEvents_eq_of_perm
    (hdistinct : DistinctEvents events) (hperm : events'.Perm events) :
    sortRosterEvents events' = sortRosterEvents events :=
  Sorting.insertionSort_eq_of_perm rosterEventBefore_iff
    (fun _ ha _ hb => List.inj_on_of_nodup_map hdistinct ha hb) hperm

theorem DistinctEvents.of_map
    {f : RosterEvent -> RosterEvent} (hdistinct : DistinctEvents events)
    (hkey : forall e, eventKey (f e) = eventKey e) :
    DistinctEvents (events.map f) := by
  unfold DistinctEvents
  rw [List.map_map]
  exact (congrArg List.Nodup (List.map_congr_left fun e _ => hkey e)).mpr hdistinct

variable (W : Type) [RubricNum W] [External]

theorem authorizedRosterStateAt_eq_of_perm
    (record : List CommunityMember) (rules : RosterRules) (hdistinct : DistinctEvents events)
    (hperm : events'.Perm events) (asOf : Instant) :
    authorizedRosterStateAt W record rules events' asOf =
      authorizedRosterStateAt W record rules events asOf := by
  have horder : rosterOrder events' asOf = rosterOrder events asOf := by
    refine sortRosterEvents_eq_of_perm ?_ (hperm.filter _)
    exact hdistinct.sublist (List.filter_sublist.map _)
  simp only [authorizedRosterStateAt, foldRoster, horder]

theorem rootAuthorityIntervals_eq_of_perm
    (record : List CommunityMember) (rules : RosterRules) (hdistinct : DistinctEvents events)
    (hperm : events'.Perm events) (root : String) :
    rootAuthorityIntervals W record rules events' root =
      rootAuthorityIntervals W record rules events root := by
  have hordered :
      sortRosterEvents (events'.map fun e => { e with moderatorRoots := ∅ }) =
        sortRosterEvents (events.map fun e => { e with moderatorRoots := ∅ }) :=
    sortRosterEvents_eq_of_perm (hdistinct.of_map fun _ => rfl) (hperm.map _)
  simp only [rootAuthorityIntervals, hordered]

structure SameRows (inp inp' : RosterInput) : Prop where
  dir : inp'.dir = inp.dir
  cohort : inp'.cohort = inp.cohort
  groupKeyId : inp'.groupKeyId = inp.groupKeyId
  record : inp'.record = inp.record
  rules : inp'.rules = inp.rules
  moderationRoots : inp'.moderationRoots = inp.moderationRoots
  now : inp'.now = inp.now
  stored : inp'.stored.Perm inp.stored
  signers : forall ev, rowSigner inp'.signers ev = rowSigner inp.signers ev
  distinct : DistinctEvents (inp.stored.map (signedEvent inp.signers))

namespace SameRows

variable {W} {inp inp' : RosterInput} (h : SameRows inp inp')

include h

theorem unreversedEvent_eq
    (ev : StoredRosterEvent) :
    inp'.unreversedEvent W ev = inp.unreversedEvent W ev := by
  have hsigned : signedEvent inp'.signers = signedEvent inp.signers := by
    funext ev
    simp only [signedEvent, h.signers]
  have hintervals : rootAuthorityIntervals W inp.record inp.rules
        (inp'.stored.map (signedEvent inp.signers)) =
      rootAuthorityIntervals W inp.record inp.rules (inp.stored.map (signedEvent inp.signers)) :=
    funext (rootAuthorityIntervals_eq_of_perm W inp.record inp.rules h.distinct (h.stored.map _))
  simp only [RosterInput.unreversedEvent, h.moderationRoots, h.record, h.rules, h.dir,
    h.groupKeyId, hsigned, hintervals]

theorem distinct_unreversed :
    DistinctEvents (inp.unreversedEvents W) := by
  have hkeys : forall ev, eventKey (inp.unreversedEvent W ev) =
      eventKey (signedEvent inp.signers ev) := by
    intro ev
    rcases inp.unreversedEvent_eq W ev with ⟨roots, hroots⟩
    rw [hroots]
    rfl
  have hdistinct := h.distinct
  unfold DistinctEvents RosterInput.unreversedEvents at *
  rw [List.map_map] at hdistinct ⊢
  exact (congrArg List.Nodup (List.map_congr_left fun ev _ => hkeys ev)).mpr hdistinct

theorem unreversedState_eq :
    inp'.unreversedState W = inp.unreversedState W := by
  have hperm : (inp'.unreversedEvents W).Perm (inp.unreversedEvents W) := by
    unfold RosterInput.unreversedEvents
    rw [funext h.unreversedEvent_eq]
    exact h.stored.map _
  simp only [RosterInput.unreversedState, h.record, h.rules, h.now,
    authorizedRosterStateAt_eq_of_perm W inp.record inp.rules h.distinct_unreversed hperm]

theorem isReversed_eq
    (ev : StoredRosterEvent) :
    inp'.isReversed W ev = inp.isReversed W ev := by
  have hpolicy : inp'.policy = inp.policy := by
    simp only [RosterInput.policy, h.rules]
  have hholders : inp'.dutyHolders W = inp.dutyHolders W := by
    simp only [RosterInput.dutyHolders, h.moderationRoots, hpolicy, h.unreversedState_eq,
      h.rules, h.now, h.dir, h.groupKeyId]
  have hroster : inp'.objectionRoster W = inp.objectionRoster W := by
    simp only [RosterInput.objectionRoster, h.unreversedState_eq]
  simp only [RosterInput.isReversed, RosterInput.objectionFold, h.rules, h.signers, h.dir,
    h.cohort, h.groupKeyId, h.now, hpolicy, hholders, hroster]

theorem prepared_perm :
    (inp'.prepareRosterEvents W).Perm (inp.prepareRosterEvents W) := by
  simp only [RosterInput.prepareRosterEvents, h.unreversedEvent_eq, h.isReversed_eq]
  exact h.stored.map _

theorem distinct_prepared :
    DistinctEvents (inp.prepareRosterEvents W) := by
  have hdistinct : DistinctEvents (inp.unreversedEvents W) := h.distinct_unreversed
  unfold DistinctEvents RosterInput.unreversedEvents RosterInput.prepareRosterEvents at *
  rw [List.map_map] at hdistinct ⊢
  exact hdistinct

theorem rosterState_eq
    (asOf : Instant) :
    authorizedRosterStateAt W inp'.record inp'.rules (inp'.prepareRosterEvents W) asOf =
      authorizedRosterStateAt W inp.record inp.rules (inp.prepareRosterEvents W) asOf := by
  rw [h.record, h.rules]
  exact authorizedRosterStateAt_eq_of_perm W inp.record inp.rules h.distinct_prepared
    h.prepared_perm asOf

end SameRows

end Order

/-!
## The tables of a community
-/

/-- A signed widening or revocation.  A revocation has no `joined_at` and no role. -/
structure RosterRow where
  isAdd : Bool
  memberKeyId : String
  joinedAt : Instant
  role : Option String
  effectiveAt : Instant
  rowHash : String
  authorityKeyId : String
  cosignerKeyIds : List String
deriving DecidableEq

namespace RosterRow

def place (r : RosterRow) : Bool × String × Instant :=
  (r.isAdd, r.memberKeyId, r.effectiveAt)

def member (r : RosterRow) : CommunityMember :=
  if r.isAdd then
    { keyId := r.memberKeyId, joinedAt := r.joinedAt, role := r.role }
  else
    { keyId := r.memberKeyId, joinedAt := r.effectiveAt, role := none }

def storedEvent (r : RosterRow) : StoredRosterEvent where
  isAdd := r.isAdd
  member := r.member
  effectiveAt := r.effectiveAt
  rowHash := r.rowHash

def signer (r : RosterRow) : RosterEventSigner where
  memberKeyId := r.memberKeyId
  effectiveAt := r.effectiveAt
  authorityKeyId := some r.authorityKeyId
  cosignerKeyIds := r.cosignerKeyIds

def signerSet (r : RosterRow) : Finset String :=
  (r.authorityKeyId :: r.cosignerKeyIds).toFinset

def seatsFounder (r : RosterRow) : Bool :=
  r.isAdd && r.role == some memberRoleFounder

end RosterRow

/-- A community record and what a node's directory answers about it besides the two
roster tables.  The seats that bear `node` are looked up for the keys that are ever
members. -/
structure Room where
  dir : GroupDirectory
  communityKeyId : String
  record : List CommunityMember
  protocol : String
  subkind : Option String
  policyBlob : Option Json
  nodeBearingOf : Finset String -> NodeBearingSeats
  now : Instant

namespace Room

variable (room : Room) (held : List RosterRow)

def founderCandidates : Finset String :=
  ((room.record.filter CommunityMember.isFounder).map CommunityMember.keyId ++
    (held.filter RosterRow.seatsFounder).map RosterRow.memberKeyId).toFinset

def seatKeys : Finset String :=
  (room.record.map CommunityMember.keyId ++
    (held.filter RosterRow.isAdd).map RosterRow.memberKeyId).toFinset

def rules : RosterRules where
  protocol := room.protocol
  subkind := room.subkind
  policyBlob := room.policyBlob
  nodeBearing := room.nodeBearingOf (room.seatKeys held)

/-- `ORDER BY member_key_id, effective_at`. -/
def widenings : List RosterRow :=
  (held.filter RosterRow.isAdd).insertionSort fun a b =>
    toLex (a.memberKeyId, a.effectiveAt) ≤ toLex (b.memberKeyId, b.effectiveAt)

/-- `ORDER BY removed_identity_key_id`: rows of one member in the order they arrived. -/
def revocations : List RosterRow :=
  (held.filter fun r => !r.isAdd).insertionSort fun a b => a.memberKeyId ≤ b.memberKeyId

def rosterSigners : CommunityRosterSigners where
  wideningSigners := (held.filter RosterRow.isAdd).map RosterRow.signer
  revocationSigners := (held.filter fun r => !r.isAdd).map RosterRow.signer

def input : RosterInput where
  dir := room.dir
  cohort := .community
  groupKeyId := room.communityKeyId
  record := room.record
  rules := room.rules held
  stored := (widenings held ++ revocations held).map RosterRow.storedEvent
  signers := rosterSigners held
  moderationRoots := some (room.founderCandidates held)
  now := room.now

end Room

section Door

variable (W : Type) [RubricNum W] [External]

namespace Room

variable (room : Room) (held : List RosterRow)

def events : List RosterEvent :=
  (room.input held).prepareRosterEvents W

def rosterStateAt (asOf : Instant) : RosterState :=
  authorizedRosterStateAt W room.record (room.rules held) (room.events W held) asOf

/-- `authorized_roster_at` over what the node holds. -/
def rosterAt (asOf : Instant) : List CommunityMember :=
  authorizedRosterAt W room.record (room.rules held) (room.events W held) asOf

/-!
## The door
-/

/-- What the door asks besides standing: that the member accepted to join, and every
gate that is about the row's signatures and shape or about the room. -/
structure Gates where
  growthAccepted : String -> Option String -> Instant -> Bool
  others : List RosterRow -> RosterRow -> Bool

def isThisRow (row : RosterRow) (e : RosterEvent) : Bool :=
  e.isAdd == row.isAdd && decide (e.effectiveAt = row.effectiveAt) &&
    e.member.keyId == row.memberKeyId

/-- The events the row is judged against: all but the one that holds its place. -/
def otherEvents (row : RosterRow) : List RosterEvent :=
  (room.events W held).filter fun e => !isThisRow row e

def doorModeratorRoots (row : RosterRow) : Finset String :=
  if row.isAdd || (room.events W held).any (isThisRow row) then
    let candidates := room.founderCandidates held
    let roots := if row.seatsFounder then candidates.erase row.memberKeyId else candidates
    moderatorRootsAt room.dir room.communityKeyId roots
      (rootAuthorityIntervals W room.record (room.rules held) (room.otherEvents W held row))
      row.signerSet row.effectiveAt
  else
    ∅

def offeredEvent (row : RosterRow) : RosterEvent where
  effectiveAt := row.effectiveAt
  isAdd := row.isAdd
  member := row.member
  signers := row.signerSet
  moderatorRoots := room.doorModeratorRoots W held row
  reversed := false

/-- `check_roster_authority_over` and the door's other gates. -/
def admitsRow (gates : Gates) (row : RosterRow) : Bool :=
  let state := authorizedRosterStateAt W room.record (room.rules held)
    (room.otherEvents W held row) row.effectiveAt
  gates.others held row &&
    (rosterEventStanding W (room.rules held) state (room.offeredEvent W held row)).isOk &&
    (!row.isAdd || (state.active? row.memberKeyId).isSome ||
      gates.growthAccepted row.memberKeyId row.role row.effectiveAt)

/-- A node takes the rows in the order they arrive; `none` when a door refuses one. -/
def receiveAll (gates : Gates) : List RosterRow -> List RosterRow -> Option (List RosterRow)
  | held, [] => some held
  | held, row :: rest =>
      if room.admitsRow W held gates row then
        receiveAll gates (FirstWins.insert RosterRow.place held row) rest
      else
        none

theorem receiveAll_eq
    {gates : Gates} {held held' rows : List RosterRow}
    (h : room.receiveAll W gates held rows = some held') :
    held' = FirstWins.insertAll RosterRow.place held rows := by
  induction rows generalizing held with
  | nil => exact (Option.some.inj h).symm
  | cons row rest ih =>
      unfold receiveAll at h
      split at h
      · exact ih h
      · cases h

end Room

end Door

/-!
## Reading the tables
-/

namespace Room

theorem tables_perm
    (held : List RosterRow) :
    (widenings held ++ revocations held).Perm held :=
  ((List.perm_insertionSort _ _).append (List.perm_insertionSort _ _)).trans
    (List.filter_append_perm RosterRow.isAdd held)

def tableKey (r : RosterRow) : String × Instant :=
  (r.memberKeyId, r.effectiveAt)

variable {held held' : List RosterRow} (hplaces : (held.map RosterRow.place).Nodup)
  (hperm : held'.Perm held)

include hplaces in
theorem nodup_tableKey
    (add : Bool) :
    ((held.filter fun r => r.isAdd == add).map tableKey).Nodup := by
  have hfiltered : ((held.filter fun r => r.isAdd == add).map RosterRow.place).Nodup :=
    hplaces.sublist (List.filter_sublist.map _)
  have hplace : (held.filter fun r => r.isAdd == add).map RosterRow.place =
      ((held.filter fun r => r.isAdd == add).map tableKey).map fun k => (add, k) := by
    rw [List.map_map]
    refine List.map_congr_left fun r hr => ?_
    have hadd : r.isAdd = add := by
      simpa using (List.mem_filter.mp hr).2
    simp [RosterRow.place, tableKey, hadd]
  rw [hplace] at hfiltered
  exact hfiltered.of_map

include hplaces hperm in
theorem find_signer_eq
    (add : Bool) (ev : StoredRosterEvent) :
    (((held'.filter fun r => r.isAdd == add).map RosterRow.signer).find? fun s =>
        s.memberKeyId == ev.member.keyId && decide (s.effectiveAt = ev.effectiveAt)) =
      ((held.filter fun r => r.isAdd == add).map RosterRow.signer).find? fun s =>
        s.memberKeyId == ev.member.keyId && decide (s.effectiveAt = ev.effectiveAt) := by
  have hkey : (fun r : RosterRow => r.signer.memberKeyId == ev.member.keyId &&
      decide (r.signer.effectiveAt = ev.effectiveAt)) =
      fun r => decide (tableKey r = (ev.member.keyId, ev.effectiveAt)) := by
    funext r
    rw [Bool.eq_iff_iff, Bool.and_eq_true, beq_iff_eq, decide_eq_true_iff, decide_eq_true_iff]
    exact Prod.mk_inj.symm
  rw [List.find?_map, List.find?_map]
  simp only [Function.comp_def, hkey]
  rw [FirstWins.find_key_eq_of_perm (nodup_tableKey hplaces add) (hperm.filter _)]

include hplaces hperm in
theorem sameRows
    (room : Room) :
    SameRows (room.input held) (room.input held') where
  dir := rfl
  cohort := rfl
  groupKeyId := rfl
  record := rfl
  rules := by
    have hkeys : room.seatKeys held' = room.seatKeys held :=
      List.toFinset_eq_of_perm _ _ (((hperm.filter _).map _).append_left _)
    simp only [input, rules, hkeys]
  moderationRoots := by
    have hroots : room.founderCandidates held' = room.founderCandidates held :=
      List.toFinset_eq_of_perm _ _ (((hperm.filter _).map _).append_left _)
    simp only [input, hroots]
  now := rfl
  stored := by
    have htables : (widenings held' ++ revocations held').Perm
        (widenings held ++ revocations held) :=
      ((tables_perm held').trans hperm).trans (tables_perm held).symm
    exact htables.map _
  signers := by
    intro ev
    have hadd := find_signer_eq hplaces hperm true ev
    have hremove := find_signer_eq hplaces hperm false ev
    simp only [beq_true, beq_false] at hadd hremove
    cases hev : ev.isAdd with
    | true => simpa [rowSigner, input, rosterSigners, hev] using hadd
    | false => simpa [rowSigner, input, rosterSigners, hev] using hremove
  distinct := by
    have htables : ((widenings held ++ revocations held).map RosterRow.place).Nodup :=
      ((tables_perm held).map _).nodup_iff.mpr hplaces
    unfold DistinctEvents
    rw [input, List.map_map, List.map_map]
    refine List.pairwise_map.mpr ((List.pairwise_map.mp htables).imp ?_)
    intro a b hplace hkey
    refine hplace ?_
    have hmember : forall r : RosterRow, r.member.keyId = r.memberKeyId := by
      intro r
      unfold RosterRow.member
      split <;> rfl
    simp only [Function.comp_apply, eventKey, signedEvent, RosterRow.storedEvent, hmember,
      toLex_inj, Prod.mk.injEq, Bool.not_inj_iff] at hkey
    simp only [RosterRow.place, hkey]

end Room

/-!
## Agreement
-/

section Agreement

variable (W : Type) [RubricNum W] [External]

theorem rosters_eq_of_perm
    (room : Room) {held held' : List RosterRow}
    (hplaces : (held.map RosterRow.place).Nodup) (hperm : held'.Perm held) (asOf : Instant) :
    room.rosterStateAt W held' asOf = room.rosterStateAt W held asOf ∧
      room.rosterAt W held' asOf = room.rosterAt W held asOf := by
  have hstate : room.rosterStateAt W held' asOf = room.rosterStateAt W held asOf :=
    (Room.sameRows hplaces hperm room).rosterState_eq asOf
  refine ⟨hstate, ?_⟩
  unfold Room.rosterStateAt at hstate
  simp only [Room.rosterAt, authorizedRosterAt, hstate]

/-- Replicas hold the same rows in every order of arrival exactly when no two rows are
for one place, and then they agree on the roster at every instant. -/
theorem replicas_agree_without_rivals
    (room : Room) (rows : List RosterRow) :
    (FirstWins.NoRivals RosterRow.place rows <->
      forall rows' : List RosterRow, (forall r, r ∈ rows' <-> r ∈ rows) ->
        forall r, r ∈ FirstWins.insertAll RosterRow.place [] rows' <->
          r ∈ FirstWins.insertAll RosterRow.place [] rows) ∧
    (FirstWins.NoRivals RosterRow.place rows ->
      forall (gates gates' : Room.Gates) (rows' held held' : List RosterRow),
        (forall r, r ∈ rows' <-> r ∈ rows) ->
        room.receiveAll W gates [] rows = some held ->
        room.receiveAll W gates' [] rows' = some held' ->
        forall asOf : Instant,
          room.rosterStateAt W held' asOf = room.rosterStateAt W held asOf ∧
            room.rosterAt W held' asOf = room.rosterAt W held asOf) := by
  refine ⟨(FirstWins.order_free_iff RosterRow.place rows).symm, ?_⟩
  intro hrivals gates gates' rows' held held' hsame hheld hheld'
  have hperm : held'.Perm held := by
    rw [room.receiveAll_eq W hheld, room.receiveAll_eq W hheld']
    exact FirstWins.insertAll_perm hrivals hsame
  have hplaces : (held.map RosterRow.place).Nodup := by
    rw [room.receiveAll_eq W hheld]
    exact FirstWins.nodup_table RosterRow.place rows
  exact rosters_eq_of_perm W room hplaces hperm

end Agreement

/-!
## Rival widenings
-/

section Samples

open Reference

def studio : Room where
  dir :=
    { store := ⟨[], List.nodup_nil⟩
      isStewardBound := fun _ => true
      affiliationRoleTermAt := fun _ _ => none
      appointedModeratorsOf := fun _ _ => []
      verifiesEnvelope := fun _ _ => true }
  communityKeyId := "studio"
  record := [⟨"fay", 0, some memberRoleFounder⟩, ⟨"max", 0, none⟩]
  protocol := "quorum:1/2"
  subkind := none
  policyBlob := none
  nodeBearingOf := fun _ => NodeBearingSeats.none
  now := 100

def openGates : Room.Gates where
  growthAccepted := fun _ _ _ => false
  others := fun _ _ => true

def roleRow (role : String) (instant : Instant) : RosterRow where
  isAdd := true
  memberKeyId := "max"
  joinedAt := 0
  role := some role
  effectiveAt := instant
  rowHash := role
  authorityKeyId := "fay"
  cosignerKeyIds := []

theorem later_role_agrees :
    (studio.receiveAll Rat openGates [] [roleRow "host" 10, roleRow "guest" 20]).isSome = true ∧
      forall asOf : Instant,
        studio.rosterAt Rat [roleRow "guest" 20, roleRow "host" 10] asOf =
          studio.rosterAt Rat [roleRow "host" 10, roleRow "guest" 20] asOf := by
  have hrivals : FirstWins.NoRivals RosterRow.place [roleRow "host" 10, roleRow "guest" 20] := by
    unfold FirstWins.NoRivals
    decide
  have hsame : forall r, r ∈ [roleRow "guest" 20, roleRow "host" 10] <->
      r ∈ [roleRow "host" 10, roleRow "guest" 20] := by
    intro r
    simp [or_comm]
  refine ⟨by decide, fun asOf => ?_⟩
  exact ((replicas_agree_without_rivals Rat studio _).2 hrivals openGates openGates _ _ _ hsame
    (by decide) (by decide) asOf).2

/-- Two roles for one member at one instant: both are admitted on both nodes, and each
node keeps the one it saw first. -/
theorem rival_roles_disagree :
    studio.receiveAll Rat openGates [] [roleRow "host" 10, roleRow "guest" 10] =
        some [roleRow "host" 10] ∧
      studio.receiveAll Rat openGates [] [roleRow "guest" 10, roleRow "host" 10] =
        some [roleRow "guest" 10] ∧
      studio.rosterAt Rat [roleRow "host" 10] 20 =
        [⟨"fay", 0, some memberRoleFounder⟩, ⟨"max", 0, some "host"⟩] ∧
      studio.rosterAt Rat [roleRow "guest" 10] 20 =
        [⟨"fay", 0, some memberRoleFounder⟩, ⟨"max", 0, some "guest"⟩] := by
  decide

end Samples

end CirisPersist.Federation
