import CirisPersist.Federation.Roster.State
import CirisPersist.Federation.Consensus.Admission
import CirisPersist.Library.Replay

/-!
# The authorized roster fold

Stored roster events are replayed over the record members.  An event changes
the roster only when it has standing against the state built so far and no
objection has reversed it; any other event is inert.
-/

namespace CirisPersist.Federation

/-!
## Rules and events
-/

structure NodeBearingSeats where
  own : Finset String
  occurrence : Std.TreeMap String (List InstantInterval)

namespace NodeBearingSeats

def bearsAt (seats : NodeBearingSeats) (key : String) (t : Instant) : Bool :=
  decide (key ∈ seats.own) ||
    (seats.occurrence[key]?).any fun intervals => intervals.any (InstantInterval.holdsAt t)

def none : NodeBearingSeats where
  own := ∅
  occurrence := Std.TreeMap.empty

@[simp]
theorem bearsAt_none
    (key : String) (t : Instant) :
    none.bearsAt key t = false := by
  simp [none, bearsAt]

end NodeBearingSeats

structure RosterRules where
  protocol : String
  subkind : Option String
  policyBlob : Option Json
  nodeBearing : NodeBearingSeats

structure RosterEvent where
  effectiveAt : Instant
  isAdd : Bool
  member : CommunityMember
  signers : Finset String
  moderatorRoots : Finset String
  reversed : Bool
deriving DecidableEq

inductive RosterRefusal where
  | consensusUnevaluable
  | authorityNotEstablished
  | consensusInsufficient
  | lastFounder
deriving DecidableEq

/-!
## Standing
-/

section Standing

variable (W : Type) [RubricNum W] [External]

def activeSeats (rules : RosterRules) (s : RosterState) (t : Instant) : List Seat :=
  s.activeMembers.map fun m =>
    { keyId := m.keyId, role := m.role, nodeBearing := rules.nodeBearing.bearsAt m.keyId t }

def eventBallot (rules : RosterRules) (s : RosterState) (e : RosterEvent) : Ballot where
  protocol := rules.protocol
  subkind := rules.subkind
  policyBlob := rules.policyBlob
  roster := activeSeats rules s e.effectiveAt
  signers := e.signers
  direction := if e.isAdd then .add else .remove
  subject := some e.member.keyId

def moderatorMayAct (rules : RosterRules) (e : RosterEvent) : Bool :=
  decide (e.moderatorRoots ≠ ∅) &&
    (e.isAdd || rules.protocol != ConsensusProtocol.openSelfAdmit)

/-- A legacy row, a member leaving on their own signature, or a named
moderator. -/
def standingWithoutProtocol (rules : RosterRules) (e : RosterEvent) : Bool :=
  decide (e.signers = ∅) ||
    (!e.isAdd && decide (e.member.keyId ∈ e.signers)) ||
    moderatorMayAct rules e

def isActiveFounder (rules : RosterRules) (s : RosterState) (t : Instant)
    (k : String) : Bool :=
  (s.active? k).any CommunityMember.isFounder && !rules.nodeBearing.bearsAt k t

def othersAfter (s : RosterState) (e : RosterEvent) : List CommunityMember :=
  s.activeMembers.filter fun m => m.keyId != e.member.keyId

def foundersAfter (rules : RosterRules) (s : RosterState) (e : RosterEvent) :
    List CommunityMember :=
  (othersAfter s e).filter fun m => isActiveFounder rules s e.effectiveAt m.keyId

def losesFounder (rules : RosterRules) (s : RosterState) (e : RosterEvent) : Bool :=
  isActiveFounder rules s e.effectiveAt e.member.keyId &&
    (!e.isAdd || !e.member.isFounder)

def admittedByProtocol (rules : RosterRules) (s : RosterState) (e : RosterEvent) :
    Except (RosterRefusal × String) Unit :=
  match evaluate W (eventBallot rules s e) with
  | .admitted => .ok ()
  | .unevaluable reason =>
      .error (.consensusUnevaluable, reason)
  | .insufficient detail =>
      if exists k, k ∈ e.signers ∧ s.contains k = false then
        .error (.authorityNotEstablished, detail)
      else
        .error (.consensusInsufficient, detail)

/-- Does the event have standing against the roster immediately before it? -/
def rosterEventStanding (rules : RosterRules) (s : RosterState) (e : RosterEvent) :
    Except (RosterRefusal × String) Unit := do
  if standingWithoutProtocol rules e then
    pure ()
  else
    admittedByProtocol W rules s e
  if losesFounder rules s e && (foundersAfter rules s e).isEmpty &&
      !(othersAfter s e).isEmpty then
    .error (.lastFounder,
      s!"removing or demoting {e.member.keyId} would leave {(othersAfter s e).length} member(s) and no founder")
  else
    .ok ()

/-!
## The replay

One pass builds the state and, for each active member, the start of the current
membership span: no start for a record member that was never removed.
-/

def rosterEventBefore (a b : RosterEvent) : Prop :=
  a.effectiveAt < b.effectiveAt ∨
    (a.effectiveAt = b.effectiveAt ∧
      ((a.isAdd = true ∧ b.isAdd = false) ∨
        (a.isAdd = b.isAdd ∧ a.member.keyId ≤ b.member.keyId)))

instance : DecidableRel rosterEventBefore := by
  intro a b
  unfold rosterEventBefore
  infer_instance

def sortRosterEvents (events : List RosterEvent) : List RosterEvent :=
  events.insertionSort rosterEventBefore

def rosterOrder (events : List RosterEvent) (asOf : Instant) : List RosterEvent :=
  sortRosterEvents (events.filter fun e => decide (e.effectiveAt ≤ asOf))

abbrev RosterSpans :=
  Std.TreeMap String (Option Instant)

def eventApplies (rules : RosterRules) (s : RosterState) (e : RosterEvent) : Bool :=
  !e.reversed && (rosterEventStanding W rules s e).isOk

def rosterStep (rules : RosterRules) (s : RosterState) (e : RosterEvent) : RosterState :=
  if eventApplies W rules s e then s.put e.isAdd e.member else s

def spansStep (s : RosterState) (spans : RosterSpans) (e : RosterEvent) : RosterSpans :=
  if !e.isAdd then
    spans.erase e.member.keyId
  else if (s.active? e.member.keyId).isSome then
    spans
  else
    spans.insert e.member.keyId (some e.effectiveAt)

def foldRosterStep (rules : RosterRules) (acc : RosterState × RosterSpans)
    (e : RosterEvent) : RosterState × RosterSpans :=
  if eventApplies W rules acc.1 e then
    (acc.1.put e.isAdd e.member, spansStep acc.1 acc.2 e)
  else
    acc

def foldRoster (record : List CommunityMember) (rules : RosterRules)
    (events : List RosterEvent) (asOf : Instant) : RosterState × RosterSpans :=
  (rosterOrder events asOf).foldl (foldRosterStep W rules)
    (RosterState.ofRecord record,
      Std.TreeMap.ofList (record.map fun m => (m.keyId, none)))

def authorizedRosterStateAt (record : List CommunityMember) (rules : RosterRules)
    (events : List RosterEvent) (asOf : Instant) : RosterState :=
  (foldRoster W record rules events asOf).1

def authorizedRosterSpansAt (record : List CommunityMember) (rules : RosterRules)
    (events : List RosterEvent) (asOf : Instant) : RosterSpans :=
  (foldRoster W record rules events asOf).2

/-- The active members: record order first, then widened members by key. -/
def authorizedRosterAt (record : List CommunityMember) (rules : RosterRules)
    (events : List RosterEvent) (asOf : Instant) : List CommunityMember :=
  let s := authorizedRosterStateAt W record rules events asOf
  record.filterMap (fun m => s.active? m.keyId) ++
    s.activeMembers.filter fun m => !record.any fun r => r.keyId == m.keyId

/-!
## Inversion lemmas

What standing amounts to, and the state of the replay without its spans.
-/

variable {W}

theorem admittedByProtocol_isOk_iff
    (rules : RosterRules) (s : RosterState) (e : RosterEvent) :
    (admittedByProtocol W rules s e).isOk = true <->
      evaluate W (eventBallot rules s e) = .admitted := by
  unfold admittedByProtocol
  cases evaluate W (eventBallot rules s e) with
  | admitted => simp [Except.isOk, Except.toBool]
  | unevaluable reason => simp [Except.isOk, Except.toBool]
  | insufficient detail =>
      simp only
      split <;> simp [Except.isOk, Except.toBool]

theorem rosterEventStanding_isOk_iff
    (rules : RosterRules) (s : RosterState) (e : RosterEvent) :
    (rosterEventStanding W rules s e).isOk = true <->
      (standingWithoutProtocol rules e = true ∨ evaluate W (eventBallot rules s e) = .admitted) ∧
      (losesFounder rules s e = true -> othersAfter s e ≠ [] -> foundersAfter rules s e ≠ []) := by
  have hlast :
      ((if (losesFounder rules s e && (foundersAfter rules s e).isEmpty &&
          !(othersAfter s e).isEmpty) = true then
        .error (.lastFounder,
          s!"removing or demoting {e.member.keyId} would leave {(othersAfter s e).length} member(s) and no founder")
      else
        .ok () : Except (RosterRefusal × String) Unit).isOk = true) <->
      (losesFounder rules s e = true -> othersAfter s e ≠ [] -> foundersAfter rules s e ≠ []) := by
    split
    · rename_i hrefuse
      simp only [Bool.and_eq_true, List.isEmpty_iff, Bool.not_eq_true',
        List.isEmpty_eq_false_iff] at hrefuse
      simp [Except.isOk, Except.toBool, hrefuse]
    · rename_i hpass
      simp only [Bool.and_eq_true, List.isEmpty_iff, Bool.not_eq_true',
        List.isEmpty_eq_false_iff, not_and] at hpass
      simp only [Except.isOk, Except.toBool, true_iff]
      intro hloses hothers hfounders
      exact hpass ⟨hloses, hfounders⟩ hothers
  rw [← hlast, ← admittedByProtocol_isOk_iff]
  unfold rosterEventStanding
  cases hwithout : standingWithoutProtocol rules e with
  | true => simp
  | false =>
      cases hprotocol : admittedByProtocol W rules s e with
      | ok u => simp [bind, Except.bind, Except.isOk, Except.toBool]
      | error refusal => simp [bind, Except.bind, Except.isOk, Except.toBool]

theorem authorizedRosterStateAt_eq_replay
    (record : List CommunityMember) (rules : RosterRules)
    (events : List RosterEvent) (asOf : Instant) :
    authorizedRosterStateAt W record rules events asOf =
      (rosterOrder events asOf).foldl (rosterStep W rules) (RosterState.ofRecord record) := by
  have hfst : forall (es : List RosterEvent) (acc : RosterState × RosterSpans),
      (es.foldl (foldRosterStep W rules) acc).1 = es.foldl (rosterStep W rules) acc.1 := by
    intro es
    induction es with
    | nil =>
        intro acc
        rfl
    | cons e rest ih =>
        intro acc
        rw [List.foldl_cons, List.foldl_cons, ih]
        unfold foldRosterStep rosterStep
        split <;> rfl
  exact hfst _ _

end Standing

theorem mem_rosterOrder_iff
    (events : List RosterEvent) (asOf : Instant) (e : RosterEvent) :
    e ∈ rosterOrder events asOf <-> e ∈ events ∧ e.effectiveAt ≤ asOf := by
  simp [rosterOrder, sortRosterEvents, List.mem_insertionSort]

theorem mem_activeSeats_iff
    (rules : RosterRules) (s : RosterState) (t : Instant) (seat : Seat) :
    seat ∈ activeSeats rules s t <->
      exists m, s.active? seat.keyId = some m ∧ seat.role = m.role ∧
        seat.nodeBearing = rules.nodeBearing.bearsAt seat.keyId t := by
  unfold activeSeats
  rw [List.mem_map]
  constructor
  · rintro ⟨m, hm, rfl⟩
    exact ⟨m, (RosterState.mem_activeMembers_iff s m).mp hm, rfl, rfl⟩
  · rintro ⟨m, hm, hrole, hnode⟩
    have hkey := RosterState.keyId_of_active? hm
    refine ⟨m, (RosterState.mem_activeMembers_iff s m).mpr (by rw [hkey]; exact hm), ?_⟩
    rw [hkey]
    cases seat
    simp_all

end CirisPersist.Federation
