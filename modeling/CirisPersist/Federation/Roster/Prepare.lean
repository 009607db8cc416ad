import CirisPersist.Federation.Roster.Fold
import CirisPersist.Federation.ReverseQuorum.Resolve
import CirisPersist.Federation.Delegation.Walk
import Mathlib.Data.Finset.Sort

/-!
# Preparing stored roster rows

A group's stored roster rows are turned into events for the fold: each gets its
signers, the founders whose appointment stands behind them at its instant, and,
under `reverse_quorum`, whether the objection fold reversed it.
-/

namespace CirisPersist.Federation

/-!
## Stored rows and their signers
-/

structure RosterEventSigner where
  memberKeyId : String
  effectiveAt : Instant
  authorityKeyId : Option String
  cosignerKeyIds : List String

structure CommunityRosterSigners where
  wideningSigners : List RosterEventSigner
  revocationSigners : List RosterEventSigner

structure StoredRosterEvent where
  isAdd : Bool
  member : CommunityMember
  effectiveAt : Instant
  rowHash : String

def signerSet (s : RosterEventSigner) : Finset String :=
  (s.authorityKeyId.toList ++ s.cosignerKeyIds).toFinset

def rowSigner (signers : CommunityRosterSigners) (ev : StoredRosterEvent) :
    Option RosterEventSigner :=
  (if ev.isAdd then signers.wideningSigners else signers.revocationSigners).find? fun s =>
    s.memberKeyId == ev.member.keyId && decide (s.effectiveAt = ev.effectiveAt)

def signedEvent (signers : CommunityRosterSigners) (ev : StoredRosterEvent) : RosterEvent where
  effectiveAt := ev.effectiveAt
  isAdd := ev.isAdd
  member := ev.member
  signers := ((rowSigner signers ev).map signerSet).getD ∅
  moderatorRoots := ∅
  reversed := false

/-!
## Intervals
-/

def subtractInterval (intervals : List InstantInterval) (cut : InstantInterval) :
    List InstantInterval :=
  let pieces := intervals.flatMap fun (start, ending) =>
    let before := if start < cut.1 then
        [(start, some (match ending with
          | some e => if e ≤ cut.1 then e else cut.1
          | none => cut.1))]
      else
        []
    let after := match cut.2 with
      | some cutEnd =>
          if ending.all (fun e => decide (cutEnd < e)) then
            [(max start cutEnd, ending)]
          else
            []
      | none => []
    before ++ after
  pieces.filter fun (start, ending) => ending.all fun e => decide (start < e)

def subtractIntervals (intervals cuts : List InstantInterval) : List InstantInterval :=
  cuts.foldl subtractInterval intervals

section Authority

variable (W : Type) [RubricNum W] [External]

/-- The replay of one root's authority: the roster so far, since when the root
has been an active founder, and the spells that ended. -/
structure AuthorityReplay where
  state : RosterState
  openSince : Option Instant
  closed : List InstantInterval

def isFounderIn (s : RosterState) (k : String) : Bool :=
  (s.active? k).any CommunityMember.isFounder

def authorityStep (rules : RosterRules) (root : String) (acc : AuthorityReplay)
    (e : RosterEvent) : AuthorityReplay :=
  if !eventApplies W rules acc.state e then
    acc
  else
    let state := acc.state.put e.isAdd e.member
    if e.member.keyId ≠ root then
      { acc with state := state }
    else
      match acc.openSince, isFounderIn state root with
      | none, true => { acc with state := state, openSince := some e.effectiveAt }
      | some start, false =>
          { state := state
            openSince := none
            closed := acc.closed ++ [(start, some e.effectiveAt)] }
      | _, _ => { acc with state := state }

/-- The intervals during which a root was an active founder, less those during
which it bore `node`.  No moderator standing is used on the way: an appointment's
authority cannot rest on the appointments it confers. -/
def rootAuthorityIntervals (record : List CommunityMember) (rules : RosterRules)
    (events : List RosterEvent) (root : String) : List InstantInterval :=
  let ordered := sortRosterEvents (events.map fun e => { e with moderatorRoots := ∅ })
  let start := RosterState.ofRecord record
  let replay := ordered.foldl (authorityStep W rules root)
    { state := start
      openSince := if isFounderIn start root then some External.minUtc else none
      closed := [] }
  let intervals := replay.closed ++ (replay.openSince.map fun since => (since, none)).toList
  if root ∈ rules.nodeBearing.own then
    []
  else
    match rules.nodeBearing.occurrence[root]? with
    | some cuts => subtractIntervals intervals cuts
    | none => intervals

/-!
## Moderators behind a signer
-/

def maxModerationDelegationDepth : Nat :=
  5

/-- `moderation_reach_of_at`, and with authority intervals
`moderation_reach_of_at_within`. -/
def moderationReach (dir : GroupDirectory) (root communityId : String) (asOf : Instant)
    (rootAuthority : Option (List InstantInterval)) : Finset String :=
  let inp : WalkInput :=
    { store := dir.store
      issuer := root
      targets := ∅
      scopeToken := ReverseQuorum.delegationScopeModerate
      maxDepth := maxModerationDelegationDepth
      policy := DelegationWalkPolicy.moderationDuty
      lens :=
        { asOf := some asOf
          communityId := some communityId
          rootAuthority := rootAuthority
          roleTermSeconds := dir.affiliationRoleTermAt communityId asOf } }
  inp.scopedDelegationReachAt.reached

def moderatorRootsAt (dir : GroupDirectory) (communityId : String) (roots : Finset String)
    (intervals : String -> List InstantInterval) (signers : Finset String) (t : Instant) :
    Finset String :=
  roots.filter fun root =>
    root ∉ signers ∧ dir.isStewardBound root = true ∧ intervals root ≠ [] ∧
      exists k, k ∈ moderationReach dir root communityId t (some (intervals root)) ∧ k ∈ signers

/-!
## Preparation
-/

/-- A group's record and its stored rows, as the preparation reads them.  A group
without a moderation plane has no moderation roots. -/
structure RosterInput where
  dir : GroupDirectory
  cohort : Cohort
  groupKeyId : String
  record : List CommunityMember
  rules : RosterRules
  stored : List StoredRosterEvent
  signers : CommunityRosterSigners
  moderationRoots : Option (Finset String)
  now : Instant

def votersMinCount : Nat :=
  2

def rosterReversalStands (isAdd : Bool) (fold : ReverseQuorum.ReverseQuorumFold) : Bool :=
  decide (fold.standing = ReverseQuorum.ReverseQuorumStanding.reversed) &&
    (!isAdd || decide (votersMinCount ≤ fold.distinctObjectors))

namespace RosterInput

variable (inp : RosterInput)

/-- The event with the founders whose appointment stands behind its signers. -/
def unreversedEvent (ev : StoredRosterEvent) : RosterEvent :=
  let e := signedEvent inp.signers ev
  match inp.moderationRoots with
  | none => e
  | some roots =>
      let intervals := rootAuthorityIntervals W inp.record inp.rules
        (inp.stored.map (signedEvent inp.signers))
      if e.signers = ∅ then
        e
      else
        { e with
          moderatorRoots := moderatorRootsAt inp.dir inp.groupKeyId roots intervals
            e.signers e.effectiveAt }

theorem unreversedEvent_eq
    (ev : StoredRosterEvent) :
    exists roots, inp.unreversedEvent W ev =
      { signedEvent inp.signers ev with moderatorRoots := roots } := by
  unfold unreversedEvent
  cases inp.moderationRoots with
  | none => exact ⟨∅, rfl⟩
  | some roots =>
      simp only
      split
      · exact ⟨∅, rfl⟩
      · exact ⟨_, rfl⟩

def unreversedEvents : List RosterEvent :=
  inp.stored.map (inp.unreversedEvent W)

def unreversedState : RosterState :=
  authorizedRosterStateAt W inp.record inp.rules (inp.unreversedEvents W) inp.now

def objectionRoster : List String :=
  (inp.unreversedState W).activeMembers.map CommunityMember.keyId

def policy : Option ReverseQuorumPolicy :=
  ReverseQuorumPolicy.parse inp.rules.protocol

/-- The steward-bound founders who do not bear `node`, and the keys they
appointed. -/
def dutyHolders : Option (List String) :=
  if inp.moderationRoots.isSome ∧ (inp.policy.bind ReverseQuorumPolicy.steward).isSome then
    let founders := (inp.unreversedState W).activeMembers.filter fun m =>
      m.isFounder && !inp.rules.nodeBearing.bearsAt m.keyId inp.now &&
        inp.dir.isStewardBound m.keyId
    let holders := founders.foldl
      (fun out m => insert m.keyId out ∪
        moderationReach inp.dir m.keyId inp.groupKeyId inp.now none) (∅ : Finset String)
    some (holders.sort (· ≤ ·))
  else
    none

def objectedAction (actor : String) (ev : StoredRosterEvent) : ReverseQuorum.ActionRef where
  actorKeyId := actor
  actionId := ev.rowHash
  assertedAt := ev.effectiveAt

def objectionFold (actor : String) (ev : StoredRosterEvent) :
    ReverseQuorum.ReverseQuorumFold :=
  ReverseQuorum.resolveReverseQuorumWith inp.dir inp.cohort inp.groupKeyId
    (inp.objectionRoster W) inp.policy (inp.dutyHolders W) (objectedAction actor ev) inp.now

def isReversed (ev : StoredRosterEvent) : Bool :=
  Text.startsWith ConsensusProtocol.reverseQuorumPrefix inp.rules.protocol &&
    ((rowSigner inp.signers ev).bind RosterEventSigner.authorityKeyId).any fun actor =>
      rosterReversalStands ev.isAdd (inp.objectionFold W actor ev)

def prepareRosterEvents : List RosterEvent :=
  inp.stored.map fun ev =>
    { inp.unreversedEvent W ev with
      reversed := inp.isReversed W ev }

end RosterInput

end Authority

end CirisPersist.Federation
