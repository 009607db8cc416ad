import CirisPersist.Base.External
import Mathlib.Data.Finset.Card

/-!
# The two-path decision

One actor's proposal to add or evict a key stands open for a window.  It lands at
once when enough of the live roster approves, or at the close of the window when
too few of the others object.  The decision is a function of its inputs: the
roster, the proposal, the answers held, what stands open ahead, the node's clock
and the door's policy.
-/

namespace CirisPersist.Federation

/-!
## Thresholds
-/

inductive ProposalKind where
  | add
  | evict
deriving DecidableEq

/-- Which proposals the lone path asks the target's silence of. -/
inductive SilenceRule where
  | evictOnly
  | never
deriving DecidableEq

inductive Cmp where
  | moreThan
  | atLeast
deriving DecidableEq

inductive Threshold where
  | strictMajority
  | fraction (num den : Nat) (cmp : Cmp)
deriving DecidableEq

def divCeil (a b : Nat) : Nat :=
  if a % b = 0 then a / b else a / b + 1

/-- The raw votes over a base of `n`; a zero denominator is read as one. -/
def Threshold.votes [External] : Threshold -> Nat -> Nat
  | strictMajority, n => External.strictMajority n
  | fraction num den .moreThan, n => num * n / max den 1 + 1
  | fraction num den .atLeast, n => divCeil (num * n) (max den 1)

/-- Approvals count forward, the proposer included; objections count in reverse. -/
inductive Side where
  | forward
  | reverse
deriving DecidableEq

inductive Base where
  | standingRoster
deriving DecidableEq

def Base.count (base : Base) (roster : Finset String) (proposer : String) (side : Side)
    (excludeProposer : Bool) : Nat :=
  match base, side with
  | standingRoster, .forward => roster.card
  | standingRoster, .reverse =>
      roster.card - (if excludeProposer ∧ proposer ∈ roster then 1 else 0)

inductive FloorClass where
  | voters
  | sameIdentity
deriving DecidableEq

def FloorClass.minCount : FloorClass -> Nat
  | voters => 2
  | sameIdentity => 1

theorem FloorClass.minCount_le_two
    (c : FloorClass) :
    c.minCount ≤ 2 := by
  cases c with
  | voters => exact le_refl 2
  | sameIdentity => exact Nat.le_succ 1

inductive CancelOver where
  | base
  | others
deriving DecidableEq

/-- What the close of the window does to a proposal that does not land. -/
inductive AtWindow where
  | cancel
  | stayOpen
deriving DecidableEq

/-!
## Policies
-/

structure TwoPathPolicy where
  base : Base
  enact : Threshold
  cancel : Option Threshold
  cancelOver : CancelOver
  floor : Option Threshold
  floorClass : FloorClass
  reversePath : Bool
  atWindow : AtWindow
  irreversible : Bool
  windowSecs : Int
  silence : SilenceRule
  oneOpenPerProposer : Bool
  oneOpenPerTarget : Bool
deriving DecidableEq

structure Resolved where
  enact : Nat
  cancel : Option Nat
  floor : Option Nat
deriving DecidableEq

structure Counts where
  approvals : Nat
  objections : Nat
  targetSpoke : Bool
  windowClosed : Bool
deriving DecidableEq

namespace TwoPathPolicy

/-- ENACT by its own rule; CANCEL and FLOOR lifted to the count minimum. -/
def resolveOver [External] (policy : TwoPathPolicy) (forward reverse : Nat) : Resolved where
  enact := policy.enact.votes forward
  cancel := policy.cancel.map fun c => max (c.votes reverse) policy.floorClass.minCount
  floor := policy.floor.map fun f => max (f.votes forward) policy.floorClass.minCount

def resolve [External] (policy : TwoPathPolicy) (roster : Finset String) (proposer : String) :
    Resolved :=
  policy.resolveOver
    (policy.base.count roster proposer .forward false)
    (policy.base.count roster proposer .reverse
      (Decidable.decide (policy.cancelOver = .others)))

end TwoPathPolicy

/-!
## Decisions
-/

inductive CancelReason where
  | cancelReached
  | belowFloor
  | noReversePath
  | targetSpoke
deriving DecidableEq

def CancelReason.asStr : CancelReason -> String
  | cancelReached => "cancel_reached"
  | belowFloor => "below_floor"
  | noReversePath => "no_reverse_path"
  | targetSpoke => "target_spoke"

inductive LandingPath where
  | quorum
  | lone
deriving DecidableEq

inductive TwoPathRefusal where
  | proposerNotOnRoster
  | targetAlreadyOnRoster
  | targetNotOnRoster
  | proposerIsTarget
  | proposerHasOpenProposal
  | targetHasOpenProposal
deriving DecidableEq

def TwoPathRefusal.asStr : TwoPathRefusal -> String
  | proposerNotOnRoster => "proposer_not_on_roster"
  | targetAlreadyOnRoster => "target_already_on_roster"
  | targetNotOnRoster => "target_not_on_roster"
  | proposerIsTarget => "proposer_is_target"
  | proposerHasOpenProposal => "proposer_has_open_proposal"
  | targetHasOpenProposal => "target_has_open_proposal"

inductive TwoPathDecision where
  | lands (path : LandingPath)
  | pending (earliestLoneAt : Option Instant) (needs : Nat)
  | refused (reason : TwoPathRefusal)
  | cancelled (reason : CancelReason)
deriving DecidableEq

def TwoPathDecision.isLanding : TwoPathDecision -> Bool
  | lands _ => true
  | _ => false

def TwoPathDecision.token : TwoPathDecision -> String
  | lands _ => "lands"
  | pending _ _ => "pending"
  | refused reason => reason.asStr
  | cancelled _ => "cancelled"

/-!
## The decision over counts
-/

namespace Resolved

def enactMet (r : Resolved) (c : Counts) : Bool :=
  Decidable.decide (r.enact ≤ c.approvals)

def cancelReached (r : Resolved) (c : Counts) : Bool :=
  r.cancel.any fun v => Decidable.decide (v ≤ c.objections)

def floorMet (r : Resolved) (c : Counts) : Bool :=
  r.floor.any fun f => Decidable.decide (f ≤ c.approvals)

end Resolved

namespace TwoPathPolicy

/-- It stands open; the lone path opens at the close of the window unless
objections or the target have shut it. -/
def standsOpen (policy : TwoPathPolicy) (r : Resolved) (c : Counts) (opensAt : Instant) :
    TwoPathDecision :=
  .pending
    (if policy.reversePath && !r.cancelReached c && !c.targetSpoke then some opensAt else none)
    (r.enact - c.approvals)

/-- What the close of the window makes of a proposal that does not land. -/
def closesWith (policy : TwoPathPolicy) (r : Resolved) (c : Counts) (opensAt : Instant)
    (reason : CancelReason) : TwoPathDecision :=
  match policy.atWindow with
  | .cancel => .cancelled reason
  | .stayOpen => policy.standsOpen r c opensAt

def decideCounts (policy : TwoPathPolicy) (r : Resolved) (c : Counts) (opensAt : Instant) :
    TwoPathDecision :=
  if r.enactMet c && !policy.irreversible then
    .lands .quorum
  else if !c.windowClosed then
    policy.standsOpen r c opensAt
  else if r.cancelReached c then
    policy.closesWith r c opensAt .cancelReached
  else if r.enactMet c then
    .lands .quorum
  else if !policy.reversePath then
    policy.closesWith r c opensAt .noReversePath
  else if c.targetSpoke then
    policy.closesWith r c opensAt .targetSpoke
  else if r.floorMet c then
    .lands .lone
  else
    policy.closesWith r c opensAt .belowFloor

end TwoPathPolicy

/-!
## The decision over held answers
-/

structure Proposal where
  id : String
  kind : ProposalKind
  proposer : String
  target : String
  assertedAt : Instant
  receivedAt : Instant
deriving DecidableEq

structure Answers where
  approvers : Finset String
  objectors : Finset String
  targetActs : List Instant

structure OpenAhead where
  byProposer : Bool
  onTarget : Bool
deriving DecidableEq

/-- A vote from a key off the roster is void, and the proposer is counted once, as
the proposer. -/
def liveVotes (roster : Finset String) (proposer : String) (keys : Finset String) :
    Finset String :=
  keys.filter fun k => k ∈ roster ∧ k ≠ proposer

def silenceAsked (rule : SilenceRule) (kind : ProposalKind) : Bool :=
  match rule with
  | .evictOnly => Decidable.decide (kind = .evict)
  | .never => false

namespace TwoPathPolicy

/-- The reason, if any, for which a proposal cannot land as it stands. -/
def refusal (policy : TwoPathPolicy) (roster : Finset String) (proposal : Proposal)
    (ahead : OpenAhead) : Option TwoPathRefusal :=
  if proposal.proposer ∉ roster then
    some .proposerNotOnRoster
  else if proposal.kind = .add ∧ proposal.target ∈ roster then
    some .targetAlreadyOnRoster
  else if proposal.kind = .evict ∧ proposal.target = proposal.proposer then
    some .proposerIsTarget
  else if proposal.kind = .evict ∧ proposal.target ∉ roster then
    some .targetNotOnRoster
  else if policy.oneOpenPerProposer && ahead.byProposer then
    some .proposerHasOpenProposal
  else if policy.oneOpenPerTarget && ahead.onTarget then
    some .targetHasOpenProposal
  else
    none

def opensAt (policy : TwoPathPolicy) (proposal : Proposal) : Instant :=
  proposal.receivedAt + Instant.ofSeconds policy.windowSecs

/-- A key that both assented and objected counts as an objector only. -/
def counts (policy : TwoPathPolicy) (roster : Finset String) (proposal : Proposal)
    (answers : Answers) (now : Instant) : Counts where
  approvals :=
    (liveVotes roster proposal.proposer answers.approvers \
      liveVotes roster proposal.proposer answers.objectors).card + 1
  objections := (liveVotes roster proposal.proposer answers.objectors).card
  targetSpoke := silenceAsked policy.silence proposal.kind &&
    answers.targetActs.any fun act => Decidable.decide (proposal.receivedAt ≤ act)
  windowClosed := Decidable.decide (policy.opensAt proposal ≤ now)

protected def decide [External] (policy : TwoPathPolicy) (roster : Finset String)
    (proposal : Proposal) (answers : Answers) (ahead : OpenAhead) (now : Instant) :
    TwoPathDecision :=
  match policy.refusal roster proposal ahead with
  | some reason => .refused reason
  | none =>
      policy.decideCounts (policy.resolve roster proposal.proposer)
        (policy.counts roster proposal answers now) (policy.opensAt proposal)

end TwoPathPolicy

end CirisPersist.Federation
