import CirisPersist.Federation.ReverseQuorum.Policy
import CirisPersist.Federation.Attestation
import Mathlib.Data.Finset.Basic
import Mathlib.Data.Finset.Card
import Std.Data.TreeMap.Lemmas

/-!
# The objection fold

Members file objections against an action inside its window.  The fold counts
the distinct objectors on a roster, leaves out the objections that a dismissal
or the escalated commons has lifted, and says whether the action is reversed.
-/

namespace CirisPersist.Federation

namespace ReverseQuorum

/-!
## Rows of the objection plane
-/

def dimensionObjection :=
  "objection:raised:v1"

def dimensionDismissal :=
  "objection:dismissed:v1"

def dimensionUpheld :=
  "objection:upheld:v1"

def dimensionOverruled :=
  "objection:overruled:v1"

namespace Field

def objectsTo :=
  "objects_to_attestation_id"

def dismisses :=
  "dismisses_objection_id"

def ballotOn :=
  "ballot_on_objection_id"

end Field

def envelopeStr (row : Attestation) (key : String) : Option String :=
  row.envelope.getStr? key

structure ActionRef where
  actorKeyId : String
  actionId : String
  assertedAt : Instant

def isBallotRow (row : Attestation) : Bool :=
  row.dimension == some dimensionUpheld || row.dimension == some dimensionOverruled

def isBallotOn (row : Attestation) (action : ActionRef) (objection : Attestation)
    (now : Instant) : Bool :=
  isBallotRow row &&
    envelopeStr row Field.ballotOn == some objection.attestationId &&
    envelopeStr row Field.objectsTo == some action.actionId &&
    decide (action.assertedAt ≤ row.assertedAt) && decide (row.assertedAt ≤ now)

/-!
## Ballots

One ballot per author counts: the latest, and of two at one instant the one that
upholds.
-/

def upholdRank (b : Attestation) : Nat :=
  if b.dimension = some dimensionUpheld then 1 else 0

def ballotBefore (a b : Attestation) : Prop :=
  a.assertedAt < b.assertedAt ∨
    (a.assertedAt = b.assertedAt ∧
      (upholdRank a < upholdRank b ∨
        (upholdRank a = upholdRank b ∧ a.attestationId ≤ b.attestationId)))

instance : DecidableRel ballotBefore := by
  intro a b
  unfold ballotBefore
  infer_instance

abbrev Ballots :=
  Std.TreeMap String Attestation

def governingBallots (rows : List Attestation) (eligible : List String)
    (notAfter : Option Instant) : Ballots :=
  let heard := rows.filter fun b =>
    eligible.contains b.attestingKeyId && notAfter.all fun t => decide (b.assertedAt ≤ t)
  (heard.insertionSort ballotBefore).foldl (fun out b => out.insert b.attestingKeyId b)
    Std.TreeMap.empty

def tally (governing : Ballots) : Nat × Nat :=
  (governing.values.countP fun b => b.dimension == some dimensionUpheld,
    governing.values.countP fun b => b.dimension == some dimensionOverruled)

/-!
## Escalation of one objection
-/

inductive StewardTierStanding where
  | noDutyHolders
  | awaiting
  | upheld
  | overruled
  | silent
deriving DecidableEq

def StewardTierStanding.escalates : StewardTierStanding -> Bool
  | silent => true
  | overruled => true
  | noDutyHolders => true
  | _ => false

inductive EscalationOutcome where
  | notEscalated
  | unresolved
  | upheld
  | dismissed
deriving DecidableEq

structure ObjectionEscalation where
  objectionId : String
  steward : StewardTierStanding
  outcome : EscalationOutcome
  dutyHolders : Nat
  stewardRulingRequired : Nat
  respondents : Nat
  required : Nat
  upholdBallots : Nat
  overruleBallots : Nat
  countedBallotIds : List String
deriving DecidableEq

def sortIds (ids : List String) : List String :=
  ids.insertionSort (· ≤ ·)

section Escalation

variable [External]

def stewardStanding (ruled : Nat × Nat) (required seats : Nat) (deadlinePassed : Bool) :
    StewardTierStanding :=
  if required ≤ ruled.1 then
    .upheld
  else if required ≤ ruled.2 then
    .overruled
  else if !deadlinePassed then
    .awaiting
  else if seats = 0 then
    .noDutyHolders
  else
    .silent

def escalationOutcome (steward : StewardTierStanding) (ballots : Nat × Nat) (required : Nat) :
    EscalationOutcome :=
  if !steward.escalates then
    .notEscalated
  else if required ≤ ballots.1 then
    .upheld
  else if required ≤ ballots.2 then
    .dismissed
  else
    .unresolved

/-- The actor is recused from the ruling and from the pool, the objector from
the ruling. -/
def escalateObjection (action : ActionRef) (objection : Attestation)
    (ballots : List Attestation) (roster dutyHolders : List String)
    (policy : ReverseQuorumPolicy) (now : Instant) : ObjectionEscalation :=
  let deadline := policy.stewardDeadline action.assertedAt
  let seatedDuty := dutyHolders.filter fun k =>
    k ≠ action.actorKeyId ∧ k ≠ objection.attestingKeyId
  let seatedRoster := roster.filter fun k => k ≠ action.actorKeyId
  let relevant := ballots.filter fun b => isBallotOn b action objection now
  let rulingRequired := ReverseQuorumPolicy.stewardRulingThreshold seatedDuty.length
  let ruled := tally (governingBallots relevant seatedDuty deadline)
  let deadlinePassed := deadline.any fun d => decide (d ≤ now)
  let steward := stewardStanding ruled rulingRequired seatedDuty.length deadlinePassed
  let pool := governingBallots relevant seatedRoster none
  let required := escalatedDismissalRequired policy pool.size
  { objectionId := objection.attestationId
    steward := steward
    outcome := escalationOutcome steward (tally pool) required
    dutyHolders := seatedDuty.length
    stewardRulingRequired := rulingRequired
    respondents := pool.size
    required := required
    upholdBallots := (tally pool).1
    overruleBallots := (tally pool).2
    countedBallotIds := sortIds (pool.values.map Attestation.attestationId) }

/-!
## The fold
-/

inductive ReverseQuorumStanding where
  | notGoverned
  | windowOpen
  | stood
  | reversed
deriving DecidableEq

structure ReverseQuorumFold where
  standing : ReverseQuorumStanding
  policy : Option String
  distinctObjectors : Nat
  required : Nat
  rosterSize : Nat
  windowOpensAt : Instant
  windowClosesAt : Instant
  windowOpen : Bool
  countedObjectionIds : List String
  dismissedObjectionIds : List String
  stewardDeadline : Option Instant
  escalation : List ObjectionEscalation
  escalatedDismissedObjectionIds : List String
deriving DecidableEq

structure ReverseQuorumInputs where
  action : ActionRef
  objections : List Attestation
  dismissals : List Attestation
  ballots : List Attestation
  roster : List String
  dutyHolders : List String
  policy : Option ReverseQuorumPolicy
  now : Instant

structure ObjectionTally where
  objectors : Finset String
  countedIds : List String
  dismissedIds : List String
  escalatedIds : List String
  escalation : List ObjectionEscalation

def ObjectionTally.empty : ObjectionTally where
  objectors := ∅
  countedIds := []
  dismissedIds := []
  escalatedIds := []
  escalation := []

namespace ReverseQuorumInputs

variable (inp : ReverseQuorumInputs)

def dismissedIds : Finset String :=
  ((inp.dismissals.filter fun d => d.dimension == some dimensionDismissal).filterMap
    fun d => envelopeStr d Field.dismisses).toFinset

/-- An objection to the action by a roster member, inside the window. -/
def heard (policy : ReverseQuorumPolicy) (o : Attestation) : Bool :=
  o.dimension == some dimensionObjection &&
    envelopeStr o Field.objectsTo == some inp.action.actionId &&
    inp.roster.contains o.attestingKeyId &&
    decide ((policy.window inp.action.assertedAt).1 ≤ o.assertedAt) &&
    decide (o.assertedAt ≤ (policy.window inp.action.assertedAt).2)

def escalationOf (policy : ReverseQuorumPolicy) (o : Attestation) : ObjectionEscalation :=
  escalateObjection inp.action o inp.ballots inp.roster inp.dutyHolders policy inp.now

def overruled (policy : ReverseQuorumPolicy) (o : Attestation) : Bool :=
  policy.steward.isSome &&
    decide ((inp.escalationOf policy o).outcome = .dismissed)

def counts (policy : ReverseQuorumPolicy) (o : Attestation) : Bool :=
  inp.heard policy o && decide (o.attestationId ∉ inp.dismissedIds) &&
    !inp.overruled policy o

def tallyObjection (policy : ReverseQuorumPolicy) (acc : ObjectionTally) (o : Attestation) :
    ObjectionTally :=
  if !inp.heard policy o then
    acc
  else if o.attestationId ∈ inp.dismissedIds then
    { acc with dismissedIds := acc.dismissedIds ++ [o.attestationId] }
  else
    let acc := if policy.steward.isSome then
        { acc with escalation := acc.escalation ++ [inp.escalationOf policy o] }
      else
        acc
    if inp.overruled policy o then
      { acc with escalatedIds := acc.escalatedIds ++ [o.attestationId] }
    else if o.attestingKeyId ∈ acc.objectors then
      acc
    else
      { acc with
        objectors := insert o.attestingKeyId acc.objectors
        countedIds := acc.countedIds ++ [o.attestationId] }

def objectionTally (policy : ReverseQuorumPolicy) : ObjectionTally :=
  inp.objections.foldl (inp.tallyObjection policy) ObjectionTally.empty

def foldOver : ReverseQuorumFold :=
  match inp.policy with
  | none =>
      { standing := .notGoverned
        policy := none
        distinctObjectors := 0
        required := 0
        rosterSize := inp.roster.length
        windowOpensAt := inp.action.assertedAt
        windowClosesAt := inp.action.assertedAt
        windowOpen := false
        countedObjectionIds := []
        dismissedObjectionIds := []
        stewardDeadline := none
        escalation := []
        escalatedDismissedObjectionIds := [] }
  | some policy =>
      let (opens, closes) := policy.window inp.action.assertedAt
      let required := policy.reversalThreshold inp.roster.length
      let counted := inp.objectionTally policy
      let windowOpen := decide (opens ≤ inp.now) && decide (inp.now ≤ closes)
      { standing :=
          if required ≤ counted.objectors.card then
            .reversed
          else if windowOpen then
            .windowOpen
          else
            .stood
        policy := some policy.toProtocolString
        distinctObjectors := counted.objectors.card
        required := required
        rosterSize := inp.roster.length
        windowOpensAt := opens
        windowClosesAt := closes
        windowOpen := windowOpen
        countedObjectionIds := sortIds counted.countedIds
        dismissedObjectionIds := sortIds counted.dismissedIds
        stewardDeadline := policy.stewardDeadline inp.action.assertedAt
        escalation := counted.escalation.insertionSort
          fun a b => a.objectionId ≤ b.objectionId
        escalatedDismissedObjectionIds := sortIds counted.escalatedIds }

variable {inp}

theorem tallyObjection_objectors
    (policy : ReverseQuorumPolicy) (acc : ObjectionTally) (o : Attestation) :
    (inp.tallyObjection policy acc o).objectors =
      if inp.counts policy o then insert o.attestingKeyId acc.objectors else acc.objectors := by
  unfold tallyObjection counts
  cases inp.heard policy o with
  | false => rfl
  | true =>
      by_cases hdismissed : o.attestationId ∈ inp.dismissedIds
      · simp [hdismissed]
      · cases hoverruled : inp.overruled policy o with
        | true => cases policy.steward.isSome <;> simp [hdismissed]
        | false =>
            by_cases hseen : o.attestingKeyId ∈ acc.objectors <;>
              cases policy.steward.isSome <;> simp [hdismissed, hseen]

theorem mem_objectors_iff
    (policy : ReverseQuorumPolicy) (k : String) :
    k ∈ (inp.objectionTally policy).objectors <->
      exists o, o ∈ inp.objections ∧ inp.counts policy o = true ∧ o.attestingKeyId = k := by
  have hfold : forall (rows : List Attestation) (acc : ObjectionTally),
      k ∈ (rows.foldl (inp.tallyObjection policy) acc).objectors <->
        k ∈ acc.objectors ∨
          exists o, o ∈ rows ∧ inp.counts policy o = true ∧ o.attestingKeyId = k := by
    intro rows
    induction rows with
    | nil => simp
    | cons o rest ih =>
        intro acc
        rw [List.foldl_cons, ih, tallyObjection_objectors]
        cases hcounts : inp.counts policy o with
        | false => simp [hcounts]
        | true =>
            simp only [if_true, Finset.mem_insert, List.mem_cons, exists_eq_or_imp, hcounts,
              true_and]
            constructor
            · rintro ((rfl | hold) | hrest)
              · exact Or.inr (Or.inl rfl)
              · exact Or.inl hold
              · exact Or.inr (Or.inr hrest)
            · rintro (hold | rfl | hrest)
              · exact Or.inl (Or.inr hold)
              · exact Or.inl (Or.inl rfl)
              · exact Or.inr hrest
  rw [objectionTally, hfold]
  simp [ObjectionTally.empty]

theorem foldOver_reversed_iff
    {policy : ReverseQuorumPolicy} (hpolicy : inp.policy = some policy) :
    inp.foldOver.standing = .reversed <->
      policy.reversalThreshold inp.roster.length ≤ (inp.objectionTally policy).objectors.card := by
  unfold foldOver
  rw [hpolicy]
  simp only
  split
  · rename_i hreached
    simp [hreached]
  · rename_i hshort
    simp only [hshort, iff_false]
    split <;> simp

end ReverseQuorumInputs

end Escalation

end ReverseQuorum

end CirisPersist.Federation
