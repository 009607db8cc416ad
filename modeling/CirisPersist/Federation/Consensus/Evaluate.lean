import CirisPersist.Base.Json
import CirisPersist.Federation.ReverseQuorum.Policy
import Mathlib.Data.Finset.Card

/-!
# The consensus evaluator

A membership change is admitted by evaluating the group's current
`consensus_protocol` over the keys that signed the change.  This module is the
evaluator as the source computes it: the plain forms, the weighted rubrics and
the custom expressions declared in the group's `policy_blob`.
-/

namespace CirisPersist.Federation

open ConsensusProtocol

/-!
## Ballots and verdicts
-/

def memberRoleFounder :=
  "founder"

def rubricUniformHalf :=
  "uniform_half"

def maxCustomDepth : Nat :=
  8

def openSelfAdmitRemovalFloor : Nat :=
  2

def cohortSubkindPublic :=
  "public"

def cohortSubkindInfrastructure :=
  "infrastructure"

inductive Direction where
  | add
  | remove
deriving DecidableEq

structure Seat where
  keyId : String
  role : Option String
  nodeBearing : Bool
deriving DecidableEq

def Seat.isFounder (s : Seat) : Bool :=
  s.role == some memberRoleFounder

structure Ballot where
  protocol : String
  subkind : Option String
  policyBlob : Option Json
  roster : List Seat
  signers : Finset String
  direction : Direction
  subject : Option String

inductive Verdict where
  | admitted
  | insufficient (detail : String)
  | unevaluable (reason : String)
deriving DecidableEq

def Verdict.admits : Verdict -> Bool
  | admitted => true
  | _ => false

/-- The eligible set: founders that are not node-bearing in an
`infrastructure` group, the whole active roster otherwise. -/
def eligible (b : Ballot) : List Seat :=
  let foundersOnly := b.subkind == some cohortSubkindInfrastructure
  b.roster.filter fun s => !foundersOnly || (s.isFounder && !s.nodeBearing)

def counted (elig : List Seat) (signers : Finset String) : List Seat :=
  elig.filter fun s => decide (s.keyId ∈ signers)

/-!
## Rubric arithmetic

Rubric weights are machine floats in the source.  The evaluator is written over
any type with the operations it uses, so that what holds of every arithmetic is
proved of every arithmetic.
-/

class RubricNum (W : Type) where
  ofJson : JsonNumber -> W
  zero : W
  one : W
  add : W -> W -> W
  mul : W -> W -> W
  max : W -> W -> W
  le : W -> W -> Bool
  ceilHalf : Nat -> W
  minPositive : W
  isFinite : W -> Bool
  render : W -> String

def RubricNum.sum {W : Type} [RubricNum W] (ws : List W) : W :=
  ws.foldl RubricNum.add RubricNum.zero

instance exactRubric : RubricNum Rat where
  ofJson
    | .int n => n
    | .float q => q
  zero := 0
  one := 1
  add := (· + ·)
  mul := (· * ·)
  max a b := if a ≤ b then b else a
  le a b := decide (a ≤ b)
  ceilHalf n := (((n + 1) / 2 : Nat) : Rat)
  minPositive := 1 / 2 ^ 1022
  isFinite _ := true
  render := toString

/-!
## Weighted rubrics
-/

section Weighted

variable (W : Type) [RubricNum W]

def asWeight (v : Json) : Option W :=
  v.asNumber.map RubricNum.ofJson

/-- The weight of a seat under a declared rubric: by key, else by role, else the
declared default. -/
def declaredWeight (decl : Json) (s : Seat) : W :=
  let weights := (decl.get? "weights").getD .null
  let default := ((decl.get? "default_weight").bind (asWeight W)).getD
    RubricNum.zero
  let byKey := (weights.get? s.keyId).bind (asWeight W)
  let byRole := (s.role.bind fun r => weights.get? ("role:" ++ r)).bind
    (asWeight W)
  (byKey.or byRole).getD default

def declaredThreshold (decl : Json) (total : W) : Option W :=
  match (decl.get? "threshold").bind (asWeight W),
      (decl.get? "threshold_fraction").bind (asWeight W) with
  | some t, none => some t
  | none, some f =>
      if RubricNum.le RubricNum.zero f && RubricNum.le f RubricNum.one then
        some (RubricNum.max (RubricNum.mul f total) RubricNum.minPositive)
      else
        none
  | _, _ => none

def declaredRubric (b : Ballot) (rubric : String) : Option Json :=
  (b.policyBlob.bind (·.get? "rubrics")).bind (·.get? rubric)

/-- The weight function and the threshold of a rubric, or the reason why the
rubric cannot be evaluated. -/
def resolveRubric (b : Ballot) (elig : List Seat) (rubric : String) :
    Except String ((Seat -> W) × W) :=
  if rubric = rubricUniformHalf then
    .ok (fun _ => RubricNum.one, RubricNum.ceilHalf elig.length)
  else
    match declaredRubric b rubric with
    | none =>
        .error
          s!"weighted:{rubric} is not declared in the group record's policy_blob.rubrics"
    | some decl =>
        let w := declaredWeight W decl
        match declaredThreshold W decl (RubricNum.sum (elig.map w)) with
        | none =>
            .error
              s!"weighted:{rubric} must declare exactly one of threshold / threshold_fraction (0..=1)"
        | some threshold =>
            if !RubricNum.isFinite threshold || RubricNum.le threshold RubricNum.zero then
              .error s!"weighted:{rubric} threshold must be positive"
            else
              .ok (w, threshold)

def evalWeighted (b : Ballot) (elig got : List Seat) (rubric : String) : Verdict :=
  match resolveRubric W b elig rubric with
  | .error reason => .unevaluable reason
  | .ok (weightOf, threshold) =>
      let total := RubricNum.sum (got.map weightOf)
      if RubricNum.le threshold total then
        .admitted
      else
        let have_ := RubricNum.render total
        let need := RubricNum.render threshold
        .insufficient s!"weighted:{rubric}: {have_} of {need} weight"

end Weighted

/-!
## The plain forms

One definition for each arm of the evaluator.  `got` is the list of eligible
seats whose key signed and `n` the number of eligible seats.
-/

def seated (b : Ballot) (k : String) : Bool :=
  b.roster.any fun s => s.keyId == k

def voicesBesides (got : List Seat) (subject : Option String) : Nat :=
  got.countP fun s => some s.keyId != subject

def evaluateOpenSelfAdmitVoices (b : Ballot) (got : List Seat) : Verdict :=
  let voices := voicesBesides got b.subject
  if openSelfAdmitRemovalFloor ≤ voices then
    .admitted
  else
    .insufficient
      s!"open:self_admit: {voices} distinct voice(s) besides the member named; one vote never decides who is in a room (at least {openSelfAdmitRemovalFloor})"

def evaluateOpenSelfAdmit (b : Ballot) (got : List Seat) : Verdict :=
  if b.subkind != some cohortSubkindPublic then
    .unevaluable
      "open:self_admit is admissible only on a public group (CC 4.4.3.2)"
  else
    match b.direction, b.subject with
    | .add, some k =>
        if seated b k then
          evaluateOpenSelfAdmitVoices b got
        else if k ∈ b.signers then
          .admitted
        else
          .insufficient
            s!"open:self_admit: the joiner {k} did not sign their own admission"
    | _, _ => evaluateOpenSelfAdmitVoices b got

def parseQuorumTail (tail : String) : Option (Nat × Nat) := do
  let (mText, nText) ← Text.splitOnce "/" tail
  let m ← Text.parseU32 mText
  let n ← Text.parseU32 nText
  if 0 < n ∧ m ≤ n then some (m, n) else none

def evalFounderOnly (got : List Seat) : Verdict :=
  if got.any Seat.isFounder then
    .admitted
  else
    .insufficient "founder_only: no signer is an active founder"

/-- A removal is signed by every other active member and by a strict majority of
the roster; any other change by every eligible seat. -/
def evalUnanimous (b : Ballot) (elig got : List Seat) : Verdict :=
  let n := elig.length
  match b.direction, b.subject with
  | .remove, some removed =>
      let voices := voicesBesides got (some removed)
      let others := voicesBesides elig (some removed)
      if voices = others ∧ n < 2 * voices then
        .admitted
      else
        .insufficient
          s!"unanimous removal: {voices} of the {others} other members signed, of {n}, and a strict majority of the roster is needed"
  | _, _ =>
      if got.length = n then
        .admitted
      else
        .insufficient s!"unanimous: {got.length} of {n} signed"

def evalMajority (elig got : List Seat) : Verdict :=
  if elig.length < 2 * got.length then
    .admitted
  else
    .insufficient
      s!"majority: {got.length} of {elig.length} signed, more than half needed"

def evalReverseQuorum [External] (b : Ballot) (elig got : List Seat) : Verdict :=
  match ReverseQuorumPolicy.parse b.protocol with
  | none =>
      .unevaluable ("malformed reverse_quorum form " ++ Text.debugStr b.protocol)
  | some policy =>
      match b.direction with
      | .remove => .admitted
      | .add =>
          let need := policy.dismissalThreshold elig.length
          if need ≤ got.length then
            .admitted
          else
            .insufficient
              s!"reverse_quorum addition: {got.length} of {need} signatures"

def evalQuorum (b : Ballot) (got : List Seat) (tail : String) : Verdict :=
  match parseQuorumTail tail with
  | none => .unevaluable ("malformed quorum form " ++ Text.debugStr b.protocol)
  | some (m, _) =>
      let need := max m 1
      if need ≤ got.length then
        .admitted
      else
        .insufficient s!"quorum: {got.length} of {need} signatures"

/-!
## Leaf protocols

A custom expression asks for a quorum or a rubric by building the protocol
string of that form.  Neither string is itself a `custom:` form.
-/

def quorumLeaf (elig : List Seat) (m : Nat) : String :=
  ConsensusProtocol.quorumPrefix ++ toString m ++ "/"
    ++ toString (max (max elig.length m) 1)

variable (r : String)

theorem stripPrefix_custom_weighted :
    Text.stripPrefix customPrefix (weightedPrefix ++ r) = none := by
  simp [Text.stripPrefix, customPrefix, weightedPrefix, List.isPrefixOf?]

variable (elig : List Seat) (m : Nat)

theorem stripPrefix_custom_quorumLeaf :
    Text.stripPrefix customPrefix (quorumLeaf elig m) = none := by
  simp [Text.stripPrefix, quorumLeaf, customPrefix, quorumPrefix, List.isPrefixOf?]

theorem stripPrefix_weighted_quorumLeaf :
    Text.stripPrefix weightedPrefix (quorumLeaf elig m) = none := by
  simp [Text.stripPrefix, quorumLeaf, weightedPrefix, quorumPrefix, List.isPrefixOf?]

theorem stripPrefix_quorum_weighted :
    Text.stripPrefix quorumPrefix (weightedPrefix ++ r) = none := by
  simp [Text.stripPrefix, quorumPrefix, weightedPrefix, List.isPrefixOf?]

theorem startsWith_reverseQuorum_quorumLeaf :
    Text.startsWith reverseQuorumPrefix (quorumLeaf elig m) = false := by
  simp [Text.startsWith, quorumLeaf, reverseQuorumPrefix, quorumPrefix, List.isPrefixOf]

theorem startsWith_reverseQuorum_weighted :
    Text.startsWith reverseQuorumPrefix (weightedPrefix ++ r) = false := by
  simp [Text.startsWith, reverseQuorumPrefix, weightedPrefix, List.isPrefixOf]

theorem quorumLeaf_ne_openSelfAdmit :
    quorumLeaf elig m ≠ openSelfAdmit := by
  intro h
  have hchars := congrArg String.toList h
  simp [quorumLeaf, quorumPrefix, openSelfAdmit] at hchars

theorem weightedLeaf_ne_openSelfAdmit :
    weightedPrefix ++ r ≠ openSelfAdmit := by
  intro h
  have hchars := congrArg String.toList h
  simp [weightedPrefix, openSelfAdmit] at hchars

/-!
## The evaluator with its custom arm left open

A custom expression re-enters the evaluator at its leaves, always under a form
that is not `custom:`.  The evaluator is therefore defined over the handler of
the custom arm, and closed afterwards by the expression evaluator.
-/

section Evaluate

variable (W : Type) [RubricNum W] [External]

/-- The self-signed admission that only `open:self_admit` allows. -/
def selfSigned (b : Ballot) : Bool :=
  b.direction == .add &&
    b.subject.any fun k => b.signers.card == 1 && decide (k ∈ b.signers)

/-- The arms of the evaluator, reached once the guards have passed. -/
def evaluateArms (custom : String -> Verdict) (b : Ballot) (elig got : List Seat) :
    Verdict :=
  if b.protocol = ConsensusProtocol.founderOnly then
    evalFounderOnly got
  else if b.protocol = ConsensusProtocol.unanimous then
    evalUnanimous b elig got
  else if b.protocol = ConsensusProtocol.majority then
    evalMajority elig got
  else if Text.startsWith ConsensusProtocol.reverseQuorumPrefix b.protocol then
    evalReverseQuorum b elig got
  else
    match Text.stripPrefix ConsensusProtocol.quorumPrefix b.protocol with
    | some tail => evalQuorum b got tail
    | none =>
        match Text.stripPrefix ConsensusProtocol.weightedPrefix b.protocol with
        | some rubric => evalWeighted W b elig got rubric
        | none =>
            match Text.stripPrefix ConsensusProtocol.customPrefix b.protocol with
            | some id => custom id
            | none =>
                .unevaluable
                  (Text.debugStr b.protocol ++ " is not a canonical consensus_protocol form")

def evaluateForm (custom : String -> Verdict) (b : Ballot) : Verdict :=
  let elig := eligible b
  let got := counted elig b.signers
  if b.protocol = ConsensusProtocol.openSelfAdmit then
    evaluateOpenSelfAdmit b got
  else if selfSigned b then
    .insufficient
      ("a self-signed admission is admitted only under open:self_admit; "
        ++ Text.debugStr b.protocol ++ " needs the group's side")
  else if got.isEmpty then
    .insufficient
      (s!"no signer is an eligible member ({elig.length} eligible under "
        ++ Text.debugStr b.protocol ++ ")")
  else
    evaluateArms W custom b elig got

/-!
## Custom expressions

`levels` counts the nesting levels that are left: the source starts at depth
zero and refuses a node deeper than `MAX_CUSTOM_DEPTH`.
-/

def notReached (_ : String) : Verdict :=
  .unevaluable "a leaf is never a custom form"

/-- The `any_of` / `all_of` loop: an unevaluable item ends it, `any_of` stops at
the first admit and `all_of` at the first refusal. -/
def evalItems (anyOf : Bool) (evalItem : Json -> Verdict) :
    Option Verdict -> List Json -> Verdict
  | lastInsufficient, [] =>
      if anyOf then
        lastInsufficient.getD (.insufficient "any_of: nothing admitted")
      else
        .admitted
  | lastInsufficient, item :: items =>
      match evalItem item with
      | .admitted =>
          if anyOf then .admitted
          else evalItems anyOf evalItem lastInsufficient items
      | .unevaluable reason => .unevaluable reason
      | .insufficient detail =>
          if anyOf then
            evalItems anyOf evalItem (some (.insufficient detail)) items
          else
            .insufficient detail

def evalRole (got : List Seat) (arg : Json) : Verdict :=
  match arg.getStr? "name", arg.getU64? "min" with
  | some name, some minimum =>
      let have_ := got.countP fun s => s.role == some name
      let need := max minimum 1
      if need ≤ have_ then
        .admitted
      else
        .insufficient s!"role {name}: {have_} of {need} signatures"
  | _, _ =>
      .unevaluable "role takes \x7b\"name\": r, \"min\": M\x7d"

def evalSub (b : Ballot) (protocol : String) : Verdict :=
  evaluateForm W notReached { b with protocol := protocol }

def evalLeaf (b : Ballot) (elig got : List Seat) (op : String) (arg : Json) :
    Verdict :=
  if op = "founder" then
    evalSub W b ConsensusProtocol.founderOnly
  else if op = "majority" then
    evalSub W b ConsensusProtocol.majority
  else if op = "unanimous" then
    evalSub W b ConsensusProtocol.unanimous
  else if op = "quorum" then
    match arg.asU64 with
    | some m => evalSub W b (quorumLeaf elig m)
    | none => .unevaluable "quorum takes an absolute integer M"
  else if op = "weighted" then
    match arg.asStr with
    | some r => evalSub W b (ConsensusProtocol.weightedPrefix ++ r)
    | none => .unevaluable "weighted takes a rubric name"
  else if op = "role" then
    evalRole got arg
  else
    .unevaluable ("unknown custom expression node " ++ Text.debugStr op)

def evalExpr (b : Ballot) (elig got : List Seat) : Nat -> Json -> Verdict
  | 0, _ =>
      .unevaluable s!"custom expression nests deeper than {maxCustomDepth}"
  | levels + 1, expr =>
      match expr.asObject with
      | some [(op, arg)] =>
          if op = "any_of" ∨ op = "all_of" then
            match arg.asArray with
            | some (item :: items) =>
                evalItems (op == "any_of") (evalExpr b elig got levels) none
                  (item :: items)
            | _ => .unevaluable s!"{op} takes a non-empty array"
          else
            evalLeaf W b elig got op arg
      | _ =>
          .unevaluable
            "a custom expression node is an object with exactly one key"

def evalCustom (b : Ballot) (id : String) : Verdict :=
  match (b.policyBlob.bind (·.get? "custom")).bind (·.get? id) with
  | none =>
      .unevaluable
        s!"custom:{id} is not declared in the group record's policy_blob.custom"
  | some expr =>
      let elig := eligible b
      evalExpr W b elig (counted elig b.signers) (maxCustomDepth + 1) expr

def evaluate (b : Ballot) : Verdict :=
  evaluateForm W (evalCustom W b) b

/-!
## Leaves re-enter the evaluator

No leaf names a `custom:` form, so the handler left open above is never asked,
and a leaf is the evaluator itself under the leaf's protocol.
-/

theorem evaluateForm_congr_custom
    {b : Ballot} (custom custom' : String -> Verdict)
    (h : Text.stripPrefix customPrefix b.protocol = none) :
    evaluateForm W custom b = evaluateForm W custom' b := by
  simp only [evaluateForm, evaluateArms, h]

theorem evalSub_eq_evaluate
    (b : Ballot) {protocol : String} (h : Text.stripPrefix customPrefix protocol = none) :
    evalSub W b protocol = evaluate W { b with protocol := protocol } :=
  evaluateForm_congr_custom W _ _ h

theorem evalLeaf_reenters
    (b : Ballot) (elig got : List Seat) (op : String) (arg : Json) :
    evalLeaf W b elig got op arg =
      if op = "founder" then
        evaluate W { b with protocol := founderOnly }
      else if op = "majority" then
        evaluate W { b with protocol := majority }
      else if op = "unanimous" then
        evaluate W { b with protocol := unanimous }
      else if op = "quorum" then
        match arg.asU64 with
        | some m => evaluate W { b with protocol := quorumLeaf elig m }
        | none => .unevaluable "quorum takes an absolute integer M"
      else if op = "weighted" then
        match arg.asStr with
        | some r => evaluate W { b with protocol := weightedPrefix ++ r }
        | none => .unevaluable "weighted takes a rubric name"
      else if op = "role" then
        evalRole got arg
      else
        .unevaluable ("unknown custom expression node " ++ Text.debugStr op) := by
  unfold evalLeaf
  rw [evalSub_eq_evaluate W b (by decide), evalSub_eq_evaluate W b (by decide),
    evalSub_eq_evaluate W b (by decide)]
  simp only [evalSub_eq_evaluate W b (stripPrefix_custom_quorumLeaf elig _),
    evalSub_eq_evaluate W b (stripPrefix_custom_weighted _)]

end Evaluate

end CirisPersist.Federation
