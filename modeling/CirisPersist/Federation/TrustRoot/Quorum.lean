import CirisPersist.Federation.Consensus.Evaluate
import CirisPersist.Federation.ReverseQuorum.Resolve

/-!
# The quorum of a family

How many distinct seated holders of a family signed an envelope, against the
threshold the node's own state demands of the family.
-/

namespace CirisPersist.Federation

open ConsensusProtocol

structure Family where
  familyKeyId : String
  consensusProtocol : String
deriving DecidableEq

structure CharterQuorum where
  distinctHolders : Nat
  required : Nat
  rosterSize : Nat
deriving DecidableEq

def CharterQuorum.met (q : CharterQuorum) : Bool :=
  decide (q.required ≤ q.distinctHolders)

namespace TrustRoot

section Threshold

variable [External]

/-- The count a protocol asks of a roster, where it asks for a count. -/
def requiredSignatures (protocol : String) (rosterSize : Nat) : Option Nat :=
  if protocol = ConsensusProtocol.unanimous then
    some (max rosterSize 1)
  else if protocol = ConsensusProtocol.majority then
    some (rosterSize / 2 + 1)
  else if Text.startsWith ConsensusProtocol.reverseQuorumPrefix protocol then
    (ReverseQuorumPolicy.parse protocol).map fun p => p.dismissalThreshold rosterSize
  else
    (Text.stripPrefix ConsensusProtocol.quorumPrefix protocol).bind fun tail =>
      (parseQuorumTail tail).map fun mn => max mn.1 1

/-- Never below a strict majority of the roster; a form without a count asks for the
whole roster. -/
def familyCharterThreshold (family : Family) (rosterSize : Nat) : Nat :=
  let floor := External.strictMajority rosterSize
  let policy :=
    if Text.startsWith ConsensusProtocol.reverseQuorumPrefix family.consensusProtocol then
      rosterSize
    else
      match requiredSignatures family.consensusProtocol rosterSize with
      | some n => n
      | none =>
          if family.consensusProtocol = ConsensusProtocol.founderOnly then floor else rosterSize
  max policy floor

def familyQuorumHoldersOverRoster (dir : GroupDirectory) (envelope : Json)
    (scrubs : List ScrubSig) (family : Family) (roster : List String) :
    CharterQuorum × Finset String :=
  let counted := ReverseQuorum.countDistinctRosterScrubs dir envelope scrubs roster
  (⟨counted.card, familyCharterThreshold family roster.length, roster.length⟩, counted)

end Threshold

theorem mem_countDistinctRosterScrubs
    (dir : GroupDirectory) (envelope : Json) (scrubs : List ScrubSig) (roster : List String)
    {k : String} (h : k ∈ ReverseQuorum.countDistinctRosterScrubs dir envelope scrubs roster) :
    k ∈ roster ∧ exists s, s ∈ scrubs ∧ s.scrubKeyId = k := by
  -- what the loop has counted so far, plus what the rest may add
  have hloop : forall (rest : List ScrubSig) (counted : Finset String),
      k ∈ rest.foldl (fun counted scrub =>
        if scrub.scrubKeyId ∈ counted ∨ scrub.scrubKeyId ∉ roster then counted
        else if dir.verifiesEnvelope envelope scrub then insert scrub.scrubKeyId counted
        else counted) counted ->
      k ∈ counted ∨ k ∈ roster ∧ exists s, s ∈ rest ∧ s.scrubKeyId = k := by
    intro rest
    induction rest with
    | nil =>
        intro counted hk
        exact Or.inl hk
    | cons scrub rest ih =>
        intro counted hk
        rw [List.foldl_cons] at hk
        rcases ih _ hk with hcounted | ⟨hroster, s, hs, hkey⟩
        · split at hcounted
          · exact Or.inl hcounted
          · next hskip =>
            split at hcounted
            · rcases Finset.mem_insert.mp hcounted with rfl | hcounted
              · exact Or.inr ⟨not_not.mp (not_or.mp hskip).2, scrub, List.mem_cons_self, rfl⟩
              · exact Or.inl hcounted
            · exact Or.inl hcounted
        · exact Or.inr ⟨hroster, s, List.mem_cons_of_mem _ hs, hkey⟩
  rcases hloop scrubs ∅ h with hempty | hfound
  · exact absurd hempty (Finset.notMem_empty k)
  · exact hfound

/-!
## The count and the evaluator

A door that only counts asks `requiredSignatures`; the evaluator decides on the ballot.  On
an addition that names no one they ask for the same.
-/

section Agreement

def eligibleSigners (b : Ballot) : Finset String :=
  ((eligible b).map Seat.keyId).toFinset ∩ b.signers

variable {b : Ballot}

theorem length_counted
    (hdistinct : (b.roster.map Seat.keyId).Nodup) :
    (counted (eligible b) b.signers).length = (eligibleSigners b).card := by
  have hnodup : ((counted (eligible b) b.signers).map Seat.keyId).Nodup :=
    hdistinct.sublist ((List.filter_sublist.trans List.filter_sublist).map _)
  have hsame : eligibleSigners b = ((counted (eligible b) b.signers).map Seat.keyId).toFinset := by
    ext k
    simp only [eligibleSigners, counted, Finset.mem_inter, List.mem_toFinset, List.mem_map,
      List.mem_filter, decide_eq_true_iff]
    constructor
    · rintro ⟨⟨s, hs, rfl⟩, hsigned⟩
      exact ⟨s, ⟨hs, hsigned⟩, rfl⟩
    · rintro ⟨s, ⟨hs, hsigned⟩, rfl⟩
      exact ⟨⟨s, hs, rfl⟩, hsigned⟩
  rw [hsame, List.toFinset_card_of_nodup hnodup, List.length_map]

variable {elig got : List Seat}

theorem evalUnanimous_admitted_iff
    (hdirection : b.direction = .add) :
    evalUnanimous b elig got = .admitted <-> got.length = elig.length := by
  unfold evalUnanimous
  simp only [hdirection]
  split <;> simp_all

theorem evalMajority_admitted_iff
    (elig got : List Seat) :
    evalMajority elig got = .admitted <-> elig.length / 2 + 1 ≤ got.length := by
  unfold evalMajority
  split
  · simp only [true_iff]
    omega
  · simp only [reduceCtorEq, false_iff]
    omega

theorem evalQuorum_admitted_iff
    (b : Ballot) (got : List Seat) (tail : String) :
    evalQuorum b got tail = .admitted <->
      exists mn, parseQuorumTail tail = some mn ∧ max mn.1 1 ≤ got.length := by
  unfold evalQuorum
  cases hparse : parseQuorumTail tail with
  | none => simp
  | some mn =>
      simp only [Option.some.injEq, exists_eq_left']
      split
      · next h => exact iff_of_true rfl h
      · next h => exact iff_of_false Verdict.noConfusion h

variable {W : Type} [RubricNum W] [External]

theorem evalReverseQuorum_admitted_iff
    (hdirection : b.direction = .add) :
    evalReverseQuorum b elig got = .admitted <->
      exists policy, ReverseQuorumPolicy.parse b.protocol = some policy ∧
        policy.dismissalThreshold elig.length ≤ got.length := by
  unfold evalReverseQuorum
  cases hparse : ReverseQuorumPolicy.parse b.protocol with
  | none => simp
  | some policy =>
      simp only [hdirection, Option.some.injEq, exists_eq_left']
      split <;> simp_all

theorem evaluate_admitted_iff
    (hopen : b.protocol ≠ openSelfAdmit) (hsubject : b.subject = none) :
    evaluate W b = .admitted <->
      0 < (counted (eligible b) b.signers).length ∧
        evaluateArms W (evalCustom W b) b (eligible b) (counted (eligible b) b.signers) =
          .admitted := by
  have hself : selfSigned b = false := by
    simp [selfSigned, hsubject]
  unfold evaluate evaluateForm
  simp only [hopen, if_false, hself, Bool.false_eq_true]
  cases hgot : counted (eligible b) b.signers with
  | nil => simp
  | cons s rest => simp

theorem requiredSignatures_eq_none
    {form : String} (h : form = founderOnly ∨ form = openSelfAdmit) (n : Nat) :
    requiredSignatures form n = none := by
  have hquorum : Text.stripPrefix quorumPrefix form = none := by
    rcases h with rfl | rfl <;> decide
  unfold requiredSignatures
  rw [hquorum]
  rcases h with rfl | rfl <;> rfl

theorem arms_of_required
    (custom : String -> Verdict) {k : Nat} (hdirection : b.direction = .add)
    (hle : got.length ≤ elig.length) (hk : requiredSignatures b.protocol elig.length = some k) :
    0 < got.length ∧ evaluateArms W custom b elig got = .admitted <-> k ≤ got.length := by
  have hfounder : b.protocol ≠ founderOnly := by
    intro hform
    rw [requiredSignatures_eq_none (Or.inl hform)] at hk
    cases hk
  unfold requiredSignatures at hk
  unfold evaluateArms
  rw [if_neg hfounder]
  by_cases hunanimous : b.protocol = unanimous
  · rw [if_pos hunanimous, Option.some.injEq] at hk
    rw [if_pos hunanimous, evalUnanimous_admitted_iff hdirection, ← hk]
    omega
  by_cases hmajority : b.protocol = majority
  · rw [if_neg hunanimous, if_pos hmajority, Option.some.injEq] at hk
    rw [if_neg hunanimous, if_pos hmajority, evalMajority_admitted_iff, ← hk]
    omega
  rw [if_neg hunanimous, if_neg hmajority] at hk ⊢
  by_cases hreverse : Text.startsWith reverseQuorumPrefix b.protocol = true
  · rw [if_pos hreverse] at hk ⊢
    rcases Option.map_eq_some_iff.mp hk with ⟨policy, hparse, hneed⟩
    have hpos : 1 ≤ policy.dismissalThreshold elig.length := le_max_right _ _
    rw [evalReverseQuorum_admitted_iff hdirection, ← hneed]
    simp only [hparse, Option.some.injEq, exists_eq_left']
    omega
  · rw [if_neg hreverse] at hk ⊢
    rcases Option.bind_eq_some_iff.mp hk with ⟨tail, htail, hmap⟩
    rcases Option.map_eq_some_iff.mp hmap with ⟨mn, hparse, hneed⟩
    rw [htail, ← hneed]
    simp only [evalQuorum_admitted_iff, hparse, Option.some.injEq, exists_eq_left']
    omega

theorem arms_of_no_count
    {custom : String -> Verdict} (hdirection : b.direction = .add)
    (hnone : requiredSignatures b.protocol elig.length = none)
    (hadmitted : evaluateArms W custom b elig got = .admitted) :
    b.protocol = founderOnly ∨
      (Text.stripPrefix weightedPrefix b.protocol).isSome = true ∨
      (Text.stripPrefix customPrefix b.protocol).isSome = true := by
  unfold requiredSignatures at hnone
  unfold evaluateArms at hadmitted
  by_cases hfounder : b.protocol = founderOnly
  · exact Or.inl hfounder
  refine Or.inr ?_
  rw [if_neg hfounder] at hadmitted
  by_cases hunanimous : b.protocol = unanimous
  · rw [if_pos hunanimous] at hnone
    cases hnone
  by_cases hmajority : b.protocol = majority
  · rw [if_neg hunanimous, if_pos hmajority] at hnone
    cases hnone
  rw [if_neg hunanimous, if_neg hmajority] at hnone hadmitted
  by_cases hreverse : Text.startsWith reverseQuorumPrefix b.protocol = true
  · rw [if_pos hreverse] at hnone hadmitted
    rcases (evalReverseQuorum_admitted_iff hdirection).mp hadmitted with ⟨policy, hparse, _⟩
    rw [hparse] at hnone
    cases hnone
  rw [if_neg hreverse] at hnone hadmitted
  cases hquorum : Text.stripPrefix quorumPrefix b.protocol with
  | some tail =>
      rw [hquorum] at hnone hadmitted
      rcases (evalQuorum_admitted_iff b got tail).mp hadmitted with ⟨mn, hparse, _⟩
      rw [Option.bind_some, hparse] at hnone
      cases hnone
  | none =>
      rw [hquorum] at hadmitted
      cases hweighted : Text.stripPrefix weightedPrefix b.protocol with
      | some rubric => exact Or.inl rfl
      | none =>
          cases hcustom : Text.stripPrefix customPrefix b.protocol with
          | some id => exact Or.inr rfl
          | none =>
              rw [hweighted, hcustom] at hadmitted
              cases hadmitted

variable (W) in
/-- The count other doors use agrees with the evaluator: where there is one, an addition that
names no one is admitted just when that many eligible seats signed it; where there is
none, the form does not count or admits nothing. -/
theorem required_signatures_agree
    (b : Ballot) (hdistinct : (b.roster.map Seat.keyId).Nodup) (hall : eligible b = b.roster)
    (hdirection : b.direction = Direction.add) (hsubject : b.subject = none) :
    (forall k, requiredSignatures b.protocol b.roster.length = some k ->
      (evaluate W b = Verdict.admitted <-> k ≤ (eligibleSigners b).card)) ∧
    (requiredSignatures b.protocol b.roster.length = none ->
      b.protocol = ConsensusProtocol.founderOnly ∨
        b.protocol = ConsensusProtocol.openSelfAdmit ∨
        (Text.stripPrefix ConsensusProtocol.weightedPrefix b.protocol).isSome = true ∨
        (Text.stripPrefix ConsensusProtocol.customPrefix b.protocol).isSome = true ∨
        evaluate W b ≠ Verdict.admitted) := by
  have hle : (counted (eligible b) b.signers).length ≤ (eligible b).length :=
    List.filter_sublist.length_le
  rw [← length_counted hdistinct, ← hall]
  constructor
  · intro k hk
    have hopen : b.protocol ≠ ConsensusProtocol.openSelfAdmit := by
      intro hform
      rw [requiredSignatures_eq_none (Or.inr hform)] at hk
      cases hk
    rw [evaluate_admitted_iff hopen hsubject]
    exact arms_of_required (evalCustom W b) hdirection hle hk
  · intro hnone
    by_cases hopen : b.protocol = ConsensusProtocol.openSelfAdmit
    · exact Or.inr (Or.inl hopen)
    by_cases hadmitted : evaluate W b = Verdict.admitted
    · have harms := ((evaluate_admitted_iff hopen hsubject).mp hadmitted).2
      rcases arms_of_no_count hdirection hnone harms with hfounder | hweighted | hcustom
      · exact Or.inl hfounder
      · exact Or.inr (Or.inr (Or.inl hweighted))
      · exact Or.inr (Or.inr (Or.inr (Or.inl hcustom)))
    · exact Or.inr (Or.inr (Or.inr (Or.inr hadmitted)))

end Agreement

def majorityBallot : Ballot where
  protocol := "majority"
  subkind := none
  policyBlob := none
  roster := [⟨"ada", none, false⟩, ⟨"ben", none, false⟩, ⟨"cy", none, false⟩]
  signers := {"ada", "cy"}
  direction := .add
  subject := none

open Reference in
theorem majorityBallot_agrees :
    (majorityBallot.roster.map Seat.keyId).Nodup ∧ eligible majorityBallot = majorityBallot.roster ∧
      requiredSignatures majorityBallot.protocol majorityBallot.roster.length = some 2 ∧
      evaluate Rat majorityBallot = .admitted := by
  have hdistinct : (majorityBallot.roster.map Seat.keyId).Nodup := by decide
  have hcount : requiredSignatures majorityBallot.protocol majorityBallot.roster.length =
      some 2 := by decide
  have hagree := (required_signatures_agree Rat majorityBallot hdistinct rfl rfl rfl).1 2 hcount
  exact ⟨hdistinct, rfl, hcount, hagree.mpr (by decide)⟩

end TrustRoot

end CirisPersist.Federation
