import CirisPersist.Federation.ReverseQuorum.Rows
import CirisPersist.Library.Grouping

/-!
# What an escalated dismissal costs

Once the appointed moderators have ruled against an objection or let their
deadline pass, the commons may overrule it.  The loops keep one ballot per author
in an ordered map; here the record they produce is read as a count of members, each
by the ballot that governs among their own.
-/

namespace CirisPersist.Federation
namespace ReverseQuorum

/-!
## Governing ballots
-/

def ballotsBy (rows : List Attestation) (notAfter : Option Instant) (k : String) :
    List Attestation :=
  rows.filter fun b =>
    decide (b.attestingKeyId = k) && notAfter.all fun t => decide (b.assertedAt ≤ t)

/-- The latest ballot of the author, at one instant the one that upholds, then by id. -/
def Governs (rows : List Attestation) (notAfter : Option Instant) (k : String)
    (b : Attestation) : Prop :=
  MaxByKey.IsMaxBy ballotKey (ballotsBy rows notAfter k) b

theorem governingBallots_eq_upsertAll
    (rows : List Attestation) (eligible : List String) (notAfter : Option Instant) :
    governingBallots rows eligible notAfter =
      Grouping.upsertAll Attestation.attestingKeyId (fun _ b => b)
        ((rows.filter fun b => eligible.contains b.attestingKeyId &&
          notAfter.all fun t => decide (b.assertedAt ≤ t)).insertionSort ballotBefore) :=
  rfl

variable {rows : List Attestation} {notAfter : Option Instant} {eligible : List String} {k : String}

theorem mem_sorted_heard_iff
    (b : Attestation) :
    b ∈ ((rows.filter fun b => eligible.contains b.attestingKeyId &&
        notAfter.all fun t => decide (b.assertedAt ≤ t)).insertionSort ballotBefore).filter
          (fun b => b.attestingKeyId = k) <->
      k ∈ eligible ∧ b ∈ ballotsBy rows notAfter k := by
  simp only [ballotsBy, List.mem_filter, List.mem_insertionSort, Bool.and_eq_true,
    List.contains_iff_mem, decide_eq_true_eq]
  constructor
  · rintro ⟨⟨hrow, hmember, htime⟩, rfl⟩
    exact ⟨hmember, hrow, rfl, htime⟩
  · rintro ⟨hmember, hrow, rfl, htime⟩
    exact ⟨⟨hrow, hmember, htime⟩, rfl⟩

variable {b : Attestation}

theorem governs_of_governingBallots
    (h : (governingBallots rows eligible notAfter)[k]? = some b) :
    k ∈ eligible ∧ Governs rows notAfter k b := by
  rw [governingBallots_eq_upsertAll, Grouping.getElem?_upsertAll_last] at h
  have hsorted := (Sorting.pairwise_key_of_sort ballotBefore_iff
    (rows.filter fun b => eligible.contains b.attestingKeyId &&
      notAfter.all fun t => decide (b.assertedAt ≤ t))).sublist
    (List.filter_sublist (p := fun b => decide (b.attestingKeyId = k)))
  rcases Sorting.isMaxBy_of_getLast_pairwise hsorted h with ⟨hmem, hmax⟩
  rcases (mem_sorted_heard_iff b).mp hmem with ⟨hmember, hb⟩
  refine ⟨hmember, hb, ?_⟩
  intro a ha
  exact hmax a ((mem_sorted_heard_iff a).mpr ⟨hmember, ha⟩)

theorem exists_governingBallots
    (hmember : k ∈ eligible) (hb : b ∈ ballotsBy rows notAfter k) :
    exists b', (governingBallots rows eligible notAfter)[k]? = some b' := by
  rw [governingBallots_eq_upsertAll, Grouping.getElem?_upsertAll_last]
  refine Option.ne_none_iff_exists'.mp fun hnone => ?_
  rw [List.getLast?_eq_none_iff] at hnone
  have hmem := (mem_sorted_heard_iff b).mpr ⟨hmember, hb⟩
  rw [hnone] at hmem
  cases hmem

theorem Governs.upholdRank_eq
    {a : Attestation} (ha : Governs rows notAfter k a) (hb : Governs rows notAfter k b) :
    upholdRank a = upholdRank b := by
  have hkey : ballotKey a = ballotKey b := le_antisymm (hb.2 a ha.1) (ha.2 b hb.1)
  exact congrArg (fun key : Instant ×ₗ (Nat ×ₗ String) => (ofLex (ofLex key).2).1) hkey

theorem dimension_eq_upheld_iff
    (b : Attestation) :
    b.dimension = some dimensionUpheld <-> upholdRank b = 1 := by
  unfold upholdRank
  split
  · simp [*]
  · simp [*]

/-!
## Counting members

A tally over the map is a count of the eligible members whose governing ballot is on
that side.
-/

def Rules (rows : List Attestation) (eligible : List String) (notAfter : Option Instant)
    (side k : String) : Prop :=
  k ∈ eligible ∧ exists b, Governs rows notAfter k b ∧ b.dimension = some side

theorem exists_card_eq_tally
    (rows : List Attestation) (eligible : List String) (notAfter : Option Instant) (side : String) :
    exists members : Finset String,
      members.card = (governingBallots rows eligible notAfter).values.countP
        (fun b => b.dimension == some side) ∧
      forall k, k ∈ members -> Rules rows eligible notAfter side k := by
  rcases Grouping.exists_card_eq_countP_values (governingBallots rows eligible notAfter)
    (fun b => b.dimension == some side) with ⟨members, hcard, hmembers⟩
  refine ⟨members, hcard, ?_⟩
  intro k hk
  rcases (hmembers k).mp hk with ⟨b, hb, hside⟩
  rcases governs_of_governingBallots hb with ⟨hmember, hgoverns⟩
  exact ⟨hmember, b, hgoverns, eq_of_beq hside⟩

theorem card_le_uphold_tally
    {members : Finset String}
    (hmembers : forall k, k ∈ members -> Rules rows eligible notAfter dimensionUpheld k) :
    members.card ≤ (tally (governingBallots rows eligible notAfter)).1 := by
  rcases Grouping.exists_card_eq_countP_values (governingBallots rows eligible notAfter)
    (fun b => b.dimension == some dimensionUpheld) with ⟨counted, hcard, hcounted⟩
  rw [tally, ← hcard]
  refine Finset.card_le_card fun k hk => ?_
  rcases hmembers k hk with ⟨hmember, b, hgoverns, hupheld⟩
  rcases exists_governingBallots hmember hgoverns.1 with ⟨b', hb'⟩
  have hgoverns' := (governs_of_governingBallots hb').2
  -- the loop may hold another row with the same key, which is then on the same side
  have hrank : upholdRank b' = 1 := by
    rw [hgoverns'.upholdRank_eq hgoverns]
    exact (dimension_eq_upheld_iff b).mp hupheld
  exact (hcounted k).mpr ⟨b', hb', beq_iff_eq.mpr ((dimension_eq_upheld_iff b').mpr hrank)⟩

theorem tally_add_le_size
    (governing : Ballots) :
    (tally governing).1 + (tally governing).2 ≤ governing.size := by
  have hother : (tally governing).2 ≤ governing.values.countP
      fun b => !(b.dimension == some dimensionUpheld) := by
    refine List.countP_mono_left fun b _ hoverruled => ?_
    rw [eq_of_beq hoverruled]
    decide
  have hsplit := List.length_eq_countP_add_countP
    (fun b : Attestation => b.dimension == some dimensionUpheld) (l := governing.values)
  rw [Grouping.length_values] at hsplit
  simp only [tally] at hother ⊢
  simp only [Bool.not_eq_true, Bool.decide_eq_false] at hsplit
  omega

def respondents (rows : List Attestation) (eligible : List String) : Finset String :=
  (eligible.filter fun k => decide (exists b, b ∈ rows ∧ b.attestingKeyId = k)).toFinset

theorem size_governingBallots
    (rows : List Attestation) (eligible : List String) :
    (governingBallots rows eligible none).size = (respondents rows eligible).card := by
  rcases Grouping.exists_card_eq_countP_values (governingBallots rows eligible none)
    (fun _ => true) with ⟨counted, hcard, hcounted⟩
  rw [← Grouping.length_values, ← List.countP_true, ← hcard]
  congr 1
  ext k
  rw [hcounted, respondents, List.mem_toFinset, List.mem_filter, decide_eq_true_eq]
  constructor
  · rintro ⟨b, hb, -⟩
    rcases governs_of_governingBallots hb with ⟨hmember, hgoverns⟩
    have hmem := List.mem_filter.mp hgoverns.1
    simp only [Option.all_none, Bool.and_true, decide_eq_true_eq] at hmem
    exact ⟨hmember, b, hmem⟩
  · rintro ⟨hmember, b, hrow, hby⟩
    have hb : b ∈ ballotsBy rows none k := by
      simp [ballotsBy, hrow, hby]
    rcases exists_governingBallots hmember hb with ⟨b', hb'⟩
    exact ⟨b', hb', rfl⟩

/-!
## The price
-/

section Price

variable (action : ActionRef) (objection : Attestation) (ballots : List Attestation)
  (roster dutyHolders : List String) (now : Instant)

def relevantBallots : List Attestation :=
  ballots.filter fun b => isBallotOn b action objection now

def seatedRoster : List String :=
  roster.filter fun k => k ≠ action.actorKeyId

def seatedDuty : List String :=
  dutyHolders.filter fun k => k ≠ action.actorKeyId ∧ k ≠ objection.attestingKeyId

/-- What stands behind an objection that the escalated commons lifted. -/
structure EscalatedDismissal [External] (policy : ReverseQuorumPolicy) (tier : StewardTier) :
    Prop where
  commons : exists members : Finset String,
    (forall k, k ∈ members -> Rules (relevantBallots action objection ballots now)
      (seatedRoster action roster) none dimensionOverruled k) ∧
    policy.m ≤ members.card ∧
    (respondents (relevantBallots action objection ballots now)
      (seatedRoster action roster)).card < 2 * members.card ∧
    tier.respondentFloor ≤ members.card ∧ 3 ≤ members.card
  notUpheld : forall members : Finset String,
    (forall k, k ∈ members -> Rules (relevantBallots action objection ballots now)
      (seatedDuty action objection dutyHolders) (policy.stewardDeadline action.assertedAt)
      dimensionUpheld k) ->
    2 * members.card ≤ (seatedDuty action objection dutyHolders).toFinset.card
  answered : (exists deadline, policy.stewardDeadline action.assertedAt = some deadline ∧
      deadline ≤ now) ∨
    exists members : Finset String,
      (forall k, k ∈ members -> Rules (relevantBallots action objection ballots now)
        (seatedDuty action objection dutyHolders) (policy.stewardDeadline action.assertedAt)
        dimensionOverruled k) ∧
      (seatedDuty action objection dutyHolders).toFinset.card < 2 * members.card

end Price

theorem escalates_cases
    {ruled : Nat × Nat} {required seats : Nat} {deadlinePassed : Bool}
    (h : (stewardStanding ruled required seats deadlinePassed).escalates = true) :
    ruled.1 < required ∧ (required ≤ ruled.2 ∨ deadlinePassed = true) := by
  unfold stewardStanding at h
  split at h
  · cases h
  · rename_i hnot
    refine ⟨Nat.lt_of_not_le hnot, ?_⟩
    split at h
    · rename_i hoverruled
      exact Or.inl hoverruled
    · split at h
      · cases h
      · rename_i hpassed
        exact Or.inr (by simpa using hpassed)

theorem dismissed_cases
    {steward : StewardTierStanding} {ballots : Nat × Nat} {required : Nat}
    (h : escalationOutcome steward ballots required = .dismissed) :
    steward.escalates = true ∧ required ≤ ballots.2 := by
  unfold escalationOutcome at h
  split at h
  · cases h
  · rename_i hescalates
    split at h
    · cases h
    · split at h
      · rename_i hreached
        exact ⟨by simpa using hescalates, hreached⟩
      · cases h

section Cost

variable [External] {policy : ReverseQuorumPolicy}

theorem respondents_lt_two_mul_required
    (hmajority : forall n, External.strictMajority n = n / 2 + 1)
    (policy : ReverseQuorumPolicy) (n : Nat) :
    n < 2 * escalatedDismissalRequired policy n := by
  have hfloor : n / 2 + 1 ≤ escalatedDismissalRequired policy n := by
    rw [← hmajority]
    exact le_max_of_le_left (le_max_of_le_left (le_max_of_le_left (le_max_right _ _)))
  omega

theorem m_le_required
    (policy : ReverseQuorumPolicy) (n : Nat) :
    policy.m ≤ escalatedDismissalRequired policy n :=
  le_max_of_le_left (le_max_of_le_left (le_max_of_le_left (le_max_left _ _)))

theorem floor_le_required
    {tier : StewardTier} (hsteward : policy.steward = some tier) (n : Nat) :
    tier.respondentFloor ≤ escalatedDismissalRequired policy n := by
  unfold escalatedDismissalRequired
  rw [hsteward]
  exact le_max_of_le_left (le_max_right _ _)

theorem exists_overruling_members
    (hmajority : forall n, External.strictMajority n = n / 2 + 1) {tier : StewardTier}
    (hsteward : policy.steward = some tier)
    (hreached : escalatedDismissalRequired policy (governingBallots rows eligible none).size ≤
      (tally (governingBallots rows eligible none)).2) :
    exists members : Finset String,
      (forall k, k ∈ members -> Rules rows eligible none dimensionOverruled k) ∧
      policy.m ≤ members.card ∧ (respondents rows eligible).card < 2 * members.card ∧
      tier.respondentFloor ≤ members.card ∧ 3 ≤ members.card := by
  rcases exists_card_eq_tally rows eligible none dimensionOverruled with
    ⟨members, hcard, hmembers⟩
  have hcard' : members.card = (tally (governingBallots rows eligible none)).2 := hcard
  rw [← hcard', size_governingBallots] at hreached
  have hprice := respondents_lt_two_mul_required hmajority policy (respondents rows eligible).card
  have hthree : 3 ≤ escalatedDismissalRequired policy (respondents rows eligible).card :=
    le_max_right _ _
  refine ⟨members, hmembers, ?_, ?_, ?_, ?_⟩
  · exact le_trans (m_le_required policy _) hreached
  · omega
  · exact le_trans (floor_le_required hsteward _) hreached
  · exact le_trans hthree hreached

theorem stewardRulingThreshold_eq
    (hmajority : forall n, External.strictMajority n = n / 2 + 1) (seats : Nat) :
    ReverseQuorumPolicy.stewardRulingThreshold seats = seats / 2 + 1 := by
  rw [ReverseQuorumPolicy.stewardRulingThreshold, hmajority]
  exact max_eq_left (Nat.le_add_left 1 _)

/-- An escalated dismissal is the act of enough members, and the moderators have not
upheld the objection and have answered or are late. -/
theorem escalated_dismissal_never_cheap
    (hmajority : forall n, External.strictMajority n = n / 2 + 1)
    (action : ActionRef) (objection : Attestation) (ballots : List Attestation)
    (roster dutyHolders : List String) (hduty : dutyHolders.Nodup) (tier : StewardTier)
    (hsteward : policy.steward = some tier) (now : Instant) :
    ((escalateObjection action objection ballots roster dutyHolders policy now).outcome =
        EscalationOutcome.dismissed ->
      EscalatedDismissal action objection ballots roster dutyHolders now policy tier) ∧
    Not ((escalateObjection action objection ballots roster dutyHolders policy now).required ≤
        (escalateObjection action objection ballots roster dutyHolders policy now).upholdBallots ∧
      (escalateObjection action objection ballots roster dutyHolders policy now).required ≤
        (escalateObjection action objection ballots roster dutyHolders policy
          now).overruleBallots) := by
  have hseats : (seatedDuty action objection dutyHolders).toFinset.card =
      (seatedDuty action objection dutyHolders).length :=
    List.toFinset_card_of_nodup (hduty.filter _)
  constructor
  · intro hdismissed
    rcases dismissed_cases hdismissed with ⟨hescalates, hreached⟩
    rcases escalates_cases hescalates with ⟨hshort, hanswered⟩
    rw [stewardRulingThreshold_eq hmajority] at hshort hanswered
    refine ⟨exists_overruling_members hmajority hsteward hreached, ?_, ?_⟩
    · intro members hmembers
      have hcount := lt_of_le_of_lt (card_le_uphold_tally hmembers) hshort
      rw [hseats]
      change members.card < (seatedDuty action objection dutyHolders).length / 2 + 1 at hcount
      omega
    · rcases hanswered with hoverruled | hpassed
      · rcases exists_card_eq_tally (relevantBallots action objection ballots now)
          (seatedDuty action objection dutyHolders) (policy.stewardDeadline action.assertedAt)
          dimensionOverruled with ⟨members, hcard, hmembers⟩
        have hcount : (seatedDuty action objection dutyHolders).length / 2 + 1 ≤ members.card :=
          le_of_le_of_eq hoverruled hcard.symm
        refine Or.inr ⟨members, hmembers, ?_⟩
        rw [hseats]
        omega
      · rcases (Option.any_eq_true _ _).mp hpassed with ⟨deadline, hdeadline, hle⟩
        exact Or.inl ⟨deadline, hdeadline, of_decide_eq_true hle⟩
  · rintro ⟨hupholds, hoverrules⟩
    -- the two sides together are at most the pool, and the price is over half of it
    let pool := governingBallots (relevantBallots action objection ballots now)
      (seatedRoster action roster) none
    have hupholds' : escalatedDismissalRequired policy pool.size ≤ (tally pool).1 := hupholds
    have hoverrules' : escalatedDismissalRequired policy pool.size ≤ (tally pool).2 := hoverrules
    have hprice := respondents_lt_two_mul_required hmajority policy pool.size
    have hsum := tally_add_le_size pool
    omega

end Cost

/-!
## A silent moderator
-/

section Samples

open Reference

def actionRow : ActionRef :=
  ⟨"k", "x", 0⟩

def raisedAgainst : Attestation :=
  .ofAuthor "o" "m" "k" .scores (Instant.ofSeconds 1)
    [("dimension", .str dimensionObjection), (Field.objectsTo, .str "x")]

def ballotOf (author side : String) : Attestation :=
  { raisedAgainst with
    attestationId := author
    attestingKeyId := author
    assertedAt := Instant.ofSeconds 60
    envelope := .obj [("dimension", .str side), (Field.ballotOn, .str "o"),
      (Field.objectsTo, .str "x")] }

def overruledByThree : List Attestation :=
  [ballotOf "a" dimensionOverruled, ballotOf "b" dimensionOverruled,
    ballotOf "c" dimensionOverruled, ballotOf "m" dimensionUpheld]

def escalatingPolicy : ReverseQuorumPolicy where
  m := 2
  n := 5
  windowSecs := 60
  steward := some { windowSecs := 60, respondentFloor := 3 }

/-- The one moderator stays silent past the deadline, and three of four respondents overrule. -/
theorem three_of_four_dismiss :
    (escalateObjection actionRow raisedAgainst overruledByThree ["k", "a", "b", "c", "m"] ["d"]
      escalatingPolicy (Instant.ofSeconds 200)).outcome = .dismissed ∧
    EscalatedDismissal actionRow raisedAgainst overruledByThree ["k", "a", "b", "c", "m"] ["d"]
      (Instant.ofSeconds 200) escalatingPolicy { windowSecs := 60, respondentFloor := 3 } := by
  have hdismissed : (escalateObjection actionRow raisedAgainst overruledByThree
      ["k", "a", "b", "c", "m"] ["d"] escalatingPolicy (Instant.ofSeconds 200)).outcome =
        .dismissed := by
    decide +kernel
  exact ⟨hdismissed, (escalated_dismissal_never_cheap (fun _ => rfl) actionRow raisedAgainst
    overruledByThree _ ["d"] (by decide) { windowSecs := 60, respondentFloor := 3 } rfl
    _).1 hdismissed⟩

end Samples

end ReverseQuorum
end CirisPersist.Federation
