import Mathlib.Algebra.Group.Nat.Defs
import CirisPersist.Base.Json
import CirisPersist.Federation.TwoPath.Decide
import CirisPersist.Library.Checks

/-!
# The policy table and its corridor

The policy of a door is a row of a published table.  A door asks for its family's
row; the row is read into a policy, and the policy is checked against a corridor
at a few fixed bases before any proposal is decided under it.
-/

namespace CirisPersist.Federation

open Checks

/-!
## The corridor over one base
-/

inductive CorridorRefusal where
  | cancelAboveEnact
  | enactBelowStrictMajority
  | floorAboveEnact
  | cancelBySingleVoter
  | enactNeedsEveryone
  | enactBySingleVoter
  | cancelNeedsEveryone
  | floorBelowTwoVoters
  | windowBelowFloor
deriving DecidableEq

def CorridorRefusal.asStr : CorridorRefusal -> String
  | cancelAboveEnact => "cancel_above_enact"
  | enactBelowStrictMajority => "enact_below_strict_majority"
  | floorAboveEnact => "floor_above_enact"
  | cancelBySingleVoter => "cancel_by_single_voter"
  | enactNeedsEveryone => "enact_needs_everyone"
  | enactBySingleVoter => "enact_by_single_voter"
  | cancelNeedsEveryone => "cancel_needs_everyone"
  | floorBelowTwoVoters => "floor_below_two_voters"
  | windowBelowFloor => "window_below_floor"

/-- Every threshold is the raw fraction over `baseN`; an absent CANCEL or FLOOR reads
as ENACT, and the pole clauses are waived for a base of one. -/
def TwoPathPolicy.checkCorridor [External] (policy : TwoPathPolicy) (baseN : Nat)
    (familyFloorSecs : Int) : Except CorridorRefusal Unit := do
  let e := policy.enact.votes baseN
  let c := (policy.cancel.getD policy.enact).votes baseN
  let f := (policy.floor.getD policy.enact).votes baseN
  let many := decide (1 < baseN)
  require (!(many && decide (e ≤ 1))) .enactBySingleVoter
  require (!(many && decide (baseN ≤ c))) .cancelNeedsEveryone
  require (decide (c ≤ e)) .cancelAboveEnact
  require (decide (External.strictMajority baseN ≤ e)) .enactBelowStrictMajority
  require (decide (f ≤ e)) .floorAboveEnact
  require (!(many && decide (c ≤ 1))) .cancelBySingleVoter
  require (!(many && decide (baseN ≤ e))) .enactNeedsEveryone
  require (!(decide (f < 2) && decide (policy.floorClass ≠ .sameIdentity)))
    .floorBelowTwoVoters
  require (decide (familyFloorSecs ≤ policy.windowSecs)) .windowBelowFloor

namespace TwoPathPolicy

section Corridor

variable [External]

/-- The clauses of the corridor over a base of more than one voter. -/
structure InCorridor (policy : TwoPathPolicy) (baseN : Nat) (familyFloorSecs : Int) : Prop where
  enactByMany : 1 < baseN -> 1 < policy.enact.votes baseN
  enactNotByAll : 1 < baseN -> policy.enact.votes baseN < baseN
  enactByMajority : External.strictMajority baseN ≤ policy.enact.votes baseN
  cancelByMany : 1 < baseN -> 1 < (policy.cancel.getD policy.enact).votes baseN
  cancelNotByAll : 1 < baseN -> (policy.cancel.getD policy.enact).votes baseN < baseN
  cancelLeEnact : (policy.cancel.getD policy.enact).votes baseN ≤ policy.enact.votes baseN
  floorLeEnact : (policy.floor.getD policy.enact).votes baseN ≤ policy.enact.votes baseN
  floorByTwo : (policy.floor.getD policy.enact).votes baseN < 2 ->
    policy.floorClass = .sameIdentity
  windowLong : familyFloorSecs ≤ policy.windowSecs

variable {policy : TwoPathPolicy} {baseN : Nat} {familyFloorSecs : Int}

theorem checkCorridor_eq_ok_iff :
    policy.checkCorridor baseN familyFloorSecs = .ok () <->
      policy.InCorridor baseN familyFloorSecs := by
  simp only [checkCorridor, bind_eq_ok_iff, require_eq_ok_iff, Bool.not_eq_true',
    Bool.and_eq_false_imp, decide_eq_true_eq, decide_eq_false_iff_not, not_le, not_not, exists_const]
  constructor
  · rintro ⟨hmany, hnotAll, hcancel, hmajority, hfloor, hcancelMany, henactNotAll, htwo, hwindow⟩
    exact ⟨hmany, henactNotAll, hmajority, hcancelMany, hnotAll, hcancel, hfloor, htwo, hwindow⟩
  · intro h
    exact ⟨h.enactByMany, h.cancelNotByAll, h.cancelLeEnact, h.enactByMajority, h.floorLeEnact,
      h.cancelByMany, h.enactNotByAll, h.floorByTwo, h.windowLong⟩

theorem resolve_of_cancelOver_base
    (hover : policy.cancelOver = .base) (roster : Finset String) (proposer : String) :
    policy.resolve roster proposer = policy.resolveOver roster.card roster.card := by
  simp [resolve, Base.count, hover]

namespace InCorridor

variable (h : policy.InCorridor baseN familyFloorSecs) (hmany : 1 < baseN)

include h hmany

theorem cancel_bounds
    {c : Nat} (hc : (policy.resolveOver baseN baseN).cancel = some c) :
    2 ≤ c ∧ c ≤ baseN - 1 ∧ c ≤ policy.enact.votes baseN := by
  rcases Option.map_eq_some_iff.mp hc with ⟨cancel, hcancel, hlift⟩
  have htwo := h.cancelByMany hmany
  have hall := h.cancelNotByAll hmany
  have hle := h.cancelLeEnact
  have hmin := policy.floorClass.minCount_le_two
  rw [hcancel, Option.getD_some] at htwo hall hle
  rw [Nat.max_eq_left (by omega)] at hlift
  omega

theorem floor_le_enact
    {f : Nat} (hf : (policy.resolveOver baseN baseN).floor = some f) :
    f ≤ policy.enact.votes baseN := by
  rcases Option.map_eq_some_iff.mp hf with ⟨floor, hfloor, hlift⟩
  have htwo := h.enactByMany hmany
  have hle := h.floorLeEnact
  have hmin := policy.floorClass.minCount_le_two
  rw [hfloor, Option.getD_some] at hle
  rw [← hlift]
  exact Nat.max_le.mpr ⟨hle, hmin.trans htwo⟩

end InCorridor

theorem not_both_enact
    (hmajority : forall n, External.strictMajority n = n / 2 + 1) {roster a b : Finset String}
    {enact : Nat} (henact : External.strictMajority roster.card ≤ enact) (ha : a ⊆ roster)
    (hb : b ⊆ roster) (hdisjoint : Disjoint a b) :
    ¬ (enact ≤ a.card ∧ enact ≤ b.card) := by
  intro hboth
  have hunion : a.card + b.card ≤ roster.card := by
    rw [← Finset.card_union_of_disjoint hdisjoint]
    exact Finset.card_le_card (Finset.union_subset ha hb)
  rw [hmajority] at henact
  omega

/-- A policy inside its corridor keeps away from both poles after the count minimum too. -/
theorem corridor_sound
    (hmajority : forall n, External.strictMajority n = n / 2 + 1)
    (policy : TwoPathPolicy) (n : Nat) (familyFloorSecs : Int) (hmany : 1 < n)
    (hcorridor : policy.checkCorridor n familyFloorSecs = Except.ok ()) :
    let r := policy.resolveOver n n
    (policy.cancelOver = CancelOver.base -> forall roster proposer, roster.card = n ->
      policy.resolve roster proposer = r) ∧
    (2 ≤ r.enact ∧ External.strictMajority n ≤ r.enact ∧ r.enact ≤ n - 1) ∧
    (forall c, r.cancel = some c -> 2 ≤ c ∧ c ≤ n - 1 ∧ c ≤ r.enact) ∧
    (forall f, r.floor = some f -> f ≤ r.enact) ∧
    (forall roster a b : Finset String, roster.card = n -> a ⊆ roster -> b ⊆ roster ->
      Disjoint a b -> ¬ (r.enact ≤ a.card ∧ r.enact ≤ b.card)) := by
  have h := checkCorridor_eq_ok_iff.mp hcorridor
  refine ⟨?_, ?_, ?_, ?_, ?_⟩
  · intro hover roster proposer hcard
    rw [resolve_of_cancelOver_base hover, hcard]
  · have hall := h.enactNotByAll hmany
    exact ⟨h.enactByMany hmany, h.enactByMajority, Nat.le_sub_one_of_lt hall⟩
  · intro c hc
    exact h.cancel_bounds hmany hc
  · intro f hf
    exact h.floor_le_enact hmany hf
  · intro roster a b hcard ha hb hdisjoint
    subst hcard
    exact not_both_enact hmajority h.enactByMajority ha hb hdisjoint

end Corridor

open Reference in
theorem corridor_sound_of_three :
    let policy : TwoPathPolicy :=
      { base := .standingRoster, enact := .strictMajority,
        cancel := some .strictMajority, cancelOver := .base,
        floor := some (.fraction 0 1 .atLeast), floorClass := .sameIdentity,
        reversePath := true, atWindow := .cancel, irreversible := false,
        windowSecs := 86400, silence := .never, oneOpenPerProposer := false,
        oneOpenPerTarget := false }
    policy.checkCorridor 3 86400 = .ok () ∧
      (policy.resolveOver 3 3).floor = some 1 ∧ 1 ≤ (policy.resolveOver 3 3).enact := by
  intro policy
  have hcorridor : policy.checkCorridor 3 86400 = .ok () := by rfl
  have hsound := corridor_sound (fun _ => rfl) policy 3 86400 (by decide) hcorridor
  exact ⟨hcorridor, rfl, hsound.2.2.2.1 1 rfl⟩

end TwoPathPolicy

/-!
## Rows
-/

structure BaseLaw where
  k : Nat
  tail : Nat
  min : Nat
deriving DecidableEq

def BaseLaw.expectedActive (law : BaseLaw) (n : Nat) : Nat :=
  if n ≤ law.k then n else max (law.k + (n - law.k) / max law.tail 1) law.min

structure PolicyRow where
  family : String
  kind : String
  base : String
  enact : Json
  cancel : Json
  floor : Json
  cancelOver : String
  atWindow : String
  windowSecs : Int
  windowClass : String
  irreversible : Bool
  reversePath : Bool
  corridor : String

structure PolicyTable where
  families : List PolicyRow
  minCount : List (String × Nat)
  windowClasses : List (String × Int)
  baseLaw : BaseLaw

structure DoorRule where
  silence : SilenceRule
  oneOpenPerProposer : Bool
  oneOpenPerTarget : Bool
deriving DecidableEq

def DoorRule.selfRoster : DoorRule where
  silence := .evictOnly
  oneOpenPerProposer := true
  oneOpenPerTarget := true

structure GovernancePolicyRefused where
  family : String
  reason : String
deriving DecidableEq

namespace PolicyTable

def kindTwoPath : String :=
  "two_path"

def corridorCommunity : String :=
  "community"

def corridorSelf : String :=
  "self"

def familySelfRosterAdd : String :=
  "self_roster_add"

def familySelfRosterEvict : String :=
  "self_roster_evict"

def communityCorridorBases : List Nat :=
  [6, 7, 10]

def forwardOnlyBases : List Nat :=
  [3, 6, 7, 10]

def expectedActiveProbeN : Nat :=
  10000

def selfCorridorBase : Nat :=
  3

def rowMissing : String :=
  "policy_row_missing"

def notTwoPath : String :=
  "policy_not_two_path"

def rowUnreadable : String :=
  "policy_row_unreadable"

def baseNotBuilt : String :=
  "policy_base_not_built"

def rowsDisagree : String :=
  "policy_rows_disagree"

/-- `num/den` with a non-zero denominator, both 32 bits wide. -/
def fraction (v : Json) (cmp : Cmp) : Option Threshold := do
  let num ← v.getU64? "num"
  let den ← v.getU64? "den"
  if num < 2 ^ 32 ∧ den < 2 ^ 32 ∧ 0 < den then
    some (.fraction num den cmp)
  else
    none

def cancelStrictMajorityOfOthers : String :=
  "more than 1/2 of the others (strict majority)"

def floorOneVoter : String :=
  "one_voter"

def row (table : PolicyTable) (family : String) : Except GovernancePolicyRefused PolicyRow :=
  orRefuse (table.families.find? fun r => r.family = family) ⟨family, rowMissing⟩

/-- The class of a corridor; the table's own count minimum must say the same. -/
def floorClass (table : PolicyTable) (row : PolicyRow) :
    Except GovernancePolicyRefused FloorClass := do
  let cls ←
    if row.corridor = corridorSelf then
      .ok .sameIdentity
    else if row.corridor = corridorCommunity then
      .ok .voters
    else
      .error ⟨row.family, rowUnreadable⟩
  require (decide (table.minCount.lookup row.corridor = some cls.minCount))
    ⟨row.family, rowUnreadable⟩
  return cls

def cancelOf (row : PolicyRow) : Except GovernancePolicyRefused (Option Threshold) :=
  match row.cancel with
  | .null => .ok none
  | v =>
      if v.asStr = some cancelStrictMajorityOfOthers then
        .ok (some .strictMajority)
      else
        (orRefuse (fraction v .atLeast) ⟨row.family, rowUnreadable⟩).map some

def floorOf (row : PolicyRow) : Except GovernancePolicyRefused (Option Threshold) :=
  match row.floor with
  | .null => .ok none
  | v =>
      if v.asStr = some floorOneVoter then
        .ok (some (.fraction 0 1 .atLeast))
      else
        (orRefuse (fraction v .atLeast) ⟨row.family, rowUnreadable⟩).map some

def cancelOverOf (row : PolicyRow) (cancel : Option Threshold) :
    Except GovernancePolicyRefused CancelOver :=
  if cancel.isNone then
    .ok .base
  else if row.cancelOver = "base" then
    .ok .base
  else if row.cancelOver = "others" then
    .ok .others
  else
    .error ⟨row.family, rowUnreadable⟩

def atWindowOf (row : PolicyRow) : Except GovernancePolicyRefused AtWindow :=
  if row.atWindow = "cancelled" then
    .ok .cancel
  else if row.atWindow = "stay_open" then
    .ok .stayOpen
  else
    .error ⟨row.family, rowUnreadable⟩

def policyOf (table : PolicyTable) (row : PolicyRow) (door : DoorRule) :
    Except GovernancePolicyRefused TwoPathPolicy := do
  require (decide (row.kind = kindTwoPath)) ⟨row.family, notTwoPath⟩
  require (decide (table.windowClasses.lookup row.windowClass = some row.windowSecs))
    ⟨row.family, rowUnreadable⟩
  let floorClass ← table.floorClass row
  let enact ← orRefuse (fraction row.enact .moreThan) ⟨row.family, rowUnreadable⟩
  let cancel ← cancelOf row
  let floor ← floorOf row
  let cancelOver ← cancelOverOf row cancel
  let atWindow ← atWindowOf row
  return {
    base := .standingRoster
    enact := enact
    cancel := cancel
    cancelOver := cancelOver
    floor := floor
    floorClass := floorClass
    reversePath := row.reversePath
    atWindow := atWindow
    irreversible := row.irreversible
    windowSecs := row.windowSecs
    silence := door.silence
    oneOpenPerProposer := door.oneOpenPerProposer
    oneOpenPerTarget := door.oneOpenPerTarget }

theorem fraction_eq_some
    {v : Json} {cmp : Cmp} {threshold : Threshold} (h : fraction v cmp = some threshold) :
    exists num den, threshold = .fraction num den cmp ∧ 0 < den := by
  unfold fraction at h
  rcases Option.bind_eq_some_iff.mp h with ⟨num, -, h⟩
  rcases Option.bind_eq_some_iff.mp h with ⟨den, -, h⟩
  split at h
  · next hwidth =>
    cases h
    exact ⟨num, den, rfl, hwidth.2.2⟩
  · cases h

variable {policy : TwoPathPolicy} {table : PolicyTable} {door : DoorRule}

theorem policyOf_enact
    {row : PolicyRow} (h : table.policyOf row door = .ok policy) :
    fraction row.enact .moreThan = some policy.enact := by
  simp only [policyOf, bind_eq_ok_iff, orRefuse_eq_ok_iff] at h
  rcases h with ⟨_, _, _, _, _, _, enact, henact, _, _, _, _, _, _, _, _, hpolicy⟩
  cases hpolicy
  exact henact

/-!
## The corridor over a row
-/

def windowFloor (table : PolicyTable) (row : PolicyRow) : Except GovernancePolicyRefused Int :=
  let cls :=
    if row.irreversible then "irreversible_7d"
    else if row.windowClass = "content_24h" then "content_24h"
    else "standing_72h"
  orRefuse (table.windowClasses.lookup cls) ⟨row.family, rowUnreadable⟩

section Corridor

variable [External]

def checkForwardOnly (policy : TwoPathPolicy) (floor : Int) (base : Nat) :
    Except CorridorRefusal Unit := do
  require (!decide (policy.enact.votes base ≤ 1)) .enactBySingleVoter
  match policy.enact with
  | .fraction num den _ =>
      require (!decide (2 * num < den)) .enactBelowStrictMajority
  | .strictMajority => .ok ()
  require (!decide (policy.windowSecs < floor)) .windowBelowFloor

def checkCorridor (table : PolicyTable) (row : PolicyRow) (policy : TwoPathPolicy) :
    Except GovernancePolicyRefused (Except CorridorRefusal Unit) :=
  if row.corridor = corridorSelf then do
    let floor ← orRefuse (table.windowClasses.lookup "ruled_24h") ⟨row.family, rowUnreadable⟩
    return policy.checkCorridor selfCorridorBase floor
  else if row.corridor = corridorCommunity then do
    let floor ← table.windowFloor row
    let probe := table.baseLaw.expectedActive expectedActiveProbeN
    if policy.reversePath then
      return checkAll (fun base => policy.checkCorridor base floor)
        (communityCorridorBases ++ [probe])
    else
      return checkAll (checkForwardOnly policy floor) (forwardOnlyBases ++ [probe])
  else
    .error ⟨row.family, rowUnreadable⟩

/-- The policy a door decides `family` under: the row, built, inside its corridor. -/
def admitFamily (table : PolicyTable) (family : String) (door : DoorRule) :
    Except GovernancePolicyRefused TwoPathPolicy := do
  let row ← table.row family
  let policy ← table.policyOf row door
  require (decide (row.base = "standing")) ⟨family, baseNotBuilt⟩
  let verdict ← table.checkCorridor row policy
  verdict.mapError fun r => ⟨family, r.asStr⟩
  return policy

/-- One decision orders a self's additions and evictions together, so both rows must
give one policy. -/
def selfRoster (table : PolicyTable) : Except GovernancePolicyRefused TwoPathPolicy := do
  let add ← table.admitFamily familySelfRosterAdd DoorRule.selfRoster
  let evict ← table.admitFamily familySelfRosterEvict DoorRule.selfRoster
  require (decide (add = evict)) ⟨familySelfRosterEvict, rowsDisagree⟩
  return add

/-!
## What the corridor guarantees

A fraction that enacts on more than `num/den` needs a strict majority at every
base just when `num/den` is at least a half.  A community row is inside its
corridor only then; a self row is looked at for three keys alone.
-/

variable {den : Nat}

theorem votes_moreThan
    (num n : Nat) (hden : 0 < den) :
    (Threshold.fraction num den Cmp.moreThan).votes n = num * n / den + 1 := by
  simp only [Threshold.votes, Nat.max_eq_left hden]

variable {num : Nat}

theorem half_iff_majority_at_every_base
    (hden : 0 < den) :
    den ≤ 2 * num <->
      forall n, 1 ≤ n -> n / 2 + 1 ≤ (Threshold.fraction num den Cmp.moreThan).votes n := by
  constructor
  · intro hhalf n _
    rw [votes_moreThan num n hden, Nat.add_le_add_iff_right, Nat.le_div_iff_mul_le hden]
    calc
      n / 2 * den ≤ n / 2 * (2 * num) := Nat.mul_le_mul_left _ hhalf
      _ = n / 2 * 2 * num := by rw [Nat.mul_assoc]
      _ ≤ n * num := Nat.mul_le_mul_right _ (Nat.div_mul_le_self n 2)
      _ = num * n := Nat.mul_comm _ _
  · intro hvotes
    -- a base of twice the denominator loses nothing to rounding
    have hbase := hvotes (2 * den) (by omega)
    rw [votes_moreThan num _ hden, ← Nat.mul_assoc, Nat.mul_div_cancel _ hden,
      Nat.mul_div_cancel_left _ (by omega : 0 < 2)] at hbase
    omega

theorem half_of_majority_of_six
    (hden : 0 < den) (h : 6 / 2 + 1 ≤ (Threshold.fraction num den Cmp.moreThan).votes 6) :
    den ≤ 2 * num := by
  rw [votes_moreThan num 6 hden, Nat.add_le_add_iff_right, Nat.le_div_iff_mul_le hden] at h
  omega

theorem half_of_checkForwardOnly
    {cmp : Cmp} {floorSecs : Int} {base : Nat} (henact : policy.enact = .fraction num den cmp)
    (h : checkForwardOnly policy floorSecs base = .ok ()) :
    den ≤ 2 * num := by
  simp only [checkForwardOnly, henact, bind_eq_ok_iff, require_eq_ok_iff] at h
  rcases h with ⟨_, _, _, hhalf, _⟩
  simpa using hhalf

/-- A row that enacts on more than `num/den`, with `num/den` at least a half. -/
def EnactsOnHalf (row : PolicyRow) : Prop :=
  exists num den, fraction row.enact .moreThan = some (.fraction num den .moreThan) ∧
    den ≤ 2 * num

theorem enactsOnHalf_of_community
    (hmajority : forall n, External.strictMajority n = n / 2 + 1) {row : PolicyRow}
    (hrow : fraction row.enact Cmp.moreThan = some policy.enact)
    (hcommunity : row.corridor = corridorCommunity)
    (h : table.checkCorridor row policy = .ok (Except.ok ())) :
    EnactsOnHalf row := by
  rcases fraction_eq_some hrow with ⟨num, den, henact, hden⟩
  refine ⟨num, den, hrow.trans (by rw [henact]), ?_⟩
  have hself : row.corridor ≠ corridorSelf := by
    rw [hcommunity]
    decide
  simp only [checkCorridor, if_neg hself, if_pos hcommunity, bind_eq_ok_iff] at h
  rcases h with ⟨floor, _, h⟩
  cases hpath : policy.reversePath with
  | true =>
      simp only [hpath, if_true] at h
      have hall := checkAll_eq_ok_iff.mp (Except.ok.inj h)
      have hsix := (TwoPathPolicy.checkCorridor_eq_ok_iff.mp
        (hall 6 (by simp [communityCorridorBases]))).enactByMajority
      rw [hmajority, henact] at hsix
      exact half_of_majority_of_six hden hsix
  | false =>
      simp only [hpath] at h
      have hall := checkAll_eq_ok_iff.mp (Except.ok.inj h)
      exact half_of_checkForwardOnly henact (hall 3 (by simp [forwardOnlyBases]))

theorem admitFamily_ok
    {family : String} (h : table.admitFamily family door = .ok policy) :
    exists row,
      table.row family = .ok row ∧
        table.policyOf row door = .ok policy ∧
        table.checkCorridor row policy = .ok (.ok ()) := by
  simp only [admitFamily, bind_eq_ok_iff] at h
  rcases h with ⟨row, hrow, built, hbuilt, _, _, verdict, hverdict, _, hinside, hpolicy⟩
  cases hpolicy
  cases verdict with
  | error reason => cases hinside
  | ok _ => exact ⟨row, hrow, hbuilt, hverdict⟩

theorem admitFamily_majority_iff
    (hmajority : forall n, External.strictMajority n = n / 2 + 1) {family : String}
    (h : table.admitFamily family door = .ok policy) :
    (forall n, 1 ≤ n -> n / 2 + 1 ≤ policy.enact.votes n) <->
      exists row, table.row family = .ok row ∧
        (row.corridor = corridorCommunity ∨ EnactsOnHalf row) := by
  rcases admitFamily_ok h with ⟨row, hrow, hpolicy, hcorridor⟩
  have hread := policyOf_enact hpolicy
  rcases fraction_eq_some hread with ⟨num, den, henact, hden⟩
  rw [henact, ← half_iff_majority_at_every_base hden]
  constructor
  · intro hhalf
    exact ⟨row, hrow, Or.inr ⟨num, den, hread.trans (by rw [henact]), hhalf⟩⟩
  · rintro ⟨row', hrow', hcase⟩
    cases hrow.symm.trans hrow'
    have hhalf : EnactsOnHalf row := by
      rcases hcase with hcommunity | hhalf
      · exact enactsOnHalf_of_community hmajority hread hcommunity hcorridor
      · exact hhalf
    rcases hhalf with ⟨num', den', hread', hle⟩
    rw [hread, henact] at hread'
    cases hread'
    exact hle

/-- The policies a door obtains need a strict majority of every roster just when
the row is a community row or its fraction is at least a half. -/
theorem admitted_enact_majority_iff
    (hmajority : forall n, External.strictMajority n = n / 2 + 1)
    (table : PolicyTable) :
    (forall (family : String) (door : DoorRule) (policy : TwoPathPolicy),
      table.admitFamily family door = Except.ok policy ->
      ((forall n, 1 ≤ n -> n / 2 + 1 ≤ policy.enact.votes n) <->
        exists row, table.row family = Except.ok row ∧
          (row.corridor = corridorCommunity ∨ EnactsOnHalf row))) ∧
    (forall policy : TwoPathPolicy,
      table.selfRoster = Except.ok policy ->
      ((forall n, 1 ≤ n -> n / 2 + 1 ≤ policy.enact.votes n) <->
        exists row, table.row familySelfRosterAdd = Except.ok row ∧
          (row.corridor = corridorCommunity ∨ EnactsOnHalf row))) := by
  refine ⟨fun family door policy h => admitFamily_majority_iff hmajority h, ?_⟩
  intro policy h
  simp only [selfRoster, bind_eq_ok_iff] at h
  rcases h with ⟨add, hadd, _, _, _, _, hpolicy⟩
  cases hpolicy
  exact admitFamily_majority_iff hmajority hadd

end Corridor

section Samples

open Reference

def fractionJson (num den : Int) : Json :=
  .obj [("num", .num (.int num)), ("den", .num (.int den))]

/-- A self row of the published table with ENACT on more than `num/den`. -/
def selfRow (family : String) (num den : Int) : PolicyRow where
  family := family
  kind := "two_path"
  base := "standing"
  enact := fractionJson num den
  cancel := .str "more than 1/2 of the others (strict majority)"
  floor := .str "one_voter"
  cancelOver := "others"
  atWindow := "stay_open"
  windowSecs := 86400
  windowClass := "ruled_24h"
  irreversible := false
  reversePath := true
  corridor := "self"

def selfTable (num den : Int) : PolicyTable where
  families := [selfRow "self_roster_add" num den, selfRow "self_roster_evict" num den]
  minCount := [("community", 2), ("self", 1)]
  windowClasses := [("content_24h", 86400), ("standing_72h", 259200),
    ("irreversible_7d", 604800), ("ruled_24h", 86400), ("ruled_48h", 172800),
    ("fuse_24h", 86400), ("none", 0)]
  baseLaw := ⟨12, 30, 3⟩

def selfPolicy (num den : Nat) : TwoPathPolicy where
  base := .standingRoster
  enact := .fraction num den .moreThan
  cancel := some .strictMajority
  cancelOver := .others
  floor := some (.fraction 0 1 .atLeast)
  floorClass := .sameIdentity
  reversePath := true
  atWindow := .stayOpen
  irreversible := false
  windowSecs := 86400
  silence := .evictOnly
  oneOpenPerProposer := true
  oneOpenPerTarget := true

theorem selfTable_half_majority :
    (selfTable 1 2).selfRoster = .ok (selfPolicy 1 2) ∧
      forall n, 1 ≤ n -> n / 2 + 1 ≤ (selfPolicy 1 2).enact.votes n := by
  have hbuilt : (selfTable 1 2).selfRoster = .ok (selfPolicy 1 2) := by rfl
  refine ⟨hbuilt, ?_⟩
  exact ((admitted_enact_majority_iff (fun _ => rfl) (selfTable 1 2)).2 _ hbuilt).mpr
    ⟨_, rfl, Or.inr ⟨1, 2, rfl, le_refl _⟩⟩

theorem selfTable_third_minority_enacts :
    (selfTable 1 3).selfRoster = .ok (selfPolicy 1 3) ∧
      (selfTable 1 3).admitFamily familySelfRosterAdd DoorRule.selfRoster =
        .ok (selfPolicy 1 3) ∧
      ¬ 6 / 2 + 1 ≤ (selfPolicy 1 3).enact.votes 6 := by
  refine ⟨by rfl, by rfl, by decide⟩

end Samples

end PolicyTable

end CirisPersist.Federation
