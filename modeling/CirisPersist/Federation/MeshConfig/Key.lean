import CirisPersist.Base.Text
import Mathlib.Algebra.Order.Ring.Int

/-!
# Mesh configuration keys

A trust root may turn a closed set of knobs on the nodes that subscribe to it,
and only towards less flow.  For each key one direction means more flow, and every
comparison goes through it: which of two values restricts more, and whether a
value expands beyond what the owner consented to.
-/

namespace CirisPersist.Federation

inductive FlowPolarity where
  | higherMeansMoreFlow
  | lowerMeansMoreFlow
deriving DecidableEq

inductive MeshConfigUnit where
  | count
  | symbols
  | holders
  | seconds
  | flag
  | centiRatio
deriving DecidableEq

inductive MeshConfigKey where
  | redundancyKRepairSymbols
  | redundancyMinViableSymbols
  | redundancyTargetHolders
  | redundancyMinViableHolders
  | antientropyRoundSecs
  | antientropyPageLimit
  | backpressureSummaryOnly
  | featureAvStreams
  | featureTraceReplication
  | descentPressureMultiplier
  | admissionRatePerKey
  | loadCeiling
deriving DecidableEq

structure MeshConfigKeySpec where
  wireName : String
  polarity : FlowPolarity
  unit : MeshConfigUnit
  min : Int
  max : Int
  ownerDefault : Int
deriving DecidableEq

namespace MeshConfigKey

open FlowPolarity MeshConfigUnit

def all : List MeshConfigKey :=
  [redundancyKRepairSymbols, redundancyMinViableSymbols, redundancyTargetHolders,
    redundancyMinViableHolders, antientropyRoundSecs, antientropyPageLimit,
    backpressureSummaryOnly, featureAvStreams, featureTraceReplication,
    descentPressureMultiplier, admissionRatePerKey, loadCeiling]

def spec : MeshConfigKey -> MeshConfigKeySpec
  | redundancyKRepairSymbols =>
      ⟨"redundancy.k_repair_symbols", higherMeansMoreFlow, symbols, 0, 4096, 20⟩
  | redundancyMinViableSymbols =>
      ⟨"redundancy.min_viable_symbols", higherMeansMoreFlow, symbols, 1, 4096, 20⟩
  | redundancyTargetHolders =>
      ⟨"redundancy.target_holders", higherMeansMoreFlow, holders, 1, 4096, 64⟩
  | redundancyMinViableHolders =>
      ⟨"redundancy.min_viable_holders", higherMeansMoreFlow, holders, 1, 4096, 64⟩
  | antientropyRoundSecs =>
      ⟨"antientropy.round_secs", lowerMeansMoreFlow, seconds, 1, 86400, 60⟩
  | antientropyPageLimit =>
      ⟨"antientropy.page_limit", higherMeansMoreFlow, count, 1, 10000, 500⟩
  | backpressureSummaryOnly =>
      ⟨"backpressure.summary_only", lowerMeansMoreFlow, flag, 0, 1, 0⟩
  | featureAvStreams =>
      ⟨"feature.av_streams", higherMeansMoreFlow, flag, 0, 1, 1⟩
  | featureTraceReplication =>
      ⟨"feature.trace_replication", higherMeansMoreFlow, flag, 0, 1, 1⟩
  | descentPressureMultiplier =>
      ⟨"descent.pressure_multiplier", lowerMeansMoreFlow, centiRatio, 100, 10000, 100⟩
  | admissionRatePerKey =>
      ⟨"admission.rate_per_key", higherMeansMoreFlow, count, 0, 1000000, 600⟩
  | loadCeiling =>
      ⟨"load.ceiling", higherMeansMoreFlow, count, 1, 4096, 64⟩

def wireName (key : MeshConfigKey) : String :=
  key.spec.wireName

def polarity (key : MeshConfigKey) : FlowPolarity :=
  key.spec.polarity

def unit (key : MeshConfigKey) : MeshConfigUnit :=
  key.spec.unit

def ownerDefault (key : MeshConfigKey) : Int :=
  key.spec.ownerDefault

def fromWire (name : String) : Option MeshConfigKey :=
  all.find? fun k => k.wireName = name

def dimension (key : MeshConfigKey) : String :=
  "mesh_config:" ++ key.wireName ++ ":v1"

def fromDimension (dimension : String) : Option MeshConfigKey := do
  let rest ← Text.stripPrefix "mesh_config:" dimension
  let name ← Text.stripSuffix ":v1" rest
  fromWire name

def inDomain (key : MeshConfigKey) (value : Int) : Bool :=
  decide (key.spec.min ≤ value) && decide (value ≤ key.spec.max)

def moreRestrictiveOf (key : MeshConfigKey) (a b : Int) : Int :=
  match key.polarity with
  | higherMeansMoreFlow => if a ≤ b then a else b
  | lowerMeansMoreFlow => if b ≤ a then a else b

def expandsBeyond (key : MeshConfigKey) (candidate baseline : Int) : Bool :=
  decide (candidate ≠ baseline) && decide (key.moreRestrictiveOf candidate baseline = baseline)

def clampToConsent (key : MeshConfigKey) (candidate baseline : Int) : Int :=
  if key.expandsBeyond candidate baseline then baseline else candidate

/-!
## Restriction as an order

A key ranks its values by how much they restrict; the more restrictive of two
values is the one of larger rank.
-/

def rank (key : MeshConfigKey) (value : Int) : Int :=
  match key.polarity with
  | higherMeansMoreFlow => -value
  | lowerMeansMoreFlow => value

variable {key : MeshConfigKey} {a b : Int}

theorem rank_injective
    (h : key.rank a = key.rank b) :
    a = b := by
  unfold rank at h
  cases hpolarity : key.polarity with
  | higherMeansMoreFlow =>
      rw [hpolarity] at h
      exact neg_inj.mp h
  | lowerMeansMoreFlow =>
      rw [hpolarity] at h
      exact h

theorem moreRestrictiveOf_eq
    (key : MeshConfigKey) (a b : Int) :
    key.moreRestrictiveOf a b = if key.rank b ≤ key.rank a then a else b := by
  unfold moreRestrictiveOf rank
  cases key.polarity with
  | higherMeansMoreFlow => simp only [neg_le_neg_iff]
  | lowerMeansMoreFlow => rfl

theorem rank_moreRestrictiveOf
    (key : MeshConfigKey) (a b : Int) :
    key.rank (key.moreRestrictiveOf a b) = max (key.rank a) (key.rank b) := by
  rw [moreRestrictiveOf_eq]
  split
  · next h => rw [max_eq_left h]
  · next h => rw [max_eq_right (le_of_lt (not_le.mp h))]

theorem moreRestrictiveOf_eq_left_iff :
    key.moreRestrictiveOf a b = a <-> key.rank b ≤ key.rank a := by
  constructor
  · intro h
    rw [← max_eq_left_iff, ← rank_moreRestrictiveOf, h]
  · intro h
    rw [moreRestrictiveOf_eq, if_pos h]

theorem expandsBeyond_eq_true_iff :
    key.expandsBeyond a b = true <-> key.rank a < key.rank b := by
  unfold expandsBeyond
  rw [Bool.and_eq_true, decide_eq_true_eq, decide_eq_true_eq, moreRestrictiveOf_eq]
  constructor
  · rintro ⟨hne, hwins⟩
    by_contra hnot
    rw [if_pos (not_lt.mp hnot)] at hwins
    exact hne hwins
  · intro hlt
    refine ⟨?_, if_neg (not_le.mpr hlt)⟩
    rintro rfl
    exact lt_irrefl _ hlt

theorem rank_clampToConsent
    (key : MeshConfigKey) (candidate baseline : Int) :
    key.rank (key.clampToConsent candidate baseline) =
      max (key.rank candidate) (key.rank baseline) := by
  unfold clampToConsent
  split
  · next h => rw [max_eq_right (le_of_lt (expandsBeyond_eq_true_iff.mp h))]
  · next h => rw [max_eq_left (not_lt.mp fun hlt => h (expandsBeyond_eq_true_iff.mpr hlt))]

end MeshConfigKey

/-!
## What the owner consented to
-/

structure MeshConfigBaseline where
  pinned : List (MeshConfigKey × Int)
deriving DecidableEq

namespace MeshConfigBaseline

def ownerDefaults : MeshConfigBaseline :=
  ⟨[]⟩

def get (baseline : MeshConfigBaseline) (key : MeshConfigKey) : Int :=
  match baseline.pinned.find? fun pin => pin.1 = key with
  | some pin => pin.2
  | none => key.ownerDefault

end MeshConfigBaseline

inductive MeshConfigForm where
  | emergency
  | durable
deriving DecidableEq

def MeshConfigForm.fromWire (s : String) : Option MeshConfigForm :=
  if s = "emergency" then some emergency
  else if s = "durable" then some durable
  else none

end CirisPersist.Federation
