import CirisPersist.Federation.TwoPath.Paths
import CirisPersist.Library.Replay
import CirisPersist.Library.Sorting
import Mathlib.Data.Prod.Lex
import Mathlib.Data.String.Basic

/-!
# Deciding every held proposal

A self decides its proposals one after the other, by the instant they were asserted and
then by id.  A proposal that is open stands ahead of the later ones of its proposer and of
the later ones of its kind on its target, and a door's limits refuse those.

A refused proposal blocks nothing.  So of one proposer's proposals the open one is the
first that this limit alone could refuse, and what the other limit refused is passed over.
-/

namespace CirisPersist.Federation

abbrev HeldProposal :=
  Proposal × Answers

def TwoPathDecision.isOpen : TwoPathDecision -> Bool
  | refused _ => false
  | cancelled _ => false
  | _ => true

def heldBefore (a b : HeldProposal) : Prop :=
  a.1.assertedAt < b.1.assertedAt ∨ (a.1.assertedAt = b.1.assertedAt ∧ a.1.id ≤ b.1.id)

instance : DecidableRel heldBefore := by
  intro a b
  unfold heldBefore
  infer_instance

def sortHeld (proposals : List HeldProposal) : List HeldProposal :=
  proposals.insertionSort heldBefore

def openAhead (opened : List Proposal) (p : Proposal) : OpenAhead where
  byProposer := opened.any fun q => q.proposer == p.proposer
  onTarget := opened.any fun q => decide (q.kind = p.kind) && q.target == p.target

def openOnes (out : List (Proposal × TwoPathDecision)) : List Proposal :=
  (out.filter fun x => x.2.isOpen).map Prod.fst

theorem append_openOnes_cons
    (opened : List Proposal) (p : Proposal) (d : TwoPathDecision)
    (out : List (Proposal × TwoPathDecision)) :
    opened ++ openOnes ((p, d) :: out) =
      (if d.isOpen then opened ++ [p] else opened) ++ openOnes out := by
  unfold openOnes
  cases hopen : d.isOpen with
  | true => simp [hopen]
  | false => simp [hopen]

namespace TwoPathPolicy

theorem ite_some_eq_none_iff
    {a : Type} {c : Prop} [Decidable c] {reason : a} {rest : Option a} :
    (if c then some reason else rest) = none <-> ¬ c ∧ rest = none := by
  by_cases hc : c
  · simp [hc]
  · simp [hc]

theorem refusal_eq_none_iff
    {policy : TwoPathPolicy} {roster : Finset String} {p : Proposal} {ahead : OpenAhead} :
    policy.refusal roster p ahead = none <->
      policy.refusal roster p ⟨false, false⟩ = none ∧
        ¬ (policy.oneOpenPerProposer = true ∧ ahead.byProposer = true) ∧
        ¬ (policy.oneOpenPerTarget = true ∧ ahead.onTarget = true) := by
  simp only [refusal, ite_some_eq_none_iff, Bool.and_eq_true, Bool.and_false, Bool.false_eq_true,
    not_false_eq_true, and_true, and_assoc]

section Scan

variable [External] (policy : TwoPathPolicy) (roster : Finset String) (now : Instant)

def decideFrom : List Proposal -> List HeldProposal -> List (Proposal × TwoPathDecision)
  | _, [] => []
  | opened, (p, answers) :: rest =>
      let d := policy.decide roster p answers (openAhead opened p) now
      (p, d) :: decideFrom (if d.isOpen then opened ++ [p] else opened) rest

def decideAll (proposals : List HeldProposal) : List (Proposal × TwoPathDecision) :=
  policy.decideFrom roster now [] (sortHeld proposals)

/-- Neither refused for a structural reason nor cancelled: what is left are the limits. -/
def standsAlone (x : HeldProposal) : Bool :=
  (policy.decide roster x.1 x.2 ⟨false, false⟩ now).isOpen

variable {policy roster now}

theorem decide_isOpen_iff
    {p : Proposal} {answers : Answers} {ahead : OpenAhead} :
    (policy.decide roster p answers ahead now).isOpen = true <->
      policy.standsAlone roster now (p, answers) = true ∧
        ¬ (policy.oneOpenPerProposer = true ∧ ahead.byProposer = true) ∧
        ¬ (policy.oneOpenPerTarget = true ∧ ahead.onTarget = true) := by
  unfold standsAlone
  cases hahead : policy.refusal roster p ahead with
  | none =>
      rcases refusal_eq_none_iff.mp hahead with ⟨halone, hlimits⟩
      rw [decide_of_not_refused hahead, decide_of_not_refused halone]
      exact (and_iff_left hlimits).symm
  | some reason =>
      rw [decide_of_refused hahead]
      apply iff_of_false
      · exact nofun
      · rintro ⟨halone, hlimits⟩
        cases hnone : policy.refusal roster p ⟨false, false⟩ with
        | none =>
            rw [refusal_eq_none_iff.mpr ⟨hnone, hlimits⟩] at hahead
            cases hahead
        | some reason =>
            rw [decide_of_refused hnone] at halone
            cases halone

/-!
## The scan
-/

theorem map_fst_decideFrom
    (held : List HeldProposal) :
    forall opened, (policy.decideFrom roster now opened held).map Prod.fst = held.map Prod.fst := by
  induction held with
  | nil =>
      intro opened
      rfl
  | cons x held ih =>
      intro opened
      rw [decideFrom, List.map_cons, List.map_cons, ih]

theorem getElem?_decideFrom
    (held : List HeldProposal) :
    forall opened i, (policy.decideFrom roster now opened held)[i]? =
      held[i]?.map fun x => (x.1, policy.decide roster x.1 x.2
        (openAhead (opened ++ openOnes ((policy.decideFrom roster now opened held).take i)) x.1)
        now) := by
  induction held with
  | nil =>
      intro opened i
      rfl
  | cons x held ih =>
      intro opened i
      cases i with
      | zero => simp [decideFrom, openOnes]
      | succ i =>
          rw [decideFrom, List.getElem?_cons_succ, List.getElem?_cons_succ, ih, List.take_succ_cons,
            append_openOnes_cons]

variable (policy roster now) in
theorem getElem?_decideAll
    (proposals : List HeldProposal) (i : Nat) :
    (policy.decideAll roster now proposals)[i]? =
      (sortHeld proposals)[i]?.map fun x => (x.1, policy.decide roster x.1 x.2
        (openAhead (openOnes ((policy.decideAll roster now proposals).take i)) x.1) now) := by
  rw [decideAll, getElem?_decideFrom, List.nil_append]

end Scan

def OpensAt (out : List (Proposal × TwoPathDecision)) (i : Nat) : Prop :=
  exists x, out[i]? = some x ∧ x.2.isOpen = true

theorem mem_openOnes_take_iff
    {out : List (Proposal × TwoPathDecision)} {i : Nat} {q : Proposal} :
    q ∈ openOnes (out.take i) <-> exists j d, j < i ∧ out[j]? = some (q, d) ∧ d.isOpen = true := by
  rw [openOnes, List.mem_map]
  constructor
  · rintro ⟨⟨p, d⟩, hmem, rfl⟩
    rcases List.mem_filter.mp hmem with ⟨htake, hopen⟩
    rcases List.mem_iff_getElem?.mp htake with ⟨j, hj⟩
    rw [List.getElem?_take] at hj
    split at hj
    · rename_i hlt
      exact ⟨j, d, hlt, hj, hopen⟩
    · cases hj
  · rintro ⟨j, d, hlt, hj, hopen⟩
    have htake : (out.take i)[j]? = some (q, d) := by
      rw [List.getElem?_take, if_pos hlt, hj]
    exact ⟨(q, d), List.mem_filter.mpr ⟨List.mem_of_getElem? htake, hopen⟩, rfl⟩

section Limits

variable [External] (policy : TwoPathPolicy) (roster : Finset String) (now : Instant)
  (proposals : List HeldProposal)

def aheadAt (i : Nat) (p : Proposal) : OpenAhead :=
  openAhead (openOnes ((policy.decideAll roster now proposals).take i)) p

def proposerLimit (ahead : OpenAhead) : Bool :=
  policy.oneOpenPerProposer && ahead.byProposer

def targetLimit (ahead : OpenAhead) : Bool :=
  policy.oneOpenPerTarget && ahead.onTarget

/-- A proposal that stands alone and that the other limit does not refuse. -/
def EligibleAt (other : OpenAhead -> Bool) (i : Nat) : Prop :=
  exists x, (sortHeld proposals)[i]? = some x ∧ policy.standsAlone roster now x = true ∧
    other (policy.aheadAt roster now proposals i x.1) = false

/-- Of the proposals of one key the open one is the first that is eligible. -/
def OpensFirst {K : Type} (keyOf : Proposal -> K) (other : OpenAhead -> Bool) : Prop :=
  forall i x, (sortHeld proposals)[i]? = some x ->
    (OpensAt (policy.decideAll roster now proposals) i <->
      policy.EligibleAt roster now proposals other i ∧
        forall j y, j < i -> (sortHeld proposals)[j]? = some y -> keyOf y.1 = keyOf x.1 ->
          ¬ policy.EligibleAt roster now proposals other j)

/-- At most one proposal of a key is open: the first that is eligible. -/
structure OneOpenPer {K : Type} (keyOf : Proposal -> K) (other : OpenAhead -> Bool) : Prop where
  first : policy.OpensFirst roster now proposals keyOf other
  unique : forall i j x y, i < j -> (sortHeld proposals)[i]? = some x ->
    (sortHeld proposals)[j]? = some y -> keyOf x.1 = keyOf y.1 ->
    OpensAt (policy.decideAll roster now proposals) i ->
    ¬ OpensAt (policy.decideAll roster now proposals) j

variable {policy roster now proposals}

theorem opensAt_iff
    (i : Nat) :
    OpensAt (policy.decideAll roster now proposals) i <->
      exists x, (sortHeld proposals)[i]? = some x ∧ policy.standsAlone roster now x = true ∧
        policy.proposerLimit (policy.aheadAt roster now proposals i x.1) = false ∧
        policy.targetLimit (policy.aheadAt roster now proposals i x.1) = false := by
  rw [OpensAt, getElem?_decideAll]
  cases hx : (sortHeld proposals)[i]? with
  | none => simp
  | some x =>
      simp only [Option.map_some, Option.some.injEq, exists_eq_left', decide_isOpen_iff, aheadAt,
        proposerLimit, targetLimit, Bool.and_eq_false_iff, not_and_or, Bool.not_eq_true]

theorem exists_openOnes_iff
    {K : Type} (keyOf : Proposal -> K) (i : Nat) (k : K) :
    (exists q, q ∈ openOnes ((policy.decideAll roster now proposals).take i) ∧ keyOf q = k) <->
      exists j y, j < i ∧ (sortHeld proposals)[j]? = some y ∧ keyOf y.1 = k ∧
        OpensAt (policy.decideAll roster now proposals) j := by
  simp only [mem_openOnes_take_iff]
  constructor
  · rintro ⟨q, ⟨j, d, hlt, hj, hopen⟩, hkey⟩
    have hout := hj
    rw [getElem?_decideAll, Option.map_eq_some_iff] at hj
    rcases hj with ⟨y, hy, heq⟩
    cases heq
    exact ⟨j, y, hlt, hy, hkey, _, hout, hopen⟩
  · rintro ⟨j, y, hlt, hy, hkey, x, hx, hopen⟩
    have hout := hx
    rw [getElem?_decideAll, hy, Option.map_some, Option.some.injEq] at hx
    subst hx
    exact ⟨y.1, ⟨j, _, hlt, hout, hopen⟩, hkey⟩

section Limit

variable {K : Type} {keyOf : Proposal -> K} {limit other : OpenAhead -> Bool}

theorem limit_eq_false_iff
    (hlimit : forall opened p, limit (openAhead opened p) = true <->
      exists q, q ∈ opened ∧ keyOf q = keyOf p) (i : Nat) (p : Proposal) :
    limit (policy.aheadAt roster now proposals i p) = false <->
      forall j y, j < i -> (sortHeld proposals)[j]? = some y -> keyOf y.1 = keyOf p ->
        ¬ OpensAt (policy.decideAll roster now proposals) j := by
  rw [← Bool.not_eq_true, aheadAt, hlimit, exists_openOnes_iff]
  push Not
  exact Iff.rfl

section Scan

variable (hopens : forall i, OpensAt (policy.decideAll roster now proposals) i <->
    exists x, (sortHeld proposals)[i]? = some x ∧ policy.standsAlone roster now x = true ∧
      limit (policy.aheadAt roster now proposals i x.1) = false ∧
      other (policy.aheadAt roster now proposals i x.1) = false)
  (hlimit : forall opened p, limit (openAhead opened p) = true <->
    exists q, q ∈ opened ∧ keyOf q = keyOf p)

include hopens hlimit

theorem opensAt_iff_eligibleAt
    (i : Nat) :
    OpensAt (policy.decideAll roster now proposals) i <->
      policy.EligibleAt roster now proposals other i ∧ forall j, j < i ->
        (sortHeld proposals)[j]?.map (fun y => keyOf y.1) =
          (sortHeld proposals)[i]?.map (fun x => keyOf x.1) ->
        ¬ OpensAt (policy.decideAll roster now proposals) j := by
  rw [hopens i]
  -- the limit is what says that nothing of the key is open before
  constructor
  · rintro ⟨x, hx, halone, hfree, hother⟩
    refine ⟨⟨x, hx, halone, hother⟩, ?_⟩
    intro j hj hkey hopen
    rw [hx, Option.map_some, Option.map_eq_some_iff] at hkey
    rcases hkey with ⟨y, hy, hsame⟩
    exact (limit_eq_false_iff hlimit i x.1).mp hfree j y hj hy hsame hopen
  · rintro ⟨⟨x, hx, halone, hother⟩, hnone⟩
    refine ⟨x, hx, halone, ?_, hother⟩
    apply (limit_eq_false_iff hlimit i x.1).mpr
    intro j y hj hy hsame
    apply hnone j hj
    rw [hx, hy, Option.map_some, Option.map_some, hsame]

theorem opensFirst_of_limit :
    policy.OpensFirst roster now proposals keyOf other := by
  intro i x hx
  rw [Replay.taken_iff_first_eligible (opensAt_iff_eligibleAt hopens hlimit) i, hx]
  apply and_congr_right
  intro _
  constructor
  · intro hnone j y hj hy hsame
    apply hnone j hj
    rw [hy, Option.map_some, Option.map_some, hsame]
  · intro hnone j hj hkey heligible
    rcases Option.map_eq_some_iff.mp hkey with ⟨y, hy, hsame⟩
    exact hnone j y hj hy hsame heligible

end Scan

theorem OpensFirst.oneOpenPer
    (h : policy.OpensFirst roster now proposals keyOf other) :
    policy.OneOpenPer roster now proposals keyOf other where
  first := h
  unique := by
    intro i j x y hij hx hy hkey hi hj
    exact ((h j y hy).mp hj).2 i x hij hx hkey ((h i x hx).mp hi).1

end Limit

theorem oneOpenPer_proposer
    (honce : policy.oneOpenPerProposer = true) :
    policy.OneOpenPer roster now proposals Proposal.proposer policy.targetLimit := by
  apply OpensFirst.oneOpenPer
  apply opensFirst_of_limit opensAt_iff
  intro opened p
  simp [proposerLimit, honce, openAhead]

theorem oneOpenPer_target
    (honce : policy.oneOpenPerTarget = true) :
    policy.OneOpenPer roster now proposals (fun p => (p.kind, p.target)) policy.proposerLimit := by
  have hopens : forall i, OpensAt (policy.decideAll roster now proposals) i <->
      exists x, (sortHeld proposals)[i]? = some x ∧ policy.standsAlone roster now x = true ∧
        policy.targetLimit (policy.aheadAt roster now proposals i x.1) = false ∧
        policy.proposerLimit (policy.aheadAt roster now proposals i x.1) = false := by
    intro i
    simp only [opensAt_iff, and_comm]
  apply OpensFirst.oneOpenPer
  apply opensFirst_of_limit hopens
  intro opened p
  simp [targetLimit, honce, openAhead]

theorem eligibleAt_of_unset
    {other : OpenAhead -> Bool} (hunset : forall ahead, other ahead = false) (i : Nat) :
    policy.EligibleAt roster now proposals other i <->
      exists x, (sortHeld proposals)[i]? = some x ∧ policy.standsAlone roster now x = true := by
  simp only [EligibleAt, hunset, and_true]

end Limits

/-!
## The order
-/

def heldKey (x : HeldProposal) : Instant ×ₗ String :=
  toLex (x.1.assertedAt, x.1.id)

theorem heldBefore_iff
    (a b : HeldProposal) :
    heldBefore a b <-> heldKey a ≤ heldKey b := by
  simp only [heldBefore, heldKey, Prod.Lex.toLex_le_toLex]

theorem sortHeld_eq_of_perm
    {proposals proposals' : List HeldProposal} (hdistinct : (proposals.map heldKey).Nodup)
    (hperm : proposals'.Perm proposals) :
    sortHeld proposals' = sortHeld proposals :=
  Sorting.insertionSort_eq_of_perm heldBefore_iff
    (fun _ ha _ hb => List.inj_on_of_nodup_map hdistinct ha hb) hperm

theorem pairwise_sortHeld
    {proposals : List HeldProposal} (hdistinct : (proposals.map heldKey).Nodup) :
    (sortHeld proposals).Pairwise fun a b => heldKey a < heldKey b := by
  have hperm : (sortHeld proposals).Perm proposals := List.perm_insertionSort heldBefore proposals
  have hne := List.pairwise_map.mp ((hperm.map heldKey).nodup_iff.mpr hdistinct)
  exact (Sorting.pairwise_key_of_sort heldBefore_iff proposals).imp₂
    (fun a b hle hne => lt_of_le_of_ne hle hne) hne

/-- The decisions come in order, each with what is open before it, and a limit leaves open
the first proposal of its key that nothing else refuses or cancels. -/
theorem decide_all_orders_and_limits
    [External] (policy : TwoPathPolicy) (roster : Finset String) (now : Instant)
    (proposals : List HeldProposal) (hdistinct : (proposals.map heldKey).Nodup) :
    let sorted := sortHeld proposals
    let out := policy.decideAll roster now proposals
    (forall proposals', proposals'.Perm proposals ->
      policy.decideAll roster now proposals' = out) ∧
    (out.map Prod.fst = sorted.map Prod.fst ∧ sorted.Perm proposals ∧
      sorted.Pairwise fun a b => heldKey a < heldKey b) ∧
    (forall i, out[i]? = sorted[i]?.map fun x => (x.1, policy.decide roster x.1 x.2
      (openAhead (openOnes (out.take i)) x.1) now)) ∧
    (policy.oneOpenPerProposer = true ->
      policy.OneOpenPer roster now proposals Proposal.proposer policy.targetLimit) ∧
    (policy.oneOpenPerTarget = true ->
      policy.OneOpenPer roster now proposals (fun p => (p.kind, p.target)) policy.proposerLimit) ∧
    (policy.oneOpenPerTarget = false -> forall i,
      policy.EligibleAt roster now proposals policy.targetLimit i <->
        exists x, sorted[i]? = some x ∧ policy.standsAlone roster now x = true) ∧
    (policy.oneOpenPerProposer = false -> forall i,
      policy.EligibleAt roster now proposals policy.proposerLimit i <->
        exists x, sorted[i]? = some x ∧ policy.standsAlone roster now x = true) := by
  intro sorted out
  refine ⟨?_, ⟨map_fst_decideFrom _ _, List.perm_insertionSort heldBefore proposals,
    pairwise_sortHeld hdistinct⟩, getElem?_decideAll policy roster now proposals,
    oneOpenPer_proposer, oneOpenPer_target, ?_, ?_⟩
  · intro proposals' hperm
    rw [decideAll, sortHeld_eq_of_perm hdistinct hperm]
    rfl
  · intro hunset i
    apply eligibleAt_of_unset
    intro ahead
    rw [targetLimit, hunset, Bool.false_and]
  · intro hunset i
    apply eligibleAt_of_unset
    intro ahead
    rw [proposerLimit, hunset, Bool.false_and]

/-- Two proposals to add the watch, and one to add the ring by the second proposer. -/
def threeHeld : List HeldProposal :=
  [(⟨"c", .add, "phone", "ring", 3, 3⟩, noAnswers),
    (⟨"a", .add, "laptop", "watch", 1, 1⟩, noAnswers),
    (⟨"b", .add, "phone", "watch", 2, 2⟩, noAnswers)]

open Reference in
/-- Under both limits the phone's open proposal is its second one: its first, sound in
itself and not cancelled, is refused for the laptop's on the same target. -/
theorem decide_all_passes_over_blocked_target :
    (threeHeld.map heldKey).Nodup ∧ dayRule.oneOpenPerProposer = true ∧
      (sortHeld threeHeld).map (fun x => (x.1.id, dayRule.standsAlone threeKeys 4 x)) =
        [("a", true), ("b", true), ("c", true)] ∧
      (dayRule.decideAll threeKeys 4 threeHeld).map
          (fun x => (x.1.id, x.1.proposer, x.2.isOpen, x.2.token)) =
        [("a", "laptop", true, "pending"), ("b", "phone", false, "target_has_open_proposal"),
          ("c", "phone", true, "pending")] := by
  decide +kernel

open Reference in
theorem decide_all_orders_and_limits_of_three :
    (threeHeld.map heldKey).Nodup ∧ dayRule.oneOpenPerProposer = true ∧
      dayRule.decideAll threeKeys 4 threeHeld.reverse = dayRule.decideAll threeKeys 4 threeHeld ∧
      dayRule.OneOpenPer threeKeys 4 threeHeld Proposal.proposer dayRule.targetLimit := by
  have hdistinct : (threeHeld.map heldKey).Nodup := by decide +kernel
  have hall := decide_all_orders_and_limits dayRule threeKeys 4 threeHeld hdistinct
  exact ⟨hdistinct, rfl, hall.1 _ threeHeld.reverse_perm, hall.2.2.2.1 rfl⟩

end TwoPathPolicy

end CirisPersist.Federation
