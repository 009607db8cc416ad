import CirisPersist.Federation.ReverseQuorum.Fold
import CirisPersist.Library.Search
import CirisPersist.Library.Sorting
import Mathlib.Data.Prod.Lex
import Mathlib.Data.Set.Card

/-!
# The objection fold as a function of the rows

Nodes hold the same rows in different orders.  Every field of the fold but one
depends on which rows are held, not on their order: of a member's objections only
the first one met is listed as counted, so that list is the same everywhere just
when no member has two objections that count.

Whether an action is reversed is a count of members, and further objections can
only add to it.
-/

namespace CirisPersist.Federation
namespace ReverseQuorum

/-!
## Sorted lists
-/

theorem sortIds_eq_of_perm
    {ids ids' : List String} (h : ids'.Perm ids) :
    sortIds ids' = sortIds ids := by
  have hle : forall a b : String, a ≤ b <-> id a ≤ id b := fun _ _ => Iff.rfl
  exact Sorting.insertionSort_eq_of_perm hle (fun _ _ _ _ heq => heq) h

def ballotKey (b : Attestation) : Instant ×ₗ (Nat ×ₗ String) :=
  toLex (b.assertedAt, toLex (upholdRank b, b.attestationId))

theorem ballotBefore_iff
    (a b : Attestation) :
    ballotBefore a b <-> ballotKey a ≤ ballotKey b := by
  simp only [ballotBefore, ballotKey, Prod.Lex.toLex_le_toLex]

variable {rows : List Attestation}

theorem governingBallots_eq_of_perm
    {rows' : List Attestation} {eligible eligible' : List String}
    (hids : (rows.map Attestation.attestationId).Nodup) (hrows : rows'.Perm rows)
    (heligible : eligible'.Perm eligible) (notAfter : Option Instant) :
    governingBallots rows' eligible' notAfter = governingBallots rows eligible notAfter := by
  have hinj : forall a, a ∈ rows -> forall b, b ∈ rows -> ballotKey a = ballotKey b -> a = b := by
    intro a ha b hb hkey
    exact List.inj_on_of_nodup_map hids ha hb
      (congrArg (fun k : Instant ×ₗ (Nat ×ₗ String) => (ofLex (ofLex k).2).2) hkey)
  unfold governingBallots
  simp only [heligible.contains_eq]
  rw [Sorting.insertionSort_eq_of_perm ballotBefore_iff
    (fun a ha b hb => hinj a (List.mem_of_mem_filter ha) b (List.mem_of_mem_filter hb))
    (hrows.filter _)]

theorem escalateObjection_eq_of_perm
    [External] (action : ActionRef) (objection : Attestation)
    {ballots ballots' : List Attestation} {roster roster' dutyHolders dutyHolders' : List String}
    (policy : ReverseQuorumPolicy) (now : Instant)
    (hids : (ballots.map Attestation.attestationId).Nodup) (hballots : ballots'.Perm ballots)
    (hroster : roster'.Perm roster) (hduty : dutyHolders'.Perm dutyHolders) :
    escalateObjection action objection ballots' roster' dutyHolders' policy now =
      escalateObjection action objection ballots roster dutyHolders policy now := by
  have hseated := hduty.filter fun k =>
    decide (k ≠ action.actorKeyId ∧ k ≠ objection.attestingKeyId)
  have hpool := hroster.filter fun k => decide (k ≠ action.actorKeyId)
  have hrelevant := hballots.filter fun b => isBallotOn b action objection now
  have hids' : ((ballots.filter fun b => isBallotOn b action objection now).map
      Attestation.attestationId).Nodup := hids.sublist (List.filter_sublist.map _)
  simp only [escalateObjection, hseated.length_eq,
    governingBallots_eq_of_perm hids' hrelevant hseated,
    governingBallots_eq_of_perm hids' hrelevant hpool]

namespace ReverseQuorumInputs

section Tally

variable [External] (inp : ReverseQuorumInputs) (policy : ReverseQuorumPolicy)

/-!
## The tally by filters

Each list of the tally is a filter of the objections.  The counted ids alone look at
what came before: they are the first of each author.
-/

def isDismissed (o : Attestation) : Bool :=
  inp.heard policy o && decide (o.attestationId ∈ inp.dismissedIds)

def isAsked (o : Attestation) : Bool :=
  inp.heard policy o && decide (o.attestationId ∉ inp.dismissedIds)

def isOverruled (o : Attestation) : Bool :=
  inp.isAsked policy o && inp.overruled policy o

def counting (rows : List Attestation) : List Attestation :=
  rows.filter (inp.counts policy)

def tallied (acc : ObjectionTally) (rows : List Attestation) : ObjectionTally where
  objectors := Search.seenAfter Attestation.attestingKeyId acc.objectors (inp.counting policy rows)
  countedIds := acc.countedIds ++ (Search.fresh Attestation.attestingKeyId acc.objectors
    (inp.counting policy rows)).map Attestation.attestationId
  dismissedIds := acc.dismissedIds ++
    (rows.filter (inp.isDismissed policy)).map Attestation.attestationId
  escalatedIds := acc.escalatedIds ++
    (rows.filter (inp.isOverruled policy)).map Attestation.attestationId
  escalation := acc.escalation ++
    if policy.steward.isSome then
      (rows.filter (inp.isAsked policy)).map (inp.escalationOf policy)
    else
      []

variable {inp policy}

theorem tallyObjection_eq
    (acc : ObjectionTally) (o : Attestation) :
    inp.tallyObjection policy acc o = inp.tallied policy acc [o] := by
  unfold tallyObjection tallied counting
  cases hheard : inp.heard policy o with
  | false =>
      simp [isDismissed, isAsked, isOverruled, counts, hheard, Search.seenAfter, Search.fresh]
  | true =>
      by_cases hdismissed : o.attestationId ∈ inp.dismissedIds
      · simp [isDismissed, isAsked, isOverruled, counts, hheard, hdismissed, Search.seenAfter,
          Search.fresh]
      · have hasked : inp.isAsked policy o = true := by
          simp [isAsked, hheard, hdismissed]
        have hnot : inp.isDismissed policy o = false := by
          simp [isDismissed, hdismissed]
        have hcounts : inp.counts policy o = !inp.overruled policy o := by
          simp [counts, hheard, hdismissed]
        cases hoverruled : inp.overruled policy o with
        | true =>
            cases policy.steward.isSome <;>
              simp [hasked, hnot, hcounts, isOverruled, hdismissed, hoverruled, Search.seenAfter,
                Search.fresh]
        | false =>
            by_cases hseen : o.attestingKeyId ∈ acc.objectors <;> cases policy.steward.isSome <;>
              simp [hasked, hnot, hcounts, isOverruled, hdismissed, hoverruled, hseen,
                Search.seenAfter, Search.fresh]

theorem tallied_append
    (acc : ObjectionTally) (first second : List Attestation) :
    inp.tallied policy (inp.tallied policy acc first) second =
      inp.tallied policy acc (first ++ second) := by
  unfold tallied counting
  simp only [List.filter_append, Search.seenAfter_append, Search.fresh_append, List.map_append,
    List.append_assoc]
  split
  · rfl
  · rfl

theorem foldl_tallyObjection
    (rows : List Attestation) (acc : ObjectionTally) :
    rows.foldl (inp.tallyObjection policy) acc = inp.tallied policy acc rows := by
  induction rows generalizing acc with
  | nil => simp [tallied, counting, Search.seenAfter, Search.fresh]
  | cons o rest ih =>
      rw [List.foldl_cons, ih, tallyObjection_eq, tallied_append, List.singleton_append]

theorem objectionTally_eq
    (inp : ReverseQuorumInputs) (policy : ReverseQuorumPolicy) :
    inp.objectionTally policy =
      { objectors := Search.seenAfter Attestation.attestingKeyId ∅
          (inp.counting policy inp.objections)
        countedIds := (Search.fresh Attestation.attestingKeyId ∅
          (inp.counting policy inp.objections)).map Attestation.attestationId
        dismissedIds :=
          (inp.objections.filter (inp.isDismissed policy)).map Attestation.attestationId
        escalatedIds :=
          (inp.objections.filter (inp.isOverruled policy)).map Attestation.attestationId
        escalation :=
          if policy.steward.isSome then
            (inp.objections.filter (inp.isAsked policy)).map (inp.escalationOf policy)
          else
            [] } := by
  rw [objectionTally, foldl_tallyObjection]
  simp only [tallied, ObjectionTally.empty, List.nil_append]

end Tally

/-!
## Two orders of the same rows
-/

structure Permuted (inp inp' : ReverseQuorumInputs) : Prop where
  action : inp'.action = inp.action
  policy : inp'.policy = inp.policy
  now : inp'.now = inp.now
  objections : inp'.objections.Perm inp.objections
  dismissals : inp'.dismissals.Perm inp.dismissals
  ballots : inp'.ballots.Perm inp.ballots
  roster : inp'.roster.Perm inp.roster
  dutyHolders : inp'.dutyHolders.Perm inp.dutyHolders

structure RowsDistinct (inp : ReverseQuorumInputs) : Prop where
  objections : (inp.objections.map Attestation.attestationId).Nodup
  ballots : (inp.ballots.map Attestation.attestationId).Nodup

theorem Permuted.rowsDistinct
    {inp inp' : ReverseQuorumInputs} (h : inp.Permuted inp') (hdistinct : inp.RowsDistinct) :
    inp'.RowsDistinct where
  objections := (h.objections.map _).nodup_iff.mpr hdistinct.objections
  ballots := (h.ballots.map _).nodup_iff.mpr hdistinct.ballots

theorem Permuted.dismissedIds_eq
    {inp inp' : ReverseQuorumInputs} (h : inp.Permuted inp') :
    inp'.dismissedIds = inp.dismissedIds :=
  List.toFinset_eq_of_perm _ _ ((h.dismissals.filter _).filterMap _)

theorem exists_perm_cons_cons
    {o o' : Attestation} (ho : o ∈ rows) (ho' : o' ∈ rows) (hne : o' ≠ o) :
    exists rest, (o :: o' :: rest).Perm rows := by
  classical
  have hmem : o' ∈ rows.erase o := (List.mem_erase_of_ne hne).mpr ho'
  exact ⟨(rows.erase o).erase o', ((List.perm_cons_erase hmem).symm.cons o).trans
    (List.perm_cons_erase ho).symm⟩

section Orders

variable [External] {inp inp' : ReverseQuorumInputs} {policy : ReverseQuorumPolicy}

section Reordered

variable (h : inp.Permuted inp')

include h

theorem Permuted.heard_eq :
    inp'.heard policy = inp.heard policy := by
  funext o
  simp only [heard, h.action, h.roster.contains_eq]

theorem Permuted.escalationOf_eq
    (hdistinct : inp.RowsDistinct) :
    inp'.escalationOf policy = inp.escalationOf policy := by
  funext o
  unfold escalationOf
  rw [h.action, h.now]
  exact escalateObjection_eq_of_perm inp.action o policy inp.now hdistinct.ballots h.ballots
    h.roster h.dutyHolders

theorem Permuted.overruled_eq
    (hdistinct : inp.RowsDistinct) :
    inp'.overruled policy = inp.overruled policy := by
  funext o
  simp only [overruled, h.escalationOf_eq hdistinct]

theorem Permuted.counts_eq
    (hdistinct : inp.RowsDistinct) :
    inp'.counts policy = inp.counts policy := by
  funext o
  simp only [counts, h.heard_eq, h.dismissedIds_eq, h.overruled_eq hdistinct]

theorem Permuted.objectors_eq
    (hdistinct : inp.RowsDistinct) :
    (inp'.objectionTally policy).objectors = (inp.objectionTally policy).objectors := by
  ext k
  simp only [mem_objectors_iff, h.counts_eq hdistinct, h.objections.mem_iff]

theorem Permuted.dismissed_perm :
    (inp'.objectionTally policy).dismissedIds.Perm (inp.objectionTally policy).dismissedIds := by
  have hsame : inp'.isDismissed policy = inp.isDismissed policy := by
    funext o
    simp only [isDismissed, h.heard_eq, h.dismissedIds_eq]
  rw [objectionTally_eq, objectionTally_eq]
  simp only [hsame]
  exact (h.objections.filter _).map _

theorem Permuted.isAsked_eq :
    inp'.isAsked policy = inp.isAsked policy := by
  funext o
  simp only [isAsked, h.heard_eq, h.dismissedIds_eq]

theorem Permuted.escalated_perm
    (hdistinct : inp.RowsDistinct) :
    (inp'.objectionTally policy).escalatedIds.Perm (inp.objectionTally policy).escalatedIds := by
  have hsame : inp'.isOverruled policy = inp.isOverruled policy := by
    funext o
    simp only [isOverruled, h.isAsked_eq, h.overruled_eq hdistinct]
  rw [objectionTally_eq, objectionTally_eq]
  simp only [hsame]
  exact (h.objections.filter _).map _

theorem Permuted.escalation_sorted_eq
    (hdistinct : inp.RowsDistinct) :
    (inp'.objectionTally policy).escalation.insertionSort
        (fun a b => a.objectionId ≤ b.objectionId) =
      (inp.objectionTally policy).escalation.insertionSort
        fun a b => a.objectionId ≤ b.objectionId := by
  rw [objectionTally_eq, objectionTally_eq]
  simp only [h.isAsked_eq, h.escalationOf_eq hdistinct]
  cases policy.steward.isSome with
  | false => rfl
  | true =>
      refine Sorting.insertionSort_eq_of_perm (fun _ _ => Iff.rfl) ?_
        ((h.objections.filter _).map _)
      intro a ha b hb hid
      rcases List.mem_map.mp ha with ⟨o, ho, rfl⟩
      rcases List.mem_map.mp hb with ⟨o', ho', rfl⟩
      have heq : o = o' := List.inj_on_of_nodup_map hdistinct.objections
        (List.mem_of_mem_filter ho) (List.mem_of_mem_filter ho') hid
      rw [heq]

theorem Permuted.foldOver_eq_of_counted_eq
    (hdistinct : inp.RowsDistinct) :
    { inp'.foldOver with countedObjectionIds := inp.foldOver.countedObjectionIds } =
      inp.foldOver := by
  unfold foldOver
  rw [h.policy]
  cases inp.policy with
  | none => simp only [h.action, h.roster.length_eq]
  | some policy =>
      simp only [h.action, h.now, h.roster.length_eq, h.objectors_eq hdistinct,
        sortIds_eq_of_perm h.dismissed_perm, sortIds_eq_of_perm (h.escalated_perm hdistinct),
        h.escalation_sorted_eq hdistinct]

end Reordered

def OneObjectionEach (inp : ReverseQuorumInputs) : Prop :=
  forall policy, inp.policy = some policy -> forall o o', o ∈ inp.objections ->
    o' ∈ inp.objections -> inp.counts policy o = true -> inp.counts policy o' = true ->
    o.attestingKeyId = o'.attestingKeyId -> o = o'

theorem countedIds_eq_of_oneObjectionEach
    (hdistinct : inp.RowsDistinct) (hpolicy : inp.policy = some policy)
    (hone : inp.OneObjectionEach) :
    (inp.objectionTally policy).countedIds =
      (inp.counting policy inp.objections).map Attestation.attestationId := by
  have hnodup : ((inp.counting policy inp.objections).map Attestation.attestingKeyId).Nodup := by
    refine List.Nodup.map_on ?_ (hdistinct.objections.of_map.sublist List.filter_sublist)
    intro o ho o' ho' hauthor
    have ho := List.mem_filter.mp ho
    have ho' := List.mem_filter.mp ho'
    exact hone policy hpolicy o o' ho.1 ho'.1 ho.2 ho'.2 hauthor
  rw [objectionTally_eq]
  simp only
  rw [Search.fresh_eq_self _ _ (fun _ _ => Finset.notMem_empty _) hnodup]

theorem Permuted.oneObjectionEach
    (h : inp.Permuted inp') (hdistinct : inp.RowsDistinct) (hone : inp.OneObjectionEach) :
    inp'.OneObjectionEach := by
  intro policy hpolicy o o' ho ho' hcounts hcounts'
  rw [h.counts_eq hdistinct] at hcounts hcounts'
  exact hone policy (h.policy ▸ hpolicy) o o' (h.objections.mem_iff.mp ho)
    (h.objections.mem_iff.mp ho') hcounts hcounts'

theorem Permuted.counted_perm
    (h : inp.Permuted inp') (hdistinct : inp.RowsDistinct) (hpolicy : inp.policy = some policy)
    (hone : inp.OneObjectionEach) :
    (inp'.objectionTally policy).countedIds.Perm (inp.objectionTally policy).countedIds := by
  rw [countedIds_eq_of_oneObjectionEach hdistinct hpolicy hone,
    countedIds_eq_of_oneObjectionEach (h.rowsDistinct hdistinct) (h.policy.trans hpolicy)
      (h.oneObjectionEach hdistinct hone)]
  unfold counting
  rw [h.counts_eq hdistinct]
  exact (h.objections.filter _).map _

theorem foldOver_countedObjectionIds
    (hpolicy : inp.policy = some policy) :
    inp.foldOver.countedObjectionIds = sortIds (inp.objectionTally policy).countedIds := by
  unfold foldOver
  rw [hpolicy]

theorem mem_countedObjectionIds_iff
    (hpolicy : inp.policy = some policy) (id : String) :
    id ∈ inp.foldOver.countedObjectionIds <-> id ∈ (inp.objectionTally policy).countedIds := by
  rw [foldOver_countedObjectionIds hpolicy]
  exact List.mem_insertionSort _

theorem second_not_counted
    (inp : ReverseQuorumInputs) {o o' : Attestation} {rest : List Attestation}
    (hobjections : inp.objections = o' :: o :: rest)
    (hids : (inp.objections.map Attestation.attestationId).Nodup)
    (hcounts : inp.counts policy o = true) (hcounts' : inp.counts policy o' = true)
    (hauthor : o.attestingKeyId = o'.attestingKeyId) :
    o'.attestationId ∈ (inp.objectionTally policy).countedIds ∧
      o.attestationId ∉ (inp.objectionTally policy).countedIds := by
  have hcounting : inp.counting policy (o' :: o :: rest) = o' :: o :: inp.counting policy rest := by
    simp only [counting, List.filter_cons, hcounts, hcounts', if_true]
  have hfresh : Search.fresh Attestation.attestingKeyId ∅
      (o' :: o :: inp.counting policy rest) =
      o' :: Search.fresh Attestation.attestingKeyId {o'.attestingKeyId}
        (inp.counting policy rest) := by
    simp [Search.fresh, hauthor]
  rw [hobjections, List.map_cons, List.map_cons, List.nodup_cons, List.nodup_cons] at hids
  rw [objectionTally_eq, hobjections, hcounting, hfresh, List.map_cons]
  refine ⟨List.mem_cons_self, ?_⟩
  intro hmem
  rcases List.mem_cons.mp hmem with hsame | hlater
  · exact hids.1 (hsame ▸ List.mem_cons_self)
  · rcases List.mem_map.mp hlater with ⟨r, hr, hid⟩
    have hrest : r ∈ rest := List.mem_of_mem_filter (Search.fresh_subset _ _ r hr)
    exact hids.2.1 (hid ▸ List.mem_map_of_mem hrest)

/-- The fold is the same in every order of the rows exactly when no member has two
objections that count, and all of it but the counted ids always is. -/
theorem foldOver_order_free_iff
    (inp : ReverseQuorumInputs) (hdistinct : inp.RowsDistinct) :
    (forall inp', inp.Permuted inp' ->
      { inp'.foldOver with countedObjectionIds := inp.foldOver.countedObjectionIds } =
        inp.foldOver) ∧
    ((forall inp', inp.Permuted inp' -> inp'.foldOver = inp.foldOver) <->
      inp.OneObjectionEach) := by
  have hbut := fun inp' (h : inp.Permuted inp') => h.foldOver_eq_of_counted_eq hdistinct
  refine ⟨hbut, ?_, ?_⟩
  · intro hall policy hpolicy o o' ho ho' hcounts hcounts' hauthor
    by_contra hne
    rcases exists_perm_cons_cons ho' ho hne with ⟨rest, hperm⟩
    -- once with the one row in front, once with the other
    let first : ReverseQuorumInputs := { inp with objections := o' :: o :: rest }
    let second : ReverseQuorumInputs := { inp with objections := o :: o' :: rest }
    have hswap : second.objections.Perm first.objections := List.Perm.swap _ _ _
    have hfirst : inp.Permuted first :=
      ⟨rfl, rfl, rfl, hperm, List.Perm.refl _, List.Perm.refl _, List.Perm.refl _,
        List.Perm.refl _⟩
    have hsecond : inp.Permuted second :=
      ⟨rfl, rfl, rfl, hswap.trans hperm, List.Perm.refl _, List.Perm.refl _, List.Perm.refl _,
        List.Perm.refl _⟩
    have hsame : first.foldOver = second.foldOver := (hall _ hfirst).trans (hall _ hsecond).symm
    have hfirstPolicy : first.policy = some policy := hpolicy
    have hsecondPolicy : second.policy = some policy := hpolicy
    have hlisted := (second_not_counted second rfl (hsecond.rowsDistinct hdistinct).objections
      hcounts' hcounts hauthor.symm).1
    have hunlisted := (second_not_counted first rfl (hfirst.rowsDistinct hdistinct).objections
      hcounts hcounts' hauthor).2
    rw [← mem_countedObjectionIds_iff hsecondPolicy, ← hsame,
      mem_countedObjectionIds_iff hfirstPolicy] at hlisted
    exact hunlisted hlisted
  · intro hone inp' h
    have hrest := hbut inp' h
    have hcounted : inp'.foldOver.countedObjectionIds = inp.foldOver.countedObjectionIds := by
      cases hpolicy : inp.policy with
      | none =>
          have hpolicy' : inp'.policy = none := h.policy.trans hpolicy
          simp only [foldOver, hpolicy, hpolicy']
      | some policy =>
          rw [foldOver_countedObjectionIds hpolicy,
            foldOver_countedObjectionIds (h.policy.trans hpolicy),
            sortIds_eq_of_perm (h.counted_perm hdistinct hpolicy hone)]
    rw [← hcounted] at hrest
    exact hrest

end Orders

/-!
## The count of objecting members
-/

theorem mem_dismissedIds_iff
    {inp : ReverseQuorumInputs} (id : String) :
    id ∈ inp.dismissedIds <->
      exists d, d ∈ inp.dismissals ∧ d.dimension = some dimensionDismissal ∧
        envelopeStr d Field.dismisses = some id := by
  simp only [dismissedIds, List.mem_toFinset, List.mem_filterMap, List.mem_filter, beq_iff_eq,
    and_assoc]

section Quorum

variable [External] (inp : ReverseQuorumInputs) (policy : ReverseQuorumPolicy)

/-- The row objects to the action inside its window and nothing lifted it. -/
structure Objects (o : Attestation) : Prop where
  dimension : o.dimension = some dimensionObjection
  names : envelopeStr o Field.objectsTo = some inp.action.actionId
  opened : (policy.window inp.action.assertedAt).1 ≤ o.assertedAt
  unclosed : o.assertedAt ≤ (policy.window inp.action.assertedAt).2
  undismissed : forall d, d ∈ inp.dismissals -> d.dimension = some dimensionDismissal ->
    envelopeStr d Field.dismisses ≠ some o.attestationId
  unescalated : policy.steward.isSome = true ->
    (inp.escalationOf policy o).outcome ≠ .dismissed

def objectingMembers : Set String :=
  { k | k ∈ inp.roster ∧ exists o, o ∈ inp.objections ∧ inp.Objects policy o ∧
    o.attestingKeyId = k }

/-- Rows that cannot count, and further rows of a member who is counted already. -/
def AddsNoObjector (o : Attestation) : Prop :=
  o.attestingKeyId ∉ inp.roster ∨
    o.assertedAt < (policy.window inp.action.assertedAt).1 ∨
    (policy.window inp.action.assertedAt).2 < o.assertedAt ∨
    exists o', o' ∈ inp.objections ∧ inp.Objects policy o' ∧
      o'.attestingKeyId = o.attestingKeyId

variable {inp policy}

theorem counts_iff
    (o : Attestation) :
    inp.counts policy o = true <-> o.attestingKeyId ∈ inp.roster ∧ inp.Objects policy o := by
  simp only [counts, heard, overruled, Bool.and_eq_true, beq_iff_eq, List.contains_iff_mem,
    decide_eq_true_eq, Bool.not_eq_true', Bool.and_eq_false_iff, decide_eq_false_iff_not,
    mem_dismissedIds_iff]
  constructor
  · rintro ⟨⟨⟨⟨⟨⟨hdim, hnames⟩, hroster⟩, hopened⟩, hclosed⟩, hdismissed⟩, hover⟩
    refine ⟨hroster, hdim, hnames, hopened, hclosed, ?_, ?_⟩
    · intro d hd hdimension hid
      exact hdismissed ⟨d, hd, hdimension, hid⟩
    · intro hsteward
      rcases hover with hnone | hkept
      · rw [hnone] at hsteward
        cases hsteward
      · exact hkept
  · rintro ⟨hroster, h⟩
    refine ⟨⟨⟨⟨⟨⟨h.dimension, h.names⟩, hroster⟩, h.opened⟩, h.unclosed⟩, ?_⟩, ?_⟩
    · rintro ⟨d, hd, hdimension, hid⟩
      exact h.undismissed d hd hdimension hid
    · cases hsteward : policy.steward.isSome with
      | false => exact Or.inl rfl
      | true => exact Or.inr (h.unescalated hsteward)

theorem coe_objectors
    (inp : ReverseQuorumInputs) (policy : ReverseQuorumPolicy) :
    ((inp.objectionTally policy).objectors : Set String) = inp.objectingMembers policy := by
  ext k
  rw [Finset.mem_coe, mem_objectors_iff]
  constructor
  · rintro ⟨o, ho, hcounts, rfl⟩
    rcases (counts_iff o).mp hcounts with ⟨hroster, hobjects⟩
    exact ⟨hroster, o, ho, hobjects, rfl⟩
  · rintro ⟨hroster, o, ho, hobjects, rfl⟩
    exact ⟨o, ho, (counts_iff o).mpr ⟨hroster, hobjects⟩, rfl⟩

theorem foldOver_standing
    (hpolicy : inp.policy = some policy) :
    inp.foldOver.standing =
      if policy.reversalThreshold inp.roster.length ≤
          (inp.objectionTally policy).objectors.card then
        .reversed
      else if decide ((policy.window inp.action.assertedAt).1 ≤ inp.now) &&
          decide (inp.now ≤ (policy.window inp.action.assertedAt).2) then
        .windowOpen
      else
        .stood := by
  unfold foldOver
  rw [hpolicy]

variable {objections : List Attestation}

theorem standing_eq_of_objectors_eq
    (hpolicy : inp.policy = some policy)
    (h : ({ inp with objections := objections }.objectionTally policy).objectors =
      (inp.objectionTally policy).objectors) :
    { inp with objections := objections }.foldOver.standing = inp.foldOver.standing := by
  have hpolicy' : { inp with objections := objections }.policy = some policy := hpolicy
  rw [foldOver_standing hpolicy, foldOver_standing hpolicy', h]

theorem objectors_subset
    (h : inp.objections ⊆ objections) :
    (inp.objectionTally policy).objectors ⊆
      ({ inp with objections := objections }.objectionTally policy).objectors := by
  intro k hk
  rw [mem_objectors_iff] at hk ⊢
  rcases hk with ⟨o, ho, hcounts, hauthor⟩
  exact ⟨o, h ho, hcounts, hauthor⟩

theorem objectors_eq_of_addsNoObjector
    (h : inp.objections ⊆ objections)
    (hadds : forall o, o ∈ objections -> o ∈ inp.objections ∨ AddsNoObjector inp policy o) :
    ({ inp with objections := objections }.objectionTally policy).objectors =
      (inp.objectionTally policy).objectors := by
  refine Finset.Subset.antisymm ?_ (objectors_subset h)
  intro k hk
  rcases (mem_objectors_iff policy k).mp hk with ⟨o, ho, hcounts, rfl⟩
  have hcounts : inp.counts policy o = true := hcounts
  rcases (counts_iff o).mp hcounts with ⟨hroster, hobjects⟩
  rw [mem_objectors_iff]
  rcases hadds o ho with hheld | houtside | hbefore | hafter | ⟨o', ho', hobjects', hauthor⟩
  · exact ⟨o, hheld, hcounts, rfl⟩
  · exact absurd hroster houtside
  · exact absurd hobjects.opened (not_le.mpr hbefore)
  · exact absurd hobjects.unclosed (not_le.mpr hafter)
  · exact ⟨o', ho', (counts_iff o').mpr ⟨hauthor ▸ hroster, hobjects'⟩, hauthor⟩

/-- An action is reversed exactly when enough members object to it.  Further objections
never lift a reversal, and those by others, outside the window or by a member who is
counted already change nothing. -/
theorem reversed_iff_objectingMembers
    (inp : ReverseQuorumInputs) {policy : ReverseQuorumPolicy}
    (hpolicy : inp.policy = some policy) (hroster : inp.roster.Nodup) :
    (inp.foldOver.standing = ReverseQuorumStanding.reversed <->
      min policy.m (max inp.roster.toFinset.card 1) ≤ (inp.objectingMembers policy).ncard) ∧
    (forall objections, inp.objections ⊆ objections ->
      inp.foldOver.standing = ReverseQuorumStanding.reversed ->
      { inp with objections := objections }.foldOver.standing =
        ReverseQuorumStanding.reversed) ∧
    (forall objections, inp.objections ⊆ objections ->
      (forall o, o ∈ objections -> o ∈ inp.objections ∨ AddsNoObjector inp policy o) ->
      { inp with objections := objections }.foldOver.standing = inp.foldOver.standing) := by
  refine ⟨?_, ?_, ?_⟩
  · rw [foldOver_reversed_iff hpolicy, ← coe_objectors, Set.ncard_coe_finset,
      List.toFinset_card_of_nodup hroster]
    exact Iff.rfl
  · intro objections hsub hreversed
    have hpolicy' : { inp with objections := objections }.policy = some policy := hpolicy
    rw [foldOver_reversed_iff hpolicy] at hreversed
    rw [foldOver_reversed_iff hpolicy']
    exact le_trans hreversed (Finset.card_le_card (objectors_subset hsub))
  · intro objections hsub hadds
    exact standing_eq_of_objectors_eq hpolicy (objectors_eq_of_addsNoObjector hsub hadds)

end Quorum

/-!
## Samples
-/

section Samples

open Reference

def raised (id author : String) : Attestation :=
  .ofAuthor id author "k" .scores (Instant.ofSeconds 1)
    [("dimension", .str dimensionObjection), (Field.objectsTo, .str "x")]

/-- Objections to an action `x` of `k` in a room of two, under `1/2`. -/
def objectionsOf (rows : List Attestation) : ReverseQuorumInputs where
  action := ⟨"k", "x", 0⟩
  objections := rows
  dismissals := []
  ballots := []
  roster := ["m", "n"]
  dutyHolders := []
  policy := some { m := 1, n := 2, windowSecs := 60, steward := none }
  now := Instant.ofSeconds 2

theorem rowsDistinct_objectionsOf
    (h : (rows.map Attestation.attestationId).Nodup) :
    (objectionsOf rows).RowsDistinct :=
  ⟨h, List.nodup_nil⟩

theorem objections_apart_order_free :
    (objectionsOf [raised "a" "m", raised "b" "n"]).RowsDistinct ∧
      (objectionsOf [raised "b" "n", raised "a" "m"]).foldOver =
        (objectionsOf [raised "a" "m", raised "b" "n"]).foldOver := by
  have hdistinct : (objectionsOf [raised "a" "m", raised "b" "n"]).RowsDistinct :=
    rowsDistinct_objectionsOf (by decide)
  refine ⟨hdistinct, ((foldOver_order_free_iff _ hdistinct).2).mpr ?_ _ ?_⟩
  · intro policy _ o o' ho ho' _ _ hauthor
    have hrows : (o = raised "a" "m" ∨ o = raised "b" "n") ∧
        (o' = raised "a" "m" ∨ o' = raised "b" "n") := by
      simpa [objectionsOf] using And.intro ho ho'
    rcases hrows with ⟨rfl | rfl, rfl | rfl⟩
    · rfl
    · exact absurd hauthor (by decide)
    · exact absurd hauthor (by decide)
    · rfl
  · exact ⟨rfl, rfl, rfl, List.Perm.swap _ _ _, List.Perm.refl _, List.Perm.refl _,
      List.Perm.refl _, List.Perm.refl _⟩

theorem objections_repeated_order_seen :
    (objectionsOf [raised "a" "m", raised "b" "m"]).RowsDistinct ∧
      (objectionsOf [raised "a" "m", raised "b" "m"]).Permuted
        (objectionsOf [raised "b" "m", raised "a" "m"]) ∧
      (objectionsOf [raised "a" "m", raised "b" "m"]).foldOver.countedObjectionIds = ["a"] ∧
      (objectionsOf [raised "b" "m", raised "a" "m"]).foldOver.countedObjectionIds = ["b"] := by
  refine ⟨rowsDistinct_objectionsOf (by decide), ?_, by decide, by decide⟩
  exact ⟨rfl, rfl, rfl, List.Perm.swap _ _ _, List.Perm.refl _, List.Perm.refl _,
    List.Perm.refl _, List.Perm.refl _⟩

theorem one_objection_reverses :
    ((objectionsOf [raised "a" "m"]).foldOver.standing = .reversed <->
      min 1 (max (objectionsOf [raised "a" "m"]).roster.toFinset.card 1) ≤
        ((objectionsOf [raised "a" "m"]).objectingMembers
          { m := 1, n := 2, windowSecs := 60, steward := none }).ncard) ∧
      (objectionsOf [raised "a" "m"]).foldOver.standing = .reversed ∧
      (objectionsOf [raised "b" "m", raised "a" "m"]).foldOver.standing =
        .reversed := by
  have hpolicy : (objectionsOf [raised "a" "m"]).policy =
      some { m := 1, n := 2, windowSecs := 60, steward := none } := rfl
  have hspec := reversed_iff_objectingMembers (objectionsOf [raised "a" "m"]) hpolicy (by decide)
  have hreversed : (objectionsOf [raised "a" "m"]).foldOver.standing =
      .reversed := by decide
  exact ⟨hspec.1, hreversed, hspec.2.1 [raised "b" "m", raised "a" "m"] (by simp [objectionsOf])
    hreversed⟩

end Samples

end ReverseQuorumInputs

end ReverseQuorum
end CirisPersist.Federation
