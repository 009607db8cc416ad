import CirisPersist.Federation.Delegation.Walk
import CirisPersist.Library.Sorting
import Mathlib.Data.Prod.Lex

/-!
# The delegation walk as of an instant

A walk as of an instant reads three things off the store: the edges of a granter, the
granter's own retractions, and the retractions by name among the rows about a recipient.
Its lens drops every row asserted later from each of them.  Two stores that differ only by
later rows therefore give the same walk, although they differ in size and the walk takes
its rounds from the size.
-/

namespace CirisPersist.Federation

/-!
## The order of the store

Read newest first, the rows of two stores up to an instant come in the same order.
-/

def newestKey (a : Attestation) : (Instant ×ₗ String)ᵒᵈ :=
  OrderDual.toDual (toLex (a.assertedAt, a.attestationId))

theorem newerThan_iff
    (a b : Attestation) :
    newerThan a b <-> newestKey a ≤ newestKey b := by
  unfold newestKey
  rw [OrderDual.toDual_le_toDual, Prod.Lex.toLex_le_toLex]
  rfl

variable {store store' : AttestationStore}

theorem filter_granterRows_eq
    {t : Instant} (hrows : forall r, r.assertedAt ≤ t -> (r ∈ store.rows <-> r ∈ store'.rows))
    (key : String) :
    ((granterRows store' key).filter fun r => decide (r.assertedAt ≤ t)) =
      (granterRows store key).filter fun r => decide (r.assertedAt ≤ t) := by
  let seen (store : AttestationStore) :=
    (granterRows store key).filter fun r => decide (r.assertedAt ≤ t)
  have hnodup : forall store, (seen store).Nodup := by
    intro store
    exact (List.Nodup.of_map _ (store.read_distinct _)).filter _
  have hsorted : forall store, (seen store).Pairwise fun a b => newestKey a ≤ newestKey b := by
    intro store
    exact (Sorting.pairwise_key_of_sort newerThan_iff _).filter _
  have hmem : forall r, r ∈ seen store' <-> r ∈ seen store := by
    intro r
    rw [List.mem_filter, List.mem_filter, mem_granterRows_iff, mem_granterRows_iff,
      decide_eq_true_iff]
    exact and_congr_left fun hr => and_congr_left fun _ => (hrows r hr).symm
  refine ((List.perm_ext_iff_of_nodup (hnodup store') (hnodup store)).mpr hmem).eq_of_pairwise ?_
    (hsorted store') (hsorted store)
  intro a b ha hb hab hba
  have hkey : newestKey a = newestKey b := le_antisymm hab hba
  have hid : a.attestationId = b.attestationId :=
    congrArg (fun k => (ofLex (OrderDual.ofDual k)).2) hkey
  have ha' := ((mem_granterRows_iff _ _ _).mp (List.mem_of_mem_filter ((hmem a).mp ha))).1
  have hb' := ((mem_granterRows_iff _ _ _).mp (List.mem_of_mem_filter hb)).1
  exact store.eq_of_id_eq ha' hb' hid

/-!
## What the lens sees
-/

section Lens

variable [External]

theorem DelegationWalkLens.assertedBy_of_admitsEdge
    {lens : DelegationWalkLens} {e : Attestation} (h : lens.admitsEdge e = true) :
    lens.assertedBy e = true := by
  unfold DelegationWalkLens.admitsEdge DelegationWalkLens.admitsAt at h
  unfold DelegationWalkLens.assertedBy
  cases hasOf : lens.asOf with
  | none => rfl
  | some t =>
      simp only [hasOf, Option.all_some, Bool.and_eq_true] at h
      exact h.1.1.1

end Lens

theorem granterRetracted_filter
    (lens : DelegationWalkLens) (rows : List Attestation) :
    granterRetracted lens (rows.filter lens.assertedBy) = granterRetracted lens rows := by
  unfold granterRetracted
  rw [List.filter_filter]
  simp only [Bool.and_assoc, Bool.and_self]

def SameBy (lens : DelegationWalkLens) (store store' : AttestationStore) : Prop :=
  forall r, lens.assertedBy r = true -> (r ∈ store.rows <-> r ∈ store'.rows)

variable {lens : DelegationWalkLens}

theorem SameBy.symm
    (h : SameBy lens store store') :
    SameBy lens store' store :=
  fun r hr => (h r hr).symm

theorem SameBy.incomingRetracted_subset
    (h : SameBy lens store store') (key : String) :
    incomingRetracted store lens key ⊆ incomingRetracted store' lens key := by
  refine retiredIds_subset (incomingRows_distinct store lens key)
    (incomingRows_distinct store' lens key) ?_
  intro r hr
  rw [mem_incomingRows_iff] at hr ⊢
  exact ⟨(h r hr.2.2.2).mp hr.1, hr.2⟩

theorem SameBy.incomingRetracted_eq
    (h : SameBy lens store store') (key : String) :
    incomingRetracted store' lens key = incomingRetracted store lens key :=
  Finset.Subset.antisymm (h.symm.incomingRetracted_subset key) (h.incomingRetracted_subset key)

namespace WalkInput

theorem enough_startState
    (inp : WalkInput) :
    Search.Enough (keysFrom inp.store inp.issuer) inp.startState.visited inp.startState.queue
      (inp.store.rows.length + 1) := by
  have hissuer : inp.issuer ∈ keysFrom inp.store inp.issuer := Finset.mem_insert_self _ _
  refine ⟨Finset.singleton_subset_iff.mpr hissuer, ?_⟩
  have hcard := card_keysFrom_le inp.store inp.issuer
  have hpos : 0 < (keysFrom inp.store inp.issuer).card := Finset.card_pos.mpr ⟨_, hissuer⟩
  simp only [startState, List.length_singleton, Finset.card_singleton]
  omega

section AsOf

variable [External]

def onStore (inp : WalkInput) (store : AttestationStore) : WalkInput :=
  { inp with store := store }

variable {inp : WalkInput}

theorem delegatesOnward_onStore
    (h : SameBy inp.lens inp.store store) (key : String) (isRoot : Bool) :
    (inp.onStore store).delegatesOnward key isRoot = inp.delegatesOnward key isRoot := by
  unfold delegatesOnward
  rw [Bool.eq_iff_iff, List.any_eq_true, List.any_eq_true]
  simp only [AttestationStore.mem_read_iff, Bool.and_eq_true]
  refine exists_congr fun r => and_congr_left fun hr => and_congr_left fun _ => ?_
  exact (h r (DelegationWalkLens.assertedBy_of_admitsEdge hr.1.1)).symm

theorem walkRow_onStore
    (h : SameBy inp.lens inp.store store) (node : WalkNode) (retracted : Finset String) :
    (inp.onStore store).walkRow node retracted = inp.walkRow node retracted := by
  funext st r
  have hprobe : forall unseen out,
      (inp.onStore store).probeCap node unseen r out = inp.probeCap node unseen r out := by
    intro unseen out
    unfold probeCap
    rw [delegatesOnward_onStore h]
    rfl
  have hfollow : forall st, (inp.onStore store).follow node st r = inp.follow node st r := by
    intro st
    unfold follow
    simp only [hprobe]
    rfl
  unfold walkRow
  have hincoming : incomingRetracted (inp.onStore store).store (inp.onStore store).lens
      r.attestedKeyId = incomingRetracted inp.store inp.lens r.attestedKeyId :=
    h.incomingRetracted_eq r.attestedKeyId
  simp only [hincoming, hfollow]
  rfl

theorem walkRow_of_unseen
    {r : Attestation} (hunseen : inp.lens.assertedBy r = false) (node : WalkNode)
    (retracted : Finset String) (st : WalkState) :
    inp.walkRow node retracted st r = .ok st := by
  have hedge : inp.lens.admitsEdge r = false := by
    cases hadmits : inp.lens.admitsEdge r with
    | false => rfl
    | true =>
        rw [DelegationWalkLens.assertedBy_of_admitsEdge hadmits] at hunseen
        cases hunseen
  simp [walkRow, hedge]

theorem foldlM_walkRow_filter
    (node : WalkNode) (retracted : Finset String) (rows : List Attestation) :
    forall st, (rows.filter inp.lens.assertedBy).foldlM (inp.walkRow node retracted) st =
      rows.foldlM (inp.walkRow node retracted) st := by
  induction rows with
  | nil =>
      intro st
      rfl
  | cons r rest ih =>
      intro st
      rw [List.foldlM_cons]
      cases hseen : inp.lens.assertedBy r with
      | true =>
          rw [List.filter_cons_of_pos hseen, List.foldlM_cons]
          simp only [ih]
      | false =>
          rw [List.filter_cons_of_neg (by simp [hseen]), ih, walkRow_of_unseen hseen]
          rfl

variable {read : String -> List Attestation}

section OnStore

variable {read' : String -> List Attestation} (h : SameBy inp.lens inp.store store)
  (horder : forall key,
    (read' key).filter inp.lens.assertedBy = (read key).filter inp.lens.assertedBy)

include h horder

theorem walkNode_onStore
    (st : WalkState) (node : WalkNode) :
    (inp.onStore store).walkNode read' st node = inp.walkNode read st node := by
  have hretracted : granterRetracted inp.lens (read' node.key) =
      granterRetracted inp.lens (read node.key) := by
    rw [← granterRetracted_filter, horder, granterRetracted_filter]
  have hrows : (read' node.key).foldlM ((inp.onStore store).walkRow node
        (granterRetracted inp.lens (read' node.key))) st =
      (read node.key).foldlM (inp.walkRow node (granterRetracted inp.lens (read node.key))) st := by
    rw [walkRow_onStore h, hretracted, ← foldlM_walkRow_filter, horder, foldlM_walkRow_filter]
  unfold walkNode
  simp only
  rw [show (inp.onStore store).lens = inp.lens from rfl, hrows]
  rfl

theorem walkLoop_onStore
    (rounds : Nat) :
    forall st, (inp.onStore store).walkLoop read' rounds st = inp.walkLoop read rounds st := by
  induction rounds with
  | zero =>
      intro st
      rfl
  | succ rounds ih =>
      intro st
      unfold walkLoop
      simp only [walkNode_onStore h horder, ih]

end OnStore

/-!
## Enough rounds

A round for the issuer and one for every stored row empty the queue, so more rounds change
nothing.
-/

theorem key_mem_of_successor
    (hread : forall key r, r ∈ read key -> r ∈ inp.store.rows) {node child : WalkNode}
    (h : child ∈ inp.successors read node) :
    child.key ∈ keysFrom inp.store inp.issuer := by
  unfold successors proposals at h
  split at h
  · rcases List.mem_map.mp h with ⟨r, hr, rfl⟩
    unfold edgesFrom at hr
    split at hr
    · exact attestedKeyId_mem_keysFrom (hread _ r (List.mem_of_mem_filter hr)) _
    · cases hr
  · cases h

theorem walkLoop_stable
    (hread : forall key r, r ∈ read key -> r ∈ inp.store.rows) (extra rounds : Nat) (st : WalkState)
    (henough : Search.Enough (keysFrom inp.store inp.issuer) st.visited st.queue rounds) :
    inp.walkLoop read (rounds + extra) st = inp.walkLoop read rounds st := by
  induction rounds generalizing st with
  | zero =>
      have hempty : st.queue = [] := by
        have hbudget := henough.budget
        exact List.length_eq_zero_iff.mp (by omega)
      cases extra with
      | zero => rfl
      | succ extra => simp [walkLoop, hempty]
  | succ rounds ih =>
      rw [Nat.add_right_comm]
      cases hqueue : st.queue with
      | nil => simp [walkLoop, hqueue]
      | cons node rest =>
          have hrun := runsOver_walkNode inp read { st with queue := rest } node
          simp only [walkLoop, hqueue]
          cases hnode : inp.walkNode read { st with queue := rest } node with
          | error out => rfl
          | ok st' =>
              rw [hnode] at hrun
              cases hrun with
              | passed hfollows _ _ =>
                  apply ih
                  rcases hfollows.popped with ⟨hvisited, hqueue'⟩
                  rw [hqueue] at henough
                  rw [hvisited, hqueue']
                  exact henough.next fun _ hc => key_mem_of_successor hread hc

/-- A walk as of an instant does not see the future: over stores that hold the same rows up
to the instant, read in the same relative order, it ends with the same outcome. -/
theorem walk_as_of_blind_to_later_rows
    (inp : WalkInput) (t : Instant) (hasOf : inp.lens.asOf = some t)
    (store' : AttestationStore) (read read' : String -> List Attestation)
    (hread : forall key, (read key).Perm (granterRows inp.store key))
    (hread' : forall key, (read' key).Perm (granterRows store' key))
    (hrows : forall r, r.assertedAt ≤ t -> (r ∈ inp.store.rows <-> r ∈ store'.rows))
    (horder : forall key, ((read' key).filter fun r => decide (r.assertedAt ≤ t)) =
      (read key).filter fun r => decide (r.assertedAt ≤ t)) :
    let out := inp.scopedDelegationReachReading read
    let out' := (inp.onStore store').scopedDelegationReachReading read'
    out'.reached = out.reached ∧ out'.traversed = out.traversed ∧
      out'.hitTarget = out.hitTarget := by
  have hseen : inp.lens.assertedBy = fun r => decide (r.assertedAt ≤ t) := by
    funext r
    rw [DelegationWalkLens.assertedBy, hasOf, Option.all_some]
  have hsame : SameBy inp.lens inp.store store' := by
    intro r hr
    rw [hseen, decide_eq_true_iff] at hr
    exact hrows r hr
  rw [← hseen] at horder
  have hstored : forall key r, r ∈ read key -> r ∈ inp.store.rows := fun key r hr =>
    ((mem_granterRows_iff _ _ _).mp ((hread key).mem_iff.mp hr)).1
  have hstored' : forall key r, r ∈ read' key -> r ∈ (inp.onStore store').store.rows :=
    fun key r hr => ((mem_granterRows_iff _ _ _).mp ((hread' key).mem_iff.mp hr)).1
  have heq : (inp.onStore store').scopedDelegationReachReading read' =
      inp.scopedDelegationReachReading read := by
    unfold scopedDelegationReachReading
    rw [delegatesOnward_onStore hsame]
    split
    · rename_i hzero
      exact (if_pos hzero).symm
    · rename_i hzero
      rw [if_neg (show ¬ inp.effectiveDepth = 0 from hzero)]
      -- both are the walk with the rounds of the two stores together
      calc (inp.onStore store').walkLoop read' (store'.rows.length + 1) inp.startState
        _ = (inp.onStore store').walkLoop read' (store'.rows.length + 1 + inp.store.rows.length)
              inp.startState :=
            (walkLoop_stable hstored' _ _ _ (enough_startState (inp.onStore store'))).symm
        _ = inp.walkLoop read (store'.rows.length + 1 + inp.store.rows.length) inp.startState :=
            walkLoop_onStore hsame horder _ _
        _ = inp.walkLoop read (inp.store.rows.length + 1 + store'.rows.length) inp.startState := by
            congr 1
            omega
        _ = inp.walkLoop read (inp.store.rows.length + 1) inp.startState :=
            walkLoop_stable hstored _ _ _ (enough_startState inp)
  simp only [heq, and_self]

end AsOf

section Samples

open Reference

/-- The issuer's grant, which it takes back at the hundredth second. -/
def laterRetraction : Attestation :=
  { sampleGrant "back" "issuer" "deputy" 100 false with
    attestationType := .withdraws }

def grantedStore : AttestationStore :=
  ⟨[sampleGrant "first" "issuer" "deputy" 1 false], by decide⟩

def takenBackStore : AttestationStore :=
  ⟨[laterRetraction, sampleGrant "first" "issuer" "deputy" 1 false], by decide⟩

def asOfTen : WalkInput where
  store := grantedStore
  issuer := "issuer"
  targets := {"deputy"}
  scopeToken := "moderate"
  maxDepth := 3
  policy := DelegationWalkPolicy.moderationDuty
  lens := { DelegationWalkLens.default with asOf := some (Instant.ofSeconds 10) }

theorem asOfTen_blind :
    (asOfTen.scopedDelegationReachReading (granterRows grantedStore)).hitTarget = true ∧
      ((asOfTen.onStore takenBackStore).scopedDelegationReachReading
        (granterRows takenBackStore)).hitTarget = true := by
  have hrows : forall r : Attestation, r.assertedAt ≤ Instant.ofSeconds 10 ->
      (r ∈ grantedStore.rows <-> r ∈ takenBackStore.rows) := by
    intro r hr
    have hlater : r ≠ laterRetraction := by
      rintro rfl
      exact absurd hr (by decide)
    simp [grantedStore, takenBackStore, hlater]
  have hblind := walk_as_of_blind_to_later_rows asOfTen (Instant.ofSeconds 10) rfl takenBackStore
    (granterRows grantedStore) (granterRows takenBackStore) (fun _ => List.Perm.refl _)
    (fun _ => List.Perm.refl _) hrows (filter_granterRows_eq hrows)
  have hhit : (asOfTen.scopedDelegationReachReading (granterRows grantedStore)).hitTarget = true := by
    decide
  exact ⟨hhit, hblind.2.2.trans hhit⟩

end Samples

end WalkInput
end CirisPersist.Federation
