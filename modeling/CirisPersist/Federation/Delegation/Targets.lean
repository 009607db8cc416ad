import CirisPersist.Federation.Delegation.Walk

/-!
# Asking about keys and enumerating them

A walk with targets returns as soon as it traverses an edge to one of them.  A walk
without targets goes on to the end and lists every key it reaches.  Up to the first
hit both take the same nodes and follow the same edges, so the answer of the one can be
read off the list of the other.
-/

namespace CirisPersist.Federation
namespace WalkInput

def withoutTargets (inp : WalkInput) : WalkInput :=
  { inp with targets := ∅ }

section Targets

variable [External]

/-!
## The loop
-/

theorem walkLoop_hitTarget_iff
    (inp : WalkInput) (read : String -> List Attestation) (rounds : Nat) (st : WalkState)
    (hflag : st.out.hitTarget = false) :
    ((inp.walkLoop read rounds st).hitTarget = true <->
      exists node, node ∈ Search.explore WalkNode.key (inp.successors read) rounds st.visited
          st.queue ∧
        exists r, r ∈ inp.edgesFrom read node ∧ r.attestedKeyId ∈ inp.targets) := by
  induction rounds generalizing st with
  | zero => simp [walkLoop, Search.explore, hflag]
  | succ rounds ih =>
      cases hqueue : st.queue with
      | nil => simp [walkLoop, hqueue, Search.explore, hflag]
      | cons node rest =>
          have hrun := runsOver_walkNode inp read { st with queue := rest } node
          simp only [walkLoop, hqueue, Search.explore, List.mem_cons]
          cases hnode : inp.walkNode read { st with queue := rest } node with
          | error out =>
              rw [hnode] at hrun
              cases hrun with
              | hit hmem htarget hset =>
                  exact iff_of_true hset ⟨node, Or.inl rfl, _, hmem, htarget⟩
          | ok st' =>
              rw [hnode] at hrun
              cases hrun with
              | passed hfollows hkept hothers =>
                  rcases hfollows.popped with ⟨hvisited, hqueue'⟩
                  simp only
                  rw [ih st' (hkept.trans hflag), hvisited, hqueue']
                  constructor
                  · rintro ⟨n, hn, hedge⟩
                    exact ⟨n, Or.inr hn, hedge⟩
                  · rintro ⟨n, rfl | hn, r, hr, htarget⟩
                    · exact absurd htarget (hothers r hr)
                    · exact ⟨n, hn, r, hr, htarget⟩

/-- Asking about some keys and enumerating all keys never disagree, in whatever order the
rows of a granter are read. -/
theorem hit_target_iff_reached
    (inp : WalkInput) (read : String -> List Attestation) :
    (inp.scopedDelegationReachReading read).hitTarget = true <->
      exists k, k ∈ inp.targets ∧
        k ∈ (inp.withoutTargets.scopedDelegationReachReading read).reached := by
  have hreached : forall k,
      k ∈ (inp.withoutTargets.scopedDelegationReachReading read).reached <->
        exists node, node ∈ Search.explore WalkNode.key (inp.successors read)
            (inp.store.rows.length + 1) {inp.issuer} [inp.rootNode] ∧
          exists r, r ∈ inp.edgesFrom read node ∧ r.attestedKeyId = k :=
    mem_reached_iff_explored (rfl : inp.withoutTargets.targets = ∅) read
  have hhit : (inp.scopedDelegationReachReading read).hitTarget = true <->
      exists node, node ∈ Search.explore WalkNode.key (inp.successors read)
          (inp.store.rows.length + 1) {inp.issuer} [inp.rootNode] ∧
        exists r, r ∈ inp.edgesFrom read node ∧ r.attestedKeyId ∈ inp.targets := by
    unfold scopedDelegationReachReading
    split
    · rename_i hzero
      simp [ScopedReach.default, edgesFrom_of_no_depth hzero]
    · exact walkLoop_hitTarget_iff inp read _ inp.startState rfl
  rw [hhit]
  constructor
  · rintro ⟨node, hnode, r, hr, htarget⟩
    exact ⟨r.attestedKeyId, htarget, (hreached _).mpr ⟨node, hnode, r, hr, rfl⟩⟩
  · rintro ⟨k, htarget, hk⟩
    rcases (hreached k).mp hk with ⟨node, hnode, r, hr, rfl⟩
    exact ⟨node, hnode, r, hr, htarget⟩

end Targets

end WalkInput
end CirisPersist.Federation
