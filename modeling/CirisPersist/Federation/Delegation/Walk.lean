import CirisPersist.Federation.Delegation.Edge
import CirisPersist.Library.Search

/-!
# The scoped delegation walk

Which keys does a chain of `delegates_to` edges from an issuer reach, under one
scope token?  The walk is a breadth-first search whose nodes carry what the edge
that reached them passed on: its scope tokens, whether it deputizes, and how
many further hops it allows.
-/

namespace CirisPersist.Federation

/-- Whether a walk enforces deputization and attenuation along the chain. -/
structure DelegationWalkPolicy where
  enforceAttenuationAndSubDelegation : Bool
deriving DecidableEq

namespace DelegationWalkPolicy

def consentRevocation : DelegationWalkPolicy :=
  ⟨false⟩

def moderationDuty : DelegationWalkPolicy :=
  ⟨true⟩

end DelegationWalkPolicy

/-!
## Inputs and outputs
-/

structure WalkInput where
  store : AttestationStore
  issuer : String
  targets : Finset String
  scopeToken : String
  maxDepth : Nat
  policy : DelegationWalkPolicy
  lens : DelegationWalkLens

structure ScopedReach where
  reached : Finset String
  hitTarget : Bool
  issuerEmittedDelegation : Bool
  targetEdgeRetracted : Bool
  targetEdgeMissingScope : Bool
  beyondCap : Bool
  traversed : Finset String
deriving DecidableEq

def ScopedReach.default : ScopedReach where
  reached := ∅
  hitTarget := false
  issuerEmittedDelegation := false
  targetEdgeRetracted := false
  targetEdgeMissingScope := false
  beyondCap := false
  traversed := ∅

structure WalkNode where
  key : String
  depth : Nat
  parentScope : Option (Finset String)
  parentSubDelegation : Bool
  budget : Option Nat

structure WalkState where
  out : ScopedReach
  visited : Finset String
  queue : List WalkNode

namespace WalkInput

def effectiveDepth (inp : WalkInput) : Nat :=
  min inp.maxDepth maxWithdrawsDelegationDepth

/-!
## Nodes
-/

def childBudget (node : WalkNode) (r : Attestation) : Option Nat :=
  match delegationSubDelegationDepth r.envelope, node.budget.map (· - 1) with
  | some d, some i => some (min d i)
  | some d, none => some d
  | none, some i => some i
  | none, none => none

variable {r : Attestation}

theorem childBudget_le_declared
    (node : WalkNode) {d : Nat} (h : delegationSubDelegationDepth r.envelope = some d) :
    exists b, childBudget node r = some b ∧ b ≤ d := by
  unfold childBudget
  rw [h]
  cases node.budget with
  | none => exact ⟨d, rfl, Nat.le_refl d⟩
  | some i => exact ⟨min d (i - 1), rfl, Nat.min_le_left d (i - 1)⟩

variable {node : WalkNode}

theorem childBudget_le_inherited
    (r : Attestation) {i : Nat} (h : node.budget = some i) :
    exists b, childBudget node r = some b ∧ b ≤ i - 1 := by
  unfold childBudget
  rw [h]
  cases delegationSubDelegationDepth r.envelope with
  | none => exact ⟨i - 1, rfl, Nat.le_refl (i - 1)⟩
  | some d => exact ⟨min d (i - 1), rfl, Nat.min_le_right d (i - 1)⟩

theorem childBudget_cases
    {b : Nat} (h : childBudget node r = some b) :
    delegationSubDelegationDepth r.envelope = some b ∨
      exists i, node.budget = some i ∧ b = i - 1 := by
  unfold childBudget at h
  cases hdeclared : delegationSubDelegationDepth r.envelope with
  | none =>
      cases hbudget : node.budget with
      | none => simp [hdeclared, hbudget] at h
      | some i =>
          simp only [hdeclared, hbudget, Option.map_some, Option.some.injEq] at h
          exact Or.inr ⟨i, rfl, h.symm⟩
  | some d =>
      cases hbudget : node.budget with
      | none =>
          simp only [hdeclared, hbudget, Option.map_none, Option.some.injEq] at h
          exact Or.inl (congrArg some h)
      | some i =>
          simp only [hdeclared, hbudget, Option.map_some, Option.some.injEq] at h
          cases Nat.le_total d (i - 1) with
          | inl hle =>
              rw [Nat.min_eq_left hle] at h
              exact Or.inl (congrArg some h)
          | inr hle =>
              rw [Nat.min_eq_right hle] at h
              exact Or.inr ⟨i, rfl, h.symm⟩

def childNode (node : WalkNode) (r : Attestation) : WalkNode where
  key := r.attestedKeyId
  depth := node.depth + 1
  parentScope := some (delegationScopeSet r.envelope)
  parentSubDelegation := delegationGrantsSubDelegation r.envelope
  budget := childBudget node r

def proposals (inp : WalkInput) (node : WalkNode) (edges : List Attestation) : List WalkNode :=
  if node.depth + 1 < inp.effectiveDepth then
    edges.map (childNode node)
  else
    []

structure Follows (inp : WalkInput) (node : WalkNode) (edges : List Attestation)
    (st st' : WalkState) : Prop where
  reached : forall k, k ∈ st'.out.reached <->
    k ∈ st.out.reached ∨ exists r, r ∈ edges ∧ r.attestedKeyId = k
  visited : st'.visited =
    Search.seenAfter WalkNode.key st.visited (inp.proposals node edges)
  queue : st'.queue =
    st.queue ++ Search.fresh WalkNode.key st.visited (inp.proposals node edges)

structure SameSearch (st st' : WalkState) : Prop where
  reached : st'.out.reached = st.out.reached
  visited : st'.visited = st.visited
  queue : st'.queue = st.queue

theorem SameSearch.refl
    (st : WalkState) :
    SameSearch st st :=
  ⟨rfl, rfl, rfl⟩

variable {st st' : WalkState}

theorem SameSearch.follows
    {inp : WalkInput} (h : SameSearch st st') :
    Follows inp node [] st st' where
  reached := by
    simp [h.reached]
  visited := by
    simp [proposals, Search.seenAfter, Search.fresh, h.visited]
  queue := by
    simp [proposals, Search.fresh, h.queue]

theorem Follows.trans
    {inp : WalkInput} {first second : List Attestation} {st'' : WalkState}
    (h : Follows inp node first st st') (h' : Follows inp node second st' st'') :
    Follows inp node (first ++ second) st st'' := by
  have happend : inp.proposals node (first ++ second) =
      inp.proposals node first ++ inp.proposals node second := by
    unfold proposals
    split <;> simp
  refine ⟨?_, ?_, ?_⟩
  · intro k
    rw [h'.reached, h.reached]
    simp only [List.mem_append, or_assoc, or_and_right, exists_or]
  · rw [h'.visited, h.visited, happend, Search.seenAfter_append]
  · rw [h'.queue, h.queue, h.visited, happend, Search.fresh_append, List.append_assoc]

/-- What a run over edges does to a walk with targets: it follows edges to other keys, or
returns at an edge to a target. -/
inductive RunsOver (inp : WalkInput) (node : WalkNode) (edges : List Attestation)
    (st : WalkState) : Except ScopedReach WalkState -> Prop where
  | passed {st' : WalkState} :
      Follows inp node edges st st' -> st'.out.hitTarget = st.out.hitTarget ->
      (forall r, r ∈ edges -> r.attestedKeyId ∉ inp.targets) ->
      RunsOver inp node edges st (.ok st')
  | hit {out : ScopedReach} {r : Attestation} :
      r ∈ edges -> r.attestedKeyId ∈ inp.targets -> out.hitTarget = true ->
      RunsOver inp node edges st (.error out)

theorem RunsOver.bind
    {inp : WalkInput} {first second : List Attestation} {result : Except ScopedReach WalkState}
    {next : WalkState -> Except ScopedReach WalkState} (h : RunsOver inp node first st result)
    (hnext : forall st', RunsOver inp node second st' (next st')) :
    RunsOver inp node (first ++ second) st (result >>= next) := by
  cases h with
  | hit hmem htarget hset =>
      exact .hit (List.mem_append_left second hmem) htarget hset
  | passed hfollows hkept hothers =>
      rename_i st'
      have hrun : RunsOver inp node second st' (next st') := hnext st'
      change RunsOver inp node (first ++ second) st (next st')
      cases hresult : next st' with
      | error out =>
          rw [hresult] at hrun
          cases hrun with
          | hit hmem htarget hset =>
              exact .hit (List.mem_append_right first hmem) htarget hset
      | ok st'' =>
          rw [hresult] at hrun
          cases hrun with
          | passed hfollows' hkept' hothers' =>
              refine .passed (hfollows.trans hfollows') (hkept'.trans hkept) ?_
              intro e he
              cases List.mem_append.mp he with
              | inl he => exact hothers e he
              | inr he => exact hothers' e he

section Walk

variable [External] (inp : WalkInput)

def delegatesOnward (key : String) (isRoot : Bool) : Bool :=
  (inp.store.read ((AttestationQuery.byKey key).withTypes
    [.delegatesTo])).any fun n =>
      inp.lens.admitsEdge n && (!isRoot || inp.lens.admitsRootEdge n) &&
        delegationScopeGrants n.envelope inp.scopeToken

/-!
## One node
-/

def mayPassOn (node : WalkNode) : Bool :=
  !inp.policy.enforceAttenuationAndSubDelegation ||
    ((node.parentScope.isNone || node.parentSubDelegation) && node.budget != some 0)

def attenuates (node : WalkNode) (r : Attestation) : Bool :=
  !inp.policy.enforceAttenuationAndSubDelegation ||
    node.parentScope.all fun parent =>
      decide (scopeWithin parent (delegationScopeSet r.envelope))

/-- A recipient at the cap that delegates the scope onward: the chain is longer
than the walk may follow. -/
def probeCap (node : WalkNode) (unseen : Bool) (r : Attestation) (out : ScopedReach) :
    ScopedReach :=
  if !out.beyondCap && node.depth + 1 == inp.effectiveDepth && unseen &&
      inp.delegatesOnward r.attestedKeyId false then
    { out with beyondCap := true }
  else
    out

@[simp]
theorem probeCap_reached
    (node : WalkNode) (unseen : Bool) (r : Attestation) (out : ScopedReach) :
    (inp.probeCap node unseen r out).reached = out.reached := by
  unfold probeCap
  split <;> rfl

/-- The edge is traversable: record its recipient, stop at a target, and queue
the recipient unless it was queued before or lies at the cap. -/
def follow (node : WalkNode) (st : WalkState) (r : Attestation) :
    Except ScopedReach WalkState :=
  let out := { st.out with
    reached := insert r.attestedKeyId st.out.reached
    traversed := insert r.attestationId st.out.traversed }
  let unseen := decide (r.attestedKeyId ∉ st.visited)
  if r.attestedKeyId ∈ inp.targets then
    Except.error { out with hitTarget := true }
  else if unseen && decide (node.depth + 1 < inp.effectiveDepth) then
    Except.ok { out := inp.probeCap node unseen r out
                visited := insert r.attestedKeyId st.visited
                queue := st.queue ++ [childNode node r] }
  else
    Except.ok { st with out := inp.probeCap node unseen r out }

/-- One row of the granter.  `error` is the early return of the source. -/
def walkRow (node : WalkNode) (retracted : Finset String) (st : WalkState)
    (r : Attestation) : Except ScopedReach WalkState :=
  if !r.isDelegation || !inp.lens.admitsEdge r ||
      (node.depth == 0 && !inp.lens.admitsRootEdge r) then
    .ok st
  else
    let st := if node.depth = 0 then
        { st with out := { st.out with issuerEmittedDelegation := true } }
      else
        st
    let toTarget := decide (r.attestedKeyId ∈ inp.targets)
    if !delegationScopeGrants r.envelope inp.scopeToken then
      .ok { st with out := { st.out with
        targetEdgeMissingScope := toTarget || st.out.targetEdgeMissingScope } }
    else if r.attestedKeyId ∈ retracted then
      .ok { st with out := { st.out with
        targetEdgeRetracted := toTarget || st.out.targetEdgeRetracted } }
    else if !inp.attenuates node r then
      .ok st
    else if r.attestationId ∈ incomingRetracted inp.store inp.lens r.attestedKeyId then
      .ok { st with out := { st.out with
        targetEdgeRetracted := toTarget || st.out.targetEdgeRetracted } }
    else
      inp.follow node st r

def walkNode (read : String -> List Attestation) (st : WalkState) (node : WalkNode) :
    Except ScopedReach WalkState :=
  if node.depth ≥ inp.effectiveDepth || !inp.mayPassOn node then
    .ok st
  else
    let rows := read node.key
    rows.foldlM (inp.walkRow node (granterRetracted inp.lens rows)) st

/-!
## The loop

The rows of a granter come through `read`, so that the walk can be compared
under different orders; the store's own order is newest first.  Each key enters
the queue at most once, so a round for the issuer and one for every stored row
are enough.
-/

def walkLoop (read : String -> List Attestation) : Nat -> WalkState -> ScopedReach
  | 0, st => st.out
  | rounds + 1, st =>
      match st.queue with
      | [] => st.out
      | node :: queue =>
          match inp.walkNode read { st with queue := queue } node with
          | .error out => out
          | .ok st' => walkLoop read rounds st'

def rootNode : WalkNode where
  key := inp.issuer
  depth := 0
  parentScope := none
  parentSubDelegation := false
  budget := none

def startState : WalkState where
  out := ScopedReach.default
  visited := {inp.issuer}
  queue := [inp.rootNode]

def scopedDelegationReachReading (read : String -> List Attestation) : ScopedReach :=
  if inp.effectiveDepth = 0 then
    { ScopedReach.default with beyondCap := inp.delegatesOnward inp.issuer true }
  else
    inp.walkLoop read (inp.store.rows.length + 1) inp.startState

def scopedDelegationReachAt : ScopedReach :=
  inp.scopedDelegationReachReading (granterRows inp.store)

/-!
## The walk is a breadth-first search

The nodes of the walk are those of the library search whose successors are the
recipients of traversable edges, up to the first edge that leads to a target.
Without targets the walk never returns early, and the keys it reaches are the
recipients of the edges of searched nodes.
-/

def traversable (read : String -> List Attestation) (node : WalkNode)
    (r : Attestation) : Bool :=
  r.isDelegation && inp.lens.admitsEdge r &&
    (node.depth != 0 || inp.lens.admitsRootEdge r) &&
    delegationScopeGrants r.envelope inp.scopeToken &&
    decide (r.attestedKeyId ∉ granterRetracted inp.lens (read node.key)) &&
    inp.attenuates node r &&
    decide (r.attestationId ∉ incomingRetracted inp.store inp.lens r.attestedKeyId)

def edgesFrom (read : String -> List Attestation) (node : WalkNode) :
    List Attestation :=
  if node.depth < inp.effectiveDepth ∧ inp.mayPassOn node = true then
    (read node.key).filter (inp.traversable read node)
  else
    []

def successors (read : String -> List Attestation) (node : WalkNode) : List WalkNode :=
  inp.proposals node (inp.edgesFrom read node)

variable {inp}

theorem follow_follows
    (node : WalkNode) (st : WalkState) (hnot : r.attestedKeyId ∉ inp.targets) :
    exists st', inp.follow node st r = .ok st' ∧ Follows inp node [r] st st' := by
  have hreached : forall k,
      k ∈ insert r.attestedKeyId st.out.reached <->
        k ∈ st.out.reached ∨ exists e, e ∈ [r] ∧ e.attestedKeyId = k := by
    intro k
    simp only [Finset.mem_insert, List.mem_singleton, exists_eq_left]
    constructor
    · rintro (h | h)
      · exact Or.inr h.symm
      · exact Or.inl h
    · rintro (h | h)
      · exact Or.inr h
      · exact Or.inl h.symm
  unfold follow
  simp only [hnot, if_false]
  split
  · rename_i hpush
    simp only [Bool.and_eq_true, decide_eq_true_iff] at hpush
    refine ⟨_, rfl, ?_, ?_, ?_⟩
    · intro k
      rw [probeCap_reached]
      exact hreached k
    · simp [proposals, hpush.2, Search.seenAfter, Search.fresh, childNode, hpush.1]
    · simp [proposals, hpush.2, Search.fresh, childNode, hpush.1]
  · rename_i hskip
    simp only [Bool.and_eq_true, decide_eq_true_iff, not_and] at hskip
    have hfresh : Search.fresh WalkNode.key st.visited (inp.proposals node [r]) = [] := by
      unfold proposals
      split
      · rename_i hdepth
        have hseen : r.attestedKeyId ∈ st.visited := by
          by_contra hnot
          exact hskip hnot hdepth
        simp [Search.fresh, childNode, hseen]
      · rfl
    refine ⟨_, rfl, ?_, ?_, ?_⟩
    · intro k
      rw [probeCap_reached]
      exact hreached k
    · simp [Search.seenAfter, hfresh]
    · simp [hfresh]

theorem traversable_eq
    (read : String -> List Attestation) (node : WalkNode) (r : Attestation) :
    inp.traversable read node r =
      (!(!r.isDelegation || !inp.lens.admitsEdge r ||
          (node.depth == 0 && !inp.lens.admitsRootEdge r)) &&
        delegationScopeGrants r.envelope inp.scopeToken &&
        decide (r.attestedKeyId ∉ granterRetracted inp.lens (read node.key)) &&
        inp.attenuates node r &&
        decide (r.attestationId ∉ incomingRetracted inp.store inp.lens r.attestedKeyId)) := by
  simp only [traversable, Bool.not_or, Bool.not_and, Bool.not_not, bne]

theorem walkRow_cases
    (read : String -> List Attestation) (node : WalkNode) (st : WalkState) (r : Attestation) :
    exists st', SameSearch st st' ∧ st'.out.hitTarget = st.out.hitTarget ∧
      ((inp.traversable read node r = false ∧
        inp.walkRow node (granterRetracted inp.lens (read node.key)) st r = .ok st') ∨
      (inp.traversable read node r = true ∧
        inp.walkRow node (granterRetracted inp.lens (read node.key)) st r =
          inp.follow node st' r)) := by
  rw [traversable_eq]
  by_cases hgate : (!r.isDelegation || !inp.lens.admitsEdge r ||
      (node.depth == 0 && !inp.lens.admitsRootEdge r)) = true
  · exact ⟨st, SameSearch.refl st, rfl, Or.inl ⟨by simp [hgate], by simp [walkRow, hgate]⟩⟩
  let started : WalkState := if node.depth = 0 then
      { st with out := { st.out with issuerEmittedDelegation := true } }
    else
      st
  have hstarted : SameSearch st started ∧ started.out.hitTarget = st.out.hitTarget := by
    by_cases hzero : node.depth = 0
    · rw [show started = _ from if_pos hzero]
      exact ⟨⟨rfl, rfl, rfl⟩, rfl⟩
    · rw [show started = _ from if_neg hzero]
      exact ⟨SameSearch.refl st, rfl⟩
  rcases hstarted with ⟨hsame, hflag⟩
  -- in the order of the checks; a row that fails one sets at most a flag of the outcome
  by_cases hscope : delegationScopeGrants r.envelope inp.scopeToken = true
  swap
  · exact ⟨{ started with out := { started.out with
      targetEdgeMissingScope := decide (r.attestedKeyId ∈ inp.targets) ||
        started.out.targetEdgeMissingScope } }, ⟨hsame.1, hsame.2, hsame.3⟩, hflag,
      Or.inl ⟨by simp [hscope], by simp [walkRow, hgate, hscope, started]⟩⟩
  by_cases hgranter : r.attestedKeyId ∈ granterRetracted inp.lens (read node.key)
  · exact ⟨{ started with out := { started.out with
      targetEdgeRetracted := decide (r.attestedKeyId ∈ inp.targets) ||
        started.out.targetEdgeRetracted } }, ⟨hsame.1, hsame.2, hsame.3⟩, hflag,
      Or.inl ⟨by simp [hgranter], by simp [walkRow, hgate, hscope, hgranter, started]⟩⟩
  by_cases hattenuates : inp.attenuates node r = true
  swap
  · exact ⟨started, hsame, hflag, Or.inl ⟨by simp [hattenuates],
      by simp [walkRow, hgate, hscope, hgranter, hattenuates, started]⟩⟩
  by_cases hretired : r.attestationId ∈ incomingRetracted inp.store inp.lens r.attestedKeyId
  · exact ⟨{ started with out := { started.out with
      targetEdgeRetracted := decide (r.attestedKeyId ∈ inp.targets) ||
        started.out.targetEdgeRetracted } }, ⟨hsame.1, hsame.2, hsame.3⟩, hflag,
      Or.inl ⟨by simp [hretired],
        by simp [walkRow, hgate, hscope, hgranter, hattenuates, hretired, started]⟩⟩
  · exact ⟨started, hsame, hflag, Or.inr
      ⟨by simp [hgate, hscope, hgranter, hattenuates, hretired],
        by simp [walkRow, hgate, hscope, hgranter, hattenuates, hretired, started]⟩⟩

theorem probeCap_hitTarget
    (inp : WalkInput) (node : WalkNode) (unseen : Bool) (r : Attestation) (out : ScopedReach) :
    (inp.probeCap node unseen r out).hitTarget = out.hitTarget := by
  unfold probeCap
  split <;> rfl

theorem hitTarget_follow
    {inp : WalkInput} (h : inp.follow node st r = .ok st') :
    st'.out.hitTarget = st.out.hitTarget := by
  unfold follow at h
  simp only at h
  split at h
  · cases h
  · split at h
    · cases h
      exact probeCap_hitTarget inp node _ r _
    · cases h
      exact probeCap_hitTarget inp node _ r _

theorem runsOver_follow
    (inp : WalkInput) (node : WalkNode) (st : WalkState) (r : Attestation) :
    RunsOver inp node [r] st (inp.follow node st r) := by
  by_cases htarget : r.attestedKeyId ∈ inp.targets
  · have hfollow : inp.follow node st r = .error { st.out with
        reached := insert r.attestedKeyId st.out.reached
        traversed := insert r.attestationId st.out.traversed
        hitTarget := true } := by
      simp [follow, htarget]
    rw [hfollow]
    exact RunsOver.hit List.mem_cons_self htarget rfl
  · rcases follow_follows node st htarget with ⟨st', hfollow, hfollows⟩
    have hflag := hitTarget_follow hfollow
    rw [hfollow]
    refine RunsOver.passed hfollows hflag ?_
    intro e he
    rw [List.mem_singleton.mp he]
    exact htarget

theorem runsOver_walkRow
    (inp : WalkInput) (read : String -> List Attestation) (node : WalkNode) (st : WalkState)
    (r : Attestation) :
    RunsOver inp node (if inp.traversable read node r then [r] else []) st
      (inp.walkRow node (granterRetracted inp.lens (read node.key)) st r) := by
  rcases walkRow_cases read node st r with
    ⟨passed, hsame, hflag, ⟨hnot, hrow⟩ | ⟨htrav, hrow⟩⟩
  · rw [hnot, hrow]
    exact .passed hsame.follows hflag (by simp)
  · rw [htrav, hrow, if_pos rfl]
    have hpassed : RunsOver inp node [] st (.ok passed) :=
      .passed hsame.follows hflag (by simp)
    exact hpassed.bind fun st' => runsOver_follow inp node st' r

theorem runsOver_rows
    (inp : WalkInput) (read : String -> List Attestation) (node : WalkNode)
    (rows : List Attestation) :
    forall st, RunsOver inp node (rows.filter (inp.traversable read node)) st
      (rows.foldlM (inp.walkRow node (granterRetracted inp.lens (read node.key))) st) := by
  induction rows with
  | nil =>
      intro st
      exact .passed (SameSearch.refl st).follows rfl (by simp)
  | cons r rest ih =>
      intro st
      have hfilter : (r :: rest).filter (inp.traversable read node) =
          (if inp.traversable read node r then [r] else []) ++
            rest.filter (inp.traversable read node) := by
        rw [List.filter_cons]
        split <;> rfl
      rw [List.foldlM_cons, hfilter]
      exact (runsOver_walkRow inp read node st r).bind ih

theorem runsOver_walkNode
    (inp : WalkInput) (read : String -> List Attestation) (st : WalkState) (node : WalkNode) :
    RunsOver inp node (inp.edgesFrom read node) st (inp.walkNode read st node) := by
  unfold walkNode edgesFrom
  by_cases hgate : node.depth < inp.effectiveDepth ∧ inp.mayPassOn node = true
  · rw [if_pos hgate, if_neg (by simp [hgate.2, Nat.not_le.mpr hgate.1])]
    exact runsOver_rows inp read node (read node.key) st
  · rw [if_neg hgate, if_pos]
    · exact .passed (SameSearch.refl st).follows rfl (by simp)
    · by_cases hdepth : node.depth < inp.effectiveDepth
      · simpa [Nat.not_le.mpr hdepth] using fun h => hgate ⟨hdepth, h⟩
      · simp [Nat.not_lt.mp hdepth]

theorem walkNode_follows
    {inp : WalkInput} (htargets : inp.targets = ∅)
    (read : String -> List Attestation) (st : WalkState) (node : WalkNode) :
    exists st', inp.walkNode read st node = .ok st' ∧
      Follows inp node (inp.edgesFrom read node) st st' := by
  have hrun := runsOver_walkNode inp read st node
  cases hnode : inp.walkNode read st node with
  | ok st' =>
      rw [hnode] at hrun
      cases hrun with
      | passed hfollows _ _ => exact ⟨st', rfl, hfollows⟩
  | error out =>
      rw [hnode] at hrun
      cases hrun with
      | hit _ htarget _ =>
          rw [htargets] at htarget
          exact absurd htarget (Finset.notMem_empty _)

theorem Follows.popped
    {inp : WalkInput} {read : String -> List Attestation} {st st' : WalkState} {node : WalkNode}
    {rest : List WalkNode}
    (h : Follows inp node (inp.edgesFrom read node) { st with queue := rest } st') :
    st'.visited = Search.seenAfter WalkNode.key st.visited (inp.successors read node) ∧
      st'.queue = rest ++ Search.fresh WalkNode.key st.visited (inp.successors read node) :=
  ⟨h.visited, h.queue⟩

theorem mem_walkLoop_reached_iff
    (htargets : inp.targets = ∅) (read : String -> List Attestation) (rounds : Nat) (st : WalkState)
    (k : String) :
    k ∈ (inp.walkLoop read rounds st).reached <->
      k ∈ st.out.reached ∨
      exists node, node ∈ Search.explore WalkNode.key (inp.successors read) rounds
          st.visited st.queue ∧
        exists r, r ∈ inp.edgesFrom read node ∧ r.attestedKeyId = k := by
  induction rounds generalizing st k with
  | zero => simp [walkLoop, Search.explore]
  | succ rounds ih =>
      cases hqueue : st.queue with
      | nil => simp [walkLoop, hqueue, Search.explore]
      | cons node rest =>
          rcases walkNode_follows htargets read { st with queue := rest } node with
            ⟨st', hnode, hfollows⟩
          rcases hfollows.popped with ⟨hvisited, hqueue'⟩
          simp only [walkLoop, hqueue, hnode, Search.explore, List.mem_cons]
          rw [ih st' k, hvisited, hqueue', hfollows.reached]
          simp only [or_assoc, or_and_right, exists_or, exists_eq_left]

theorem edgesFrom_of_no_depth
    (hzero : inp.effectiveDepth = 0) (read : String -> List Attestation) (node : WalkNode) :
    inp.edgesFrom read node = [] := by
  unfold edgesFrom
  rw [if_neg (by omega)]

theorem mem_reached_iff_explored
    (htargets : inp.targets = ∅) (read : String -> List Attestation) (k : String) :
    k ∈ (inp.scopedDelegationReachReading read).reached <->
      exists node, node ∈ Search.explore WalkNode.key (inp.successors read)
          (inp.store.rows.length + 1) {inp.issuer} [inp.rootNode] ∧
        exists r, r ∈ inp.edgesFrom read node ∧ r.attestedKeyId = k := by
  unfold scopedDelegationReachReading
  split
  · rename_i hzero
    simp [ScopedReach.default, edgesFrom_of_no_depth hzero]
  · rw [mem_walkLoop_reached_iff htargets]
    simp [startState, ScopedReach.default]

end Walk

end WalkInput

end CirisPersist.Federation
