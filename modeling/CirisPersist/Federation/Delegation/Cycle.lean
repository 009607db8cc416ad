import CirisPersist.Federation.Delegation.Edge
import CirisPersist.Library.Search
import CirisPersist.Library.Walks

/-!
# Delegation cycles

The write door refuses a `delegates_to` row whose recipient already leads back
to its granter.  It asks a bounded breadth-first search over the edges that can
still be live at or after the receipt.  Edges only ever leave that graph as
time passes or rows are added, so a graph without short cycles stays without
them.
-/

namespace CirisPersist.Federation

/-!
## The gated rows
-/

def trustAcceptsDimension :=
  "trust:accepts:v1"

def trustCharterDimension :=
  "trust:charter:v1"

def isTrustPlaneEdge (row : Attestation) : Bool :=
  row.isDelegation &&
    (row.dimension == some trustAcceptsDimension ||
      row.dimension == some trustCharterDimension)

def delegationCycleGated (row : Attestation) : Bool :=
  row.isDelegation && !isTrustPlaneEdge row && row.attestingKeyId != row.attestedKeyId

/-!
## One granter's rows
-/

structure PathState where
  visited : Finset String
  queue : List (String × Nat)

/-- One row of the granter.  `error` is the early return with the hop count. -/
def pathRow (counts : Attestation -> Bool) (goal : String) (depth : Nat) (st : PathState)
    (r : Attestation) : Except Nat PathState :=
  if !counts r then
    Except.ok st
  else if r.attestedKeyId = goal then
    Except.error (depth + 1)
  else if r.attestedKeyId ∈ st.visited then
    Except.ok st
  else
    Except.ok { visited := insert r.attestedKeyId st.visited
                queue := st.queue ++ [(r.attestedKeyId, depth + 1)] }

def pathNode (depth : Nat) (r : Attestation) : String × Nat :=
  (r.attestedKeyId, depth + 1)

section Rows

variable {counts : Attestation -> Bool} {goal : String} {depth : Nat} {st : PathState}
  {r : Attestation}

theorem pathRow_of_not_counts
    (hcounts : counts r = false) :
    pathRow counts goal depth st r = .ok st := by
  simp [pathRow, hcounts]

theorem pathRow_of_goal
    (hcounts : counts r = true) (hgoal : r.attestedKeyId = goal) :
    pathRow counts goal depth st r = .error (depth + 1) := by
  simp [pathRow, hcounts, hgoal]

theorem pathRow_of_seen
    (hgoal : r.attestedKeyId ≠ goal) (hseen : r.attestedKeyId ∈ st.visited) :
    pathRow counts goal depth st r = .ok st := by
  simp [pathRow, hgoal, hseen]

theorem pathRow_of_new
    (hcounts : counts r = true) (hgoal : r.attestedKeyId ≠ goal)
    (hseen : r.attestedKeyId ∉ st.visited) :
    pathRow counts goal depth st r = .ok
      { visited := insert r.attestedKeyId st.visited
        queue := st.queue ++ [pathNode depth r] } := by
  simp [pathRow, hcounts, hgoal, hseen, pathNode]

theorem pathRows_found
    (depth : Nat) {rows : List Attestation}
    (h : exists r, r ∈ rows.filter counts ∧ r.attestedKeyId = goal) :
    forall st, rows.foldlM (pathRow counts goal depth) st = .error (depth + 1) := by
  induction rows with
  | nil => simp at h
  | cons r rest ih =>
      intro st
      rw [List.foldlM_cons]
      cases hcounts : counts r with
      | false =>
          rw [List.filter_cons_of_neg (by simp [hcounts])] at h
          rw [pathRow_of_not_counts hcounts]
          exact ih h st
      | true =>
          rw [List.filter_cons_of_pos hcounts] at h
          by_cases hgoal : r.attestedKeyId = goal
          · rw [pathRow_of_goal hcounts hgoal]
            rfl
          · have hrest : exists r, r ∈ rest.filter counts ∧ r.attestedKeyId = goal := by
              simpa [hgoal] using h
            by_cases hseen : r.attestedKeyId ∈ st.visited
            · rw [pathRow_of_seen hgoal hseen]
              exact ih hrest st
            · rw [pathRow_of_new hcounts hgoal hseen]
              exact ih hrest _

theorem pathRows_missed
    (depth : Nat) {rows : List Attestation}
    (h : forall r, r ∈ rows.filter counts -> r.attestedKeyId ≠ goal) (st : PathState) :
    rows.foldlM (pathRow counts goal depth) st = .ok
      { visited := Search.seenAfter Prod.fst st.visited
          ((rows.filter counts).map (pathNode depth))
        queue := st.queue ++ Search.fresh Prod.fst st.visited
          ((rows.filter counts).map (pathNode depth)) } := by
  induction rows generalizing st with
  | nil =>
      simp only [List.foldlM_nil, List.filter_nil, List.map_nil, Search.seenAfter,
        Search.fresh, List.toFinset_nil, Finset.union_empty, List.append_nil]
      rfl
  | cons r rest ih =>
      rw [List.foldlM_cons]
      cases hcounts : counts r with
      | false =>
          rw [List.filter_cons_of_neg (by simp [hcounts])] at h ⊢
          rw [pathRow_of_not_counts hcounts]
          exact ih h st
      | true =>
          rw [List.filter_cons_of_pos hcounts] at h ⊢
          have hgoal := h r List.mem_cons_self
          have hrest := ih fun e he => h e (List.mem_cons_of_mem _ he)
          have hkey : (pathNode depth r).1 = r.attestedKeyId := rfl
          rw [List.map_cons]
          by_cases hseen : r.attestedKeyId ∈ st.visited
          · rw [pathRow_of_seen hgoal hseen, Search.seenAfter_cons_of_mem _ (hkey ▸ hseen),
              Search.fresh, if_pos (hkey ▸ hseen)]
            exact hrest st
          · have hnext := hrest ⟨insert r.attestedKeyId st.visited, st.queue ++ [pathNode depth r]⟩
            rw [List.append_assoc, List.singleton_append] at hnext
            rw [pathRow_of_new hcounts hgoal hseen,
              Search.seenAfter_cons_of_notMem _ (hkey ▸ hseen), Search.fresh,
              if_neg (hkey ▸ hseen)]
            exact hnext

end Rows

def cycleLens (now : Instant) : DelegationWalkLens :=
  { DelegationWalkLens.default with asOf := some now }

variable {now : Instant}

theorem assertedBy_mono
    {row : Attestation} {later : Instant} (hle : now ≤ later)
    (h : (cycleLens now).assertedBy row = true) :
    (cycleLens later).assertedBy row = true := by
  simp only [cycleLens, DelegationWalkLens.assertedBy, Option.all_some, decide_eq_true_iff] at h ⊢
  exact le_trans h hle

section Paths

variable [External]

/-!
## The path search
-/

def countsInPath (store : AttestationStore) (now : Instant) (rows : List Attestation)
    (r : Attestation) : Bool :=
  r.isDelegation && !isTrustPlaneEdge r && delegationEdgeLiveAtOrAfter r now &&
    decide (r.attestedKeyId ∉ granterRetracted (cycleLens now) rows) &&
    decide (r.attestationId ∉ incomingRetracted store (cycleLens now) r.attestedKeyId)

def pathLoop (store : AttestationStore) (goal : String) (now : Instant) :
    Nat -> PathState -> Option Nat
  | 0, _ => none
  | rounds + 1, st =>
      match st.queue with
      | [] => none
      | (key, depth) :: queue =>
          if depth ≥ maxWithdrawsDelegationDepth then
            pathLoop store goal now rounds { st with queue := queue }
          else
            let rows := granterRows store key
            match rows.foldlM (pathRow (countsInPath store now rows) goal depth)
              { st with queue := queue } with
            | .error hops => some hops
            | .ok st' => pathLoop store goal now rounds st'

def delegationPathHops (store : AttestationStore) (start goal : String) (now : Instant) :
    Option Nat :=
  pathLoop store goal now (store.rows.length + 1)
    { visited := {start}, queue := [(start, 0)] }

/-!
## The write door
-/

structure DelegationCycle where
  attestingKeyId : String
  attestedKeyId : String
  hops : Nat
deriving DecidableEq

def DelegationCycle.message (e : DelegationCycle) : String :=
  "delegates_to " ++ Text.debugStr e.attestingKeyId ++ " -> " ++
    Text.debugStr e.attestedKeyId ++ " closes a delegation cycle: " ++
    Text.debugStr e.attestedKeyId ++ " already reaches " ++
    Text.debugStr e.attestingKeyId ++ " through " ++ toString e.hops ++
    " live delegates_to hop(s) (CC 4.1.1 — the cycle-closing emission is refused)"

def checkDelegationCycleAdmission (store : AttestationStore) (row : Attestation)
    (receivedAt : Instant) : Except DelegationCycle Unit :=
  if !row.isDelegation then
    .ok ()
  else if isTrustPlaneEdge row then
    .ok ()
  else if row.attestingKeyId = row.attestedKeyId then
    .ok ()
  else
    match delegationPathHops store row.attestedKeyId row.attestingKeyId receivedAt with
    | some hops => .error ⟨row.attestingKeyId, row.attestedKeyId, hops⟩
    | none => .ok ()

structure Arrival where
  row : Attestation
  receivedAt : Instant

/-- The check and the insert as one step.  A row under an id already held leaves
the held row, and a refused row is not stored. -/
def receive (store : AttestationStore) (a : Arrival) : AttestationStore :=
  if hheld : a.row.attestationId ∈ store.rows.map Attestation.attestationId then
    store
  else
    match checkDelegationCycleAdmission store a.row a.receivedAt with
    | .error _ => store
    | .ok _ => store.insert a.row hheld

theorem receive_cases
    (store : AttestationStore) (a : Arrival) :
    receive store a = store ∨
      exists hfresh, checkDelegationCycleAdmission store a.row a.receivedAt = .ok () ∧
        receive store a = store.insert a.row hfresh := by
  unfold receive
  split
  · exact Or.inl rfl
  · rename_i hfresh
    cases hcheck : checkDelegationCycleAdmission store a.row a.receivedAt with
    | error e => exact Or.inl rfl
    | ok u => exact Or.inr ⟨hfresh, rfl, rfl⟩

theorem check_ok_iff
    (store : AttestationStore) (row : Attestation) (receivedAt : Instant) :
    checkDelegationCycleAdmission store row receivedAt = .ok () <->
      (delegationCycleGated row = true ->
        delegationPathHops store row.attestedKeyId row.attestingKeyId receivedAt = none) := by
  unfold checkDelegationCycleAdmission delegationCycleGated
  cases row.isDelegation with
  | false => simp
  | true =>
      cases isTrustPlaneEdge row with
      | true => simp
      | false =>
          by_cases hself : row.attestingKeyId = row.attestedKeyId
          · simp [hself]
          · cases delegationPathHops store row.attestedKeyId row.attestingKeyId receivedAt <;>
              simp [hself]

/-!
## The path search is a breadth-first search
-/

def pathEdges (store : AttestationStore) (now : Instant) (node : String × Nat) :
    List Attestation :=
  if node.2 < maxWithdrawsDelegationDepth then
    (granterRows store node.1).filter (countsInPath store now (granterRows store node.1))
  else
    []

def pathSuccessors (store : AttestationStore) (now : Instant) (node : String × Nat) :
    List (String × Nat) :=
  (pathEdges store now node).map (pathNode node.2)

theorem pathLoop_eq_none_iff
    (store : AttestationStore) (goal : String) (now : Instant) (rounds : Nat) :
    forall st, pathLoop store goal now rounds st = none <->
      forall node, node ∈ Search.explore Prod.fst (pathSuccessors store now) rounds
        st.visited st.queue ->
      forall r, r ∈ pathEdges store now node -> r.attestedKeyId ≠ goal := by
  induction rounds with
  | zero =>
      intro st
      simp [pathLoop, Search.explore]
  | succ rounds ih =>
      rintro ⟨visited, queue⟩
      cases queue with
      | nil => simp [pathLoop, Search.explore]
      | cons node queue =>
          rcases node with ⟨key, depth⟩
          by_cases hcap : maxWithdrawsDelegationDepth ≤ depth
          · have hnone : pathEdges store now (key, depth) = [] := by
              simp [pathEdges, hcap]
            simp [pathLoop, Search.explore, hcap, ih, pathSuccessors, hnone, Search.seenAfter,
              Search.fresh]
          · have hedges : pathEdges store now (key, depth) = (granterRows store key).filter
                (countsInPath store now (granterRows store key)) := by
              simp [pathEdges, Nat.lt_of_not_le hcap]
            by_cases hfound : exists r, r ∈ pathEdges store now (key, depth) ∧
                r.attestedKeyId = goal
            · have hrows := pathRows_found depth (hedges ▸ hfound) ⟨visited, queue⟩
              simp only [pathLoop, ge_iff_le, hcap, if_false, hrows, reduceCtorEq, false_iff]
              intro h
              rcases hfound with ⟨r, hr, hgoal⟩
              exact h (key, depth) List.mem_cons_self r hr hgoal
            · have hmissed : forall r, r ∈ pathEdges store now (key, depth) ->
                  r.attestedKeyId ≠ goal := fun r hr hgoal => hfound ⟨r, hr, hgoal⟩
              have hrows := pathRows_missed depth (hedges ▸ hmissed) ⟨visited, queue⟩
              simp only [pathLoop, ge_iff_le, hcap, if_false, hrows, ih, ← hedges]
              simp only [Search.explore, List.forall_mem_cons]
              exact (and_iff_right hmissed).symm

/-!
## What the search finds

`CountedEdge` says over the stored rows when an edge counts.  The search finds a
walk of counted edges exactly when there is one within the ceiling.
-/

structure CountedEdge (store : AttestationStore) (now : Instant) (e : Attestation) :
    Prop where
  stored : e ∈ store.rows
  federated : e.tier = .federation
  delegation : e.attestationType = .delegatesTo
  capability : isTrustPlaneEdge e = false
  live : delegationEdgeLiveAtOrAfter e now = true
  notTakenBack : ¬ TakenBack store (cycleLens now) e
  notRetired : ¬ RetiredByName store (cycleLens now) e

def CountedLink (store : AttestationStore) (now : Instant) (a b : String) : Prop :=
  exists e, CountedEdge store now e ∧ e.attestingKeyId = a ∧ e.attestedKeyId = b

theorem mem_pathEdges_iff
    (store : AttestationStore) (now : Instant) (node : String × Nat) (e : Attestation) :
    e ∈ pathEdges store now node <->
      node.2 < maxWithdrawsDelegationDepth ∧ CountedEdge store now e ∧
        e.attestingKeyId = node.1 := by
  unfold pathEdges
  split
  · rename_i hdepth
    simp only [hdepth, true_and, List.mem_filter, countsInPath, Bool.and_eq_true,
      Bool.not_eq_true', decide_eq_true_iff]
    constructor
    · rintro ⟨hrow, ⟨⟨⟨hdeleg, hcap⟩, hlive⟩, hgranter⟩, hretired⟩
      rcases (mem_granterRows_iff store node.1 e).mp hrow with ⟨hstored, hby, htier, -⟩
      have htype : e.attestationType = .delegatesTo := by
        simpa [Attestation.isDelegation] using hdeleg
      rw [← hby, mem_granterRetracted_iff store _ fun _ => Iff.rfl] at hgranter
      rw [mem_incomingRetracted_iff store _ hstored htier] at hretired
      exact ⟨⟨hstored, htier, htype, hcap, hlive, hgranter, hretired⟩, hby⟩
    · rintro ⟨hedge, hby⟩
      refine ⟨(mem_granterRows_iff store node.1 e).mpr
        ⟨hedge.stored, hby, hedge.federated, Or.inl hedge.delegation⟩,
        ⟨⟨⟨by simp [Attestation.isDelegation, hedge.delegation], hedge.capability⟩,
          hedge.live⟩, ?_⟩, ?_⟩
      · rw [← hby, mem_granterRetracted_iff store _ fun _ => Iff.rfl]
        exact hedge.notTakenBack
      · rw [mem_incomingRetracted_iff store _ hedge.stored hedge.federated]
        exact hedge.notRetired
  · rename_i hdepth
    simp [hdepth]

theorem mem_pathSuccessors_iff
    (store : AttestationStore) (now : Instant) (node c : String × Nat) :
    c ∈ pathSuccessors store now node <->
      node.2 < maxWithdrawsDelegationDepth ∧ CountedLink store now node.1 c.1 ∧
        c.2 = node.2 + 1 := by
  simp only [pathSuccessors, List.mem_map, mem_pathEdges_iff, pathNode]
  constructor
  · rintro ⟨e, ⟨hdepth, hedge, hby⟩, rfl⟩
    exact ⟨hdepth, ⟨e, hedge, hby, rfl⟩, rfl⟩
  · rintro ⟨hdepth, ⟨e, hedge, hby, hto⟩, hlayer⟩
    exact ⟨e, ⟨hdepth, hedge, hby⟩, Prod.ext hto hlayer.symm⟩

variable {store : AttestationStore} {start : String}

theorem walk_of_reachable
    {node : String × Nat} (h : Search.Reachable (pathSuccessors store now) (start, 0) node) :
    Walks.Walk (CountedLink store now) node.2 start node.1 := by
  induction h with
  | root => exact Walks.Walk.nil start
  | step _ hc ih =>
      rcases (mem_pathSuccessors_iff store now _ _).mp hc with ⟨-, hlink, hlayer⟩
      rw [hlayer]
      exact ih.concat hlink

theorem reachable_of_walk
    {n : Nat} (hn : n ≤ maxWithdrawsDelegationDepth) {k : String}
    (hwalk : Walks.Walk (CountedLink store now) n start k) :
    Search.Reachable (pathSuccessors store now) (start, 0) (k, n) := by
  induction n generalizing k with
  | zero =>
      cases hwalk
      exact Search.Reachable.root
  | succ n ih =>
      rcases hwalk.last with ⟨p, hinit, hlink⟩
      refine Search.Reachable.step (ih (by omega) hinit) ?_
      exact (mem_pathSuccessors_iff store now _ _).mpr ⟨hn, hlink, rfl⟩

theorem exists_searched
    {k : String} {n : Nat} (hn : n ≤ maxWithdrawsDelegationDepth)
    (hwalk : Walks.Walk (CountedLink store now) n start k) :
    exists node, node ∈ Search.explore Prod.fst (pathSuccessors store now)
        (store.rows.length + 1) {start} [(start, 0)] ∧ node.1 = k ∧ node.2 ≤ n := by
  have hdepth : forall m c, c ∈ pathSuccessors store now m -> c.2 = m.2 + 1 :=
    fun m c hc => ((mem_pathSuccessors_iff store now m c).mp hc).2.2
  have hkeys : forall m c, c ∈ pathSuccessors store now m -> c.1 ∈ keysFrom store start := by
    intro m c hc
    rcases (mem_pathSuccessors_iff store now m c).mp hc with ⟨-, ⟨e, hedge, -, hto⟩, -⟩
    exact hto ▸ attestedKeyId_mem_keysFrom hedge.stored start
  -- a search node carries its key and depth only, so any earlier node stands in
  have hstep : forall m p : String × Nat, m.1 = p.1 ∧ m.2 ≤ p.2 ->
      forall c, c ∈ pathSuccessors store now p ->
        exists c', c' ∈ pathSuccessors store now m ∧ c'.1 = c.1 := by
    rintro m p ⟨hkey, hle⟩ c hc
    rcases (mem_pathSuccessors_iff store now p c).mp hc with ⟨hcap, hlink, -⟩
    refine ⟨(c.1, m.2 + 1), (mem_pathSuccessors_iff store now m _).mpr ⟨by omega, ?_, rfl⟩, rfl⟩
    rw [hkey]
    exact hlink
  rcases Search.exists_explored hdepth (start, 0) (keysFrom store start)
    (Finset.mem_insert_self _ _) hkeys (fun m p => m.1 = p.1 ∧ m.2 ≤ p.2) hstep
    (fun _ _ _ _ hkey hle => ⟨hkey, hle⟩) (card_keysFrom_le store start)
    (reachable_of_walk hn hwalk) with ⟨m, hm, hkey, hle, -⟩
  exact ⟨m, hm, hkey, hle⟩

theorem delegationPathHops_eq_none_iff
    (store : AttestationStore) (start goal : String) (now : Instant) :
    delegationPathHops store start goal now = none <->
      forall n, 1 ≤ n -> n ≤ maxWithdrawsDelegationDepth ->
        ¬ Walks.Walk (CountedLink store now) n start goal := by
  rw [delegationPathHops, pathLoop_eq_none_iff]
  constructor
  · intro hnone n hpos hle hwalk
    cases n with
    | zero => omega
    | succ n =>
        rcases hwalk.last with ⟨p, hinit, e, hedge, hby, hto⟩
        rcases exists_searched (by omega) hinit with ⟨node, hnode, hkey, hdepth⟩
        refine hnone node hnode e ((mem_pathEdges_iff store now node e).mpr ?_) hto
        exact ⟨by omega, hedge, hby.trans hkey.symm⟩
  · intro hnone node hnode e he hto
    rcases (mem_pathEdges_iff store now node e).mp he with ⟨hdepth, hedge, hby⟩
    have hwalk := walk_of_reachable (Search.reachable_of_explored hnode)
    exact hnone (node.2 + 1) (by omega) hdepth (hwalk.concat ⟨e, hedge, hby, hto⟩)

/-!
## Counted edges only leave the graph

A later instant sees more retractions and fewer live terms, and so does a larger
store.
-/

theorem CountedEdge.anti
    {store' : AttestationStore} {later : Instant} {e : Attestation}
    (hrows : store.rows ⊆ store'.rows) (hle : now ≤ later) (hstored : e ∈ store.rows)
    (h : CountedEdge store' later e) :
    CountedEdge store now e := by
  refine ⟨hstored, h.federated, h.delegation, h.capability,
    delegationEdgeLiveAtOrAfter_anti hle h.live, ?_, ?_⟩
  · rintro ⟨r, hr, htier, hretracts, hseen, hrest⟩
    exact h.notTakenBack ⟨r, hrows hr, htier, hretracts, assertedBy_mono hle hseen, hrest⟩
  · rintro ⟨hvisible, g, hg, htier, hretracts, hseen, hrest⟩
    exact h.notRetired ⟨assertedBy_mono hle hvisible, g, hrows hg, htier, hretracts,
      assertedBy_mono hle hseen, hrest⟩

/-!
## The invariant
-/

def CapabilityLink (store : AttestationStore) (now : Instant) (a b : String) : Prop :=
  a ≠ b ∧ CountedLink store now a b

theorem capabilityLink_insert
    {row : Attestation} (hfresh : row.attestationId ∉ store.rows.map Attestation.attestationId)
    {a b : String} (h : CapabilityLink (store.insert row hfresh) now a b) :
    CapabilityLink store now a b ∨
      (delegationCycleGated row = true ∧ a = row.attestingKeyId ∧ b = row.attestedKeyId) := by
  rcases h with ⟨hne, e, hedge, rfl, rfl⟩
  cases List.mem_cons.mp hedge.stored with
  | inl hnew =>
      subst hnew
      refine Or.inr ⟨?_, rfl, rfl⟩
      simp [delegationCycleGated, Attestation.isDelegation, hedge.delegation, hedge.capability, hne]
  | inr hold =>
      exact Or.inl ⟨hne, e, hedge.anti (List.subset_cons_self _ _) (le_refl now) hold, rfl, rfl⟩

theorem acyclic_receive
    {a : Arrival} (hnow : a.receivedAt ≤ now)
    (h : Walks.AcyclicUpTo (CapabilityLink store now) (maxWithdrawsDelegationDepth + 1)) :
    Walks.AcyclicUpTo (CapabilityLink (receive store a) now) (maxWithdrawsDelegationDepth + 1) := by
  rcases receive_cases store a with hsame | ⟨hfresh, hcheck, hinsert⟩
  · rw [hsame]
    exact h
  · rw [hinsert]
    cases hgated : delegationCycleGated a.row with
    | false =>
        refine h.anti fun x y hlink => ?_
        rcases capabilityLink_insert hfresh hlink with hold | ⟨hnew, -⟩
        · exact hold
        · rw [hgated] at hnew
          cases hnew
    | true =>
        have hnone := (check_ok_iff store a.row a.receivedAt).mp hcheck hgated
        rw [delegationPathHops_eq_none_iff] at hnone
        refine h.addEdge (a := a.row.attestingKeyId) (b := a.row.attestedKeyId) ?_ ?_ ?_
        · intro x y hlink
          rcases capabilityLink_insert hfresh hlink with hold | ⟨-, hnew⟩
          · exact Or.inl hold
          · exact Or.inr hnew
        · simp only [delegationCycleGated, Bool.and_eq_true, bne_iff_ne] at hgated
          exact hgated.2
        · intro n hpos hle hwalk
          refine hnone n hpos hle (hwalk.mono fun x y hlink => ?_)
          rcases hlink with ⟨-, e, hedge, hby, hto⟩
          exact ⟨e, hedge.anti (List.Subset.refl _) hnow hedge.stored, hby, hto⟩

theorem capability_graph_acyclic
    (arrivals : List Arrival) (now : Instant)
    (hnow : forall a, a ∈ arrivals -> a.receivedAt ≤ now) :
    (forall n k, 1 ≤ n -> n ≤ maxWithdrawsDelegationDepth + 1 ->
      ¬ Walks.Walk (CapabilityLink (arrivals.foldl receive AttestationStore.empty) now) n k k) ∧
    forall a b, CapabilityLink (arrivals.foldl receive AttestationStore.empty) now a b ->
      delegationPathHops (arrivals.foldl receive AttestationStore.empty) b a now = none := by
  have hempty : Walks.AcyclicUpTo (CapabilityLink AttestationStore.empty now)
      (maxWithdrawsDelegationDepth + 1) := by
    intro n k hpos _ hwalk
    cases hwalk with
    | nil =>
        omega
    | cons hlink _ =>
        rcases hlink with ⟨-, e, hedge, -⟩
        cases hedge.stored
  have hacyclic := List.foldlRecOn
    (motive := fun store => Walks.AcyclicUpTo (CapabilityLink store now)
      (maxWithdrawsDelegationDepth + 1))
    arrivals _ hempty fun _ h a ha => acyclic_receive (hnow a ha) h
  refine ⟨hacyclic, fun a b hlink => ?_⟩
  rw [delegationPathHops_eq_none_iff]
  intro n _ hle hwalk
  -- a walk back, without its self-edges, would close a cycle with the edge itself
  rcases hwalk.dropLoops with ⟨m, hm, hback⟩
  exact hacyclic (m + 1) a (by omega) (by omega) (Walks.Walk.cons hlink hback)

end Paths

section Samples

open Reference

def ringArrivals : List Arrival :=
  [⟨sampleGrant "first" "ada" "bob" 20 true, Instant.ofSeconds 21⟩,
    ⟨sampleGrant "second" "bob" "cal" 30 true, Instant.ofSeconds 31⟩,
    ⟨sampleGrant "third" "cal" "ada" 40 true, Instant.ofSeconds 41⟩]

theorem ringArrivals_link :
    CapabilityLink (ringArrivals.foldl receive AttestationStore.empty)
      (Instant.ofSeconds 50) "ada" "bob" := by
  have hany : ((pathEdges (ringArrivals.foldl receive AttestationStore.empty)
      (Instant.ofSeconds 50) ("ada", 0)).any fun e => e.attestedKeyId == "bob") = true := by
    decide
  rcases List.any_eq_true.mp hany with ⟨e, he, hto⟩
  rcases (mem_pathEdges_iff _ _ _ e).mp he with ⟨-, hedge, hby⟩
  exact ⟨by decide, e, hedge, hby, by simpa using hto⟩

theorem ringArrivals_acyclic :
    delegationPathHops (ringArrivals.foldl receive AttestationStore.empty) "bob" "ada"
      (Instant.ofSeconds 50) = none :=
  (capability_graph_acyclic ringArrivals (Instant.ofSeconds 50) (by decide)).2 "ada" "bob"
    ringArrivals_link

end Samples

end CirisPersist.Federation
