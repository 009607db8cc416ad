import CirisPersist.Federation.Delegation.Walk
import CirisPersist.Library.Replay

/-!
# Delegation chains

What the scoped walk is for: a key is reached when a chain of live edges leads
to it from the issuer, each edge passing on no more than the one before.  The
chain is stated over the stored rows alone, without the walk's node state.  The
walk is sound for chains.  It is complete when the first chain to arrive at a
key passes on no less than a later one.
-/

namespace CirisPersist.Federation

def endKey (inp : WalkInput) (es : List Attestation) : String :=
  (es.getLast?.map Attestation.attestedKeyId).getD inp.issuer

/-!
## The node after a chain

The walk's node state after a chain, field by field.
-/

def nodeAfter (inp : WalkInput) (es : List Attestation) : WalkNode :=
  es.foldl WalkInput.childNode inp.rootNode

section NodeAfter

variable (inp : WalkInput) (es : List Attestation)

theorem nodeAfter_concat
    (e : Attestation) :
    nodeAfter inp (es ++ [e]) = WalkInput.childNode (nodeAfter inp es) e := by
  simp [nodeAfter]

theorem nodeAfter_depth :
    (nodeAfter inp es).depth = es.length := by
  induction es using List.reverseRecOn with
  | nil => rfl
  | append_singleton es e ih => simp [nodeAfter_concat, WalkInput.childNode, ih]

theorem nodeAfter_key :
    (nodeAfter inp es).key = endKey inp es := by
  cases es using List.reverseRecOn with
  | nil => rfl
  | append_singleton es e => simp [nodeAfter_concat, WalkInput.childNode, endKey]

theorem nodeAfter_budget_concat
    (e : Attestation) :
    (nodeAfter inp (es ++ [e])).budget = WalkInput.childBudget (nodeAfter inp es) e := by
  rw [nodeAfter_concat]
  rfl

theorem nodeAfter_budget_le :
    forall pre e post d, es = pre ++ e :: post ->
      delegationSubDelegationDepth e.envelope = some d ->
      exists b, (nodeAfter inp es).budget = some b ∧ b ≤ d - post.length := by
  induction es using List.reverseRecOn with
  | nil =>
      intro pre e post d heq
      simp at heq
  | append_singleton es last ih =>
      intro pre e post d heq hd
      rw [nodeAfter_budget_concat]
      cases post using List.reverseRecOn with
      | nil =>
          have hlast : last = e := by
            simpa using List.append_inj_right' heq rfl
          subst hlast
          exact WalkInput.childBudget_le_declared (nodeAfter inp es) hd
      | append_singleton post z =>
          rw [← List.cons_append, ← List.append_assoc] at heq
          rcases ih pre e post d (List.append_inj_left' heq rfl) hd with ⟨i, hi, hle⟩
          rcases WalkInput.childBudget_le_inherited last hi with ⟨b, hb, hbi⟩
          refine ⟨b, hb, ?_⟩
          rw [List.length_append, List.length_singleton]
          omega

theorem nodeAfter_budget_attained :
    forall b, (nodeAfter inp es).budget = some b ->
      exists pre e post d, es = pre ++ e :: post ∧
        delegationSubDelegationDepth e.envelope = some d ∧ b = d - post.length := by
  induction es using List.reverseRecOn with
  | nil =>
      intro b hb
      cases hb
  | append_singleton es last ih =>
      intro b hb
      rw [nodeAfter_budget_concat] at hb
      cases WalkInput.childBudget_cases hb with
      | inl hdeclared => exact ⟨es, last, [], b, rfl, hdeclared, by simp⟩
      | inr hinherited =>
          rcases hinherited with ⟨i, hi, rfl⟩
          rcases ih i hi with ⟨pre, e, post, d, rfl, hd, rfl⟩
          refine ⟨pre, e, post ++ [last], d, by simp, hd, ?_⟩
          rw [List.length_append, List.length_singleton]
          omega

end NodeAfter

theorem gates_iff
    (inp : WalkInput) (node : WalkNode) (e : Attestation) :
    (inp.attenuates node e = true ∧ inp.mayPassOn node = true) <->
      (inp.policy.enforceAttenuationAndSubDelegation = true ->
        (node.parentScope = none ∨ node.parentSubDelegation = true) ∧
        node.budget ≠ some 0 ∧
        forall parent, node.parentScope = some parent ->
          scopeWithin parent (delegationScopeSet e.envelope)) := by
  unfold WalkInput.attenuates WalkInput.mayPassOn
  cases inp.policy.enforceAttenuationAndSubDelegation with
  | false => simp
  | true =>
      simp only [Bool.not_true, Bool.false_or, Option.all_eq_true, decide_eq_true_iff,
        Bool.and_eq_true, Bool.or_eq_true, Option.isNone_iff_eq_none, bne_iff_ne]
      constructor
      · rintro ⟨hscope, hdeputy, hbudget⟩ _
        exact ⟨hdeputy, hbudget, hscope⟩
      · intro h
        exact ⟨(h trivial).2.2, (h trivial).1, (h trivial).2.1⟩

section Chains

variable [External]

/-!
## The specification
-/

structure LiveEdge (inp : WalkInput) (e : Attestation) : Prop where
  stored : e ∈ inp.store.rows
  federated : e.tier = .federation
  delegation : e.attestationType = .delegatesTo
  inScope : delegationScopeGrants e.envelope inp.scopeToken = true
  admitted : inp.lens.admitsEdge e = true
  notTakenBack : ¬ TakenBack inp.store inp.lens e
  notRetired : e.attestationId ∉ retiredIds (incomingRows inp.store inp.lens e.attestedKeyId)

structure DelegationChain (inp : WalkInput) (es : List Attestation) : Prop where
  live : forall e, e ∈ es -> LiveEdge inp e
  starts : forall e rest, es = e :: rest ->
    e.attestingKeyId = inp.issuer ∧ inp.lens.admitsRootEdge e = true
  linked : forall pre a b post, es = pre ++ a :: b :: post ->
    b.attestingKeyId = a.attestedKeyId
  deputized : inp.policy.enforceAttenuationAndSubDelegation = true ->
    forall pre a b post, es = pre ++ a :: b :: post ->
      delegationGrantsSubDelegation a.envelope = true
  attenuated : inp.policy.enforceAttenuationAndSubDelegation = true ->
    forall pre a b post, es = pre ++ a :: b :: post ->
      forall token, token ∈ delegationScopeSet b.envelope ->
        exists held, held ∈ delegationScopeSet a.envelope ∧ scopeCovers held token = true
  budgeted : inp.policy.enforceAttenuationAndSubDelegation = true ->
    forall pre e post d, es = pre ++ e :: post ->
      delegationSubDelegationDepth e.envelope = some d -> post.length ≤ d

/-- A chain within the walk's cap leads from the issuer to the key. -/
def ChainTo (inp : WalkInput) (k : String) : Prop :=
  exists es, DelegationChain inp es ∧ 1 ≤ es.length ∧
    es.length ≤ min inp.maxDepth maxWithdrawsDelegationDepth ∧
    es.getLast?.map Attestation.attestedKeyId = some k

/-!
## Chains are the walk's steps

`Passable` is the walk's own test of an edge at a node.  Along a chain it asks
for exactly what the specification asks for.
-/

def Passable (inp : WalkInput) (read : String -> List Attestation) (node : WalkNode)
    (e : Attestation) : Prop :=
  e ∈ read node.key ∧ inp.traversable read node e = true ∧ inp.mayPassOn node = true

abbrev ReadsRows (inp : WalkInput) (read : String -> List Attestation) : Prop :=
  forall k r, r ∈ read k <-> r ∈ granterRows inp.store k

variable {inp : WalkInput} {read : String -> List Attestation}

section Passable

variable (hread : ReadsRows inp read)

include hread

theorem passable_iff
    (node : WalkNode) (e : Attestation) :
    Passable inp read node e <->
      LiveEdge inp e ∧ e.attestingKeyId = node.key ∧
      (node.depth = 0 -> inp.lens.admitsRootEdge e = true) ∧
      (inp.policy.enforceAttenuationAndSubDelegation = true ->
        (node.parentScope = none ∨ node.parentSubDelegation = true) ∧
        node.budget ≠ some 0 ∧
        forall parent, node.parentScope = some parent ->
          scopeWithin parent (delegationScopeSet e.envelope)) := by
  have hroot : (node.depth != 0 || inp.lens.admitsRootEdge e) = true <->
      (node.depth = 0 -> inp.lens.admitsRootEdge e = true) := by
    rw [Bool.or_eq_true, bne_iff_ne]
    exact Decidable.imp_iff_not_or.symm
  have hgranter : e.attestingKeyId = node.key ->
      (e.attestedKeyId ∉ granterRetracted inp.lens (read node.key) <->
        ¬ TakenBack inp.store inp.lens e) := by
    intro hby
    rw [mem_granterRetracted_iff inp.store inp.lens]
    intro r
    rw [hread, hby]
  rw [← gates_iff, ← hroot]
  constructor
  · rintro ⟨hmem, htrav, hpass⟩
    rw [hread, mem_granterRows_iff] at hmem
    rcases hmem with ⟨hstored, hby, htier, -⟩
    simp only [WalkInput.traversable, Bool.and_eq_true, decide_eq_true_iff] at htrav
    rcases htrav with ⟨⟨⟨⟨⟨⟨hdeleg, hadmitted⟩, hrootEdge⟩, hscope⟩, hkept⟩, hatt⟩, hretired⟩
    have htype : e.attestationType = .delegatesTo := by
      simpa [Attestation.isDelegation] using hdeleg
    exact ⟨⟨hstored, htier, htype, hscope, hadmitted, (hgranter hby).mp hkept, hretired⟩, hby,
      hrootEdge, hatt, hpass⟩
  · rintro ⟨hlive, hby, hrootEdge, hatt, hpass⟩
    refine ⟨?_, ?_, hpass⟩
    · rw [hread, mem_granterRows_iff]
      exact ⟨hlive.stored, hby, hlive.federated, Or.inl hlive.delegation⟩
    · have hkept := (hgranter hby).mpr hlive.notTakenBack
      simp only [WalkInput.traversable, Bool.and_eq_true, decide_eq_true_iff]
      exact ⟨⟨⟨⟨⟨⟨by simp [Attestation.isDelegation, hlive.delegation], hlive.admitted⟩,
        hrootEdge⟩, hlive.inScope⟩, hkept⟩, hatt⟩, hlive.notRetired⟩

theorem passable_root_iff
    (e : Attestation) :
    Passable inp read (nodeAfter inp []) e <->
      LiveEdge inp e ∧ e.attestingKeyId = inp.issuer ∧ inp.lens.admitsRootEdge e = true := by
  rw [passable_iff hread]
  simp [nodeAfter, WalkInput.rootNode]

theorem passable_concat_iff
    (es : List Attestation) (a e : Attestation) :
    Passable inp read (nodeAfter inp (es ++ [a])) e <->
      LiveEdge inp e ∧ e.attestingKeyId = a.attestedKeyId ∧
      (inp.policy.enforceAttenuationAndSubDelegation = true ->
        delegationGrantsSubDelegation a.envelope = true ∧
        (nodeAfter inp (es ++ [a])).budget ≠ some 0 ∧
        scopeWithin (delegationScopeSet a.envelope) (delegationScopeSet e.envelope)) := by
  rw [passable_iff hread]
  simp [nodeAfter_concat, WalkInput.childNode]

end Passable

abbrev Walked (inp : WalkInput) (read : String -> List Attestation)
    (es : List Attestation) : Prop :=
  Replay.AllSteps WalkInput.childNode inp.rootNode es (Passable inp read)

variable {es : List Attestation}

theorem walked_of_chain
    (hread : ReadsRows inp read) (h : DelegationChain inp es) :
    Walked inp read es := by
  intro pre e post heq
  have hlive : LiveEdge inp e := h.live e (by simp [heq])
  cases pre using List.reverseRecOn with
  | nil =>
      have hstart := h.starts e post heq
      exact (passable_root_iff hread e).mpr ⟨hlive, hstart⟩
  | append_singleton pre a =>
      have hpair : es = pre ++ a :: e :: post := by
        simp [heq]
      refine (passable_concat_iff hread pre a e).mpr
        ⟨hlive, h.linked pre a e post hpair, fun henforce => ⟨?_, ?_, ?_⟩⟩
      · exact h.deputized henforce pre a e post hpair
      · intro hspent
        rcases nodeAfter_budget_attained inp (pre ++ [a]) 0 hspent with
          ⟨pre', f, post', d, hsplit, hd, hzero⟩
        have hlong := h.budgeted henforce pre' f (post' ++ e :: post) d
          (by rw [heq, hsplit]; simp) hd
        rw [List.length_append, List.length_cons] at hlong
        omega
      · exact h.attenuated henforce pre a e post hpair

theorem chain_of_walked
    (hread : ReadsRows inp read) (h : Walked inp read es) :
    DelegationChain inp es := by
  have hpair : forall pre a b post, es = pre ++ a :: b :: post ->
      Passable inp read (nodeAfter inp (pre ++ [a])) b := by
    intro pre a b post heq
    exact h (pre ++ [a]) b post (by simp [heq])
  refine ⟨?_, ?_, ?_, ?_, ?_, ?_⟩
  · intro e he
    rcases List.append_of_mem he with ⟨pre, post, heq⟩
    exact ((passable_iff hread _ e).mp (h pre e post heq)).1
  · intro e rest heq
    exact ((passable_root_iff hread e).mp (h [] e rest heq)).2
  · intro pre a b post heq
    exact ((passable_concat_iff hread pre a b).mp (hpair pre a b post heq)).2.1
  · intro henforce pre a b post heq
    exact (((passable_concat_iff hread pre a b).mp (hpair pre a b post heq)).2.2 henforce).1
  · intro henforce pre a b post heq
    exact (((passable_concat_iff hread pre a b).mp (hpair pre a b post heq)).2.2 henforce).2.2
  · intro henforce pre e post d heq hd
    cases post using List.reverseRecOn with
    | nil => exact Nat.zero_le d
    | append_singleton post z =>
        have hsplit : es = (pre ++ e :: post) ++ z :: [] := by
          simp [heq]
        have hpass := (passable_iff hread _ z).mp (h (pre ++ e :: post) z [] hsplit)
        have hbudget := (hpass.2.2.2 henforce).2.1
        rcases nodeAfter_budget_le inp (pre ++ e :: post) pre e post d rfl hd with
          ⟨b, hb, hle⟩
        have hpos : b ≠ 0 := by
          rintro rfl
          exact hbudget hb
        rw [List.length_append, List.length_singleton]
        omega

/-!
## Searched nodes are the nodes after chains
-/

theorem mem_edgesFrom_iff
    (node : WalkNode) (e : Attestation) :
    e ∈ inp.edgesFrom read node <-> node.depth < inp.effectiveDepth ∧ Passable inp read node e := by
  unfold WalkInput.edgesFrom Passable
  split
  · rename_i hgate
    simp [hgate, List.mem_filter]
  · rename_i hgate
    simp only [List.not_mem_nil, false_iff, not_and]
    intro hdepth _ _ hpass
    exact hgate ⟨hdepth, hpass⟩

theorem mem_successors_iff
    (node c : WalkNode) :
    c ∈ inp.successors read node <->
      node.depth + 1 < inp.effectiveDepth ∧
        exists e, Passable inp read node e ∧ WalkInput.childNode node e = c := by
  unfold WalkInput.successors WalkInput.proposals
  split
  · rename_i hdepth
    have hless : node.depth < inp.effectiveDepth := by
      omega
    simp [hdepth, mem_edgesFrom_iff, hless]
  · rename_i hdepth
    simp [hdepth]

theorem exists_walked_of_reachable
    {node : WalkNode} (h : Search.Reachable (inp.successors read) inp.rootNode node) :
    exists es, Walked inp read es ∧ nodeAfter inp es = node ∧
      (es = [] ∨ es.length < inp.effectiveDepth) := by
  induction h with
  | root => exact ⟨[], Replay.allSteps_nil, rfl, Or.inl rfl⟩
  | step _ hc ih =>
      rcases ih with ⟨es, hwalked, hnode, -⟩
      rcases (mem_successors_iff _ _).mp hc with ⟨hdepth, e, hpass, hchild⟩
      subst hnode
      refine ⟨es ++ [e], (Replay.allSteps_concat es e _).mpr ⟨hwalked, hpass⟩, ?_, ?_⟩
      · rw [nodeAfter_concat, hchild]
      · rw [nodeAfter_depth] at hdepth
        exact Or.inr (by simpa using hdepth)

theorem reachable_of_walked
    (h : Walked inp read es) (hlen : es.length < inp.effectiveDepth) :
    Search.Reachable (inp.successors read) inp.rootNode (nodeAfter inp es) := by
  induction es using List.reverseRecOn with
  | nil => exact Search.Reachable.root
  | append_singleton es e ih =>
      rcases (Replay.allSteps_concat es e _).mp h with ⟨hwalked, hpass⟩
      rw [List.length_append, List.length_singleton] at hlen
      refine Search.Reachable.step (ih hwalked (by omega)) ?_
      rw [mem_successors_iff, nodeAfter_depth]
      exact ⟨hlen, e, hpass, (nodeAfter_concat inp es e).symm⟩

/-!
## Soundness

Every reached key has a chain, whatever order a granter's rows are read in.
-/

theorem chainTo_of_reached
    (htargets : inp.targets = ∅) (hread : ReadsRows inp read)
    {k : String} (h : k ∈ (inp.scopedDelegationReachReading read).reached) :
    ChainTo inp k := by
  rcases (WalkInput.mem_reached_iff_explored htargets read k).mp h with
    ⟨node, hnode, e, he, hk⟩
  rcases exists_walked_of_reachable (Search.reachable_of_explored hnode) with ⟨es, hwalked, rfl, -⟩
  rcases (mem_edgesFrom_iff _ e).mp he with ⟨hdepth, hpass⟩
  have hchain : DelegationChain inp (es ++ [e]) :=
    chain_of_walked hread ((Replay.allSteps_concat es e _).mpr ⟨hwalked, hpass⟩)
  rw [nodeAfter_depth] at hdepth
  refine ⟨es ++ [e], hchain, by simp, ?_, by simp [hk]⟩
  rw [List.length_append, List.length_singleton]
  exact hdepth

/-!
## Completeness

The walk keeps one node for each key, the first to arrive.  It misses nothing
when an edge that may prolong a chain may also prolong every chain to the same
key that is no longer.
-/

def NoLessPassedOn (inp : WalkInput) : Prop :=
  forall shorter longer e,
    DelegationChain inp shorter -> DelegationChain inp longer ->
    shorter.length ≤ longer.length ->
    longer.length < min inp.maxDepth maxWithdrawsDelegationDepth ->
    endKey inp shorter = endKey inp longer ->
    DelegationChain inp (longer ++ [e]) -> DelegationChain inp (shorter ++ [e])

theorem passable_of_noLessPassedOn
    (hread : ReadsRows inp read) (hcond : NoLessPassedOn inp)
    {shorter longer : List Attestation} {e : Attestation} (hshorter : Walked inp read shorter)
    (hlonger : Walked inp read longer) (hlen : shorter.length ≤ longer.length)
    (hcap : longer.length < inp.effectiveDepth) (hend : endKey inp shorter = endKey inp longer)
    (hpass : Passable inp read (nodeAfter inp longer) e) :
    Passable inp read (nodeAfter inp shorter) e := by
  have hprolonged : DelegationChain inp (longer ++ [e]) :=
    chain_of_walked hread ((Replay.allSteps_concat longer e _).mpr ⟨hlonger, hpass⟩)
  have hchain := hcond shorter longer e (chain_of_walked hread hshorter)
    (chain_of_walked hread hlonger) hlen hcap hend hprolonged
  exact ((Replay.allSteps_concat shorter e _).mp (walked_of_chain hread hchain)).2

/-- A node that is no deeper and passes every edge the other one passes. -/
def StandsIn (inp : WalkInput) (read : String -> List Attestation) (m n : WalkNode) :
    Prop :=
  m.depth ≤ n.depth ∧ forall e, Passable inp read n e -> Passable inp read m e

theorem successor_of_standsIn
    {m n c : WalkNode} (h : StandsIn inp read m n) (hc : c ∈ inp.successors read n) :
    exists c', c' ∈ inp.successors read m ∧ c'.key = c.key := by
  rcases (mem_successors_iff n c).mp hc with ⟨hdepth, e, hpass, rfl⟩
  have hle := h.1
  refine ⟨WalkInput.childNode m e, ?_, rfl⟩
  exact (mem_successors_iff m _).mpr ⟨by omega, e, h.2 e hpass, rfl⟩

theorem standsIn_of_earlier
    (hread : ReadsRows inp read) (hcond : NoLessPassedOn inp)
    (hpos : 0 < inp.effectiveDepth) {m n : WalkNode}
    (hm : Search.Reachable (inp.successors read) inp.rootNode m)
    (hn : Search.Reachable (inp.successors read) inp.rootNode n) (hkey : m.key = n.key)
    (hle : m.depth ≤ n.depth) :
    StandsIn inp read m n := by
  rcases exists_walked_of_reachable hm with ⟨shorter, hshorter, rfl, -⟩
  rcases exists_walked_of_reachable hn with ⟨longer, hlonger, rfl, hlong⟩
  refine ⟨hle, fun e hpass => ?_⟩
  rw [nodeAfter_depth, nodeAfter_depth] at hle
  rw [nodeAfter_key, nodeAfter_key] at hkey
  have hcap : longer.length < inp.effectiveDepth := by
    rcases hlong with rfl | hlong
    · exact hpos
    · exact hlong
  exact passable_of_noLessPassedOn hread hcond hshorter hlonger hle hcap hkey hpass

theorem ChainTo.reached
    {k : String} (h : ChainTo inp k) (htargets : inp.targets = ∅)
    (hread : ReadsRows inp read) (hcond : NoLessPassedOn inp) :
    k ∈ (inp.scopedDelegationReachReading read).reached := by
  rcases h with ⟨es, hchain, hpos, hcap, hlast⟩
  cases es using List.reverseRecOn with
  | nil => simp at hpos
  | append_singleton init e =>
      have hk : e.attestedKeyId = k := by
        simpa using hlast
      have hinit : init.length < inp.effectiveDepth := by
        rw [List.length_append, List.length_singleton] at hcap
        exact hcap
      have hdepth : forall n c, c ∈ inp.successors read n -> c.depth = n.depth + 1 := by
        intro n c hc
        rcases (mem_successors_iff n c).mp hc with ⟨-, r, -, rfl⟩
        rfl
      have hkeys : forall n c, c ∈ inp.successors read n ->
          c.key ∈ keysFrom inp.store inp.issuer := by
        intro n c hc
        rcases (mem_successors_iff n c).mp hc with ⟨-, r, hr, rfl⟩
        exact attestedKeyId_mem_keysFrom ((passable_iff hread n r).mp hr).1.stored _
      rcases (Replay.allSteps_concat init e _).mp (walked_of_chain hread hchain) with
        ⟨hwalked, hpass⟩
      rcases Search.exists_explored hdepth inp.rootNode (keysFrom inp.store inp.issuer)
        (Finset.mem_insert_self _ _) hkeys
        (StandsIn inp read) (fun _ _ h _ hc => successor_of_standsIn h hc)
        (fun _ _ hm hn => standsIn_of_earlier hread hcond (by omega) hm hn)
        (card_keysFrom_le _ _) (reachable_of_walked hwalked hinit) with
        ⟨m, hm, -, -, hle, himp⟩
      rw [nodeAfter_depth] at hle
      refine (WalkInput.mem_reached_iff_explored htargets read k).mpr ⟨m, hm, e, ?_, hk⟩
      exact (mem_edgesFrom_iff m e).mpr ⟨by omega, himp e hpass⟩

theorem DelegationChain.insert
    {row : Attestation} (hfresh : row.attestationId ∉ inp.store.rows.map Attestation.attestationId)
    (hrow : row.attestationType = .delegatesTo) (h : DelegationChain inp es) :
    DelegationChain { inp with store := inp.store.insert row hfresh } es := by
  have hnot : row.isRetraction = false := by
    simp [Attestation.isRetraction, hrow]
  refine ⟨?_, h.starts, h.linked, h.deputized, h.attenuated, h.budgeted⟩
  intro e he
  have hlive := h.live e he
  have hstored : e ∈ (inp.store.insert row hfresh).rows := List.mem_cons_of_mem _ hlive.stored
  refine ⟨hstored, hlive.federated, hlive.delegation, hlive.inScope, hlive.admitted, ?_, ?_⟩
  · rintro ⟨r, hr, htier, hretracts, hrest⟩
    cases List.mem_cons.mp hr with
    | inl heq =>
        rw [heq, hnot] at hretracts
        cases hretracts
    | inr hold => exact hlive.notTakenBack ⟨r, hold, htier, hretracts, hrest⟩
  · intro hretired
    rcases (mem_incomingRetracted_iff _ _ hstored hlive.federated).mp hretired with
      ⟨hseen, g, hg, hgtier, hretracts, hrest⟩
    cases List.mem_cons.mp hg with
    | inl heq =>
        rw [heq, hnot] at hretracts
        cases hretracts
    | inr hold =>
        exact hlive.notRetired ((mem_incomingRetracted_iff _ _ hlive.stored
          hlive.federated).mpr ⟨hseen, g, hold, hgtier, hretracts, hrest⟩)

theorem DelegationChain.init
    {e : Attestation} (h : DelegationChain inp (es ++ [e])) :
    DelegationChain inp es ∧ e.attestingKeyId = endKey inp es := by
  have hread : ReadsRows inp (granterRows inp.store) := fun _ _ => Iff.rfl
  rcases (Replay.allSteps_concat es e _).mp (walked_of_chain hread h) with ⟨hwalked, hpass⟩
  refine ⟨chain_of_walked hread hwalked, ?_⟩
  rw [← nodeAfter_key]
  exact ((passable_iff hread _ e).mp hpass).2.1

section Tree

variable (hroot : forall e, LiveEdge inp e -> e.attestedKeyId ≠ inp.issuer)
  (htree : forall e f, LiveEdge inp e -> LiveEdge inp f ->
    e.attestedKeyId = f.attestedKeyId -> e = f)

include hroot htree

theorem DelegationChain.unique_of_tree
    {fs : List Attestation} (hes : DelegationChain inp es) (hfs : DelegationChain inp fs)
    (hend : endKey inp es = endKey inp fs) :
    es = fs := by
  induction es using List.reverseRecOn generalizing fs with
  | nil =>
      cases fs using List.reverseRecOn with
      | nil => rfl
      | append_singleton fs f =>
          have hback : inp.issuer = f.attestedKeyId := by
            simpa [endKey] using hend
          exact absurd hback.symm (hroot f (hfs.live f (by simp)))
  | append_singleton es e ih =>
      cases fs using List.reverseRecOn with
      | nil =>
          have hback : e.attestedKeyId = inp.issuer := by
            simpa [endKey] using hend
          exact absurd hback (hroot e (hes.live e (by simp)))
      | append_singleton fs f =>
          have hto : e.attestedKeyId = f.attestedKeyId := by
            simpa [endKey] using hend
          have hsame := htree e f (hes.live e (by simp)) (hfs.live f (by simp)) hto
          subst hsame
          rw [ih hes.init.1 hfs.init.1 (hes.init.2.symm.trans hfs.init.2)]

theorem noLessPassedOn_of_tree :
    NoLessPassedOn inp := by
  intro shorter longer e hshorter hlonger _ _ hend hprolonged
  rw [hshorter.unique_of_tree hroot htree hlonger hend]
  exact hprolonged

end Tree

/-!
## The walk and its chains
-/

theorem scopedDelegationReachAt_sound
    (inp : WalkInput) (htargets : inp.targets = ∅)
    (k : String) (h : k ∈ inp.scopedDelegationReachAt.reached) :
    ChainTo inp k :=
  chainTo_of_reached htargets (fun _ _ => Iff.rfl) h

theorem scopedDelegationReachAt_complete
    (inp : WalkInput) (htargets : inp.targets = ∅)
    (hcond : NoLessPassedOn inp) :
    (forall k, ChainTo inp k -> k ∈ inp.scopedDelegationReachAt.reached) ∧
    (forall (row : Attestation)
      (hfresh : row.attestationId ∉ inp.store.rows.map Attestation.attestationId),
      row.attestationType = AttestationType.delegatesTo ->
      NoLessPassedOn { inp with store := inp.store.insert row hfresh } ->
      inp.scopedDelegationReachAt.reached ⊆
        ({ inp with store := inp.store.insert row hfresh } :
          WalkInput).scopedDelegationReachAt.reached) ∧
    (forall read, (forall k r, r ∈ read k <-> r ∈ granterRows inp.store k) ->
      (inp.scopedDelegationReachReading read).reached =
        inp.scopedDelegationReachAt.reached) := by
  refine ⟨?_, ?_, ?_⟩
  · intro k h
    exact h.reached htargets (fun _ _ => Iff.rfl) hcond
  · intro row hfresh hrow hcond' k hk
    rcases chainTo_of_reached htargets (fun _ _ => Iff.rfl) hk with
      ⟨es, hchain, hpos, hcap, hlast⟩
    have hkept : ChainTo { inp with store := inp.store.insert row hfresh } k :=
      ⟨es, hchain.insert hfresh hrow, hpos, hcap, hlast⟩
    exact hkept.reached htargets (fun _ _ => Iff.rfl) hcond'
  · intro read hread
    ext k
    constructor
    · intro hk
      exact (chainTo_of_reached htargets hread hk).reached htargets (fun _ _ => Iff.rfl) hcond
    · intro hk
      have hchain := chainTo_of_reached htargets (fun _ _ => Iff.rfl) hk
      exact hchain.reached htargets hread hcond

end Chains

section Samples

open Reference

def moderationWalk (store : AttestationStore) : WalkInput where
  store := store
  issuer := "ada"
  targets := ∅
  scopeToken := "moderate"
  maxDepth := 16
  policy := DelegationWalkPolicy.moderationDuty
  lens := DelegationWalkLens.default

def deputyStore : AttestationStore where
  rows := [sampleGrant "deputy" "ada" "bob" 20 true, sampleGrant "hand" "bob" "cal" 25 false]
  distinct := by decide

/-- The same granter grants `bob` once more, later, without deputizing. -/
def regrant : Attestation :=
  sampleGrant "again" "ada" "bob" 30 false

def regrantedStore : AttestationStore :=
  deputyStore.insert regrant (by decide)

theorem deputyStore_tree :
    NoLessPassedOn (moderationWalk deputyStore) := by
  have hrows : forall e, LiveEdge (moderationWalk deputyStore) e ->
      e = sampleGrant "deputy" "ada" "bob" 20 true ∨
        e = sampleGrant "hand" "bob" "cal" 25 false := by
    intro e he
    simpa [moderationWalk, deputyStore] using he.stored
  apply noLessPassedOn_of_tree
  · intro e he
    rcases hrows e he with rfl | rfl <;> decide
  · intro e f he hf hto
    rcases hrows e he with rfl | rfl <;> rcases hrows f hf with rfl | rfl
    · rfl
    · exact absurd hto (by decide)
    · exact absurd hto (by decide)
    · rfl

theorem deputyStore_reaches_cal :
    "cal" ∈ (moderationWalk deputyStore).scopedDelegationReachAt.reached := by
  decide

theorem deputyStore_sound :
    ChainTo (moderationWalk deputyStore) "cal" :=
  scopedDelegationReachAt_sound (moderationWalk deputyStore) rfl "cal"
    deputyStore_reaches_cal

theorem deputyStore_complete :
    ChainTo (moderationWalk deputyStore) "cal" ∧
      "cal" ∈ (moderationWalk deputyStore).scopedDelegationReachAt.reached := by
  have hchain : ChainTo (moderationWalk deputyStore) "cal" :=
    chainTo_of_reached rfl (fun _ _ => Iff.rfl) deputyStore_reaches_cal
  exact ⟨hchain, (scopedDelegationReachAt_complete (moderationWalk deputyStore) rfl
    deputyStore_tree).1 "cal" hchain⟩

/-- The later grant to `bob` is read first and holds the only visit to `bob`, so
the deputizing grant is never followed to `cal`. -/
theorem regrant_loses_cal :
    ChainTo (moderationWalk regrantedStore) "cal" ∧
    "cal" ∉ (moderationWalk regrantedStore).scopedDelegationReachAt.reached ∧
    "cal" ∈ (moderationWalk deputyStore).scopedDelegationReachAt.reached ∧
    "cal" ∈ ((moderationWalk regrantedStore).scopedDelegationReachReading
      fun k => (granterRows regrantedStore k).reverse).reached := by
  have hother : "cal" ∈ ((moderationWalk regrantedStore).scopedDelegationReachReading
      fun k => (granterRows regrantedStore k).reverse).reached := by
    decide
  refine ⟨?_, by decide, deputyStore_reaches_cal, hother⟩
  exact chainTo_of_reached rfl (fun _ _ => List.mem_reverse) hother

end Samples

end CirisPersist.Federation
