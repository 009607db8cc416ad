import Mathlib.Data.String.Basic
import CirisPersist.Base.External
import CirisPersist.Library.Ancestry
import CirisPersist.Library.Sorting

/-!
# The witnessed head of a lineage

Witnesses cosign the heads of a lineage.  A head with a quorum of distinct
persons is witnessed, and a lineage is judged at its latest witnessed version.
When a witnessed head lies off the chain this node holds, the priors that cosigns
name are walked back to the chain, and the lineage is judged where they meet it.
-/

namespace CirisPersist.Federation

structure EffectiveCosign where
  headDigest : String
  prior : Option String
  principal : String
  witnessKeyId : String
  signedAt : Instant
deriving DecidableEq

structure Equivocation where
  heldHeadDigest : String
  competingHeadDigest : String
  forkDigest : String
  heldWitnesses : List String
  competingWitnesses : List String
deriving DecidableEq

structure WitnessedHead where
  judged : Option Nat
  unwitnessedTail : Nat
  equivocation : Option Equivocation
  latestCosignAt : Option Instant
deriving DecidableEq

namespace Lineage

/-!
## Counting witnesses
-/

def witnessedModeOn (quorum : Nat) : Bool :=
  decide (0 < quorum)

/-- The distinct persons, no founder among them, whose cosigns name the head. -/
def witnessesOf (effective : List EffectiveCosign) (headDigest : String)
    (founderPrincipals : List String) : List String :=
  Sorting.sortDedup
    ((effective.filter fun c =>
      decide (c.headDigest = headDigest) && !founderPrincipals.contains c.principal).map
        EffectiveCosign.principal)

def witnessed (effective : List EffectiveCosign) (headDigest : String)
    (founderPrincipals : List String) (quorum : Nat) : Bool :=
  witnessedModeOn quorum &&
    decide (quorum ≤ (witnessesOf effective headDigest founderPrincipals).length)

/-!
## Competing heads
-/

def priorEdges (effective : List EffectiveCosign) : List (String × String) :=
  effective.filterMap fun c => c.prior.map fun p => (c.headDigest, p)

def chainIndex (digests : List String) (digest : String) : Option Nat :=
  digests.idxOf? digest

def forkPoint (digests : List String) (effective : List EffectiveCosign) (start : String) :
    Option Nat :=
  Ancestry.meet (priorEdges effective) (chainIndex digests) (effective.length + 1) start

def competingHeads (digests : List String) (effective : List EffectiveCosign) : List String :=
  Sorting.sortDedup
    ((effective.filter fun c => !digests.contains c.headDigest).map EffectiveCosign.headDigest)

section Judge

variable (digests : List String) (founderPrincipals : List String) (quorum : Nat)
  (effective : List EffectiveCosign)

def latestWitnessed : Option Nat :=
  (List.range digests.length).reverse.find? fun i =>
    digests[i]?.any fun d => witnessed effective d founderPrincipals quorum

/-- A witnessed competing head that forks off before the judged version moves it back. -/
def judgeStep (state : Nat × Option Equivocation) (d : String) : Nat × Option Equivocation :=
  if !witnessed effective d founderPrincipals quorum then
    state
  else
    match forkPoint digests effective d with
    | none => state
    | some fork =>
        if fork < state.1 then
          let held := digests.getD state.1 ""
          (fork, some {
            heldHeadDigest := held
            competingHeadDigest := d
            forkDigest := digests.getD fork ""
            heldWitnesses := witnessesOf effective held founderPrincipals
            competingWitnesses := witnessesOf effective d founderPrincipals })
        else
          state

def witnessedHead : WitnessedHead :=
  let latestCosignAt := (effective.map EffectiveCosign.signedAt).max?
  if digests.isEmpty then
    ⟨none, 0, none, none⟩
  else if !witnessedModeOn quorum then
    ⟨none, 0, none, latestCosignAt⟩
  else
    match latestWitnessed digests founderPrincipals quorum effective with
    | none => ⟨none, 0, none, latestCosignAt⟩
    | some latest =>
        let judged := (competingHeads digests effective).foldl
          (judgeStep digests founderPrincipals quorum effective) (latest, none)
        ⟨some judged.1, digests.length - 1 - judged.1, judged.2, latestCosignAt⟩

/-- The version the standing is judged at, an absent one read as the chain head. -/
def judgedIndex : Nat :=
  (witnessedHead digests founderPrincipals quorum effective).judged.getD (digests.length - 1)

end Judge

theorem witnessedHead_judged_of_off
    (digests founderPrincipals : List String) (effective : List EffectiveCosign) :
    (witnessedHead digests founderPrincipals 0 effective).judged = none := by
  unfold witnessedHead
  split
  · rfl
  · rfl

/-!
## More cosigns
-/

theorem witnessed_append
    {effective : List EffectiveCosign} {headDigest : String} {founderPrincipals : List String}
    {quorum : Nat} (more : List EffectiveCosign)
    (h : witnessed effective headDigest founderPrincipals quorum = true) :
    witnessed (effective ++ more) headDigest founderPrincipals quorum = true := by
  simp only [witnessed, Bool.and_eq_true, decide_eq_true_eq] at h ⊢
  refine ⟨h.1, le_trans h.2 (Sorting.length_sortDedup_le_of_subset ?_)⟩
  rw [List.filter_append, List.map_append]
  exact List.subset_append_left _ _

theorem exists_cosign_of_witnessed
    {effective : List EffectiveCosign} {headDigest : String} {founderPrincipals : List String}
    {quorum : Nat} (h : witnessed effective headDigest founderPrincipals quorum = true) :
    exists c, c ∈ effective ∧ c.headDigest = headDigest := by
  simp only [witnessed, witnessedModeOn, Bool.and_eq_true, decide_eq_true_eq] at h
  rcases List.exists_mem_of_length_pos (lt_of_lt_of_le h.1 h.2) with ⟨w, hw⟩
  rw [witnessesOf, Sorting.mem_sortDedup_iff, List.mem_map] at hw
  rcases hw with ⟨c, hc, _⟩
  have hc := List.mem_filter.mp hc
  simp only [Bool.and_eq_true, decide_eq_true_eq] at hc
  exact ⟨c, hc.1, hc.2.1⟩

/-!
## The judged version

It is the earliest of the latest witnessed version and the versions where witnessed
heads off the chain lead back to it.
-/

/-- The priors that cosigns name lead from a head to a version of the chain. -/
def LeadsBack (digests : List String) (effective : List EffectiveCosign) (headDigest : String)
    (i : Nat) : Prop :=
  Ancestry.Meets (priorEdges effective) (chainIndex digests) headDigest i

theorem forkPoint_isMeet
    (digests : List String) (effective : List EffectiveCosign) (start : String) :
    Ancestry.IsMeet (priorEdges effective) (chainIndex digests) start
      (forkPoint digests effective start) :=
  Ancestry.isMeet_meet (Nat.succ_le_succ (List.length_filterMap_le _ _)) start

section Spec

variable {digests : List String} {founderPrincipals : List String} {quorum : Nat}
  {effective : List EffectiveCosign}

def Rival (digests : List String) (founderPrincipals : List String) (quorum : Nat)
    (effective : List EffectiveCosign) (headDigest : String) (i : Nat) : Prop :=
  headDigest ∉ digests ∧ witnessed effective headDigest founderPrincipals quorum = true ∧
    LeadsBack digests effective headDigest i

theorem mem_competingHeads_iff
    (headDigest : String) :
    headDigest ∈ competingHeads digests effective <->
      headDigest ∉ digests ∧ exists c, c ∈ effective ∧ c.headDigest = headDigest := by
  simp only [competingHeads, Sorting.mem_sortDedup_iff, List.mem_map, List.mem_filter,
    List.contains_eq_mem, Bool.not_eq_true', decide_eq_false_iff_not]
  constructor
  · rintro ⟨c, ⟨hc, hoff⟩, rfl⟩
    exact ⟨hoff, c, hc, rfl⟩
  · rintro ⟨hoff, c, hc, rfl⟩
    exact ⟨c, ⟨hc, hoff⟩, rfl⟩

theorem judgeStep_cases
    (state : Nat × Option Equivocation) (d : String) :
    (judgeStep digests founderPrincipals quorum effective state d = state ∧
      forall fork, witnessed effective d founderPrincipals quorum = true ->
        forkPoint digests effective d = some fork -> state.1 ≤ fork) ∨
    (witnessed effective d founderPrincipals quorum = true ∧
      exists fork, forkPoint digests effective d = some fork ∧ fork < state.1 ∧
        (judgeStep digests founderPrincipals quorum effective state d).1 = fork) := by
  cases hw : witnessed effective d founderPrincipals quorum with
  | false => exact Or.inl ⟨by simp [judgeStep, hw], fun _ h _ => nomatch h⟩
  | true =>
      cases hfork : forkPoint digests effective d with
      | none => exact Or.inl ⟨by simp [judgeStep, hw, hfork], fun _ _ h => nomatch h⟩
      | some fork =>
          by_cases hlt : fork < state.1
          · exact Or.inr ⟨rfl, fork, rfl, hlt, by simp [judgeStep, hw, hfork, hlt]⟩
          · refine Or.inl ⟨by simp [judgeStep, hw, hfork, hlt], ?_⟩
            intro fork' _ h
            cases h
            exact not_lt.mp hlt

/-- The least of a start and of the forks of the witnessed heads in a list. -/
structure IsJudged (digests : List String) (founderPrincipals : List String) (quorum : Nat)
    (effective : List EffectiveCosign) (heads : List String) (start judged : Nat) : Prop where
  atMostStart : judged ≤ start
  atMostFork : forall d fork, d ∈ heads ->
    witnessed effective d founderPrincipals quorum = true ->
    forkPoint digests effective d = some fork -> judged ≤ fork
  attained : judged = start ∨ exists d, d ∈ heads ∧
    witnessed effective d founderPrincipals quorum = true ∧
    forkPoint digests effective d = some judged

theorem isJudged_foldl
    (heads : List String) (state : Nat × Option Equivocation) :
    IsJudged digests founderPrincipals quorum effective heads state.1
      (heads.foldl (judgeStep digests founderPrincipals quorum effective) state).1 := by
  induction heads generalizing state with
  | nil => exact ⟨le_refl _, by simp, Or.inl rfl⟩
  | cons d heads ih =>
      rw [List.foldl_cons]
      have hrest := ih (judgeStep digests founderPrincipals quorum effective state d)
      rcases judgeStep_cases state d with ⟨hsame, hkeep⟩ | ⟨hw, fork, hfork, hlt, hmoved⟩
      · rw [hsame] at hrest ⊢
        refine ⟨hrest.atMostStart, ?_, ?_⟩
        · intro e f he hwe hf
          rcases List.mem_cons.mp he with rfl | he
          · exact le_trans hrest.atMostStart (hkeep f hwe hf)
          · exact hrest.atMostFork e f he hwe hf
        · rcases hrest.attained with hstart | ⟨e, he, hwe, hf⟩
          · exact Or.inl hstart
          · exact Or.inr ⟨e, List.mem_cons_of_mem _ he, hwe, hf⟩
      · rw [hmoved] at hrest
        refine ⟨le_trans hrest.atMostStart (le_of_lt hlt), ?_, Or.inr ?_⟩
        · intro e f he hwe hf
          rcases List.mem_cons.mp he with rfl | he
          · cases hfork.symm.trans hf
            exact hrest.atMostStart
          · exact hrest.atMostFork e f he hwe hf
        · rcases hrest.attained with hstart | ⟨e, he, hwe, hf⟩
          · exact ⟨d, List.mem_cons_self, hw, hfork.trans (congrArg some hstart.symm)⟩
          · exact ⟨e, List.mem_cons_of_mem _ he, hwe, hf⟩

variable {latest : Nat}

theorem latestWitnessed_eq_some
    (h : latestWitnessed digests founderPrincipals quorum effective = some latest) :
    latest < digests.length ∧
    (exists d, digests[latest]? = some d ∧ witnessed effective d founderPrincipals quorum = true) ∧
    forall k d, latest < k -> digests[k]? = some d ->
      witnessed effective d founderPrincipals quorum = false := by
  rcases List.find?_eq_some_iff_append.mp h with ⟨hwit, later, earlier, hsplit, hlater⟩
  have hmem : latest ∈ (List.range digests.length).reverse := by
    rw [hsplit]
    exact List.mem_append_right _ List.mem_cons_self
  refine ⟨List.mem_range.mp (List.mem_reverse.mp hmem), ?_, ?_⟩
  · exact Option.any_eq_true _ _ |>.mp hwit
  · intro k d hk hd
    have hklt : k < digests.length := (List.getElem?_eq_some_iff.mp hd).1
    have hkmem : k ∈ later ++ latest :: earlier := by
      rw [← hsplit]
      exact List.mem_reverse.mpr (List.mem_range.mpr hklt)
    -- The reversed range falls, so a later version stands before the one found.
    have hfalls : (later ++ latest :: earlier).Pairwise (· > ·) := by
      rw [← hsplit, List.pairwise_reverse]
      exact List.pairwise_lt_range
    rcases List.mem_append.mp hkmem with hklater | hkrest
    · simpa [hd] using hlater k hklater
    · rcases List.mem_cons.mp hkrest with rfl | hkearlier
      · exact absurd hk (lt_irrefl _)
      · have hlt := List.rel_of_pairwise_cons (List.pairwise_append.mp hfalls).2.1 hkearlier
        exact absurd hlt (lt_asymm hk)

theorem latestWitnessed_eq_none
    (h : latestWitnessed digests founderPrincipals quorum effective = none)
    {k : Nat} {d : String} (hd : digests[k]? = some d) :
    witnessed effective d founderPrincipals quorum = false := by
  have hk : k ∈ (List.range digests.length).reverse :=
    List.mem_reverse.mpr (List.mem_range.mpr (List.getElem?_eq_some_iff.mp hd).1)
  simpa [hd] using List.find?_eq_none.mp h k hk

structure JudgedAt (digests : List String) (founderPrincipals : List String) (quorum : Nat)
    (effective : List EffectiveCosign) (latest judged : Nat) : Prop where
  atMostLatest : judged ≤ latest
  atMostRival : forall headDigest i,
    Rival digests founderPrincipals quorum effective headDigest i -> judged ≤ i
  attained : judged = latest ∨ exists headDigest,
    Rival digests founderPrincipals quorum effective headDigest judged

theorem judgedAt_of_isJudged
    {judged : Nat} (h : IsJudged digests founderPrincipals quorum effective
      (competingHeads digests effective) latest judged) :
    JudgedAt digests founderPrincipals quorum effective latest judged := by
  refine ⟨h.atMostStart, ?_, ?_⟩
  · rintro headDigest i ⟨hoff, hw, hback⟩
    rcases (forkPoint_isMeet digests effective headDigest).least i hback with ⟨fork, hfork, hle⟩
    have hmem := (mem_competingHeads_iff headDigest).mpr ⟨hoff, exists_cosign_of_witnessed hw⟩
    exact le_trans (h.atMostFork headDigest fork hmem hw hfork) hle
  · rcases h.attained with hlatest | ⟨d, hd, hw, hfork⟩
    · exact Or.inl hlatest
    · have hoff := ((mem_competingHeads_iff d).mp hd).1
      exact Or.inr ⟨d, hoff, hw, (forkPoint_isMeet digests effective d).met _ hfork⟩

theorem judgedAt_of_latestWitnessed
    (h : latestWitnessed digests founderPrincipals quorum effective = some latest) :
    JudgedAt digests founderPrincipals quorum effective latest
      (judgedIndex digests founderPrincipals quorum effective) := by
  rcases latestWitnessed_eq_some h with ⟨hlt, ⟨d, _, hw⟩, _⟩
  have hnonempty : digests.isEmpty = false := by
    cases digests with
    | nil => exact absurd hlt (Nat.not_lt_zero _)
    | cons _ _ => rfl
  have hmode : witnessedModeOn quorum = true := (Bool.and_eq_true_iff.mp hw).1
  have hindex : judgedIndex digests founderPrincipals quorum effective =
      ((competingHeads digests effective).foldl
        (judgeStep digests founderPrincipals quorum effective) (latest, none)).1 := by
    simp [judgedIndex, witnessedHead, hnonempty, hmode, h]
  rw [hindex]
  exact judgedAt_of_isJudged (isJudged_foldl _ (latest, none))

theorem judgedIndex_of_latestWitnessed_eq_none
    (h : latestWitnessed digests founderPrincipals quorum effective = none) :
    judgedIndex digests founderPrincipals quorum effective = digests.length - 1 := by
  by_cases hempty : digests.isEmpty = true
  · simp [judgedIndex, witnessedHead, hempty]
  · by_cases hmode : witnessedModeOn quorum = true
    · simp [judgedIndex, witnessedHead, hempty, hmode, h]
    · simp [judgedIndex, witnessedHead, hempty, hmode]

end Spec

/-!
## Cosigns that witness no further head

One cosign can still name a prior for a head that a quorum has witnessed.
-/

section Rollback

variable (digests : List String) (founderPrincipals : List String) (quorum : Nat)
  (effective more : List EffectiveCosign)

/-- Wherever the further cosigns lead a witnessed rival, no later version of the chain
was witnessed, or a rival already led at least as far back. -/
def PriorsKeepRivals : Prop :=
  forall headDigest i, headDigest ∉ digests ->
    witnessed effective headDigest founderPrincipals quorum = true ->
    LeadsBack digests (effective ++ more) headDigest i ->
      (forall k d, i < k -> digests[k]? = some d ->
        witnessed effective d founderPrincipals quorum = false) ∨
      exists rival j, Rival digests founderPrincipals quorum effective rival j ∧ j ≤ i

variable {digests founderPrincipals quorum effective more}

/-- Further cosigns that witness no further head move the judged version back exactly
when a prior they name leads a rival to before it. -/
theorem judgedIndex_le_append_iff
    (hnone : forall headDigest,
      witnessed (effective ++ more) headDigest founderPrincipals quorum = true ->
      witnessed effective headDigest founderPrincipals quorum = true) :
    judgedIndex digests founderPrincipals quorum effective ≤
        judgedIndex digests founderPrincipals quorum (effective ++ more) <->
      PriorsKeepRivals digests founderPrincipals quorum effective more := by
  have hsame : forall headDigest,
      witnessed (effective ++ more) headDigest founderPrincipals quorum =
        witnessed effective headDigest founderPrincipals quorum :=
    fun headDigest => Bool.eq_iff_iff.mpr ⟨hnone headDigest, witnessed_append more⟩
  have hlatest : latestWitnessed digests founderPrincipals quorum (effective ++ more) =
      latestWitnessed digests founderPrincipals quorum effective := by
    simp only [latestWitnessed, hsame]
  cases h : latestWitnessed digests founderPrincipals quorum effective with
  | none =>
      rw [judgedIndex_of_latestWitnessed_eq_none h,
        judgedIndex_of_latestWitnessed_eq_none (hlatest.trans h)]
      refine ⟨fun _ headDigest i _ _ _ => Or.inl ?_, fun _ => le_refl _⟩
      exact fun k d _ hd => latestWitnessed_eq_none h hd
  | some latest =>
      have hold := judgedAt_of_latestWitnessed h
      have hnew := judgedAt_of_latestWitnessed (hlatest.trans h)
      rcases latestWitnessed_eq_some h with ⟨_, ⟨d, hd, hw⟩, hafter⟩
      constructor
      · intro hle headDigest i hoff hwit hback
        have hi := le_trans hle
          (hnew.atMostRival headDigest i ⟨hoff, witnessed_append more hwit, hback⟩)
        rcases hold.attained with heq | ⟨rival, hrival⟩
        · exact Or.inl fun k d hk hd => hafter k d (lt_of_le_of_lt (heq ▸ hi) hk) hd
        · exact Or.inr ⟨rival, _, hrival, hi⟩
      · intro hkeep
        rcases hnew.attained with heq | ⟨headDigest, hoff, hwit, hback⟩
        · rw [heq]
          exact hold.atMostLatest
        · rcases hkeep headDigest _ hoff (hnone headDigest hwit) hback with
            hbefore | ⟨rival, j, hrival, hj⟩
          · refine le_trans hold.atMostLatest (not_lt.mp fun hlt => ?_)
            exact absurd hw (Bool.eq_false_iff.mp (hbefore latest d hlt hd))
          · exact le_trans (hold.atMostRival rival j hrival) hj

theorem witnessed_of_append_of_heads
    (h : forall d, d ∈ (effective ++ more).map EffectiveCosign.headDigest ->
      witnessed (effective ++ more) d founderPrincipals quorum = true ->
      witnessed effective d founderPrincipals quorum = true)
    (headDigest : String)
    (hwit : witnessed (effective ++ more) headDigest founderPrincipals quorum = true) :
    witnessed effective headDigest founderPrincipals quorum = true := by
  rcases exists_cosign_of_witnessed hwit with ⟨c, hc, rfl⟩
  exact h _ (List.mem_map_of_mem hc) hwit

end Rollback

/-!
## Samples

A chain of three versions under a witness quorum of two.
-/

def cosignBy (person : String) (headDigest : String) (prior : Option String) :
    EffectiveCosign where
  headDigest := headDigest
  prior := prior
  principal := person
  witnessKeyId := person
  signedAt := 0

/-- Two persons witness the head of the chain, and a head whose prior they do not
name. -/
def twoHeads : List EffectiveCosign :=
  [cosignBy "a" "h2" (some "h1"), cosignBy "b" "h2" (some "h1"),
    cosignBy "a" "x" none, cosignBy "b" "x" none]

theorem held_cosign_keeps_judged :
    (judgedIndex ["h0", "h1", "h2"] [] 2 twoHeads ≤
        judgedIndex ["h0", "h1", "h2"] [] 2 (twoHeads ++ [cosignBy "c" "h2" (some "h1")]) <->
      PriorsKeepRivals ["h0", "h1", "h2"] [] 2 twoHeads [cosignBy "c" "h2" (some "h1")]) ∧
    judgedIndex ["h0", "h1", "h2"] [] 2 twoHeads = 2 ∧
    judgedIndex ["h0", "h1", "h2"] [] 2 (twoHeads ++ [cosignBy "c" "h2" (some "h1")]) = 2 :=
  ⟨judgedIndex_le_append_iff (witnessed_of_append_of_heads (by decide)),
    by decide, by decide⟩

/-- One cosign by a third person names the birth as the prior of the other head.  No
further head is witnessed, and the lineage is rolled back to its birth. -/
theorem lone_prior_rolls_back_to_birth :
    (forall headDigest,
      witnessed (twoHeads ++ [cosignBy "c" "x" (some "h0")]) headDigest [] 2 = true ->
      witnessed twoHeads headDigest [] 2 = true) ∧
    judgedIndex ["h0", "h1", "h2"] [] 2 twoHeads = 2 ∧
    judgedIndex ["h0", "h1", "h2"] [] 2 (twoHeads ++ [cosignBy "c" "x" (some "h0")]) = 0 :=
  ⟨witnessed_of_append_of_heads (by decide), by decide, by decide⟩

end Lineage

end CirisPersist.Federation
