import CirisPersist.Federation.Lineage.Chain
import CirisPersist.Federation.Lineage.Witness

/-!
# The standing of a stored row

A stored trust-root row is judged again on every read.  It is rooted when its chain
verifies from an accord birth and every founder on record counts now, at the version
the witnesses judge.
-/

namespace CirisPersist.Federation

inductive NotRootedReason where
  | notTrustRoot
  | notSigned
  | nonConformant (error : ChainError)
  | notAccordBorn (error : ChainError)
deriving DecidableEq

inductive StoredStanding where
  | absent
  | rooted (held : SignedCommunity)
  | stalled (held : SignedCommunity) (founder : String)
  | notRooted (reason : NotRootedReason)
deriving DecidableEq

def StoredStanding.held : StoredStanding -> Option SignedCommunity
  | rooted h => some h
  | stalled h _ => some h
  | absent => none
  | notRooted _ => none

inductive StandingVariant where
  | absent
  | rooted
  | stalled
  | notRooted
deriving DecidableEq

def StoredStanding.variant : StoredStanding -> StandingVariant
  | absent => .absent
  | rooted _ => .rooted
  | stalled _ _ => .stalled
  | notRooted _ => .notRooted

/-- The same variant and the same held version, whatever the reasons. -/
def StoredStanding.SameVerdict (s s' : StoredStanding) : Prop :=
  s'.variant = s.variant ∧ s'.held = s.held

namespace Lineage

open Checks Expiring Judged

def chainOf (signed : SignedCommunity) : List Version :=
  signed.lineage ++ [signed.toVersion]

theorem chainOf_ne_nil
    (signed : SignedCommunity) :
    chainOf signed ≠ [] :=
  List.append_ne_nil_of_right_ne_nil _ (List.cons_ne_nil _ _)

@[simp]
theorem getLast?_chainOf
    (signed : SignedCommunity) :
    (chainOf signed).getLast? = some signed.toVersion := by
  simp [chainOf]

/-- What a standing reads: the chain, and what the witnesses say about it. -/
structure StandingReads extends ChainReads where
  witness : List Version -> WitnessedHead

def judgedVersion (signed : SignedCommunity) (witness : WitnessedHead) : SignedCommunity :=
  match witness.judged with
  | none => signed
  | some i =>
      if i + 1 < (chainOf signed).length then
        match (chainOf signed)[i]? with
        | some v => { v with lineage := (chainOf signed).take i }
        | none => signed
      else
        signed

variable {signed : SignedCommunity}

theorem judgedVersion_of_judged_none
    {witness : WitnessedHead} (h : witness.judged = none) :
    judgedVersion signed witness = signed := by
  rw [judgedVersion, h]

section Founders

variable [External] (reads : StandingReads)

def firstUncounted (id : String) (chain : List Version) :
    List String -> Judged Instant ChainError (Option String)
  | [] => pure none
  | f :: rest => do
      let counts ← reads.founderCounts id f none (seatedSince chain f)
      if counts then firstUncounted id chain rest else pure (some f)

def foundersStanding (judged : SignedCommunity) : Judged Instant ChainError StoredStanding := do
  let uncounted ← firstUncounted reads judged.community.communityKeyId (chainOf judged)
    (founders judged.community)
  match uncounted with
  | some f => pure (.stalled judged f)
  | none => pure (.rooted judged)

variable {now : Instant}

theorem held_of_foundersStanding
    {reads : StandingReads} {judged : SignedCommunity} {standing : StoredStanding}
    (h : (foundersStanding reads judged).outcome now = .ok standing) :
    standing.held = some judged := by
  unfold foundersStanding at h
  rcases outcome_bind_eq_ok_iff.mp h with ⟨uncounted, _, hstanding⟩
  cases uncounted with
  | none =>
      cases hstanding
      rfl
  | some f =>
      cases hstanding
      rfl

section Counting

variable {reads : StandingReads} (hcounts : forall id key at? since, exists counts,
    (reads.founderCounts id key at? since).outcome now = .ok counts)

include hcounts

theorem exists_firstUncounted_eq_ok
    (id : String) (chain : List Version) (fs : List String) :
    exists uncounted, (firstUncounted reads id chain fs).outcome now = .ok uncounted := by
  induction fs with
  | nil => exact ⟨none, rfl⟩
  | cons f fs ih =>
      rcases hcounts id f none (seatedSince chain f) with ⟨counts, hf⟩
      cases counts with
      | true =>
          rcases ih with ⟨uncounted, hrest⟩
          exact ⟨uncounted, outcome_bind_eq_ok_iff.mpr ⟨true, hf, hrest⟩⟩
      | false => exact ⟨some f, outcome_bind_eq_ok_iff.mpr ⟨false, hf, rfl⟩⟩

theorem exists_foundersStanding_eq_ok
    (judged : SignedCommunity) :
    exists standing, (foundersStanding reads judged).outcome now = .ok standing := by
  rcases exists_firstUncounted_eq_ok hcounts judged.community.communityKeyId (chainOf judged)
    (founders judged.community) with ⟨uncounted, huncounted⟩
  cases uncounted with
  | none =>
      exact ⟨.rooted judged, outcome_bind_eq_ok_iff.mpr ⟨none, huncounted, rfl⟩⟩
  | some f =>
      exact ⟨.stalled judged f, outcome_bind_eq_ok_iff.mpr ⟨some f, huncounted, rfl⟩⟩

end Counting

end Founders

section Compute

variable (W : Type) [RubricNum W] [External] [LineageCodec] (reads : StandingReads)

def computeStanding (signed : SignedCommunity) : Judged Instant ChainError StoredStanding :=
  match checkTrustRootShape signed.community with
  | .error e => pure (.notRooted (.nonConformant e))
  | .ok _ => do
      let verified ← (Judged.attempt (verifyChain W reads.toChainReads (chainOf signed)) :
        Judged Instant ChainError (Except ChainError Unit))
      match verified with
      | .error e => pure (.notRooted (.notAccordBorn e))
      | .ok _ =>
          foundersStanding reads (judgedVersion signed (reads.witness (chainOf signed)))

variable {W reads}

theorem computeStanding_held
    {held : SignedCommunity} {now : Instant} {standing : StoredStanding}
    (h : (computeStanding W reads signed).outcome now = .ok standing)
    (hheld : standing.held = some held) :
    (verifyChain W reads.toChainReads (chainOf signed)).outcome now = .ok () ∧
      held = judgedVersion signed (reads.witness (chainOf signed)) := by
  unfold computeStanding at h
  cases hshape : checkTrustRootShape signed.community with
  | error e =>
      rw [hshape] at h
      cases h
      cases hheld
  | ok u =>
      rw [hshape] at h
      rcases outcome_bind_eq_ok_iff.mp h with ⟨verified, hverified, h⟩
      rw [outcome_attempt] at hverified
      cases hverified
      cases hchain : (verifyChain W reads.toChainReads (chainOf signed)).outcome now with
      | error e =>
          rw [hchain] at h
          cases h
          cases hheld
      | ok u =>
          rw [hchain] at h
          have hjudged := held_of_foundersStanding h
          exact ⟨rfl, Option.some.inj (hheld.symm.trans hjudged)⟩

theorem exists_computeStanding_eq_ok
    {now : Instant}
    (hcounts : forall id key at? since, exists counts,
      (reads.founderCounts id key at? since).outcome now = .ok counts)
    (signed : SignedCommunity) :
    exists standing, (computeStanding W reads signed).outcome now = .ok standing := by
  unfold computeStanding
  cases checkTrustRootShape signed.community with
  | error e => exact ⟨_, rfl⟩
  | ok u =>
      cases hchain : (verifyChain W reads.toChainReads (chainOf signed)).outcome now with
      | error e =>
          exact ⟨StoredStanding.notRooted (NotRootedReason.notAccordBorn e),
            outcome_bind_eq_ok_iff.mpr ⟨Except.error e, congrArg Except.ok hchain, rfl⟩⟩
      | ok u =>
          rcases exists_foundersStanding_eq_ok hcounts
            (judgedVersion signed (reads.witness (chainOf signed))) with ⟨standing, hstanding⟩
          exact ⟨standing, outcome_bind_eq_ok_iff.mpr
            ⟨Except.ok u, congrArg Except.ok hchain, hstanding⟩⟩

end Compute

/-!
## Standings that keep their answers

The founders are asked about one version.  Reads that answer alike give the same
standing exactly where the witnesses judge the same version.
-/

section Keeps

theorem judgedVersion_mem_chainOf
    (signed : SignedCommunity) (witness : WitnessedHead) :
    (judgedVersion signed witness).toVersion ∈ chainOf signed := by
  have hhead : signed.toVersion ∈ chainOf signed := List.mem_append_right _ List.mem_cons_self
  unfold judgedVersion
  split
  · exact hhead
  · split
    · split
      · rename_i v hv
        exact List.mem_of_getElem? hv
      · exact hhead
    · exact hhead

variable [External] {w : Judged.Window Instant} {now : Instant} {id : String}
  {chain : List Version} {reads reads' : StandingReads}

theorem keeps_firstUncounted
    (h : reads.toChainReads.Keeps w now id chain reads'.toChainReads) {v : Version} (hv : v ∈ chain)
    (versions : List Version) {fs : List String} (hfs : fs ⊆ founders v.community) :
    Judged.Keeps w now (firstUncounted reads id versions fs)
      (firstUncounted reads' id versions fs) := by
  induction fs with
  | nil => exact keeps_pure none
  | cons f fs ih =>
      rcases mem_founders_iff.mp (hfs List.mem_cons_self) with ⟨m, hm, _, rfl⟩
      refine keeps_bind (h.founderCounts v m _ _ hv hm) fun counts _ => ?_
      cases counts with
      | true => exact ih fun _ hx => hfs (List.mem_cons_of_mem _ hx)
      | false => exact keeps_pure (some m.keyId)

theorem keeps_foundersStanding
    (h : reads.toChainReads.Keeps w now id chain reads'.toChainReads) {judged : SignedCommunity}
    (hjudged : judged.toVersion ∈ chain) (hid : judged.community.communityKeyId = id) :
    Judged.Keeps w now (foundersStanding reads judged) (foundersStanding reads' judged) := by
  unfold foundersStanding
  rw [hid]
  refine keeps_bind (keeps_firstUncounted h hjudged _ (List.Subset.refl _)) fun uncounted _ => ?_
  cases uncounted with
  | none => exact keeps_pure _
  | some f => exact keeps_pure _

variable {W : Type} [RubricNum W] [LineageCodec]

theorem communityKeyId_of_verifyChain
    {reads : ChainReads} (h : (verifyChain W reads chain).outcome now = .ok ()) {u v : Version}
    (hu : u ∈ chain) (hv : v ∈ chain) :
    u.community.communityKeyId = v.community.communityKeyId := by
  unfold verifyChain at h
  rcases outcome_bind_eq_ok_iff.mp h with ⟨birth, _, h⟩
  rcases outcome_bind_eq_ok_iff.mp h with ⟨_, hone, _⟩
  rw [outcome_lift] at hone
  have hnone := require_eq_ok_iff.mp hone
  simp only [Bool.not_eq_true', List.any_eq_false, decide_eq_true_eq, not_not] at hnone
  exact (hnone u hu).trans (hnone v hv).symm

theorem keeps_computeStanding
    (h : reads.toChainReads.Keeps w now signed.community.communityKeyId (chainOf signed)
      reads'.toChainReads) (hjudged : judgedVersion signed (reads'.witness (chainOf signed)) =
      judgedVersion signed (reads.witness (chainOf signed))) :
    Judged.Keeps w now (computeStanding W reads signed) (computeStanding W reads' signed) := by
  have hhead : signed.toVersion ∈ chainOf signed := List.mem_append_right _ List.mem_cons_self
  unfold computeStanding
  cases checkTrustRootShape signed.community with
  | error e => exact keeps_pure _
  | ok u =>
      have hchain := keeps_verifyChain (W := W) h ⟨signed.toVersion, hhead, rfl⟩
      refine keeps_bind (keeps_attempt hchain) fun verified hverified => ?_
      cases verified with
      | error e => exact keeps_pure _
      | ok u =>
          rw [hjudged]
          have hmem := judgedVersion_mem_chainOf signed (reads.witness (chainOf signed))
          rw [outcome_attempt] at hverified
          exact keeps_foundersStanding h hmem
            (communityKeyId_of_verifyChain (Except.ok.inj hverified) hmem hhead)

theorem keeps_computeStanding_of_held_none
    {standing : StoredStanding}
    (h : reads.toChainReads.Keeps w now signed.community.communityKeyId (chainOf signed)
      reads'.toChainReads)
    (hstanding : (computeStanding W reads signed).outcome now = .ok standing)
    (hheld : standing.held = none) :
    Judged.Keeps w now (computeStanding W reads signed) (computeStanding W reads' signed) := by
  unfold computeStanding at hstanding ⊢
  cases hshape : checkTrustRootShape signed.community with
  | error e => exact keeps_pure _
  | ok u =>
      rw [hshape] at hstanding
      have hchain := keeps_verifyChain (W := W) h
        ⟨signed.toVersion, List.mem_append_right _ List.mem_cons_self, rfl⟩
      refine keeps_bind (keeps_attempt hchain) fun verified hverified => ?_
      rcases outcome_bind_eq_ok_iff.mp hstanding with ⟨verified', hverified', hstanding⟩
      cases hverified.symm.trans hverified'
      cases verified with
      | error e => exact keeps_pure _
      | ok u => exact absurd (held_of_foundersStanding hstanding) (by simp [hheld])

/-- Where the reads answer alike, the verdict is kept exactly when the row holds no version
or the witnesses judge the same one. -/
theorem sameVerdict_iff_judgedVersion_eq
    {t : Instant} {standing standing' : StoredStanding}
    (h : reads.toChainReads.Keeps w now signed.community.communityKeyId (chainOf signed)
      reads'.toChainReads) (hopen : w.Open now t ((computeStanding W reads signed).expiry now))
    (hnow : (computeStanding W reads signed).outcome now = .ok standing)
    (ht : (computeStanding W reads' signed).outcome t = .ok standing') :
    standing.SameVerdict standing' <->
      standing.held = none ∨
        judgedVersion signed (reads'.witness (chainOf signed)) =
          judgedVersion signed (reads.witness (chainOf signed)) := by
  constructor
  · rintro ⟨_, hheld⟩
    cases hold : standing.held with
    | none => exact Or.inl rfl
    | some held =>
        rw [hold] at hheld
        have hjudged := (computeStanding_held hnow hold).2
        have hjudged' := (computeStanding_held ht hheld).2
        exact Or.inr (hjudged'.symm.trans hjudged)
  · intro hkept
    have hsame : (.ok standing' : Except ChainError StoredStanding) = .ok standing := by
      rw [← ht, ← hnow]
      rcases hkept with hnone | hjudged
      · exact keeps_computeStanding_of_held_none h hnow hnone t hopen
      · exact keeps_computeStanding h hjudged t hopen
    cases hsame
    exact ⟨rfl, rfl⟩

end Keeps

end Lineage

end CirisPersist.Federation
