import CirisPersist.Federation.Attestation
import CirisPersist.Library.MaxByKey
import Mathlib.Data.Finset.Basic

/-!
# Composers and retirement

A `supersedes`, `withdraws` or `recants` row names an earlier row by id.  A
retraction counts only when its author is entitled to it, and among the
composers of one target a falsity admission outranks a retraction, which
outranks a replacement.  A row is retired when the winning composer retracts it.
-/

namespace CirisPersist.Federation

/-!
## Ranks and the winning composer
-/

def referencesAttestationId (a : Attestation) : Option String :=
  a.envelope.getStr? "references_attestation_id"

def isStructuralComposer : AttestationType -> Bool
  | .supersedes => true
  | .withdraws => true
  | .recants => true
  | _ => false

/-- The composers among the rows about a key that reference one of the ids. -/
def AttestationStore.listComposersReferencingAny (store : AttestationStore) (ids : List String)
    (attested : String) : List Attestation :=
  (store.read (AttestationQuery.toKey attested)).filter fun a =>
    isStructuralComposer a.attestationType && (referencesAttestationId a).any ids.contains

def composerRank : AttestationType -> Nat
  | .recants => 3
  | .withdraws => 2
  | .supersedes => 1
  | _ => 0

/-- By rank, then the latest, then the lexicographically smallest id. -/
def wins (a b : Attestation) : Bool :=
  let ra := composerRank a.attestationType
  let rb := composerRank b.attestationType
  if ra ≠ rb then
    decide (rb < ra)
  else if a.assertedAt ≠ b.assertedAt then
    decide (b.assertedAt < a.assertedAt)
  else
    decide (a.attestationId < b.attestationId)

def precedenceWinner : List Attestation -> Option Attestation
  | [] => none
  | first :: rest =>
      some (rest.foldl (fun best candidate => if wins candidate best then candidate else best)
        first)

/-!
## Entitlement

The vendored registry lists no carrier row type, so the carrier arm of the
source never applies to a registered type; the list is kept as the registry has
it.
-/

def carrierRowTypes : List AttestationType :=
  []

def custodyFamilyStem :=
  "custody:"

def isCustodyRow (a : Attestation) : Bool :=
  a.dimension.any (Text.startsWith custodyFamilyStem)

def retractionEntitled (g target : Attestation) : Bool :=
  if g.attestingKeyId = target.attestingKeyId then
    true
  else if carrierRowTypes.contains target.attestationType then
    false
  else if isCustodyRow target then
    false
  else
    g.attestationType == .withdraws &&
      (target.subjectKeyIds.contains g.attestingKeyId || g.withdrawsAdmissionRule.isSome)

/-!
## Retired ids
-/

/-- The row an id resolves to; the last one where rows share an id. -/
def rowById (rows : List Attestation) (id : String) : Option Attestation :=
  rows.reverse.find? fun r => r.attestationId == id

def composersOf (rows : List Attestation) (target : String) : List Attestation :=
  rows.filter fun row =>
    isStructuralComposer row.attestationType &&
      referencesAttestationId row == some target &&
      (!row.isRetraction || (rowById rows target).any (retractionEntitled row))

def retiredIds (rows : List Attestation) : Finset String :=
  (rows.filterMap referencesAttestationId).toFinset.filter fun target =>
    (precedenceWinner (composersOf rows target)).any Attestation.isRetraction

/-!
## What retirement amounts to

A retraction outranks every replacement, so one entitled retraction is enough.
-/

variable {a : Attestation}

theorem composerRank_le_of_wins
    {b : Attestation} (h : wins a b = true) :
    composerRank b.attestationType ≤ composerRank a.attestationType := by
  simp only [wins] at h
  split at h
  · exact Nat.le_of_lt (decide_eq_true_iff.mp h)
  · rename_i heq
    simp only [ne_eq, Decidable.not_not] at heq
    exact Nat.le_of_eq heq.symm

theorem composerRank_le_of_not_wins
    {b : Attestation} (h : wins a b = false) :
    composerRank a.attestationType ≤ composerRank b.attestationType := by
  simp only [wins] at h
  split at h
  · exact Nat.le_of_not_lt (decide_eq_false_iff_not.mp h)
  · rename_i heq
    simp only [ne_eq, Decidable.not_not] at heq
    exact Nat.le_of_eq heq

theorem precedenceWinner_spec
    {group : List Attestation} {winner : Attestation} (h : precedenceWinner group = some winner) :
    MaxByKey.IsMaxBy (fun c => composerRank c.attestationType) group winner := by
  cases group with
  | nil =>
      cases h
  | cons first rest =>
      cases h
      exact MaxByKey.isMaxBy_scan wins (fun _ _ => composerRank_le_of_wins)
        (fun _ _ => composerRank_le_of_not_wins) rest first

theorem isRetraction_iff_rank :
    a.isRetraction = true <-> 2 ≤ composerRank a.attestationType := by
  unfold Attestation.isRetraction
  cases a.attestationType <;> simp [composerRank]

def Retracts (rows : List Attestation) (g : Attestation) (target : String) : Prop :=
  g ∈ rows ∧ g.isRetraction = true ∧ referencesAttestationId g = some target ∧
    exists row, rowById rows target = some row ∧ retractionEntitled g row = true

theorem mem_retiredIds_iff
    (rows : List Attestation) (target : String) :
    target ∈ retiredIds rows <-> exists g, Retracts rows g target := by
  simp only [retiredIds, Finset.mem_filter, List.mem_toFinset, List.mem_filterMap,
    Option.any_eq_true]
  constructor
  · rintro ⟨-, winner, hwinner, hretracts⟩
    have hmem := (precedenceWinner_spec hwinner).1
    simp only [composersOf, List.mem_filter, Bool.and_eq_true, beq_iff_eq,
      Bool.or_eq_true, Bool.not_eq_true', Option.any_eq_true] at hmem
    rcases hmem with ⟨hrow, ⟨-, href⟩, hentitled⟩
    cases hentitled with
    | inl hnot =>
        rw [hretracts] at hnot
        cases hnot
    | inr hentitled => exact ⟨winner, hrow, hretracts, href, hentitled⟩
  · rintro ⟨g, hrow, hretracts, href, hentitled⟩
    refine ⟨⟨g, hrow, href⟩, ?_⟩
    have hcomposer : isStructuralComposer g.attestationType = true := by
      have hrank := isRetraction_iff_rank.mp hretracts
      cases htype : g.attestationType <;> simp [htype, composerRank] at hrank ⊢ <;> rfl
    have hgroup : g ∈ composersOf rows target := by
      simp only [composersOf, List.mem_filter, Bool.and_eq_true, beq_iff_eq,
        Bool.or_eq_true, Option.any_eq_true]
      exact ⟨hrow, ⟨hcomposer, href⟩, Or.inr hentitled⟩
    cases hwinner : precedenceWinner (composersOf rows target) with
    | none =>
        cases hlist : composersOf rows target with
        | nil =>
            rw [hlist] at hgroup
            cases hgroup
        | cons first rest =>
            rw [hlist] at hwinner
            cases hwinner
    | some winner =>
        refine ⟨winner, rfl, isRetraction_iff_rank.mpr ?_⟩
        exact Nat.le_trans (isRetraction_iff_rank.mp hretracts)
          ((precedenceWinner_spec hwinner).2 g hgroup)

/-!
## Retirement under more rows
-/

variable {rows : List Attestation}

theorem rowById_eq_some_iff
    (hdistinct : (rows.map Attestation.attestationId).Nodup) (id : String) (row : Attestation) :
    rowById rows id = some row <-> row ∈ rows ∧ row.attestationId = id := by
  have hreverse : (rows.reverse.map Attestation.attestationId).Nodup := by
    rwa [List.map_reverse, List.nodup_reverse]
  simp only [rowById, beq_eq_decide]
  rw [FirstWins.find_key_eq_some_iff hreverse, List.mem_reverse]

theorem retiredIds_subset
    {rows' : List Attestation} (hdistinct : (rows.map Attestation.attestationId).Nodup)
    (hdistinct' : (rows'.map Attestation.attestationId).Nodup) (hsub : rows ⊆ rows') :
    retiredIds rows ⊆ retiredIds rows' := by
  intro target htarget
  rw [mem_retiredIds_iff] at htarget ⊢
  rcases htarget with ⟨g, hg, hretracts, href, row, hrow, hentitled⟩
  rw [rowById_eq_some_iff hdistinct] at hrow
  exact ⟨g, hsub hg, hretracts, href, row,
    (rowById_eq_some_iff hdistinct' target row).mpr ⟨hsub hrow.1, hrow.2⟩, hentitled⟩

def EntitledRetraction (rows : List Attestation) (target : String) : Prop :=
  exists row, row ∈ rows ∧ row.attestationId = target ∧
    exists g, g ∈ rows ∧
      (g.attestationType = .withdraws ∨
        g.attestationType = .recants) ∧
      referencesAttestationId g = some target ∧ retractionEntitled g row = true

theorem mem_retiredIds_iff_entitled
    (hdistinct : (rows.map Attestation.attestationId).Nodup) (target : String) :
    target ∈ retiredIds rows <-> EntitledRetraction rows target := by
  simp only [mem_retiredIds_iff, Retracts, rowById_eq_some_iff hdistinct, EntitledRetraction,
    Attestation.isRetraction, Bool.or_eq_true, beq_iff_eq]
  constructor
  · rintro ⟨g, hg, htype, href, row, ⟨hrow, hid⟩, hentitled⟩
    exact ⟨row, hrow, hid, g, hg, htype, href, hentitled⟩
  · rintro ⟨row, hrow, hid, g, hg, htype, href, hentitled⟩
    exact ⟨g, hg, htype, href, row, ⟨hrow, hid⟩, hentitled⟩

theorem EntitledRetraction.of_replacements
    {rows' : List Attestation} {target : String} (hadded : forall r, r ∈ rows' -> r ∉ rows ->
      r.attestationType = .supersedes ∧ r.attestationId ≠ target)
    (h : EntitledRetraction rows' target) :
    EntitledRetraction rows target := by
  rcases h with ⟨row, hrow, hid, g, hg, htype, href, hentitled⟩
  have hheld : row ∈ rows := by
    by_contra hnew
    exact (hadded row hrow hnew).2 hid
  have hheldRetraction : g ∈ rows := by
    by_contra hnew
    rw [(hadded g hg hnew).1] at htype
    rcases htype with hwithdraws | hrecants
    · cases hwithdraws
    · cases hrecants
  exact ⟨row, hheld, hid, g, hheldRetraction, htype, href, hentitled⟩

/-- Retirement is entitlement: it depends on which rows are held, further rows only add
to it, and replacements neither retire nor revive. -/
theorem retiredIds_is_entitlement
    (rows : List Attestation)
    (hdistinct : (rows.map Attestation.attestationId).Nodup) :
    (forall target, target ∈ retiredIds rows <-> EntitledRetraction rows target) ∧
    (forall rows', rows'.Perm rows -> retiredIds rows' = retiredIds rows) ∧
    (forall rows', (rows'.map Attestation.attestationId).Nodup -> rows ⊆ rows' ->
      retiredIds rows ⊆ retiredIds rows') ∧
    (forall rows', (rows'.map Attestation.attestationId).Nodup -> rows ⊆ rows' ->
      forall target, (forall r, r ∈ rows' -> r ∉ rows ->
        r.attestationType = AttestationType.supersedes ∧ r.attestationId ≠ target) ->
      (target ∈ retiredIds rows' <-> target ∈ retiredIds rows)) := by
  refine ⟨mem_retiredIds_iff_entitled hdistinct, ?_, ?_, ?_⟩
  · intro rows' hperm
    have hdistinct' := (hperm.map Attestation.attestationId).nodup_iff.mpr hdistinct
    exact Finset.Subset.antisymm (retiredIds_subset hdistinct' hdistinct hperm.subset)
      (retiredIds_subset hdistinct hdistinct' hperm.symm.subset)
  · intro rows' hdistinct' hsub
    exact retiredIds_subset hdistinct hdistinct' hsub
  · intro rows' hdistinct' hsub target hadded
    constructor
    · intro hretired
      rw [mem_retiredIds_iff_entitled hdistinct'] at hretired
      exact (mem_retiredIds_iff_entitled hdistinct target).mpr (hretired.of_replacements hadded)
    · intro hretired
      exact retiredIds_subset hdistinct hdistinct' hsub hretired

/-!
## A withdrawn row
-/

def statementRow (id author : String) (kind : AttestationType) (target : Json) : Attestation :=
  .ofAuthor id author "k" kind 0 [("references_attestation_id", target)]

def withdrawnRows : List Attestation :=
  [statementRow "t" "a" .scores .null,
    statementRow "w" "a" .withdraws (.str "t"),
    statementRow "x" "b" .recants (.str "w")]

theorem withdrawnRows_retired :
    (withdrawnRows.map Attestation.attestationId).Nodup ∧ "t" ∈ retiredIds withdrawnRows ∧
      "w" ∉ retiredIds withdrawnRows ∧
      "t" ∈ retiredIds (statementRow "s" "b" .supersedes (.str "t") ::
        withdrawnRows) := by
  have hdistinct : (withdrawnRows.map Attestation.attestationId).Nodup := by decide
  have hspec := retiredIds_is_entitlement withdrawnRows hdistinct
  have hretired : "t" ∈ retiredIds withdrawnRows := by decide
  refine ⟨hdistinct, hretired, by decide, ?_⟩
  exact hspec.2.2.1 _ (by decide) (List.subset_cons_self _ _) hretired

end CirisPersist.Federation
