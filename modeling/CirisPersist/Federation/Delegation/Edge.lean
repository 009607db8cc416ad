import CirisPersist.Federation.Precedence
import CirisPersist.Library.Checks
import Mathlib.Data.Finset.Card

/-!
# Delegation edges

A `delegates_to` row is an edge from its author to the key it names.  Its
envelope declares the scope tokens it confers, whether and how far the recipient
may pass them on, and the term during which it holds.
-/

namespace CirisPersist.Federation

/-!
## Scope tokens

A held token covers itself and every caveat below it, past a `:` boundary.  It
never covers its parent.
-/

def scopeCovers (held wanted : String) : Bool :=
  if held = "" ∨ wanted = "" then
    false
  else if held = wanted then
    true
  else
    match (Text.stripPrefix held wanted).map String.toList with
    | some (':' :: _ :: _) => true
    | _ => false

/-- The tokens of a `scope` field, a bare string or an array of strings. -/
def delegationScopeTokens (envelope : Json) : List String :=
  match envelope.get? "scope" with
  | some (.str s) => [s]
  | some (.arr items) => items.filterMap Json.asStr
  | _ => []

def delegationScopeGrants (envelope : Json) (scopeToken : String) : Bool :=
  (delegationScopeTokens envelope).any fun held => scopeCovers held scopeToken

def delegationScopeSet (envelope : Json) : Finset String :=
  (delegationScopeTokens envelope).toFinset

/-- Every token of the child is covered by some token of the parent. -/
def scopeWithin (parent child : Finset String) : Prop :=
  forall c, c ∈ child -> exists p, p ∈ parent ∧ scopeCovers p c = true

instance (parent child : Finset String) : Decidable (scopeWithin parent child) :=
  inferInstanceAs (Decidable (forall c, c ∈ child -> exists p, p ∈ parent ∧ scopeCovers p c = true))

/-!
## Passing on
-/

def delegationSubDelegationDepth (envelope : Json) : Option Nat :=
  envelope.getU64? "sub_delegation_depth"

def delegationGrantsSubDelegation (envelope : Json) : Bool :=
  ((envelope.get? "sub_delegation").bind Json.asBool).getD false

/-!
## Terms
-/

def delegationValidFromField :=
  "delegation_valid_from"

def delegationValidUntilField :=
  "delegation_valid_until"

def bindingValidUntilField :=
  "valid_until"

def delegationTermAdoptedAt : Instant :=
  Instant.ofSeconds 1792713600

def roleTermCeilingSeconds : Int :=
  365 * 86400

def termBearingScopes : List String :=
  ["license", "grant", "moderate", "takedown", "review", "slash"]

def isTermBearingEdge (envelope : Json) : Bool :=
  delegationGrantsSubDelegation envelope ||
    termBearingScopes.any (delegationScopeGrants envelope)

structure DelegationTerm where
  start : Option Instant
  untils : List Instant

inductive TermBreach where
  | overCeiling
  | overRoleTerm
deriving DecidableEq

section Terms

variable [External]

/-- An absent or null field is no bound; a field that is no timestamp is an
error that names it. -/
def readTermInstant (envelope : Json) (field : String) :
    Except String (Option Instant) :=
  match envelope.get? field with
  | none => .ok none
  | some .null => .ok none
  | some v =>
      match v.asStr.bind External.parseRfc3339 with
      | some t => .ok (some t)
      | none => .error field

def DelegationTerm.read (envelope : Json) : Except String DelegationTerm := do
  let start ← readTermInstant envelope delegationValidFromField
  let first ← readTermInstant envelope delegationValidUntilField
  let second ← readTermInstant envelope bindingValidUntilField
  .ok { start := start, untils := first.toList ++ second.toList }

def DelegationTerm.boundBreach (term : DelegationTerm) (startIfAbsent : Option Instant)
    (roleTermSeconds : Option Int) : Option (TermBreach × Int) :=
  (term.start.or startIfAbsent).bind fun start =>
    term.untils.findSome? fun ending =>
      let span := ending - start
      if Instant.ofSeconds roleTermCeilingSeconds < span then
        some (.overCeiling, span)
      else if roleTermSeconds.any fun r => decide (Instant.ofSeconds r < span) then
        some (.overRoleTerm, span)
      else
        none

def delegationTermLiveAt (edge : Attestation) (t : Instant)
    (roleTermSeconds : Option Int) : Bool :=
  match DelegationTerm.read edge.envelope with
  | .error _ => false
  | .ok term =>
      if term.start.any (fun f => decide (t < f)) || term.untils.any (fun u => decide (u ≤ t)) then
        false
      else if edge.assertedAt < delegationTermAdoptedAt then
        (term.boundBreach none none).isNone
      else
        !(isTermBearingEdge edge.envelope &&
          (term.boundBreach (some edge.assertedAt) roleTermSeconds).isSome)

/-- Live at the first instant from `now` on at which its term can be open. -/
def delegationEdgeLiveAtOrAfter (edge : Attestation) (now : Instant) : Bool :=
  match readTermInstant edge.envelope delegationValidFromField with
  | .error _ => false
  | .ok start =>
      let probe := match start with
        | some f => max f now
        | none => now
      edge.expiresAt.all (fun x => decide (probe < x)) &&
        delegationTermLiveAt edge probe none

theorem DelegationTerm.start_of_read
    {envelope : Json} {term : DelegationTerm} (h : DelegationTerm.read envelope = .ok term) :
    readTermInstant envelope delegationValidFromField = .ok term.start := by
  rcases Checks.bind_eq_ok_iff.mp h with ⟨start, hstart, h⟩
  rcases Checks.bind_eq_ok_iff.mp h with ⟨first, -, h⟩
  rcases Checks.bind_eq_ok_iff.mp h with ⟨second, -, h⟩
  cases h
  exact hstart

theorem delegationTermLiveAt_anti
    {e : Attestation} {t later : Instant} {roleTermSeconds : Option Int} (hle : t ≤ later)
    (hstart : forall f, readTermInstant e.envelope delegationValidFromField = .ok (some f) -> f ≤ t)
    (h : delegationTermLiveAt e later roleTermSeconds = true) :
    delegationTermLiveAt e t roleTermSeconds = true := by
  unfold delegationTermLiveAt at h ⊢
  cases hterm : DelegationTerm.read e.envelope with
  | error field =>
      rw [hterm] at h
      cases h
  | ok term =>
      simp only [hterm] at h ⊢
      have hread := DelegationTerm.start_of_read hterm
      have hopen : (term.start.any fun f => decide (t < f)) = false := by
        cases hs : term.start with
        | none => rfl
        | some f =>
            have hf := hstart f (hs ▸ hread)
            simpa using hf
      split at h
      · cases h
      · rename_i hnow
        simp only [Bool.or_eq_true, not_or, Bool.not_eq_true, List.any_eq_false,
          decide_eq_true_iff, not_le] at hnow
        have huntil : (term.untils.any fun u => decide (u ≤ t)) = false := by
          simp only [List.any_eq_false, decide_eq_true_iff, not_le]
          intro u hu
          exact lt_of_le_of_lt hle (hnow.2 u hu)
        simpa [hopen, huntil] using h

theorem delegationEdgeLiveAtOrAfter_anti
    {e : Attestation} {now later : Instant} (hle : now ≤ later)
    (h : delegationEdgeLiveAtOrAfter e later = true) :
    delegationEdgeLiveAtOrAfter e now = true := by
  have hsooner : forall {t t' : Instant}, t ≤ t' ->
      (e.expiresAt.all fun x => decide (t' < x)) = true ->
      (e.expiresAt.all fun x => decide (t < x)) = true := by
    intro t t' htt hall
    simp only [Option.all_eq_true, decide_eq_true_iff] at hall ⊢
    intro x hx
    exact lt_of_le_of_lt htt (hall x hx)
  unfold delegationEdgeLiveAtOrAfter at h ⊢
  cases hstart : readTermInstant e.envelope delegationValidFromField with
  | error field =>
      rw [hstart] at h
      cases h
  | ok start =>
      cases start with
      | none =>
          simp only [hstart, Bool.and_eq_true] at h ⊢
          exact ⟨hsooner hle h.1, delegationTermLiveAt_anti hle (by simp [hstart]) h.2⟩
      | some f =>
          simp only [hstart, Bool.and_eq_true] at h ⊢
          have hprobe : max f now ≤ max f later := max_le_max_left f hle
          refine ⟨hsooner hprobe h.1, delegationTermLiveAt_anti hprobe ?_ h.2⟩
          intro f' hf'
          rw [hstart] at hf'
          cases hf'
          exact le_max_left f now

/-!
## The lens of a walk

The instant a walk asks about, the room it is scoped to and the intervals during
which its root held authority.
-/

def cohortTargetEnvelopeFields : List String :=
  ["community_id", "community_key_id", "cohort_key_id", "family_key_id"]

def envelopeCohortTarget (envelope : Json) : Except String (Option String) :=
  let step (found : Option (String × String)) (field : String) :
      Except String (Option (String × String)) :=
    match (envelope.getStr? field).filter (· ≠ "") with
    | none => .ok found
    | some v =>
        match found with
        | none => .ok (some (field, v))
        | some (firstField, first) =>
            if first = v then
              .ok found
            else
              .error ("cohort target aliases disagree: " ++ firstField ++ "="
                ++ Text.debugStr first ++ " but " ++ field ++ "=" ++ Text.debugStr v
                ++ " — a row names ONE cohort; refusing the split-brain (membership would be proven for one id while consumers key on the other; PR #759 review)")
  (cohortTargetEnvelopeFields.foldlM step none).map fun found => found.map Prod.snd

structure DelegationWalkLens where
  asOf : Option Instant
  communityId : Option String
  rootAuthority : Option (List InstantInterval)
  roleTermSeconds : Option Int

namespace DelegationWalkLens

def default : DelegationWalkLens where
  asOf := none
  communityId := none
  rootAuthority := none
  roleTermSeconds := none

def assertedBy (lens : DelegationWalkLens) (row : Attestation) : Bool :=
  lens.asOf.all fun t => decide (row.assertedAt ≤ t)

def admitsRootEdge (lens : DelegationWalkLens) (edge : Attestation) : Bool :=
  lens.rootAuthority.all fun intervals =>
    intervals.any (InstantInterval.holdsAt edge.assertedAt)

def admitsAt (lens : DelegationWalkLens) (edge : Attestation) (t : Instant) : Bool :=
  decide (edge.assertedAt ≤ t) && edge.expiresAt.all (fun x => decide (t < x)) &&
    delegationTermLiveAt edge t lens.roleTermSeconds

def admitsRoom (edge : Attestation) (room : String) : Bool :=
  match envelopeCohortTarget edge.envelope with
  | .ok none => true
  | .ok (some named) => named == room
  | .error _ => false

def admitsEdge (lens : DelegationWalkLens) (edge : Attestation) : Bool :=
  lens.asOf.all (lens.admitsAt edge) && lens.communityId.all (admitsRoom edge)

end DelegationWalkLens

end Terms

/-!
## The reads of a walk

Both delegation walks read a granter's edges together with its retractions, and
the rows about a recipient that the lens sees.
-/

def maxWithdrawsDelegationDepth : Nat :=
  16

def grantTypes : List AttestationType :=
  [.delegatesTo, .withdraws, .recants]

def granterRows (store : AttestationStore) (key : String) : List Attestation :=
  store.read ((AttestationQuery.byKey key).withTypes grantTypes)

def incomingRows (store : AttestationStore) (lens : DelegationWalkLens) (key : String) :
    List Attestation :=
  (store.read (AttestationQuery.toKey key)).filter lens.assertedBy

def incomingRetracted (store : AttestationStore) (lens : DelegationWalkLens)
    (key : String) : Finset String :=
  retiredIds (incomingRows store lens key)

def granterRetracted (lens : DelegationWalkLens) (rows : List Attestation) :
    Finset String :=
  ((rows.filter fun r => r.isRetraction && lens.assertedBy r).map
    Attestation.attestedKeyId).toFinset

/-- A lens-visible retraction by the granter about the recipient. -/
def TakenBack (store : AttestationStore) (lens : DelegationWalkLens) (e : Attestation) :
    Prop :=
  exists r, r ∈ store.rows ∧ r.tier = .federation ∧
    r.isRetraction = true ∧ lens.assertedBy r = true ∧
    r.attestingKeyId = e.attestingKeyId ∧ r.attestedKeyId = e.attestedKeyId

/-- A lens-visible, entitled retraction that names the edge itself. -/
def RetiredByName (store : AttestationStore) (lens : DelegationWalkLens)
    (e : Attestation) : Prop :=
  lens.assertedBy e = true ∧
    exists g, g ∈ store.rows ∧ g.tier = .federation ∧
      g.isRetraction = true ∧ lens.assertedBy g = true ∧
      g.attestedKeyId = e.attestedKeyId ∧
      referencesAttestationId g = some e.attestationId ∧
      retractionEntitled g e = true

theorem mem_granterRows_iff
    (store : AttestationStore) (key : String) (r : Attestation) :
    r ∈ granterRows store key <->
      r ∈ store.rows ∧ r.attestingKeyId = key ∧ r.tier = .federation ∧
        (r.attestationType = .delegatesTo ∨ r.isRetraction = true) := by
  simp [granterRows, AttestationQuery.admits, AttestationQuery.byKey,
    AttestationQuery.withTypes, grantTypes, Attestation.isRetraction, and_assoc]

theorem mem_incomingRows_iff
    (store : AttestationStore) (lens : DelegationWalkLens) (key : String) (r : Attestation) :
    r ∈ incomingRows store lens key <->
      r ∈ store.rows ∧ r.attestedKeyId = key ∧ r.tier = .federation ∧ lens.assertedBy r = true := by
  simp [incomingRows, AttestationQuery.admits, AttestationQuery.toKey, and_assoc]

theorem incomingRows_distinct
    (store : AttestationStore) (lens : DelegationWalkLens) (key : String) :
    ((incomingRows store lens key).map Attestation.attestationId).Nodup := by
  have hread := store.read_distinct (AttestationQuery.toKey key)
  exact hread.sublist (List.filter_sublist.map _)

variable {e : Attestation}

theorem mem_granterRetracted_iff
    (store : AttestationStore) (lens : DelegationWalkLens) {rows : List Attestation}
    (hrows : forall r, r ∈ rows <-> r ∈ granterRows store e.attestingKeyId) :
    e.attestedKeyId ∈ granterRetracted lens rows <-> TakenBack store lens e := by
  simp only [granterRetracted, List.mem_toFinset, List.mem_map, List.mem_filter, hrows,
    mem_granterRows_iff, Bool.and_eq_true]
  constructor
  · rintro ⟨r, ⟨⟨hr, hby, htier, -⟩, hretracts, hseen⟩, hto⟩
    exact ⟨r, hr, htier, hretracts, hseen, hby, hto⟩
  · rintro ⟨r, hr, htier, hretracts, hseen, hby, hto⟩
    exact ⟨r, ⟨⟨hr, hby, htier, Or.inr hretracts⟩, hretracts, hseen⟩, hto⟩

theorem mem_incomingRetracted_iff
    (store : AttestationStore) (lens : DelegationWalkLens) (hstored : e ∈ store.rows)
    (htier : e.tier = .federation) :
    e.attestationId ∈ incomingRetracted store lens e.attestedKeyId <->
      RetiredByName store lens e := by
  have hrow : forall row, rowById (incomingRows store lens e.attestedKeyId)
      e.attestationId = some row <-> row = e ∧ lens.assertedBy e = true := by
    intro row
    rw [rowById_eq_some_iff (incomingRows_distinct store lens _), mem_incomingRows_iff]
    constructor
    · rintro ⟨⟨hmem, -, -, hseen⟩, hid⟩
      have hsame := store.eq_of_id_eq hmem hstored hid
      subst hsame
      exact ⟨rfl, hseen⟩
    · rintro ⟨rfl, hseen⟩
      exact ⟨⟨hstored, rfl, htier, hseen⟩, rfl⟩
  simp only [incomingRetracted, mem_retiredIds_iff, Retracts, mem_incomingRows_iff, hrow]
  constructor
  · rintro ⟨g, ⟨hg, hto, hgtier, hgseen⟩, hretracts, href, row, ⟨rfl, hseen⟩, hentitled⟩
    exact ⟨hseen, g, hg, hgtier, hretracts, hgseen, hto, href, hentitled⟩
  · rintro ⟨hseen, g, hg, hgtier, hretracts, hgseen, hto, href, hentitled⟩
    exact ⟨g, ⟨hg, hto, hgtier, hgseen⟩, hretracts, href, e, ⟨rfl, hseen⟩, hentitled⟩

/-- The keys a walk can come to: its root and the recipients of rows. -/
def keysFrom (store : AttestationStore) (root : String) : Finset String :=
  insert root (store.rows.map Attestation.attestedKeyId).toFinset

theorem card_keysFrom_le
    (store : AttestationStore) (root : String) :
    (keysFrom store root).card ≤ store.rows.length + 1 := by
  refine Nat.le_trans (Finset.card_insert_le _ _) (Nat.succ_le_succ ?_)
  exact Nat.le_trans (List.toFinset_card_le _) (by simp)

theorem attestedKeyId_mem_keysFrom
    {store : AttestationStore} (h : e ∈ store.rows) (root : String) :
    e.attestedKeyId ∈ keysFrom store root :=
  Finset.mem_insert_of_mem (List.mem_toFinset.mpr (List.mem_map_of_mem h))

def sampleGrant (id granter recipient : String) (seconds : Int) (subDelegation : Bool) :
    Attestation :=
  .ofAuthor id granter recipient .delegatesTo (Instant.ofSeconds seconds)
    [("scope", .str "moderate"), ("sub_delegation", .bool subDelegation)]

end CirisPersist.Federation
