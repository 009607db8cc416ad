import CirisPersist.Federation.Delegation.Edge
import CirisPersist.Library.Sorting
import Mathlib.Data.Rat.Defs

/-!
# Widening an audience

A widening republishes a row at a wider cohort scope.  It is a `supersedes` by the
same attester that reuses the claim: the subjects, the weight, the claim's instant
and the body.  `differs_in` lists the scope and the members that the widening
strips from the body.

The shape rule compares the two envelopes member by member.  A member that a
`differs_in` entry covers passes whatever it holds, and the expiry is not compared
at all.
-/

namespace CirisPersist

/-!
## Stripped values
-/

mutual

/-- The second value is the first with members or elements removed, at any depth. -/
inductive Json.Stripped : Json -> Json -> Prop where
  | refl (v : Json) : Stripped v v
  | arr {xs ys : List Json} : StrippedItems xs ys -> Stripped (.arr xs) (.arr ys)
  | obj {xs ys : List (String × Json)} : StrippedFields xs ys -> Stripped (.obj xs) (.obj ys)

inductive Json.StrippedItems : List Json -> List Json -> Prop where
  | nil : StrippedItems [] []
  | drop {x : Json} {xs ys : List Json} : StrippedItems xs ys -> StrippedItems (x :: xs) ys
  | keep {x y : Json} {xs ys : List Json} :
      Json.Stripped x y -> StrippedItems xs ys -> StrippedItems (x :: xs) (y :: ys)

inductive Json.StrippedFields : List (String × Json) -> List (String × Json) -> Prop where
  | nil : StrippedFields [] []
  | drop {k : String} {x : Json} {xs ys : List (String × Json)} :
      StrippedFields xs ys -> StrippedFields ((k, x) :: xs) ys
  | keep {k : String} {x y : Json} {xs ys : List (String × Json)} :
      Json.Stripped x y -> StrippedFields xs ys -> StrippedFields ((k, x) :: xs) ((k, y) :: ys)

end

mutual

theorem Json.Stripped.trans
    {a b c : Json} (h : Json.Stripped a b) (h' : Json.Stripped b c) :
    Json.Stripped a c := by
  cases h with
  | refl => exact h'
  | arr hitems =>
      cases h' with
      | refl => exact .arr hitems
      | arr hitems' => exact .arr (hitems.trans hitems')
  | obj hfields =>
      cases h' with
      | refl => exact .obj hfields
      | obj hfields' => exact .obj (hfields.trans hfields')

theorem Json.StrippedItems.trans
    {xs ys zs : List Json} (h : Json.StrippedItems xs ys) (h' : Json.StrippedItems ys zs) :
    Json.StrippedItems xs zs := by
  cases h with
  | nil => exact h'
  | drop hrest => exact .drop (hrest.trans h')
  | keep hitem hrest =>
      cases h' with
      | drop hrest' => exact .drop (hrest.trans hrest')
      | keep hitem' hrest' => exact .keep (hitem.trans hitem') (hrest.trans hrest')

theorem Json.StrippedFields.trans
    {xs ys zs : List (String × Json)} (h : Json.StrippedFields xs ys)
    (h' : Json.StrippedFields ys zs) :
    Json.StrippedFields xs zs := by
  cases h with
  | nil => exact h'
  | drop hrest => exact .drop (hrest.trans h')
  | keep hvalue hrest =>
      cases h' with
      | drop hrest' => exact .drop (hrest.trans hrest')
      | keep hvalue' hrest' => exact .keep (hvalue.trans hvalue') (hrest.trans hrest')

end

namespace Federation

/-!
## The rows
-/

/-- The columns of a row that say where it is placed and how much it weighs. -/
structure PlacedAttestation extends Attestation where
  cohortScope : String
  weight : Option Rat

def cohortScopes : List String :=
  ["self", "family", "community", "affiliations", "species", "biosphere", "federation"]

def scopeRank (s : String) : Option Nat :=
  cohortScopes.findIdx? (· == s)

def isPlacementMember (member : String) : Bool :=
  ["row", "expires_at", "references_attestation_id"].contains member ||
    member == "differs_in" || member == "widened_at" ||
    cohortTargetEnvelopeFields.contains member

def wideningProtectedMembers : List String :=
  ["dimension", "trace_id", "row", "asserted_at", "expires_at", "references_attestation_id",
    "differs_in", "delegation_purpose"]

def differsInCovers (entry member : String) : Bool :=
  let e := (Text.stripPrefix "/" entry).getD entry
  e == member || (Text.stripPrefix member e).any (Text.startsWith "/")

/-!
## The shape rule
-/

inductive WideningFault where
  | priorIsLocalTier
  | notSupersedes (found : AttestationType)
  | notFederationTier
  | priorNotReferenced
  | differsInNotStrings
  | differsInNotArray
  | cohortScopeNotListed
  | protectedMember (entry : String)
  | reDated (prior signed : Option String)
  | noWidenedAt
  | widenedAtUnreadable
  | widenedBeforeClaim (widenedAt assertedAt : Instant)
  | envelopeNotObject
deriving DecidableEq

inductive WideningError where
  | malformed (priorAttestationId : String) (reason : WideningFault)
  | custodyIsNotTheActor (attestationId attestingKeyId scrubKeyId : String)
  | audienceNotWider (priorAttestationId prior requested : String)
  | reAuthors (priorAttestationId member : String)
deriving DecidableEq

def checkStrictlyWider (prior : PlacedAttestation) (requested : String) :
    Except WideningError Unit :=
  match scopeRank prior.cohortScope, scopeRank requested with
  | some i, some j =>
      Checks.require (i < j) (.audienceNotWider prior.attestationId prior.cohortScope requested)
  | _, _ => .error (.audienceNotWider prior.attestationId prior.cohortScope requested)

def differsIn (envelope : Json) : List String :=
  (((envelope.get? "differs_in").bind Json.asArray).getD []).filterMap Json.asStr

def declared (entries : List String) (member : String) : Bool :=
  entries.any fun entry => differsInCovers entry member

/-- A member of the prior body: unchanged and not declared, or declared. -/
def memberReused (entries : List String) (newFields : List (String × Json)) (member : String)
    (value : Json) : Bool :=
  match newFields.lookup member with
  | some new => (decide (new = value) && !declared entries member) || declared entries member
  | none => declared entries member

open Checks in
def checkWidening [External] (prior signed : PlacedAttestation) :
    Except WideningError Unit := do
  let malformed := WideningError.malformed prior.attestationId
  let reAuthors := WideningError.reAuthors prior.attestationId
  require (prior.tier == .federation) (malformed .priorIsLocalTier)
  require (signed.attestationType == .supersedes)
    (malformed (.notSupersedes signed.attestationType))
  require (signed.tier == .federation) (malformed .notFederationTier)
  require (signed.attestingKeyId == prior.attestingKeyId)
    (.custodyIsNotTheActor signed.attestationId prior.attestingKeyId signed.attestingKeyId)
  require (signed.envelope.getStr? "references_attestation_id" == some prior.attestationId)
    (malformed .priorNotReferenced)
  let items ← orRefuse ((signed.envelope.get? "differs_in").bind Json.asArray)
    (malformed .differsInNotArray)
  require (items.all fun v => v.asStr.isSome) (malformed .differsInNotStrings)
  let entries := differsIn signed.envelope
  require (entries.contains "cohort_scope") (malformed .cohortScopeNotListed)
  refuseAny
    (entries.find? fun entry => wideningProtectedMembers.any fun m => differsInCovers entry m)
    fun entry => malformed (.protectedMember entry)
  checkStrictlyWider prior signed.cohortScope
  let priorInstant := prior.envelope.getStr? "asserted_at"
  let signedInstant := signed.envelope.getStr? "asserted_at"
  require (signedInstant == priorInstant) (malformed (.reDated priorInstant signedInstant))
  let text ← orRefuse (signed.envelope.getStr? "widened_at") (malformed .noWidenedAt)
  let widenedAt ← orRefuse (External.parseRfc3339 text) (malformed .widenedAtUnreadable)
  require (prior.assertedAt ≤ widenedAt)
    (malformed (.widenedBeforeClaim widenedAt prior.assertedAt))
  require (signed.attestedKeyId == prior.attestedKeyId) (reAuthors "attested_key_id")
  require (Sorting.sortDedup signed.subjectKeyIds == Sorting.sortDedup prior.subjectKeyIds)
    (reAuthors "subject_key_ids")
  require (signed.weight == prior.weight) (reAuthors "weight")
  let priorFields ← orRefuse prior.envelope.asObject (malformed .envelopeNotObject)
  let newFields ← orRefuse signed.envelope.asObject (malformed .envelopeNotObject)
  checkAll (fun (member, value) =>
      require (isPlacementMember member || memberReused entries newFields member value)
        (reAuthors member)) priorFields
  checkAll (fun member =>
      require (isPlacementMember member || (priorFields.lookup member).isSome)
        (reAuthors member)) (newFields.map Prod.fst)

/-!
## What an accepted widening satisfies
-/

def StrictlyWider (prior signed : PlacedAttestation) : Prop :=
  exists i j, scopeRank prior.cohortScope = some i ∧ scopeRank signed.cohortScope = some j ∧ i < j

theorem checkStrictlyWider_eq_ok_iff
    {prior signed : PlacedAttestation} {u : Unit} :
    checkStrictlyWider prior signed.cohortScope = .ok u <-> StrictlyWider prior signed := by
  unfold checkStrictlyWider StrictlyWider
  cases scopeRank prior.cohortScope with
  | none => simp
  | some i =>
      cases scopeRank signed.cohortScope with
      | none => simp
      | some j => simp [Checks.require_eq_ok_iff]

/-- The checks that an accepted widening passed, as far as they compare the claims. -/
structure WideningChecks (prior signed : PlacedAttestation)
    (priorFields newFields : List (String × Json)) : Prop where
  attester : signed.attestingKeyId = prior.attestingKeyId
  unprotected : forall entry, entry ∈ differsIn signed.envelope ->
    forall m, m ∈ wideningProtectedMembers -> differsInCovers entry m = false
  wider : StrictlyWider prior signed
  attested : signed.attestedKeyId = prior.attestedKeyId
  subjects : Sorting.sortDedup signed.subjectKeyIds = Sorting.sortDedup prior.subjectKeyIds
  weight : signed.weight = prior.weight
  priorObject : prior.envelope = .obj priorFields
  newObject : signed.envelope = .obj newFields
  reused : forall p, p ∈ priorFields -> isPlacementMember p.1 = true ∨
    memberReused (differsIn signed.envelope) newFields p.1 p.2 = true
  held : forall member, member ∈ newFields.map Prod.fst -> isPlacementMember member = true ∨
    (priorFields.lookup member).isSome = true

theorem asObject_eq_some_iff
    {v : Json} {fields : List (String × Json)} :
    v.asObject = some fields <-> v = .obj fields := by
  cases v <;> simp [Json.asObject]

theorem wideningChecks_of_ok
    [External] {prior signed : PlacedAttestation} (h : checkWidening prior signed = .ok ()) :
    exists priorFields newFields, WideningChecks prior signed priorFields newFields := by
  simp only [checkWidening, Checks.bind_eq_ok_iff, Checks.require_eq_ok_iff,
    Checks.orRefuse_eq_ok_iff, Checks.refuseAny_eq_ok_iff, Checks.checkAll_eq_ok_iff,
    checkStrictlyWider_eq_ok_iff, asObject_eq_some_iff] at h
  rcases h with ⟨-, -, -, -, -, -, -, hattester, -, -, items, -, -, -, -, -, -, hprotected, -,
    hwider, -, -, text, -, widenedAt, -, -, -, -, hattested, -, hsubjects, -, hweight,
    priorFields, hprior, newFields, hnew, -, hreused, hheld⟩
  refine ⟨priorFields, newFields, ?_⟩
  exact {
    attester := eq_of_beq hattester
    unprotected := by
      intro entry hentry m hm
      have hnone := List.find?_eq_none.mp hprotected entry hentry
      rw [List.any_eq_true] at hnone
      exact Bool.eq_false_iff.mpr fun hcovers => hnone ⟨m, hm, hcovers⟩
    wider := hwider
    attested := eq_of_beq hattested
    subjects := eq_of_beq hsubjects
    weight := eq_of_beq hweight
    priorObject := hprior
    newObject := hnew
    reused := fun p hp => Bool.or_eq_true_iff.mp (hreused p hp)
    held := fun member hmember => Bool.or_eq_true_iff.mp (hheld member hmember) }

theorem mem_of_lookup
    {fields : List (String × Json)} {member : String} {value : Json}
    (h : fields.lookup member = some value) :
    (member, value) ∈ fields := by
  rcases List.lookup_eq_some_iff.mp h with ⟨before, after, rfl, -⟩
  exact List.mem_append_right _ List.mem_cons_self

namespace WideningChecks

variable {prior signed : PlacedAttestation} {priorFields newFields : List (String × Json)}
  {member : String} {value : Json}

theorem member_of_new
    (h : WideningChecks prior signed priorFields newFields)
    (hbody : isPlacementMember member = false) (hnew : signed.envelope.get? member = some value) :
    exists old, prior.envelope.get? member = some old ∧
      (value = old ∨ declared (differsIn signed.envelope) member = true) := by
  rw [h.newObject] at hnew
  rw [h.priorObject]
  have hmem : member ∈ newFields.map Prod.fst := List.mem_map.mpr ⟨_, mem_of_lookup hnew, rfl⟩
  rcases h.held member hmem with hplacement | hold
  · rw [hbody] at hplacement
    cases hplacement
  rcases Option.isSome_iff_exists.mp hold with ⟨old, hold⟩
  refine ⟨old, hold, ?_⟩
  rcases h.reused (member, old) (mem_of_lookup hold) with hplacement | hreused
  · rw [hbody] at hplacement
    cases hplacement
  have hlookup : newFields.lookup member = some value := hnew
  simp only [memberReused, hlookup, Bool.or_eq_true, Bool.and_eq_true, decide_eq_true_iff]
    at hreused
  exact hreused.imp_left fun hsame => hsame.1

theorem instant_eq
    (h : WideningChecks prior signed priorFields newFields) :
    signed.envelope.get? "asserted_at" = prior.envelope.get? "asserted_at" := by
  have hbody : isPlacementMember "asserted_at" = false := by
    decide
  have hundeclared : declared (differsIn signed.envelope) "asserted_at" = false := by
    rw [declared, List.any_eq_false]
    intro entry hentry
    rw [h.unprotected entry hentry "asserted_at" (by decide)]
    exact Bool.false_ne_true
  cases hnew : signed.envelope.get? "asserted_at" with
  | some value =>
      rcases h.member_of_new hbody hnew with ⟨old, hold, hsame | hdeclared⟩
      · rw [hold, hsame]
      · rw [hundeclared] at hdeclared
        cases hdeclared
  | none =>
      cases hold : prior.envelope.get? "asserted_at" with
      | none => rfl
      | some old =>
          rw [h.newObject] at hnew
          rw [h.priorObject] at hold
          have hlookup : newFields.lookup "asserted_at" = none := hnew
          rcases h.reused _ (mem_of_lookup hold) with hplacement | hreused
          · rw [hbody] at hplacement
            cases hplacement
          · simp only [memberReused, hlookup, hundeclared] at hreused
            cases hreused

end WideningChecks

/-!
## Re-authoring
-/

/-- The claim is the prior one, at a wider audience and with no more in its body. -/
structure ReusesClaim (prior signed : PlacedAttestation) : Prop where
  attester : signed.attestingKeyId = prior.attestingKeyId
  attested : signed.attestedKeyId = prior.attestedKeyId
  subjects : forall k, k ∈ signed.subjectKeyIds <-> k ∈ prior.subjectKeyIds
  weight : signed.weight = prior.weight
  instant : signed.envelope.get? "asserted_at" = prior.envelope.get? "asserted_at"
  wider : StrictlyWider prior signed
  expiry : signed.envelope.get? "expires_at" = prior.envelope.get? "expires_at"
  body : forall member value, isPlacementMember member = false ->
    signed.envelope.get? member = some value ->
    exists old, prior.envelope.get? member = some old ∧ Json.Stripped old value

/-- The expiry is unchanged, and a declared member that is still there is stripped. -/
structure DeclaresStrips (prior signed : PlacedAttestation) : Prop where
  expiry : signed.envelope.get? "expires_at" = prior.envelope.get? "expires_at"
  strips : forall member old value, isPlacementMember member = false ->
    declared (differsIn signed.envelope) member = true ->
    prior.envelope.get? member = some old -> signed.envelope.get? member = some value ->
    Json.Stripped old value

theorem WideningChecks.reusesClaim
    {prior signed : PlacedAttestation} {priorFields newFields : List (String × Json)}
    (h : WideningChecks prior signed priorFields newFields)
    (hdeclares : DeclaresStrips prior signed) :
    ReusesClaim prior signed where
  attester := h.attester
  attested := h.attested
  subjects := by
    intro k
    rw [← Sorting.mem_sortDedup_iff, h.subjects, Sorting.mem_sortDedup_iff]
  weight := h.weight
  instant := h.instant_eq
  wider := h.wider
  expiry := hdeclares.expiry
  body := by
    intro member value hbody hnew
    rcases h.member_of_new hbody hnew with ⟨old, hold, hsame | hdeclared⟩
    · exact ⟨old, hold, hsame ▸ Json.Stripped.refl value⟩
    · exact ⟨old, hold, hdeclares.strips member old value hbody hdeclared hold hnew⟩

/-- An accepted widening reuses the claim exactly when `differs_in` covers nothing that
is replaced and the expiry is left alone. -/
theorem widening_reuses_claim_iff
    [External] (prior signed : PlacedAttestation)
    (h : checkWidening prior signed = .ok ()) :
    ReusesClaim prior signed <-> DeclaresStrips prior signed := by
  rcases wideningChecks_of_ok h with ⟨priorFields, newFields, hchecks⟩
  constructor
  · intro hreuses
    refine ⟨hreuses.expiry, ?_⟩
    intro member old value hbody _ hold hnew
    rcases hreuses.body member value hbody hnew with ⟨old', hold', hstripped⟩
    rw [hold, Option.some.injEq] at hold'
    rw [hold']
    exact hstripped
  · exact hchecks.reusesClaim

/-!
## Widening again and again
-/

/-- What no widening changes.  The body and the expiry are not among it. -/
structure SameAuthorship (origin row : PlacedAttestation) : Prop where
  attester : row.attestingKeyId = origin.attestingKeyId
  attested : row.attestedKeyId = origin.attestedKeyId
  subjects : Sorting.sortDedup row.subjectKeyIds = Sorting.sortDedup origin.subjectKeyIds
  weight : row.weight = origin.weight
  instant : row.envelope.get? "asserted_at" = origin.envelope.get? "asserted_at"

instance : Trans SameAuthorship SameAuthorship SameAuthorship where
  trans h h' := ⟨h'.attester.trans h.attester, h'.attested.trans h.attested,
    h'.subjects.trans h.subjects, h'.weight.trans h.weight, h'.instant.trans h.instant⟩

theorem ReusesClaim.trans
    {origin prior signed : PlacedAttestation} (h : ReusesClaim origin prior)
    (h' : ReusesClaim prior signed) :
    ReusesClaim origin signed where
  attester := h'.attester.trans h.attester
  attested := h'.attested.trans h.attested
  subjects k := (h'.subjects k).trans (h.subjects k)
  weight := h'.weight.trans h.weight
  instant := h'.instant.trans h.instant
  wider := by
    rcases h.wider with ⟨i, j, hi, hj, hij⟩
    rcases h'.wider with ⟨j', k, hj', hk, hjk⟩
    cases hj.symm.trans hj'
    exact ⟨i, k, hi, hk, hij.trans hjk⟩
  expiry := h'.expiry.trans h.expiry
  body := by
    intro member value hbody hnew
    rcases h'.body member value hbody hnew with ⟨mid, hmid, hstripped'⟩
    rcases h.body member mid hbody hmid with ⟨old, hold, hstripped⟩
    exact ⟨old, hold, hstripped.trans hstripped'⟩

instance : Trans ReusesClaim ReusesClaim ReusesClaim where
  trans := ReusesClaim.trans

def Widenings [External] : List PlacedAttestation -> Prop :=
  List.IsChain fun prior signed => checkWidening prior signed = .ok ()

theorem Widenings.rank_add_length_lt
    [External] {rows : List PlacedAttestation} {origin : PlacedAttestation} {i : Nat}
    (hchain : Widenings (origin :: rows)) (hrank : scopeRank origin.cohortScope = some i) :
    i + rows.length < cohortScopes.length := by
  induction rows generalizing origin i with
  | nil => exact (List.findIdx?_eq_some_iff_findIdx_eq.mp hrank).1
  | cons row rows ih =>
      rcases List.isChain_cons_cons.mp hchain with ⟨hrow, hrest⟩
      rcases wideningChecks_of_ok hrow with ⟨_, _, hchecks⟩
      rcases hchecks.wider with ⟨i', j, hi, hj, hlt⟩
      have hsame : i' = i := Option.some.inj (hi.symm.trans hrank)
      have hbound := ih hrest hj
      rw [List.length_cons]
      omega

theorem Widenings.reusesClaim
    [External] {rows : List PlacedAttestation} {origin : PlacedAttestation}
    (h : Widenings (origin :: rows)) (hstrips : List.IsChain DeclaresStrips (origin :: rows)) :
    List.IsChain ReusesClaim (origin :: rows) := by
  induction rows generalizing origin with
  | nil => exact .singleton _
  | cons row rows ih =>
      rcases List.isChain_cons_cons.mp h with ⟨hrow, hrest⟩
      rcases List.isChain_cons_cons.mp hstrips with ⟨hstep, hsteps⟩
      rcases wideningChecks_of_ok hrow with ⟨_, _, hchecks⟩
      exact .cons_cons (hchecks.reusesClaim hstep) (ih hrest hsteps)

/-- However often a row is widened, its authorship stays the first one's, and the audience has
no room for a seventh step.  Where every step only strips, each row still makes the first
claim: nothing in its body was added or replaced since. -/
theorem widenings_keep_claim
    [External] (origin : PlacedAttestation) (rows : List PlacedAttestation)
    (h : Widenings (origin :: rows)) :
    rows.length < cohortScopes.length ∧
      (forall row, row ∈ rows -> SameAuthorship origin row) ∧
      (List.IsChain DeclaresStrips (origin :: rows) ->
        forall row, row ∈ rows -> ReusesClaim origin row) := by
  refine ⟨?_, ?_, ?_⟩
  · cases hrows : rows with
    | nil => decide
    | cons row rest =>
        rw [hrows] at h
        rcases wideningChecks_of_ok (List.isChain_cons_cons.mp h).1 with ⟨_, _, hchecks⟩
        rcases hchecks.wider with ⟨i, j, hi, -, -⟩
        exact lt_of_le_of_lt (Nat.le_add_left _ i) (h.rank_add_length_lt hi)
  · have hclaims : List.IsChain SameAuthorship (origin :: rows) := by
      refine h.imp ?_
      intro prior signed hok
      rcases wideningChecks_of_ok hok with ⟨_, _, hchecks⟩
      exact ⟨hchecks.attester, hchecks.attested, hchecks.subjects, hchecks.weight,
        hchecks.instant_eq⟩
    intro row hrow
    exact List.rel_of_pairwise_cons hclaims.pairwise hrow
  · intro hstrips row hrow
    exact List.rel_of_pairwise_cons (h.reusesClaim hstrips).pairwise hrow

/-!
## A widened score
-/

section Samples

local instance wideningDate : External where
  parseRfc3339 := fun text =>
    if text = "2026-01-01T00:00:00Z" then some (Instant.ofSeconds 1767225600) else none
  strictMajority := fun n => n / 2 + 1
  minUtc := 0
  maxUtc := 0

def scoredRow : PlacedAttestation where
  toAttestation :=
    { Attestation.ofAuthor "score" "alice" "bob" .scores 0
        [("expires_at", .str "2027-01-01T00:00:00Z"),
          ("score", .obj [("note", .str "seen twice"), ("value", .num (.int 3))])] with
      scrub := ⟨"alice", "sig", none⟩
      subjectKeyIds := ["bob"] }
  cohortScope := "self"
  weight := none

def widenedRow (id prior scope : String) (entries : List Json) (expiry : String)
    (score : Json) : PlacedAttestation :=
  { scoredRow with
    attestationId := id
    attestationType := .supersedes
    cohortScope := scope
    envelope := .obj [("differs_in", .arr entries), ("expires_at", .str expiry),
      ("references_attestation_id", .str prior), ("score", score),
      ("widened_at", .str "2026-01-01T00:00:00Z")] }

def widenedScore (expiry : String) (score : Json) : PlacedAttestation :=
  widenedRow "widened" "score" "community" [.str "cohort_scope", .str "/score/note"] expiry score

def bareScore : Json :=
  .obj [("value", .num (.int 3))]

theorem widenedRow_body
    {id prior scope expiry member : String} {entries : List Json} {score value : Json}
    (hbody : isPlacementMember member = false)
    (hnew : (widenedRow id prior scope entries expiry score).envelope.get? member = some value) :
    member = "score" ∧ value = score := by
  have hmem := mem_of_lookup hnew
  simp only [List.mem_cons, List.not_mem_nil, or_false, Prod.mk.injEq] at hmem
  rcases hmem with ⟨rfl, -⟩ | ⟨rfl, -⟩ | ⟨rfl, -⟩ | ⟨rfl, hvalue⟩ | ⟨rfl, -⟩
  · cases hbody
  · cases hbody
  · cases hbody
  · exact ⟨rfl, hvalue⟩
  · cases hbody

theorem note_stripped :
    DeclaresStrips scoredRow (widenedScore "2027-01-01T00:00:00Z" bareScore) := by
  refine ⟨rfl, ?_⟩
  intro member old value hbody _ hold hnew
  rcases widenedRow_body hbody hnew with ⟨rfl, rfl⟩
  cases hold
  exact .obj (.drop (.keep (.refl _) .nil))

theorem note_stripped_reuses_claim :
    checkWidening scoredRow (widenedScore "2027-01-01T00:00:00Z" bareScore) = .ok () ∧
      ReusesClaim scoredRow (widenedScore "2027-01-01T00:00:00Z" bareScore) := by
  have hchecked : checkWidening scoredRow (widenedScore "2027-01-01T00:00:00Z" bareScore) =
      .ok () := by
    rfl
  exact ⟨hchecked, (widening_reuses_claim_iff _ _ hchecked).mpr note_stripped⟩

def widenedAgain : PlacedAttestation :=
  widenedRow "again" "widened" "federation" [.str "cohort_scope"] "2027-01-01T00:00:00Z" bareScore

theorem widenedScore_keeps_claim :
    Widenings [scoredRow, widenedScore "2027-01-01T00:00:00Z" bareScore, widenedAgain] ∧
      ReusesClaim scoredRow widenedAgain := by
  have hchain : Widenings [scoredRow, widenedScore "2027-01-01T00:00:00Z" bareScore,
      widenedAgain] :=
    .cons_cons rfl (.cons_cons rfl (.singleton _))
  have hagain : DeclaresStrips (widenedScore "2027-01-01T00:00:00Z" bareScore) widenedAgain := by
    refine ⟨rfl, ?_⟩
    intro member old value hbody hdeclared _ hnew
    rcases widenedRow_body hbody hnew with ⟨rfl, -⟩
    exact absurd hdeclared (by decide)
  refine ⟨hchain, (widenings_keep_claim _ _ hchain).2.2 ?_ _
    (List.mem_cons_of_mem _ List.mem_cons_self)⟩
  exact .cons_cons note_stripped (.cons_cons hagain (.singleton _))

/-- The path inside the score lets the whole score be replaced, and the expiry is not
compared. -/
theorem score_replaced_passes :
    (checkWidening scoredRow (widenedScore "2027-01-01T00:00:00Z" (.str "excellent")) = .ok () ∧
      Not (ReusesClaim scoredRow (widenedScore "2027-01-01T00:00:00Z" (.str "excellent")))) ∧
    (checkWidening scoredRow (widenedScore "2099-01-01T00:00:00Z" bareScore) = .ok () ∧
      Not (ReusesClaim scoredRow (widenedScore "2099-01-01T00:00:00Z" bareScore))) := by
  refine ⟨⟨by rfl, fun h => ?_⟩, by rfl, fun h => ?_⟩
  · rcases h.body "score" (.str "excellent") (by decide) (by rfl) with ⟨old, hold, hstripped⟩
    have hscore : scoredRow.envelope.get? "score" =
        some (.obj [("note", .str "seen twice"), ("value", .num (.int 3))]) := by
      rfl
    rw [hscore, Option.some.injEq] at hold
    subst hold
    cases hstripped
  · have hexpiry := h.expiry
    revert hexpiry
    decide

end Samples

end Federation
end CirisPersist
