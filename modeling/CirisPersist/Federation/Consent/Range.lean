import CirisPersist.Federation.Consent.Governing

/-!
# Dates out of range

A retention window is added to the instant at which its row was asserted.  The sum panics
when it leaves the range of dates.  The door admits every window that parses, and a window
parses as long as its milliseconds fit a machine integer, which reaches far past the last
date.  This module reads the consent fold with its date arithmetic and says when it returns.
-/

namespace CirisPersist.Federation

open Checks

/-!
## The door
-/

structure ConsentScopeTokenInvalid where
  token : String
  reason : ScopeTokenError
deriving DecidableEq

def ConsentScopeTokenInvalid.message (e : ConsentScopeTokenInvalid) : String :=
  "consent scope token `" ++ e.token ++ "` refused: " ++ e.reason.message

def scopeMemberTokens (envelope : Json) : List String :=
  match envelope.get? "scope" with
  | some (.str s) => if s = "" then [] else [s]
  | some (.arr items) => (items.filterMap Json.asStr).filter (· ≠ "")
  | _ => []

/-- Every token that a statement names must parse; other rows pass untouched. -/
def checkConsentScopeTokens (envelope : Json) : Except ConsentScopeTokenInvalid Unit :=
  if !(envelope.getStr? "dimension").any (Text.startsWith ConsentDimension.statePrefix) then
    .ok ()
  else
    checkAll (fun token => ((parseScopeToken token).mapError fun e => ⟨token, e⟩).map fun _ => ())
      (scopeMemberTokens envelope)

/-!
## The fold with its date arithmetic
-/

inductive Panic where
  | dateTimeOverflow
deriving DecidableEq

section Arithmetic

variable [External]

def addDuration (t : Instant) (d : Int) : Except Panic Instant :=
  if External.minUtc ≤ t + d ∧ t + d ≤ External.maxUtc then
    .ok (t + d)
  else
    .error .dateTimeOverflow

def retainUntilChecked (grant : ScopeToken) (assertedAt : Instant) :
    Except Panic (Option Instant) :=
  match grant.sub with
  | .window w =>
      if grant.kind = TransmissionPrinciple.retain then
        (addDuration assertedAt w).map some
      else
        .ok none
  | _ => .ok none

def grantLapseInstantChecked (a : Attestation) : Except Panic (Option Instant) := do
  let ends ← readAll (fun t => retainUntilChecked t a.assertedAt) (scopeTokens a)
  .ok (match a.expiresAt, (ends.filterMap id).min? with
    | some e, some w => some (min e w)
    | some e, none => some e
    | none, w => w)

def isLapsedGrantChecked (subject grantId : String) (assertedAt : Instant) (g : Attestation) :
    Except Panic Bool :=
  if g.attestationId == grantId && g.attestingKeyId == subject &&
      g.hasDimensionStem ConsentDimension.stateGrantedPrefix then
    (grantLapseInstantChecked g).map fun lapse => lapse.any fun l => decide (l ≤ assertedAt)
  else
    .ok false

def substrateExpiryBoundToSubjectChecked (a : Attestation) (rows : List Attestation)
    (subject : String) : Except Panic Bool :=
  if !a.hasDimensionStem ConsentDimension.stateExpiredPrefix then
    .ok false
  else
    match causalEdge a with
    | .names grantId =>
        anyChecked (isLapsedGrantChecked subject grantId a.assertedAt) rows
    | _ => .ok false

namespace ConsentQuery

def inUniverseChecked (q : ConsentQuery) (rows : List Attestation) (a : Attestation) :
    Except Panic Bool :=
  if !a.hasDimensionStem ConsentDimension.statePrefix then
    .ok false
  else if a.attestingKeyId == q.subject then
    .ok true
  else
    substrateExpiryBoundToSubjectChecked a rows q.subject

def retentionEndChecked (w : Attestation) (scope : String) (qualifier : Option String) :
    Except Panic (Option Instant) :=
  match coveringToken w scope qualifier with
  | some t => retainUntilChecked t w.assertedAt
  | none => .ok none

/-- `fold_scoped_stance`.  The fold adds to dates where it selects its statements and where it
reads the window of the winner; between the two it only compares. -/
def foldScopedStanceChecked (rows : List Attestation) (subject : String) (now : Instant)
    (scope : String) (qualifier : Option String) : Except Panic ScopedStance := do
  let q : ConsentQuery := ⟨subject, now, some (scope, qualifier)⟩
  let _ ← filterChecked (q.inUniverseChecked rows) rows
  let (state, winner) := q.foldWinner rows
  let ending ← match winner with
    | some w => retentionEndChecked w scope qualifier
    | none => .ok none
  let state := if state = .granted ∧ ending.any (fun e => decide (e ≤ now)) then
      .expired
    else
      state
  .ok ⟨state, ending⟩

end ConsentQuery

end Arithmetic

/-!
## Windows are positive
-/

theorem retainUntil_lt
    {a : Attestation} {t : ScopeToken} (ht : t ∈ scopeTokens a) {e : Instant}
    (he : retainUntil t a.assertedAt = some e) :
    a.assertedAt < e := by
  rcases (mem_scopeTokens_iff a t).mp ht with ⟨name, -, hparse⟩
  cases shaped_of_parseScopeToken hparse with
  | window hkind hpos =>
      simp only [retainUntil, hkind, if_true, Option.some.injEq] at he
      rw [← he]
      exact Int.lt_add_of_pos_right _ hpos
  | _ => cases he

/-!
## When the fold returns
-/

section Returns

variable [External]

/-- Every retention window of the row ends within the range of dates. -/
def WindowsFit (a : Attestation) : Prop :=
  forall t e, t ∈ scopeTokens a -> retainUntil t a.assertedAt = some e -> e ≤ External.maxUtc

theorem retainUntilChecked_of_range
    {token : ScopeToken} {t : Instant}
    (h : forall e, retainUntil token t = some e -> External.minUtc ≤ e ∧ e ≤ External.maxUtc) :
    retainUntilChecked token t = .ok (retainUntil token t) := by
  rcases token with ⟨kind, sub⟩
  cases sub with
  | window w =>
      by_cases hkind : kind = TransmissionPrinciple.retain
      · have hrange := h (t + w) (by simp [retainUntil, hkind])
        simp [retainUntilChecked, retainUntil, hkind, addDuration, hrange, Except.map]
      · simp [retainUntilChecked, retainUntil, hkind]
  | _ => rfl

theorem range_of_retainUntilChecked
    {token : ScopeToken} {t : Instant} {r : Option Instant}
    (h : retainUntilChecked token t = .ok r) {e : Instant}
    (he : retainUntil token t = some e) :
    e ≤ External.maxUtc := by
  rcases token with ⟨kind, sub⟩
  cases sub with
  | window w =>
      by_cases hkind : kind = TransmissionPrinciple.retain
      · simp only [retainUntil, hkind, if_true, Option.some.injEq] at he
        simp only [retainUntilChecked, hkind, if_true, addDuration] at h
        split at h
        · rename_i hrange
          exact he ▸ hrange.2
        · cases h
      · simp [retainUntil, hkind] at he
  | _ => cases he

variable {a : Attestation} {rows : List Attestation}

/-- The row was asserted at a date, and its windows end at dates. -/
structure InRange (a : Attestation) : Prop where
  asserted : External.minUtc ≤ a.assertedAt
  fits : WindowsFit a

theorem InRange.retainUntilChecked_eq
    (h : InRange a) {t : ScopeToken} (ht : t ∈ scopeTokens a) :
    retainUntilChecked t a.assertedAt = .ok (retainUntil t a.assertedAt) := by
  refine retainUntilChecked_of_range fun e he => ⟨?_, h.fits t e ht he⟩
  exact le_of_lt (lt_of_le_of_lt h.asserted (retainUntil_lt ht he))

theorem InRange.grantLapseInstantChecked_eq
    (h : InRange a) :
    grantLapseInstantChecked a = .ok (grantLapseInstant a) := by
  have hends : readAll (fun t => retainUntilChecked t a.assertedAt) (scopeTokens a) =
      .ok ((scopeTokens a).map fun t => retainUntil t a.assertedAt) :=
    readAll_eq_map fun t ht => h.retainUntilChecked_eq ht
  refine bind_eq_ok_iff.mpr ⟨_, hends, ?_⟩
  rw [List.filterMap_map]
  rfl

theorem InRange.of_grantLapseInstantChecked
    (hasserted : External.minUtc ≤ a.assertedAt) {lapse : Option Instant}
    (h : grantLapseInstantChecked a = .ok lapse) :
    InRange a := by
  rcases bind_eq_ok_iff.mp h with ⟨ends, hends, -⟩
  refine ⟨hasserted, ?_⟩
  intro t e ht he
  rcases List.forall₂_iff_get.mp (readAll_eq_ok_iff.mp hends) with ⟨hlength, hget⟩
  rcases List.mem_iff_get.mp ht with ⟨i, hi⟩
  have hread := hget i i.isLt (hlength ▸ i.isLt)
  have hi' : (scopeTokens a).get ⟨i, i.isLt⟩ = t := hi
  rw [hi'] at hread
  exact range_of_retainUntilChecked hread he

theorem InRange.isLapsedGrantChecked_eq
    (h : InRange a) (subject grantId : String) (t : Instant) :
    isLapsedGrantChecked subject grantId t a = .ok (isLapsedGrant subject grantId t a) := by
  unfold isLapsedGrantChecked isLapsedGrant
  rw [h.grantLapseInstantChecked_eq]
  split
  · rename_i hgrant
    rw [hgrant, Bool.true_and]
    rfl
  · rename_i hgrant
    rw [Bool.eq_false_iff.mpr hgrant, Bool.false_and]

theorem substrateExpiryChecked_eq
    (hrows : forall g, g ∈ rows -> InRange g) (a : Attestation) (subject : String) :
    substrateExpiryBoundToSubjectChecked a rows subject =
      .ok (substrateExpiryBoundToSubject a rows subject) := by
  unfold substrateExpiryBoundToSubjectChecked substrateExpiryBoundToSubject
  split
  · rfl
  · cases causalEdge a with
    | absent => rfl
    | unusable => rfl
    | names grantId =>
        exact anyChecked_eq_any fun g hg =>
          (hrows g hg).isLapsedGrantChecked_eq subject grantId a.assertedAt

namespace ConsentQuery

theorem inUniverseChecked_eq
    (hrows : forall g, g ∈ rows -> InRange g) (q : ConsentQuery) (a : Attestation) :
    q.inUniverseChecked rows a = .ok (q.inUniverse rows a) := by
  unfold inUniverseChecked inUniverse
  rw [substrateExpiryChecked_eq hrows]
  cases a.hasDimensionStem ConsentDimension.statePrefix with
  | false => rfl
  | true =>
      cases a.attestingKeyId == q.subject with
      | true => rfl
      | false => rfl

theorem retentionEndChecked_eq
    (h : InRange a) (scope : String) (qualifier : Option String) :
    retentionEndChecked a scope qualifier =
      .ok ((coveringToken a scope qualifier).bind fun t => retainUntil t a.assertedAt) := by
  unfold retentionEndChecked
  cases htoken : coveringToken a scope qualifier with
  | none => rfl
  | some t =>
      rcases coveringToken_cases htoken with ⟨-, rfl⟩ | ⟨hmem, -⟩
      · rfl
      · exact h.retainUntilChecked_eq hmem

theorem foldScopedStanceChecked_eq
    (hrows : forall g, g ∈ rows -> InRange g) (subject : String) (now : Instant) (scope : String)
    (qualifier : Option String) :
    foldScopedStanceChecked rows subject now scope qualifier =
      .ok ((⟨subject, now, some (scope, qualifier)⟩ : ConsentQuery).foldScopedStanceWithWinner
        rows scope qualifier).1 := by
  refine bind_eq_ok_iff.mpr
    ⟨_, filterChecked_eq_filter fun a _ => inUniverseChecked_eq hrows _ a, ?_⟩
  unfold foldScopedStanceWithWinner
  rcases hfold : ConsentQuery.foldWinner ⟨subject, now, some (scope, qualifier)⟩ rows with
    ⟨state, winner⟩
  cases winner with
  | none => rfl
  | some w =>
      have hcandidate := foldWinner_mem_candidates (congrArg Prod.snd hfold)
      have hw : InRange w := hrows w ((mem_candidates_iff w).mp hcandidate).1
      exact bind_eq_ok_iff.mpr ⟨_, retentionEndChecked_eq hw scope qualifier, rfl⟩

end ConsentQuery

/-- The lapse of every row and every scoped fold return exactly when the windows of the rows
end within the range of dates. -/
theorem consent_fold_returns_iff
    (rows : List Attestation) (hasserted : forall a, a ∈ rows -> External.minUtc ≤ a.assertedAt) :
    ((forall a, a ∈ rows -> exists lapse, grantLapseInstantChecked a = Except.ok lapse) ∧
      forall subject now scope qualifier, exists stance,
        ConsentQuery.foldScopedStanceChecked rows subject now scope qualifier =
          Except.ok stance) <->
      forall a, a ∈ rows -> WindowsFit a := by
  constructor
  · intro h a ha
    rcases h.1 a ha with ⟨lapse, hlapse⟩
    exact (InRange.of_grantLapseInstantChecked (hasserted a ha) hlapse).fits
  · intro hfits
    have hrows : forall a, a ∈ rows -> InRange a := fun a ha => ⟨hasserted a ha, hfits a ha⟩
    constructor
    · intro a ha
      exact ⟨_, (hrows a ha).grantLapseInstantChecked_eq⟩
    · intro subject now scope qualifier
      exact ⟨_, ConsentQuery.foldScopedStanceChecked_eq hrows subject now scope qualifier⟩

end Returns

section Samples

open Reference ConsentQuery

def samRetainsFor (window : String) : Attestation :=
  statement "grant" "sam" "consent:state:granted:v1" 0
    [("scope", .str ("retain:" ++ window))] .scores

theorem long_window_panics :
    (checkConsentScopeTokens (samRetainsFor "100000000d").envelope).isOk = true ∧
      External.minUtc ≤ (samRetainsFor "100000000d").assertedAt ∧
      (samRetainsFor "100000000d").assertedAt ≤ External.maxUtc ∧
      grantLapseInstantChecked (samRetainsFor "100000000d") =
        .error .dateTimeOverflow ∧
      (foldScopedStanceChecked [samRetainsFor "100000000d"] "sam" (Instant.ofSeconds 1) "retain"
        none).map ScopedStance.state = .error .dateTimeOverflow := by
  refine ⟨by decide, by decide, by decide, by decide, by decide⟩

theorem short_window_returns :
    exists stance, foldScopedStanceChecked [samRetainsFor "90d"] "sam" (Instant.ofSeconds 1)
      "retain" none = .ok stance := by
  have hasserted : forall a, a ∈ [samRetainsFor "90d"] -> External.minUtc ≤ a.assertedAt := by
    intro a ha
    rw [List.mem_singleton] at ha
    subst ha
    decide
  have hfits : forall a, a ∈ [samRetainsFor "90d"] -> WindowsFit a := by
    intro a ha
    rw [List.mem_singleton] at ha
    subst ha
    have htokens : scopeTokens (samRetainsFor "90d") =
        [⟨"retain", .window (Instant.ofSeconds (90 * 86400))⟩] := by decide
    intro t e ht he
    rw [htokens, List.mem_singleton] at ht
    subst ht
    have hend : e = Instant.ofSeconds (90 * 86400) := (Option.some.inj he).symm
    rw [hend]
    decide
  exact ((consent_fold_returns_iff [samRetainsFor "90d"] hasserted).mpr hfits).2 _ _ _ _

end Samples

end CirisPersist.Federation
