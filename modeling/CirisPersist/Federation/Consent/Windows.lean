import CirisPersist.Federation.Consent.Governing

/-!
# Retention windows and the order of scope tokens

A scope may name several tokens that cover one query.  The scoped fold reads the retention
window off the first of them, at the row that decides the query.  So signed windows are
honoured, and the order of the tokens is immaterial, exactly when the covering tokens of that
row agree on the window.  A bare `retain` written before `retain:1d` hides the window.
-/

namespace CirisPersist.Federation

/-!
## Rows whose scope is written in another order
-/

/-- The same row with the items of its `scope` array in some order. -/
structure ScopePermuted (a a' : Attestation) : Prop where
  record : a' = { a with envelope := a'.envelope }
  fields : forall key, key ≠ "scope" -> a'.envelope.get? key = a.envelope.get? key
  scope : a'.envelope.get? "scope" = a.envelope.get? "scope" ∨
    exists items items', a.envelope.get? "scope" = some (.arr items) ∧
      a'.envelope.get? "scope" = some (.arr items') ∧ items'.Perm items

namespace ScopePermuted

variable {a a' : Attestation}

theorem refl
    (a : Attestation) :
    ScopePermuted a a :=
  ⟨rfl, fun _ _ => rfl, Or.inl rfl⟩

section Fields

variable (h : ScopePermuted a a')

include h

theorem attestationId :
    a'.attestationId = a.attestationId := by
  rw [h.record]

theorem attestingKeyId :
    a'.attestingKeyId = a.attestingKeyId := by
  rw [h.record]

theorem attestationType :
    a'.attestationType = a.attestationType := by
  rw [h.record]

theorem assertedAt :
    a'.assertedAt = a.assertedAt := by
  rw [h.record]

theorem expiresAt :
    a'.expiresAt = a.expiresAt := by
  rw [h.record]

theorem getStr?
    {key : String} (hkey : key ≠ "scope") :
    a'.envelope.getStr? key = a.envelope.getStr? key := by
  rw [Json.getStr?, Json.getStr?, h.fields key hkey]

theorem dimension :
    a'.dimension = a.dimension :=
  h.getStr? (by decide)

theorem hasDimensionStem
    (stem : String) :
    a'.hasDimensionStem stem = a.hasDimensionStem stem := by
  rw [Attestation.hasDimensionStem, Attestation.hasDimensionStem, h.dimension]

theorem stance :
    a'.stance = a.stance := by
  rw [Attestation.stance, Attestation.stance, h.dimension]

theorem causalEdge_eq :
    causalEdge a' = causalEdge a := by
  rw [causalEdge, causalEdge, h.hasDimensionStem, h.stance,
    h.fields consentSupersedesField (by decide), h.attestationId]

end Fields

theorem retractionEntitled_eq
    {g g' : Attestation} (hg : ScopePermuted g g') (h : ScopePermuted a a') :
    retractionEntitled g' a' = retractionEntitled g a := by
  have hsubjects : a'.subjectKeyIds = a.subjectKeyIds := by
    rw [h.record]
  have hrule : g'.withdrawsAdmissionRule = g.withdrawsAdmissionRule := by
    rw [hg.record]
  rw [retractionEntitled, retractionEntitled, isCustodyRow, isCustodyRow, hg.attestingKeyId,
    h.attestingKeyId, h.attestationType, h.dimension, hg.attestationType, hsubjects, hrule]

/-!
The tokens of the two rows are the same up to order.
-/

section Scopes

variable (h : ScopePermuted a a')

include h

theorem namedScopes_perm :
    (namedScopes a').Perm (namedScopes a) := by
  unfold namedScopes
  rcases h.scope with hsame | ⟨items, items', hitems, hitems', hperm⟩
  · rw [hsame]
  · rw [hitems, hitems']
    exact (hperm.filterMap Json.asStr).filter _

theorem scopeTokens_perm :
    (scopeTokens a').Perm (scopeTokens a) :=
  h.namedScopes_perm.filterMap _

theorem grantLapseInstant_eq :
    grantLapseInstant a' = grantLapseInstant a := by
  have hends : ((scopeTokens a').filterMap fun t => retainUntil t a.assertedAt).min? =
      ((scopeTokens a).filterMap fun t => retainUntil t a.assertedAt).min? := by
    refine Option.ext fun e => ?_
    rw [List.min?_eq_some_iff, List.min?_eq_some_iff]
    simp only [(h.scopeTokens_perm.filterMap fun t => retainUntil t a.assertedAt).mem_iff]
  simp only [grantLapseInstant, h.assertedAt, h.expiresAt, hends]

theorem isLapsedGrant_eq
    (subject grantId : String) (t : Instant) :
    isLapsedGrant subject grantId t a' = isLapsedGrant subject grantId t a := by
  rw [isLapsedGrant, isLapsedGrant, h.attestationId, h.attestingKeyId, h.hasDimensionStem,
    h.grantLapseInstant_eq]

theorem namesScope_iff
    (scope : String) (qualifier : Option String) :
    NamesScope a' scope qualifier <-> NamesScope a scope qualifier := by
  have hclass : a'.envelope.getStr? "content_class" = a.envelope.getStr? "content_class" :=
    h.getStr? (by decide)
  constructor
  · rintro ⟨⟨name, token, query, hname, hrest⟩, hqualifier⟩
    refine ⟨⟨name, token, query, h.namedScopes_perm.mem_iff.mp hname, hrest⟩, ?_⟩
    intro c hc
    rw [← hclass]
    exact hqualifier c hc
  · rintro ⟨⟨name, token, query, hname, hrest⟩, hqualifier⟩
    refine ⟨⟨name, token, query, h.namedScopes_perm.mem_iff.mpr hname, hrest⟩, ?_⟩
    intro c hc
    rw [hclass]
    exact hqualifier c hc

theorem namedScopes_eq_nil_iff :
    namedScopes a' = [] <-> namedScopes a = [] := by
  constructor
  · intro hnil
    exact List.Perm.nil_eq (hnil ▸ h.namedScopes_perm) |>.symm
  · intro hnil
    exact List.Perm.eq_nil (hnil ▸ h.namedScopes_perm)

theorem matchesScopedQuery_eq
    (scope : String) (qualifier : Option String) :
    matchesScopedQuery a' scope qualifier = matchesScopedQuery a scope qualifier := by
  rw [Bool.eq_iff_iff, matchesScopedQuery_iff, matchesScopedQuery_iff, h.namesScope_iff,
    h.namedScopes_eq_nil_iff, h.stance]

end Scopes

end ScopePermuted

/-!
## The fold over such rows
-/

namespace ConsentQuery

section Permuted

variable {q : ConsentQuery} {f : Attestation -> Attestation}
  (hf : forall a, ScopePermuted a (f a)) (rows : List Attestation)

include hf

theorem inUniverse_permuted
    (a : Attestation) :
    q.inUniverse (rows.map f) (f a) = q.inUniverse rows a := by
  have hbound : substrateExpiryBoundToSubject (f a) (rows.map f) q.subject =
      substrateExpiryBoundToSubject a rows q.subject := by
    unfold substrateExpiryBoundToSubject
    rw [(hf a).hasDimensionStem, (hf a).causalEdge_eq, (hf a).assertedAt]
    simp only [List.any_map, Function.comp_def, (hf _).isLapsedGrant_eq]
  rw [inUniverse, inUniverse, hbound, (hf a).hasDimensionStem, (hf a).attestingKeyId]

theorem applies_permuted
    (a : Attestation) :
    q.applies (f a) = q.applies a := by
  simp only [applies, (hf a).expiresAt, (hf a).matchesScopedQuery_eq]

theorem consentUniverse_permuted :
    q.consentUniverse (rows.map f) = (q.consentUniverse rows).map f := by
  rw [consentUniverse, consentUniverse, List.filter_map]
  simp only [Function.comp_def, inUniverse_permuted hf]

theorem candidates_permuted :
    q.candidates (rows.map f) = (q.candidates rows).map f := by
  rw [candidates, candidates, consentUniverse_permuted hf, List.filter_map]
  simp only [Function.comp_def, applies_permuted hf]

theorem known_permuted :
    q.known (rows.map f) = q.known rows := by
  rw [known, known, consentUniverse_permuted hf, List.map_map]
  simp only [Function.comp_def, (hf _).attestationId]

theorem retiredIds_permuted
    (hdistinct : (rows.map Attestation.attestationId).Nodup) :
    retiredIds (rows.map f) = retiredIds rows := by
  have hdistinct' : ((rows.map f).map Attestation.attestationId).Nodup := by
    rw [List.map_map]
    simpa only [Function.comp_def, (hf _).attestationId] using hdistinct
  have href : forall g, referencesAttestationId (f g) = referencesAttestationId g := fun g =>
    (hf g).getStr? (by decide)
  ext target
  rw [mem_retiredIds_iff_entitled hdistinct', mem_retiredIds_iff_entitled hdistinct]
  simp only [EntitledRetraction, List.mem_map, exists_exists_and_eq_and, (hf _).attestationId,
    (hf _).attestationType, href, (hf _).retractionEntitled_eq (hf _)]

theorem survivors_permuted
    (hdistinct : (rows.map Attestation.attestationId).Nodup) :
    q.survivors (rows.map f) = (q.survivors rows).map f := by
  have hnamed : forall a, namedTarget (f a) = namedTarget a := by
    intro a
    rw [namedTarget, namedTarget, (hf a).causalEdge_eq]
  have heliminated : q.eliminated (rows.map f) = q.eliminated rows := by
    rw [eliminated, eliminated, retiredIds_permuted hf rows hdistinct, candidates_permuted hf,
      List.filterMap_map]
    simp only [Function.comp_def, hnamed]
  rw [survivors, survivors, heliminated, candidates_permuted hf, List.filter_map]
  simp only [Function.comp_def, (hf _).attestationId]

theorem foldWinner_permuted
    (hdistinct : (rows.map Attestation.attestationId).Nodup) :
    q.foldWinner (rows.map f) = ((q.foldWinner rows).1, (q.foldWinner rows).2.map f) := by
  have hkey : forall a, foldOrderingKey (f a) = foldOrderingKey a := by
    intro a
    rw [foldOrderingKey, foldOrderingKey, (hf a).assertedAt, (hf a).stance, (hf a).attestationId]
  have hclock : q.clockWinner (rows.map f) = (q.clockWinner rows).map f := by
    rw [clockWinner, clockWinner, candidates_permuted hf, MaxByKey.maxByKey_map]
    simp only [hkey]
  have hcausal : q.causalWinner (rows.map f) = (q.causalWinner rows).map f := by
    have hcausalKey : forall a, causalFoldOrderingKey (q.known rows) (f a) =
        causalFoldOrderingKey (q.known rows) a := by
      intro a
      rw [causalFoldOrderingKey, causalFoldOrderingKey, causalRank, causalRank,
        (hf a).causalEdge_eq, hkey]
    rw [causalWinner, causalWinner, survivors_permuted hf rows hdistinct, known_permuted hf,
      MaxByKey.maxByKey_map]
    simp only [hcausalKey]
  have hstance : forall winner : Option Attestation, stanceOf (winner.map f) = stanceOf winner := by
    intro winner
    cases winner with
    | none => rfl
    | some w => simp only [stanceOf, Option.map_some, Option.bind_some, (hf w).dimension]
  rw [foldWinner, foldWinner, hclock, hcausal, hstance, hstance]
  split <;> rfl

end Permuted

/-!
## One window for each query
-/

/-- The tokens of a row that cover the query agree on the end of its retention. -/
def WindowsAgree (scope : String) (a : Attestation) : Prop :=
  forall query, parseScopeToken scope = .ok query ->
    forall t t', t ∈ scopeTokens a -> t' ∈ scopeTokens a ->
      covers t query = true -> covers t' query = true ->
      retainUntil t a.assertedAt = retainUntil t' a.assertedAt

def retentionEnd (a : Attestation) (scope : String) (qualifier : Option String) :
    Option Instant :=
  (coveringToken a scope qualifier).bind fun t => retainUntil t a.assertedAt

variable {qualifier : Option String} {scope : String}

theorem retentionEnd_permuted
    {a a' : Attestation} (h : ScopePermuted a a') (hagree : WindowsAgree scope a) :
    retentionEnd a' scope qualifier = retentionEnd a scope qualifier := by
  have hsome := h.matchesScopedQuery_eq scope qualifier
  unfold matchesScopedQuery at hsome
  unfold retentionEnd
  rw [h.assertedAt]
  cases ht : coveringToken a scope qualifier with
  | none =>
      rw [ht, Option.isSome_none, Option.isSome_eq_false_iff, Option.isNone_iff_eq_none] at hsome
      rw [hsome]
  | some t =>
      rw [ht, Option.isSome_some, Option.isSome_iff_exists] at hsome
      rcases hsome with ⟨t', ht'⟩
      rw [ht', Option.bind_some, Option.bind_some]
      rcases coveringToken_cases ht with ⟨hnone, rfl⟩ | ⟨hmem, ⟨query, hparse, hcovers⟩, -⟩
      · rcases coveringToken_cases ht' with ⟨-, rfl⟩ | ⟨hmem', -⟩
        · rfl
        · rw [h.scopeTokens_perm.mem_iff, scopeTokens, hnone] at hmem'
          cases hmem'
      · rcases coveringToken_cases ht' with ⟨hnone, -⟩ | ⟨hmem', ⟨query', hparse', hcovers'⟩, -⟩
        · rw [h.namedScopes_eq_nil_iff] at hnone
          rw [scopeTokens, hnone] at hmem
          cases hmem
        · cases hparse.symm.trans hparse'
          exact hagree query hparse t' t (h.scopeTokens_perm.mem_iff.mp hmem') hmem hcovers' hcovers

theorem foldWinner_permuted_rows
    {q : ConsentQuery} {rows : List Attestation}
    (hdistinct : (rows.map Attestation.attestationId).Nodup) {f : Attestation -> Attestation}
    (hf : forall a, a ∈ rows -> ScopePermuted a (f a)) :
    q.foldWinner (rows.map f) = ((q.foldWinner rows).1, (q.foldWinner rows).2.map f) := by
  classical
  -- off the rows the map may do anything; let it do nothing there
  let f' : Attestation -> Attestation := fun a => if a ∈ rows then f a else a
  have hf' : forall a, ScopePermuted a (f' a) := by
    intro a
    by_cases ha : a ∈ rows
    · simp only [f', if_pos ha]
      exact hf a ha
    · simp only [f', if_neg ha]
      exact .refl a
  have hmap : rows.map f = rows.map f' := by
    refine List.map_congr_left fun a ha => ?_
    simp only [f', if_pos ha]
  rw [hmap, foldWinner_permuted hf' rows hdistinct]
  cases hwinner : (q.foldWinner rows).2 with
  | none => rfl
  | some w =>
      have hmem := ((mem_candidates_iff w).mp (foldWinner_mem_candidates hwinner)).1
      simp only [Option.map_some, f', if_pos hmem]

section Winner

variable {q : ConsentQuery} {rows : List Attestation}
  (hscoped : q.scopedTo = some (scope, qualifier))

theorem retainUntil_foldScopedStance :
    (q.foldScopedStanceWithWinner rows scope qualifier).1.retainUntil =
      (q.foldWinner rows).2.bind (retentionEnd · scope qualifier) :=
  rfl

theorem foldScopedStance_permuted
    (hdistinct : (rows.map Attestation.attestationId).Nodup)
    (hagree : forall w, (q.foldWinner rows).2 = some w -> WindowsAgree scope w)
    {f : Attestation -> Attestation} (hf : forall a, a ∈ rows -> ScopePermuted a (f a)) :
    (q.foldScopedStanceWithWinner (rows.map f) scope qualifier).1 =
      (q.foldScopedStanceWithWinner rows scope qualifier).1 := by
  have hending : ((q.foldWinner rows).2.map f).bind (retentionEnd · scope qualifier) =
      (q.foldWinner rows).2.bind (retentionEnd · scope qualifier) := by
    cases hwinner : (q.foldWinner rows).2 with
    | none => rfl
    | some w =>
        have hmem := ((mem_candidates_iff w).mp (foldWinner_mem_candidates hwinner)).1
        exact retentionEnd_permuted (hf w hmem) (hagree w hwinner)
  simp only [retentionEnd] at hending
  simp only [foldScopedStanceWithWinner, foldWinner_permuted_rows hdistinct hf, hending]

variable {w : Attestation} (hw : (q.foldWinner rows).2 = some w) {query t : ScopeToken}
  (hparse : parseScopeToken scope = .ok query) (ht : t ∈ scopeTokens w)

include hscoped hw hparse ht

/-- The winner of a scoped fold, where it names a token, is read at one that covers the
query, in the class that is asked for. -/
theorem winner_token :
    (exists t', coveringToken w scope qualifier = some t' ∧ t' ∈ scopeTokens w ∧
        covers t' query = true) ∧
      forall c, qualifier = some c -> w.envelope.getStr? "content_class" = some c := by
  rcases (mem_candidates_iff w).mp (foldWinner_mem_candidates hw) with ⟨-, -, happlies⟩
  rcases Option.isSome_iff_exists.mp ((applies_iff hscoped w).mp happlies).2 with ⟨t', ht'⟩
  rcases coveringToken_cases ht' with ⟨hnone, -⟩ | ⟨hmem', ⟨query', hparse', hcovers'⟩, hclass⟩
  · rw [scopeTokens, hnone] at ht
    cases ht
  · cases hparse.symm.trans hparse'
    exact ⟨⟨t', ht', hmem', hcovers'⟩, hclass⟩

theorem window_honoured
    (hagree : WindowsAgree scope w)
    (hstate : (q.foldScopedStanceWithWinner rows scope qualifier).1.state = .granted)
    (hcovers : covers t query = true) {e : Instant} (he : retainUntil t w.assertedAt = some e) :
    q.now < e := by
  rcases (foldScopedStance_granted_iff rows scope qualifier).mp hstate with
    ⟨winner, hfold, hopen⟩
  have hwinner : winner = some w := by
    rw [← hw, hfold]
  rcases (winner_token hscoped hw hparse ht).1 with ⟨t', ht', hmem', hcovers'⟩
  refine hopen w hwinner t' ht' e ?_
  rw [hagree query hparse t' t hmem' ht hcovers' hcovers]
  exact he

end Winner

/-!
## The row that decides
-/

/-- A statement the query meets that no row retires and no such statement names. -/
structure Standing (q : ConsentQuery) (rows : List Attestation) (a : Attestation) : Prop where
  met : a ∈ q.candidates rows
  notRetired : ¬ EntitledRetraction rows a.attestationId
  notNamed : forall c, c ∈ q.candidates rows ->
    causalEdge c ≠ .names a.attestationId

structure Latest (q : ConsentQuery) (rows : List Attestation) (a : Attestation) : Prop where
  met : a ∈ q.candidates rows
  latest : forall c, c ∈ q.candidates rows -> foldOrderingKey c ≤ foldOrderingKey a

structure LatestStanding (q : ConsentQuery) (rows : List Attestation) (a : Attestation) :
    Prop where
  standing : q.Standing rows a
  latest : forall c, q.Standing rows c ->
    causalFoldOrderingKey (q.known rows) c ≤ causalFoldOrderingKey (q.known rows) a

/-- The latest statement decides, unless the latest that stands is more restrictive.  A grant
decides only where some statement stands. -/
def Decides (q : ConsentQuery) (rows : List Attestation) (a : Attestation) : Prop :=
  (q.Latest rows a ∧
    (a.stance = .granted -> exists s, q.Standing rows s) ∧
    forall s, q.LatestStanding rows s -> restrictionRank s.stance ≤ restrictionRank a.stance) ∨
  (q.LatestStanding rows a ∧
    forall l, q.Latest rows l -> restrictionRank l.stance < restrictionRank a.stance)

section Decides

variable {q : ConsentQuery} {rows : List Attestation}
  (hdistinct : (rows.map Attestation.attestationId).Nodup)

include hdistinct

theorem mem_survivors_iff_standing
    (a : Attestation) :
    a ∈ q.survivors rows <-> q.Standing rows a := by
  rw [mem_survivors_iff, mem_eliminated_iff, mem_retiredIds_iff_entitled hdistinct, not_or]
  constructor
  · rintro ⟨hmet, hretired, hnamed⟩
    exact ⟨hmet, hretired, fun c hc hnames => hnamed ⟨c, hc, hnames⟩⟩
  · rintro ⟨hmet, hretired, hnamed⟩
    exact ⟨hmet, hretired, fun ⟨c, hc, hnames⟩ => hnamed c hc hnames⟩

theorem clockWinner_eq_some_iff_latest
    (a : Attestation) :
    q.clockWinner rows = some a <-> q.Latest rows a := by
  rw [clockWinner_eq_some_iff hdistinct]
  exact ⟨fun h => ⟨h.1, h.2⟩, fun h => ⟨h.met, h.latest⟩⟩

theorem causalWinner_eq_some_iff_latestStanding
    (a : Attestation) :
    q.causalWinner rows = some a <-> q.LatestStanding rows a := by
  rw [causalWinner_eq_some_iff hdistinct]
  constructor
  · intro h
    exact ⟨(mem_survivors_iff_standing hdistinct a).mp h.1,
      fun c hc => h.2 c ((mem_survivors_iff_standing hdistinct c).mpr hc)⟩
  · intro h
    exact ⟨(mem_survivors_iff_standing hdistinct a).mpr h.standing,
      fun c hc => h.latest c ((mem_survivors_iff_standing hdistinct c).mp hc)⟩

theorem causalWinner_eq_none_iff :
    q.causalWinner rows = none <-> forall s, ¬ q.Standing rows s := by
  constructor
  · intro hnone s hs
    rcases MaxByKey.maxByKey_isSome_of_mem (causalFoldOrderingKey (q.known rows))
      ((mem_survivors_iff_standing hdistinct s).mpr hs) with ⟨m, hm⟩
    cases hnone.symm.trans hm
  · intro hnone
    cases hm : q.causalWinner rows with
    | none => rfl
    | some m =>
        exact absurd ((causalWinner_eq_some_iff_latestStanding hdistinct m).mp hm).standing
          (hnone m)

theorem foldWinner_eq_some_iff
    (a : Attestation) :
    (q.foldWinner rows).2 = some a <-> q.Decides rows a := by
  have hsecond : (q.foldWinner rows).2 =
      if restrictionRank (stanceOf (q.clockWinner rows)) <
        restrictionRank (stanceOf (q.causalWinner rows)) then q.causalWinner rows
      else q.clockWinner rows := by
    unfold foldWinner
    split <;> rfl
  have hstands : (exists s, q.Standing rows s) <-> q.causalWinner rows ≠ none := by
    rw [ne_eq, causalWinner_eq_none_iff hdistinct, not_forall_not]
  have hstance : forall x : Attestation, stanceOf (some x) = x.stance := fun _ => rfl
  unfold Decides
  simp only [hsecond, ← clockWinner_eq_some_iff_latest hdistinct,
    ← causalWinner_eq_some_iff_latestStanding hdistinct, hstands]
  cases hclock : q.clockWinner rows with
  | none =>
      cases hcausal : q.causalWinner rows with
      | none => simp
      | some m =>
          -- a survivor is a candidate, so the clock has a winner too
          have hmem := ((mem_survivors_iff m).mp (MaxByKey.isMaxBy_of_maxByKey hcausal).1).1
          rcases MaxByKey.maxByKey_isSome_of_mem foldOrderingKey hmem with ⟨w, hw⟩
          cases hclock.symm.trans hw
  | some l =>
      cases hcausal : q.causalWinner rows with
      | none =>
          have hrank : restrictionRank l.stance < restrictionRank (stanceOf none) <->
              l.stance = .granted := by
            cases l.stance <;> simp [stanceOf, consentStateOf, restrictionRank]
          simp only [hstance, hrank, Option.some.injEq, reduceCtorEq, false_imp_iff, implies_true,
            and_true, false_and, or_false, ne_eq, not_true_eq_false, imp_false]
          by_cases hgrant : l.stance = .granted
          · simp only [hgrant, if_true, reduceCtorEq, false_iff]
            rintro ⟨rfl, hrefusal⟩
            exact hrefusal hgrant
          · simp only [hgrant, if_false, Option.some.injEq]
            constructor
            · rintro rfl
              exact ⟨rfl, hgrant⟩
            · exact fun h => h.1
      | some m =>
          simp only [hstance, Option.some.injEq, ne_eq, reduceCtorEq, not_false_eq_true,
            implies_true, true_and, forall_eq']
          by_cases hrank : restrictionRank l.stance < restrictionRank m.stance
          · simp only [hrank, if_true, Option.some.injEq]
            constructor
            · rintro rfl
              exact Or.inr ⟨rfl, hrank⟩
            · rintro (⟨rfl, hle⟩ | ⟨rfl, -⟩)
              · exact absurd hrank (not_lt.mpr hle)
              · rfl
          · simp only [hrank, if_false, Option.some.injEq]
            constructor
            · rintro rfl
              exact Or.inl ⟨rfl, not_lt.mp hrank⟩
            · rintro (⟨rfl, -⟩ | ⟨rfl, hlt⟩)
              · rfl
              · exact absurd hlt hrank

end Decides

/-!
## A token moved to the front
-/

def withScope (items : List Json) (a : Attestation) : Attestation :=
  { a with
    envelope :=
      match a.envelope with
      | .obj fields =>
          .obj (fields.map fun field =>
            if field.1 = "scope" then (field.1, .arr items) else field)
      | other => other }

theorem get?_withScope
    (items : List Json) (a : Attestation) (key : String) :
    (withScope items a).envelope.get? key =
      if key = "scope" then (a.envelope.get? key).map fun _ => .arr items
      else a.envelope.get? key := by
  have hlookup : forall fields : List (String × Json),
      (fields.map fun field =>
        if field.1 = "scope" then (field.1, .arr items) else field).lookup key =
      if key = "scope" then (fields.lookup key).map fun _ => .arr items
      else fields.lookup key := by
    intro fields
    induction fields with
    | nil => simp
    | cons field rest ih =>
        rcases field with ⟨name, value⟩
        rw [List.map_cons, List.lookup_cons, List.lookup_cons, ih]
        by_cases hkey : key = name
        · subst hkey
          by_cases hscope : key = "scope" <;> simp [hscope]
        · have hname : (key == name) = false := beq_false_of_ne hkey
          by_cases hscope : name = "scope"
          · rw [if_pos hscope, hname]
          · rw [if_neg hscope, hname]
  unfold withScope Json.get?
  cases a.envelope with
  | obj fields => exact hlookup fields
  | null => simp
  | bool _ => simp
  | num _ => simp
  | str _ => simp
  | arr _ => simp

theorem scopePermuted_withScope
    {a : Attestation} {items items' : List Json}
    (hscope : a.envelope.get? "scope" = some (.arr items)) (hperm : items'.Perm items) :
    ScopePermuted a (withScope items' a) := by
  refine ⟨rfl, ?_, Or.inr ⟨items, items', hscope, ?_, hperm⟩⟩
  · intro key hkey
    rw [get?_withScope, if_neg hkey]
  · rw [get?_withScope, if_pos rfl, hscope]
    rfl

/-- Every covering token of a row can be made the one its window is read off. -/
theorem exists_permuted_retentionEnd
    {a : Attestation} {query t : ScopeToken}
    (hclass : forall c, qualifier = some c -> a.envelope.getStr? "content_class" = some c)
    (hparse : parseScopeToken scope = .ok query) (ht : t ∈ scopeTokens a)
    (hcovers : covers t query = true) :
    exists a', ScopePermuted a a' ∧
      retentionEnd a' scope qualifier = retainUntil t a.assertedAt := by
  rcases (mem_scopeTokens_iff a t).mp ht with ⟨name, hname, htoken⟩
  -- reading a row whose first name is the token's
  have hread : forall (b : Attestation) (rest : List String), namedScopes b = name :: rest ->
      b.assertedAt = a.assertedAt ->
      b.envelope.getStr? "content_class" = a.envelope.getStr? "content_class" ->
      retentionEnd b scope qualifier = retainUntil t a.assertedAt := by
    intro b rest hnamed htime hsame
    have hne : namedScopes b ≠ [] := by
      rw [hnamed]
      exact List.cons_ne_nil _ _
    have hfirst : ((scopeTokens b).find? fun g => covers g query) = some t := by
      rw [scopeTokens, hnamed]
      simp [htoken, Except.toOption, hcovers]
    have htoken' : coveringToken b scope qualifier = some t := by
      unfold coveringToken
      rw [if_neg hne, hsame]
      cases qualifier with
      | none => simp [hparse, Except.toOption, hfirst]
      | some c => simp [hparse, Except.toOption, hfirst, hclass c rfl]
    rw [retentionEnd, htoken', Option.bind_some, htime]
  have hcases := hname
  unfold namedScopes at hcases
  split at hcases
  · rename_i s hscope
    split at hcases
    · cases hcases
    · rename_i hs
      cases List.mem_singleton.mp hcases
      refine ⟨a, ScopePermuted.refl a, hread a [] ?_ rfl rfl⟩
      simp [namedScopes, hscope, hs]
  · rename_i items hscope
    rw [List.mem_filter, List.mem_filterMap] at hcases
    rcases hcases with ⟨⟨item, hitem, hstr⟩, hnonempty⟩
    rcases List.append_of_mem hitem with ⟨before, after, hitems⟩
    have hperm : (item :: (before ++ after)).Perm items := hitems ▸ List.perm_middle.symm
    have hpermuted := scopePermuted_withScope hscope hperm
    refine ⟨_, hpermuted, hread _ (((before ++ after).filterMap Json.asStr).filter (· ≠ "")) ?_
      hpermuted.assertedAt (hpermuted.getStr? (by decide))⟩
    rw [namedScopes, get?_withScope, if_pos rfl, hscope]
    simp only [Option.map_some, List.filterMap_cons, hstr, List.filter_cons, hnonempty, if_true]
  · cases hcases

theorem windowsAgree_of_order
    {q : ConsentQuery} {rows : List Attestation}
    (hdistinct : (rows.map Attestation.attestationId).Nodup)
    (hscoped : q.scopedTo = some (scope, qualifier)) {w : Attestation}
    (hw : (q.foldWinner rows).2 = some w)
    (horder : forall f : Attestation -> Attestation,
      (forall a, a ∈ rows -> ScopePermuted a (f a)) ->
      (q.foldScopedStanceWithWinner (rows.map f) scope qualifier).1 =
        (q.foldScopedStanceWithWinner rows scope qualifier).1) :
    WindowsAgree scope w := by
  intro query hparse
  have hend : forall t, t ∈ scopeTokens w -> covers t query = true ->
      retainUntil t w.assertedAt = retentionEnd w scope qualifier := by
    intro t ht hcovers
    rcases exists_permuted_retentionEnd (winner_token hscoped hw hparse ht).2 hparse ht hcovers
      with ⟨w', hpermuted, hend⟩
    classical
    -- the other rows stay as they are
    let f : Attestation -> Attestation := fun a => if a = w then w' else a
    have hf : forall a, a ∈ rows -> ScopePermuted a (f a) := by
      intro a _
      by_cases ha : a = w
      · simp only [f, ha, if_true]
        exact hpermuted
      · simp only [f, if_neg ha]
        exact .refl a
    have hretain := congrArg ScopedStance.retainUntil (horder f hf)
    rw [retainUntil_foldScopedStance, retainUntil_foldScopedStance,
      foldWinner_permuted_rows hdistinct hf, hw] at hretain
    simpa only [Option.map_some, Option.bind_some, f, if_true, hend] using hretain
  intro t t' ht ht' hcovers hcovers'
  rw [hend t ht hcovers, hend t' ht' hcovers']

/-- Signed windows are honoured and the order of the tokens is immaterial, exactly when the
covering tokens of the row that decides agree on the window. -/
theorem windows_honoured_in_any_order
    (q : ConsentQuery) (rows : List Attestation) (scope : String) (qualifier : Option String)
    (hdistinct : (rows.map Attestation.attestationId).Nodup)
    (hscoped : q.scopedTo = some (scope, qualifier)) :
    ((forall w, (q.foldScopedStanceWithWinner rows scope qualifier).1.state =
        ConsentState.granted ->
      (q.foldScopedStanceWithWinner rows scope qualifier).2 = some w ->
      forall query t e, parseScopeToken scope = Except.ok query -> t ∈ scopeTokens w ->
        covers t query = true -> retainUntil t w.assertedAt = some e -> q.now < e) ∧
    (forall f : Attestation -> Attestation, (forall a, a ∈ rows -> ScopePermuted a (f a)) ->
      (q.foldScopedStanceWithWinner (rows.map f) scope qualifier).1 =
        (q.foldScopedStanceWithWinner rows scope qualifier).1)) <->
    forall a, q.Decides rows a -> WindowsAgree scope a := by
  simp only [← foldWinner_eq_some_iff hdistinct]
  constructor
  · rintro ⟨-, horder⟩ w hw
    exact windowsAgree_of_order hdistinct hscoped hw horder
  · intro hagree
    refine ⟨?_, fun f hf => foldScopedStance_permuted hdistinct hagree hf⟩
    intro w hstate hwinner query t e hparse ht hcovers he
    exact window_honoured hscoped hwinner hparse ht (hagree w hwinner) hstate hcovers he

def samRetains (scope : List String) : Attestation :=
  statement "grant" "sam" "consent:state:granted:v1" 0
    [("scope", .arr (scope.map .str))] .scores

theorem samRetains_permuted
    {scope scope' : List String} (h : scope'.Perm scope) :
    ScopePermuted (samRetains scope) (samRetains scope') := by
  refine ⟨rfl, ?_, Or.inr ⟨scope.map .str, scope'.map .str, rfl, rfl, h.map _⟩⟩
  intro key hkey
  have hother : (key == "scope") = false := beq_false_of_ne hkey
  simp [samRetains, statement, Attestation.ofAuthor, Json.get?, List.lookup_cons, hother]

def retainQuery (hours : Int) : ConsentQuery :=
  ⟨"sam", Instant.ofSeconds (hours * 3600), some ("retain", none)⟩

theorem window_hidden_by_bare_token :
    ((retainQuery 48).foldScopedStanceWithWinner [samRetains ["retain", "retain:1d"]] "retain"
        none).1.state = .granted ∧
      ((retainQuery 48).foldScopedStanceWithWinner [samRetains ["retain", "retain:1d"]] "retain"
        none).2 = some (samRetains ["retain", "retain:1d"]) ∧
      (parseScopeToken "retain:1d").toOption ∈
        (scopeTokens (samRetains ["retain", "retain:1d"])).map some ∧
      ((parseScopeToken "retain:1d").toOption.bind fun t =>
        (parseScopeToken "retain").toOption.map (covers t)) = some true ∧
      ((parseScopeToken "retain:1d").toOption.bind fun t => retainUntil t 0) =
        some (Instant.ofSeconds (24 * 3600)) ∧
      ¬ (retainQuery 48).now < Instant.ofSeconds (24 * 3600) ∧
      ScopePermuted (samRetains ["retain", "retain:1d"]) (samRetains ["retain:1d", "retain"]) ∧
      ((retainQuery 48).foldScopedStanceWithWinner [samRetains ["retain:1d", "retain"]] "retain"
        none).1.state = .expired := by
  refine ⟨by decide, by rfl, by decide, by decide, by decide, by decide, ?_, by decide⟩
  exact samRetains_permuted (List.Perm.swap _ _ _)

/-- A stranger's grant that hides its window does not matter: it never decides. -/
def retainRows : List Attestation :=
  [samRetains ["view", "retain:1d"],
    statement "other" "eve" "consent:state:granted:v1" 0
      [("scope", .arr [.str "retain", .str "retain:1d"])] .scores]

theorem retainRows_agree
    (a : Attestation) (h : (retainQuery 12).Decides retainRows a) :
    WindowsAgree "retain" a := by
  have hmet : a ∈ (retainQuery 12).candidates retainRows := by
    rcases h with ⟨hlatest, -⟩ | ⟨hstanding, -⟩
    · exact hlatest.met
    · exact hstanding.standing.met
  have hcandidates : (retainQuery 12).candidates retainRows = [samRetains ["view", "retain:1d"]] := by
    rfl
  rw [hcandidates, List.mem_singleton] at hmet
  subst hmet
  have htokens : scopeTokens (samRetains ["view", "retain:1d"]) =
      [⟨"view", .whole⟩,
        ⟨"retain", .window (Instant.ofSeconds (24 * 3600))⟩] := by decide
  have hparse : parseScopeToken "retain" = .ok ⟨"retain", .whole⟩ := by rfl
  intro query hquery t t' ht ht' hcovers hcovers'
  cases hparse.symm.trans hquery
  rw [htokens, List.mem_cons, List.mem_singleton] at ht ht'
  rcases ht with rfl | rfl
  · exact absurd hcovers (by decide)
  · rcases ht' with rfl | rfl
    · exact absurd hcovers' (by decide)
    · rfl

theorem window_read_beside_other_token :
    (retainQuery 12).now < Instant.ofSeconds (24 * 3600) ∧
      ((retainQuery 12).foldScopedStanceWithWinner
        (retainRows.map fun a => if a.attestationId = "grant" then
          samRetains ["retain:1d", "view"] else a) "retain" none).1.state =
        .granted := by
  have hspec := (windows_honoured_in_any_order (retainQuery 12) retainRows "retain" none
    (by decide) rfl).mpr retainRows_agree
  constructor
  · exact hspec.1 (samRetains ["view", "retain:1d"]) (by decide) (by rfl)
      ⟨"retain", .whole⟩ ⟨"retain", .window (Instant.ofSeconds (24 * 3600))⟩ _
      (by rfl) (by decide) (by decide) (by decide)
  · rw [hspec.2 _ (by
      intro a ha
      rw [retainRows, List.mem_cons, List.mem_singleton] at ha
      rcases ha with rfl | rfl
      · exact samRetains_permuted (List.Perm.swap _ _ _)
      · exact .refl _)]
    decide

end ConsentQuery
end CirisPersist.Federation
