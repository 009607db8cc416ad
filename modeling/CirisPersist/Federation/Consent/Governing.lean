import CirisPersist.Federation.Consent.Ratchet

/-!
# The row that governs a scoped grant

A scoped fold that grants also returns the row it grants by, and the retention bound
is read off that row.  It is a live grant of the subject's, later than every refusal
that the query meets.  It need not be one that survived: the clock's winner is
returned even where it was retired and an older grant keeps the consent open.
-/

namespace CirisPersist.Federation

/-!
## What a row says about a query
-/

def Attestation.UnexpiredAt (a : Attestation) (now : Instant) : Prop :=
  forall e, a.expiresAt = some e -> now < e

/-- The row names a token that covers the query, in the class that is asked for. -/
structure NamesScope (a : Attestation) (scope : String) (qualifier : Option String) : Prop where
  token : exists name token query, name ∈ namedScopes a ∧
    parseScopeToken name = .ok token ∧ parseScopeToken scope = .ok query ∧
    covers token query = true
  contentClass : forall c, qualifier = some c -> a.envelope.getStr? "content_class" = some c

theorem mem_scopeTokens_iff
    (a : Attestation) (token : ScopeToken) :
    token ∈ scopeTokens a <->
      exists name, name ∈ namedScopes a ∧ parseScopeToken name = .ok token := by
  simp only [scopeTokens, List.mem_filterMap, Checks.toOption_eq_some_iff]

theorem coveringToken_cases
    {a : Attestation} {scope : String} {qualifier : Option String} {t : ScopeToken}
    (h : coveringToken a scope qualifier = some t) :
    (namedScopes a = [] ∧ t = ⟨scope, .whole⟩) ∨
      (t ∈ scopeTokens a ∧
        (exists query, parseScopeToken scope = .ok query ∧ covers t query = true) ∧
        forall c, qualifier = some c -> a.envelope.getStr? "content_class" = some c) := by
  unfold coveringToken at h
  split at h
  · rename_i hnone
    split at h
    · cases h
    · cases h
      exact Or.inl ⟨hnone, rfl⟩
  · rcases Option.bind_eq_some_iff.mp h with ⟨query, hquery, h⟩
    rcases Option.bind_eq_some_iff.mp h with ⟨found, hfound, h⟩
    have hcovers := List.find?_some hfound
    have hown : found = t ∧
        forall c, qualifier = some c -> a.envelope.getStr? "content_class" = some c := by
      cases qualifier with
      | none =>
          refine ⟨Option.some.inj h, ?_⟩
          intro c hc
          cases hc
      | some c =>
          dsimp only at h
          split at h
          · rename_i hclass
            refine ⟨Option.some.inj h, ?_⟩
            intro c' hc'
            cases hc'
            exact hclass
          · cases h
    rw [← hown.1]
    exact Or.inr ⟨List.mem_of_find?_eq_some hfound,
      ⟨query, Checks.toOption_eq_some_iff.mp hquery, hcovers⟩, hown.2⟩

theorem coveringToken_of_named
    {a : Attestation} {scope : String} {qualifier : Option String} (hnamed : namedScopes a ≠ []) :
    (coveringToken a scope qualifier).isSome = true <-> NamesScope a scope qualifier := by
  constructor
  · intro h
    rcases Option.isSome_iff_exists.mp h with ⟨token, htoken⟩
    rcases coveringToken_cases htoken with ⟨hnone, -⟩ | ⟨hmem, ⟨query, hquery, hcovers⟩, hclass⟩
    · exact absurd hnone hnamed
    · rcases (mem_scopeTokens_iff a token).mp hmem with ⟨name, hname, hparse⟩
      exact ⟨⟨name, token, query, hname, hparse, hquery, hcovers⟩, hclass⟩
  · rintro ⟨⟨name, token, query, hname, hparse, hquery, hcovers⟩, hclass⟩
    have hmem : token ∈ scopeTokens a := (mem_scopeTokens_iff a token).mpr ⟨name, hname, hparse⟩
    have hfind : ((scopeTokens a).find? fun g => covers g query).isSome = true :=
      List.find?_isSome.mpr ⟨token, hmem, hcovers⟩
    rcases Option.isSome_iff_exists.mp hfind with ⟨found, hfound⟩
    unfold coveringToken
    rw [if_neg hnamed]
    cases qualifier with
    | none => simp [hquery, Except.toOption, hfound]
    | some c => simp [hquery, Except.toOption, hfound, hclass c rfl]

theorem matchesScopedQuery_iff
    (a : Attestation) (scope : String) (qualifier : Option String) :
    matchesScopedQuery a scope qualifier = true <->
      NamesScope a scope qualifier ∨ (namedScopes a = [] ∧ a.stance ≠ .granted) := by
  unfold matchesScopedQuery
  by_cases hnamed : namedScopes a = []
  · have hnone : ¬ NamesScope a scope qualifier := by
      rintro ⟨⟨name, _, _, hname, _⟩, _⟩
      rw [hnamed] at hname
      cases hname
    rw [ne_eq, ConsentQuery.stance_granted_iff]
    unfold coveringToken
    rw [if_pos hnamed]
    cases a.hasDimensionStem ConsentDimension.stateGrantedPrefix <;> simp [hnamed, hnone]
  · rw [coveringToken_of_named hnamed]
    simp [hnamed]

namespace ConsentQuery

variable {q : ConsentQuery} {rows : List Attestation} {scope : String} {qualifier : Option String}

theorem applies_iff
    (hscoped : q.scopedTo = some (scope, qualifier)) (a : Attestation) :
    q.applies a = true <-> a.UnexpiredAt q.now ∧ matchesScopedQuery a scope qualifier = true := by
  simp [applies, hscoped, Attestation.UnexpiredAt, Option.all_eq_true]

variable {w : Attestation}

theorem foldWinner_mem_candidates
    (h : (q.foldWinner rows).2 = some w) :
    w ∈ q.candidates rows := by
  unfold foldWinner at h
  split at h
  · exact ((mem_survivors_iff w).mp (MaxByKey.isMaxBy_of_maxByKey h).1).1
  · exact (MaxByKey.isMaxBy_of_maxByKey h).1

theorem author_of_granted_candidate
    (hw : w ∈ q.candidates rows) (hgrant : w.stance = .granted) :
    w.attestingKeyId = q.subject := by
  rcases (mem_candidates_iff w).mp hw with ⟨_, hin, _⟩
  simp only [inUniverse, Bool.and_eq_true, Bool.or_eq_true, beq_iff_eq] at hin
  rcases hin.2 with hauthor | hexpiry
  · exact hauthor
  · unfold substrateExpiryBoundToSubject at hexpiry
    rw [causalEdge_of_grant hgrant] at hexpiry
    simp at hexpiry

/-!
## Live grants
-/

/-- A grant of the subject's that the query meets, alive and later than every refusal the
query meets. -/
structure LiveGrant (q : ConsentQuery) (rows : List Attestation) (scope : String)
    (qualifier : Option String) (w : Attestation) : Prop where
  mem : w ∈ rows
  author : w.attestingKeyId = q.subject
  granted : w.hasDimensionStem ConsentDimension.stateGrantedPrefix = true
  unexpired : w.UnexpiredAt q.now
  named : NamesScope w scope qualifier
  latest : forall r, r ∈ rows -> r.attestingKeyId = q.subject ->
    r.hasDimensionStem ConsentDimension.statePrefix = true ->
    r.hasDimensionStem ConsentDimension.stateGrantedPrefix = false -> r.UnexpiredAt q.now ->
    NamesScope r scope qualifier ∨ namedScopes r = [] -> r.assertedAt < w.assertedAt

/-- The row is retired, or an unexpired row that the query meets names it as superseded. -/
def Removed (q : ConsentQuery) (rows : List Attestation) (scope : String)
    (qualifier : Option String) (w : Attestation) : Prop :=
  w.attestationId ∈ retiredIds rows ∨
    exists r, r ∈ rows ∧ r.UnexpiredAt q.now ∧ matchesScopedQuery r scope qualifier = true ∧
      causalEdge r = .names w.attestationId

def RemovedAreOutdated (q : ConsentQuery) (rows : List Attestation) (scope : String)
    (qualifier : Option String) : Prop :=
  forall g, g ∈ q.candidates rows -> g.stance = .granted ->
    q.Removed rows scope qualifier g ->
    exists c, c ∈ q.candidates rows ∧ foldOrderingKey g < foldOrderingKey c

theorem liveGrant_of_clockWinner
    (hscoped : q.scopedTo = some (scope, qualifier)) (hgrant : w.stance = .granted)
    (hmax : MaxByKey.IsMaxBy foldOrderingKey (q.candidates rows) w) :
    q.LiveGrant rows scope qualifier w := by
  rcases (mem_candidates_iff w).mp hmax.1 with ⟨hrow, hin, happlies⟩
  rcases (applies_iff hscoped w).mp happlies with ⟨hunexpired, hmatches⟩
  refine ⟨hrow, author_of_granted_candidate hmax.1 hgrant, (stance_granted_iff w).mp hgrant,
    hunexpired, ?_, ?_⟩
  · rcases (matchesScopedQuery_iff w scope qualifier).mp hmatches with hnamed | ⟨_, hrefusal⟩
    · exact hnamed
    · exact absurd hgrant hrefusal
  · intro r hr hauthor hstate hnotGrant hunexpired' hmeets
    have hrefusal : r.stance ≠ .granted := by
      rw [ne_eq, stance_granted_iff, hnotGrant]
      exact Bool.false_ne_true
    have hmatches' : matchesScopedQuery r scope qualifier = true :=
      (matchesScopedQuery_iff r scope qualifier).mpr (hmeets.imp_right fun h => ⟨h, hrefusal⟩)
    have hcandidate : r ∈ q.candidates rows := by
      refine (mem_candidates_iff r).mpr ⟨hr, ?_, (applies_iff hscoped r).mpr
        ⟨hunexpired', hmatches'⟩⟩
      simp [inUniverse, hstate, hauthor]
    exact assertedAt_lt_of_foldOrderingKey_le hgrant hrefusal (hmax.2 r hcandidate)

/-- The row a scoped fold grants by is a live grant, and was not removed exactly when
every grant that was removed is outdated. -/
theorem granted_winner_governs_iff
    (hdistinct : (rows.map Attestation.attestationId).Nodup)
    (hscoped : q.scopedTo = some (scope, qualifier)) {w : Attestation}
    (hstate : (q.foldScopedStanceWithWinner rows scope qualifier).1.state = ConsentState.granted)
    (hwinner : (q.foldScopedStanceWithWinner rows scope qualifier).2 = some w) :
    q.LiveGrant rows scope qualifier w ∧
      (¬ q.Removed rows scope qualifier w <-> q.RemovedAreOutdated rows scope qualifier) := by
  rcases (foldScopedStance_granted_iff rows scope qualifier).mp hstate with ⟨winner, hfold, _⟩
  have hsame : winner = some w := by
    have hsecond : (q.foldScopedStanceWithWinner rows scope qualifier).2 = (q.foldWinner rows).2 :=
      rfl
    rw [hsecond, hfold] at hwinner
    exact hwinner
  rcases (foldWinner_granted_iff winner).mp hfold with ⟨hclock, hclockGrant, _⟩
  rw [hsame] at hclock
  rw [← hclock] at hclockGrant
  have hgrant : w.stance = ConsentState.granted := by
    rcases (stanceOf_granted_iff _).mp hclockGrant with ⟨w', hw', hgrant⟩
    cases hw'
    exact hgrant
  have hmax := (clockWinner_eq_some_iff hdistinct w).mp hclock.symm
  refine ⟨liveGrant_of_clockWinner hscoped hgrant hmax, ?_, ?_⟩
  · intro hkept g hg hgrant' hremoved
    refine ⟨w, hmax.1, lt_of_le_of_ne (hmax.2 g hg) fun hkey => ?_⟩
    have hid : g.attestationId = w.attestationId :=
      congrArg (fun k : Instant ×ₗ Nat ×ₗ String => (ofLex (ofLex k).2).2) hkey
    have heq : g = w := List.inj_on_of_nodup_map hdistinct ((mem_candidates_iff g).mp hg).1
      ((mem_candidates_iff w).mp hmax.1).1 hid
    exact hkept (heq ▸ hremoved)
  · intro houtdated hremoved
    rcases houtdated w hmax.1 hgrant hremoved with ⟨c, hc, hlater⟩
    exact absurd (hmax.2 c hc) (not_le.mpr hlater)

/-!
## Samples
-/

def samShares (id : String) (seconds : Int) : Attestation :=
  statement id "sam" "consent:state:granted:v1" seconds [("scope", .str "share")]
    .scores

def shareQuery : ConsentQuery :=
  ⟨"sam", Instant.ofSeconds 100, some ("share", none)⟩

def olderWithdrawn : List Attestation :=
  [samShares "old" 10, samShares "new" 20, withdrawsBy "sam" "w" "old" 30]

def laterWithdrawn : List Attestation :=
  [samShares "old" 10, samShares "new" 20, withdrawsBy "sam" "w" "new" 30]

theorem olderWithdrawn_governed :
    shareQuery.LiveGrant olderWithdrawn "share" none (samShares "new" 20) ∧
      (¬ shareQuery.Removed olderWithdrawn "share" none (samShares "new" 20) <->
        shareQuery.RemovedAreOutdated olderWithdrawn "share" none) ∧
      "new" ∉ retiredIds olderWithdrawn := by
  have hwinner : (shareQuery.foldScopedStanceWithWinner olderWithdrawn "share" none).2 =
      some (samShares "new" 20) := by rfl
  have hspec := granted_winner_governs_iff (by decide) rfl (by decide) hwinner
  exact ⟨hspec.1, hspec.2, by decide⟩

/-- The later grant is returned although its author withdrew it: the older one keeps the
consent open. -/
theorem laterWithdrawn_governed_by_retired :
    (laterWithdrawn.map Attestation.attestationId).Nodup ∧
      (shareQuery.foldScopedStanceWithWinner laterWithdrawn "share" none).1.state =
        .granted ∧
      (shareQuery.foldScopedStanceWithWinner laterWithdrawn "share" none).2 =
        some (samShares "new" 20) ∧
      (samShares "new" 20).attestationId ∈ retiredIds laterWithdrawn := by
  refine ⟨by decide, by decide, by rfl, by decide⟩

end ConsentQuery

end CirisPersist.Federation
