import CirisPersist.Federation.Consent.Fold

/-!
# The consent ratchet

Consent is re-opened by a later grant that wins on its own instant.  While the latest
statement is a refusal, no row but a grant of the subject's re-opens it: the ratchet takes
the clock's answer whatever was retired or superseded.  Once a grant is the latest
statement, only a standing refusal keeps the consent closed.  Then a row must leave the
refusals alone: it is not the statement one of them was waiting for, and it neither retires
nor supersedes one of them.
-/

namespace CirisPersist.Federation
namespace ConsentQuery

open MaxByKey ConsentState

variable {q : ConsentQuery} {rows : List Attestation}

/-!
## When the fold grants
-/

theorem restrictionRank_eq_zero_iff
    (s : ConsentState) :
    restrictionRank s = 0 <-> s = granted := by
  cases s <;> simp [restrictionRank]

theorem stanceOf_granted_iff
    (winner : Option Attestation) :
    stanceOf winner = granted <-> exists w, winner = some w ∧ w.stance = granted := by
  cases winner with
  | none => simp [stanceOf, consentStateOf]
  | some w => simp [stanceOf, Attestation.stance]

theorem foldWinner_granted_iff
    (winner : Option Attestation) :
    q.foldWinner rows = (granted, winner) <->
      winner = q.clockWinner rows ∧
        stanceOf (q.clockWinner rows) = granted ∧
        stanceOf (q.causalWinner rows) = granted := by
  unfold foldWinner
  by_cases hcausal : stanceOf (q.causalWinner rows) = granted
  · rw [if_neg (by simp [hcausal, restrictionRank])]
    simp only [Prod.mk.injEq, hcausal, and_true]
    exact ⟨fun h => ⟨h.2.symm, h.1⟩, fun h => ⟨h.2, h.1.symm⟩⟩
  · simp only [hcausal, and_false, iff_false]
    split
    · rw [Prod.mk.injEq]
      exact fun h => hcausal h.1
    · rename_i hrank
      rw [Prod.mk.injEq]
      intro h
      rw [h.1] at hrank
      exact hcausal ((restrictionRank_eq_zero_iff _).mp (Nat.le_zero.mp (not_lt.mp hrank)))

/-- The retention window of the row, if the query reads one, has not passed. -/
def WindowOpen (q : ConsentQuery) (w : Attestation) : Prop :=
  forall scope qualifier, q.scopedTo = some (scope, qualifier) ->
    forall t, coveringToken w scope qualifier = some t ->
      forall e, retainUntil t w.assertedAt = some e -> q.now < e

theorem foldScopedStance_granted_iff
    (rows : List Attestation) (scope : String) (qualifier : Option String) :
    (q.foldScopedStanceWithWinner rows scope qualifier).1.state = granted <->
      exists winner, q.foldWinner rows = (granted, winner) ∧
        forall w, winner = some w -> forall t, coveringToken w scope qualifier = some t ->
          forall e, retainUntil t w.assertedAt = some e -> q.now < e := by
  rcases hfold : q.foldWinner rows with ⟨state, winner⟩
  simp only [foldScopedStanceWithWinner, hfold, Prod.mk.injEq]
  by_cases hstate : state = granted
  · have hany : ((winner.bind fun w => (coveringToken w scope qualifier).bind fun t =>
        retainUntil t w.assertedAt).any fun e => decide (e ≤ q.now)) = true <->
        exists w, winner = some w ∧ exists t, coveringToken w scope qualifier = some t ∧
          exists e, retainUntil t w.assertedAt = some e ∧ e ≤ q.now := by
      simp only [Option.any_eq_true, Option.bind_eq_some_iff, decide_eq_true_iff]
      constructor
      · rintro ⟨e, ⟨w, hw, t, ht, he⟩, hle⟩
        exact ⟨w, hw, t, ht, e, he, hle⟩
      · rintro ⟨w, hw, t, ht, e, he, hle⟩
        exact ⟨e, ⟨w, hw, t, ht, he⟩, hle⟩
    simp only [hstate, true_and, hany, exists_eq_left']
    split
    · rename_i hpast
      rcases hpast with ⟨w, hw, t, ht, e, he, hle⟩
      simp only [reduceCtorEq, false_iff]
      intro hopen
      exact absurd (hopen w hw t ht e he) (not_lt.mpr hle)
    · rename_i hpast
      simp only [true_iff]
      intro w hw t ht e he
      by_contra hle
      exact hpast ⟨w, hw, t, ht, e, he, not_lt.mp hle⟩
  · simp [hstate]

theorem foldStance_granted_iff_winners
    (q : ConsentQuery) (rows : List Attestation) :
    q.foldStance rows = granted <->
      exists w, q.clockWinner rows = some w ∧ w.stance = granted ∧
        q.WindowOpen w ∧
        exists g, q.causalWinner rows = some g ∧ g.stance = granted := by
  have hwinner : (exists winner, q.foldWinner rows = (granted, winner) ∧
        forall w, winner = some w -> q.WindowOpen w) <->
      exists w, q.clockWinner rows = some w ∧ w.stance = granted ∧
        q.WindowOpen w ∧
        exists g, q.causalWinner rows = some g ∧ g.stance = granted := by
    simp only [foldWinner_granted_iff, stanceOf_granted_iff]
    constructor
    · rintro ⟨winner, ⟨rfl, ⟨w, hw, hgrant⟩, hcausal⟩, hopen⟩
      exact ⟨w, hw, hgrant, hopen w hw, hcausal⟩
    · rintro ⟨w, hw, hgrant, hopen, hcausal⟩
      refine ⟨some w, ⟨hw.symm, ⟨w, hw, hgrant⟩, hcausal⟩, ?_⟩
      intro w' hw'
      cases hw'
      exact hopen
  rw [← hwinner]
  unfold foldStance WindowOpen
  cases hscoped : q.scopedTo with
  | none =>
      rcases q.foldWinner rows with ⟨state, winner⟩
      simp
  | some pair =>
      rcases pair with ⟨scope, qualifier⟩
      simp [foldScopedStance_granted_iff]

/-!
## Statements, candidates and what removes them
-/

theorem stance_granted_iff
    (a : Attestation) :
    a.stance = granted <-> a.hasDimensionStem ConsentDimension.stateGrantedPrefix = true := by
  unfold Attestation.stance consentStateOf Attestation.hasDimensionStem
  cases a.dimension.any (Text.startsWith ConsentDimension.stateGrantedPrefix) with
  | true => simp
  | false =>
      simp only [Bool.false_eq_true, if_false, iff_false]
      split
      · simp
      · split <;> simp

variable {a : Attestation}

theorem causalEdge_of_grant
    (h : a.stance = granted) :
    causalEdge a = .absent := by
  simp [causalEdge, h]

theorem namedTarget_eq_some_iff
    (a : Attestation) (target : String) :
    namedTarget a = some target <-> causalEdge a = .names target := by
  unfold namedTarget
  cases causalEdge a <;> simp

theorem mem_candidates_iff
    (a : Attestation) :
    a ∈ q.candidates rows <-> a ∈ rows ∧ q.inUniverse rows a = true ∧ q.applies a = true := by
  simp only [candidates, consentUniverse, List.mem_filter, and_assoc]

theorem mem_known_iff
    (id : String) :
    id ∈ q.known rows <->
      exists a, a ∈ rows ∧ q.inUniverse rows a = true ∧ a.attestationId = id := by
  simp [known, consentUniverse, and_assoc]

theorem mem_survivors_iff
    (a : Attestation) :
    a ∈ q.survivors rows <-> a ∈ q.candidates rows ∧ a.attestationId ∉ q.eliminated rows := by
  simp [survivors]

theorem mem_eliminated_iff
    (id : String) :
    id ∈ q.eliminated rows <->
      id ∈ retiredIds rows ∨
        exists c, c ∈ q.candidates rows ∧ causalEdge c = .names id := by
  simp [eliminated, namedTarget_eq_some_iff]

theorem clockWinner_eq_some_iff
    (hdistinct : (rows.map Attestation.attestationId).Nodup) (w : Attestation) :
    q.clockWinner rows = some w <-> IsMaxBy foldOrderingKey (q.candidates rows) w := by
  apply maxByKey_eq_some_iff
  intro a ha b hb hkey
  simp only [foldOrderingKey, EmbeddingLike.apply_eq_iff_eq, Prod.mk.injEq] at hkey
  exact List.inj_on_of_nodup_map hdistinct ((mem_candidates_iff a).mp ha).1
    ((mem_candidates_iff b).mp hb).1 hkey.2.2

theorem causalFoldOrderingKey_inj
    (hdistinct : (rows.map Attestation.attestationId).Nodup) {known : Finset String}
    {b : Attestation} (ha : a ∈ q.candidates rows) (hb : b ∈ q.candidates rows)
    (hkey : causalFoldOrderingKey known a = causalFoldOrderingKey known b) :
    a = b := by
  simp only [causalFoldOrderingKey, foldOrderingKey, EmbeddingLike.apply_eq_iff_eq,
    Prod.mk.injEq] at hkey
  exact List.inj_on_of_nodup_map hdistinct ((mem_candidates_iff a).mp ha).1
    ((mem_candidates_iff b).mp hb).1 hkey.2.2.2

theorem causalWinner_eq_some_iff
    (hdistinct : (rows.map Attestation.attestationId).Nodup) (g : Attestation) :
    q.causalWinner rows = some g <->
      IsMaxBy (causalFoldOrderingKey (q.known rows)) (q.survivors rows) g := by
  apply maxByKey_eq_some_iff
  intro a ha b hb hkey
  exact causalFoldOrderingKey_inj hdistinct ((mem_survivors_iff a).mp ha).1
    ((mem_survivors_iff b).mp hb).1 hkey

theorem assertedAt_lt_of_foldOrderingKey_le
    {w r : Attestation} (hgrant : w.stance = granted)
    (hrefusal : r.stance ≠ granted) (h : foldOrderingKey r ≤ foldOrderingKey w) :
    r.assertedAt < w.assertedAt := by
  have hrank : restrictionRank r.stance ≠ 0 :=
    fun hzero => hrefusal ((restrictionRank_eq_zero_iff _).mp hzero)
  simp only [foldOrderingKey, Prod.Lex.toLex_le_toLex, hgrant, restrictionRank, Nat.not_lt_zero,
    false_or] at h
  rcases h with hlt | ⟨_, heq, _⟩
  · exact hlt
  · exact absurd heq hrank

/-!
## One more row
-/

/-- Some grant is later than every refusal the query meets: the clock alone would grant. -/
def LatestIsGrant (q : ConsentQuery) (rows : List Attestation) : Prop :=
  exists g, g ∈ q.candidates rows ∧ g.stance = .granted ∧
    forall r, r ∈ q.candidates rows -> r.stance ≠ .granted ->
      r.assertedAt < g.assertedAt

theorem latestIsGrant_of_isMaxBy
    {w : Attestation} (hmax : IsMaxBy foldOrderingKey (q.candidates rows) w)
    (hgrant : w.stance = granted) :
    q.LatestIsGrant rows :=
  ⟨w, hmax.1, hgrant, fun r hr hrefusal =>
    assertedAt_lt_of_foldOrderingKey_le hgrant hrefusal (hmax.2 r hr)⟩

structure SparesRefusals (q : ConsentQuery) (rows : List Attestation) (x : Attestation) :
    Prop where
  notAwaited : q.inUniverse rows x = true -> forall r, r ∈ q.candidates rows ->
    causalEdge r ≠ .names x.attestationId
  retiresNone : x.isRetraction = true -> forall r, r ∈ q.candidates rows ->
    r.stance ≠ .granted ->
    referencesAttestationId x = some r.attestationId -> retractionEntitled x r = false
  supersedesNone : q.inUniverse rows x = true -> q.applies x = true ->
    forall r, r ∈ q.candidates rows -> r.stance ≠ .granted ->
    causalEdge x ≠ .names r.attestationId

section Added

variable {rows' : List Attestation} {x : Attestation}

/-- The rows with one more among them, under a fresh id, that is no grant of the
subject's. -/
structure Added (q : ConsentQuery) (rows rows' : List Attestation) (x : Attestation) :
    Prop where
  distinct : ((x :: rows).map Attestation.attestationId).Nodup
  perm : rows'.Perm (x :: rows)
  notGrant : ¬ (x.attestingKeyId = q.subject ∧ x.stance = .granted)

section AddedRow

variable (hadded : Added q rows rows' x)

include hadded

theorem Added.distinct' :
    (rows'.map Attestation.attestationId).Nodup :=
  (hadded.perm.map Attestation.attestationId).nodup_iff.mpr hadded.distinct

theorem Added.subset :
    rows ⊆ rows' :=
  fun _ ha => hadded.perm.mem_iff.mpr (List.mem_cons_of_mem _ ha)

theorem inUniverse_added
    (a : Attestation) :
    q.inUniverse rows' a = q.inUniverse rows a := by
  have hx : forall id at_, isLapsedGrant q.subject id at_ x = false := by
    intro id at_
    rw [Bool.eq_false_iff]
    intro hlapsed
    simp only [isLapsedGrant, Bool.and_eq_true, beq_iff_eq] at hlapsed
    exact hadded.notGrant ⟨hlapsed.1.1.2, (stance_granted_iff x).mpr hlapsed.1.2⟩
  have hsame : substrateExpiryBoundToSubject a rows' q.subject =
      substrateExpiryBoundToSubject a rows q.subject := by
    unfold substrateExpiryBoundToSubject
    simp only [hadded.perm.any_eq, List.any_cons, hx, Bool.false_or]
  rw [inUniverse, inUniverse, hsame]

theorem mem_candidates_added_iff
    (a : Attestation) :
    a ∈ q.candidates rows' <->
      a ∈ q.candidates rows ∨ (a = x ∧ q.inUniverse rows x = true ∧ q.applies x = true) := by
  rw [mem_candidates_iff, mem_candidates_iff, inUniverse_added hadded,
    hadded.perm.mem_iff, List.mem_cons]
  constructor
  · rintro ⟨rfl | hrow, hin, happlies⟩
    · exact Or.inr ⟨rfl, hin, happlies⟩
    · exact Or.inl ⟨hrow, hin, happlies⟩
  · rintro (⟨hrow, hin, happlies⟩ | ⟨rfl, hin, happlies⟩)
    · exact ⟨Or.inr hrow, hin, happlies⟩
    · exact ⟨Or.inl rfl, hin, happlies⟩

theorem mem_candidates_of_grant
    (ha : a ∈ q.candidates rows') (hgrant : a.stance = granted) :
    a ∈ q.candidates rows := by
  rcases (mem_candidates_added_iff hadded a).mp ha with hold | ⟨rfl, hin, -⟩
  · exact hold
  · simp only [inUniverse, Bool.and_eq_true, Bool.or_eq_true, beq_iff_eq] at hin
    rcases hin.2 with hauthor | hexpiry
    · exact absurd ⟨hauthor, hgrant⟩ hadded.notGrant
    · unfold substrateExpiryBoundToSubject at hexpiry
      rw [causalEdge_of_grant hgrant] at hexpiry
      simp at hexpiry

theorem eliminated_subset_added :
    q.eliminated rows ⊆ q.eliminated rows' := by
  intro id hid
  rw [mem_eliminated_iff] at hid ⊢
  rcases hid with hretired | ⟨c, hc, hnames⟩
  · exact Or.inl (retiredIds_subset hadded.distinct.of_cons hadded.distinct' hadded.subset hretired)
  · exact Or.inr ⟨c, (mem_candidates_added_iff hadded c).mpr (Or.inl hc), hnames⟩

theorem not_eliminated_added
    (hspares : q.SparesRefusals rows x) {r : Attestation} (hr : r ∈ q.candidates rows)
    (hrefusal : r.stance ≠ granted) (hstood : r.attestationId ∉ q.eliminated rows) :
    r.attestationId ∉ q.eliminated rows' := by
  have hrow : r ∈ rows := ((mem_candidates_iff r).mp hr).1
  have hrow' : r ∈ rows' := hadded.subset hrow
  intro hgone
  rcases (mem_eliminated_iff _).mp hgone with hretired | ⟨c, hc, hnames⟩
  · rcases (mem_retiredIds_iff _ _).mp hretired with
      ⟨g, hg, hretracts, href, target, htarget, hentitled⟩
    rcases (rowById_eq_some_iff hadded.distinct' _ target).mp htarget with ⟨hmem, hid⟩
    have hsame := List.inj_on_of_nodup_map hadded.distinct' hmem hrow' hid
    subst hsame
    cases List.mem_cons.mp (hadded.perm.mem_iff.mp hg) with
    | inl hx =>
        subst hx
        have hnot := hspares.retiresNone hretracts target hr hrefusal href
        rw [hentitled] at hnot
        cases hnot
    | inr hold =>
        refine hstood ((mem_eliminated_iff _).mpr (Or.inl ((mem_retiredIds_iff _ _).mpr ?_)))
        exact ⟨g, hold, hretracts, href, target,
          (rowById_eq_some_iff hadded.distinct.of_cons _ target).mpr ⟨hrow, rfl⟩, hentitled⟩
  · rcases (mem_candidates_added_iff hadded c).mp hc with hold | ⟨rfl, hin, happlies⟩
    · exact hstood ((mem_eliminated_iff _).mpr (Or.inr ⟨c, hold, hnames⟩))
    · exact hspares.supersedesNone hin happlies r hr hrefusal hnames

theorem causalRank_added
    (hspares : q.SparesRefusals rows x) {r : Attestation} (hr : r ∈ q.candidates rows) :
    causalRank r (q.known rows') = causalRank r (q.known rows) := by
  unfold causalRank
  cases hedge : causalEdge r with
  | absent => rfl
  | unusable => rfl
  | names target =>
      have hknown : target ∈ q.known rows' <-> target ∈ q.known rows := by
        simp only [mem_known_iff, inUniverse_added hadded, hadded.perm.mem_iff, List.mem_cons]
        constructor
        · rintro ⟨a, rfl | hrow, hin, hid⟩
          · exact absurd (hid ▸ hedge) (hspares.notAwaited hin r hr)
          · exact ⟨a, hrow, hin, hid⟩
        · rintro ⟨a, hrow, hin, hid⟩
          exact ⟨a, Or.inr hrow, hin, hid⟩
      simp only [hknown]

theorem clock_grant_before
    {w : Attestation} (hmax : IsMaxBy foldOrderingKey (q.candidates rows') w)
    (hgrant : w.stance = granted) :
    IsMaxBy foldOrderingKey (q.candidates rows) w := by
  refine ⟨mem_candidates_of_grant hadded hmax.1 hgrant, ?_⟩
  intro a ha
  exact hmax.2 a ((mem_candidates_added_iff hadded a).mpr (Or.inl ha))

theorem causal_grant_before
    (hspares : q.SparesRefusals rows x) {g : Attestation}
    (hmax : IsMaxBy (causalFoldOrderingKey (q.known rows')) (q.survivors rows') g)
    (hgrant : g.stance = granted) :
    exists m, q.causalWinner rows = some m ∧ m.stance = granted := by
  rcases (mem_survivors_iff g).mp hmax.1 with ⟨hcand', hstands'⟩
  have hcand := mem_candidates_of_grant hadded hcand' hgrant
  have hstands : g.attestationId ∉ q.eliminated rows :=
    fun hgone => hstands' (eliminated_subset_added hadded hgone)
  have hg : g ∈ q.survivors rows := (mem_survivors_iff g).mpr ⟨hcand, hstands⟩
  rcases maxByKey_isSome_of_mem (causalFoldOrderingKey (q.known rows)) hg with ⟨m, hm⟩
  refine ⟨m, hm, ?_⟩
  by_contra hrefusal
  -- a refusal on top would still be there, with the same key, and beat the grant
  rcases isMaxBy_of_maxByKey hm with ⟨hmem, hbound⟩
  rcases (mem_survivors_iff m).mp hmem with ⟨hmcand, hmstands⟩
  have hmem' : m ∈ q.survivors rows' := by
    refine (mem_survivors_iff m).mpr ⟨?_, ?_⟩
    · exact (mem_candidates_added_iff hadded m).mpr (Or.inl hmcand)
    · exact not_eliminated_added hadded hspares hmcand hrefusal hmstands
  have hle := hmax.2 m hmem'
  have hkeys : forall a, a ∈ q.candidates rows ->
      causalFoldOrderingKey (q.known rows') a = causalFoldOrderingKey (q.known rows) a := by
    intro a ha
    rw [causalFoldOrderingKey, causalFoldOrderingKey, causalRank_added hadded hspares ha]
  rw [hkeys m hmcand, hkeys g hcand] at hle
  have hsame := causalFoldOrderingKey_inj hadded.distinct.of_cons hmcand hcand
    (le_antisymm hle (hbound g hg))
  exact hrefusal (hsame ▸ hgrant)

end AddedRow

end Added

theorem refusal_stands_without_grant
    (q : ConsentQuery) (rows rows' : List Attestation) (x : Attestation)
    (hdistinct : ((x :: rows).map Attestation.attestationId).Nodup)
    (hperm : rows'.Perm (x :: rows))
    (hnotGrant : ¬ (x.attestingKeyId = q.subject ∧
      x.hasDimensionStem ConsentDimension.stateGrantedPrefix = true))
    (hspares : q.LatestIsGrant rows -> q.SparesRefusals rows x)
    (hrefused : q.foldStance rows ≠ ConsentState.granted) :
    q.foldStance rows' ≠ ConsentState.granted := by
  rw [← stance_granted_iff] at hnotGrant
  have hadded : Added q rows rows' x := ⟨hdistinct, hperm, hnotGrant⟩
  intro hgranted
  rcases (foldStance_granted_iff_winners q rows').mp hgranted with
    ⟨w, hclock, hgrantW, hopen, g, hcausal, hgrantG⟩
  rw [clockWinner_eq_some_iff hadded.distinct'] at hclock
  rw [causalWinner_eq_some_iff hadded.distinct'] at hcausal
  -- the added row is no grant, so the clock would have granted before it came
  have hbefore := clock_grant_before hadded hclock hgrantW
  have hlatest := latestIsGrant_of_isMaxBy hbefore hgrantW
  apply hrefused
  refine (foldStance_granted_iff_winners q rows).mpr ⟨w, ?_, hgrantW, hopen, ?_⟩
  · exact (clockWinner_eq_some_iff hdistinct.of_cons w).mpr hbefore
  · exact causal_grant_before hadded (hspares hlatest) hcausal hgrantG

def statement (id author dimension : String) (seconds : Int)
    (fields : List (String × Json)) (rowType : AttestationType) : Attestation :=
  .ofAuthor id author "target" rowType (Instant.ofSeconds seconds)
    (("dimension", .str dimension) :: fields)

def samGrants (id : String) (seconds : Int) : Attestation :=
  statement id "sam" "consent:state:granted:v1" seconds [] .scores

def samRevokes (id : String) (seconds : Int) (fields : List (String × Json)) : Attestation :=
  statement id "sam" "consent:state:revoked:v1" seconds fields .scores

def withdrawsBy (author id target : String) (seconds : Int) : Attestation :=
  statement id author "note" seconds [("references_attestation_id", .str target)]
    .withdraws

def samQuery : ConsentQuery :=
  ⟨"sam", Instant.ofSeconds 100, none⟩

def refusedRows : List Attestation :=
  [samGrants "grant" 10, samRevokes "refusal" 20 []]

/-- A refusal that removes the latest grant and outlasts an older one. -/
def supersedingRows : List Attestation :=
  [samGrants "older" 10, samRevokes "refusal" 20 [("consent_supersedes", .str "latest")],
    samGrants "latest" 30]

theorem refusedRows_latest_refusal :
    ¬ samQuery.LatestIsGrant refusedRows := by
  rintro ⟨g, hg, hgrant, hlater⟩
  have hrefusal : samRevokes "refusal" 20 [] ∈ samQuery.candidates refusedRows :=
    (mem_candidates_iff _).mpr ⟨List.mem_cons_of_mem _ List.mem_cons_self, by decide, by decide⟩
  have hlt := hlater _ hrefusal (by decide)
  have hrow : g = samGrants "grant" 10 ∨ g = samRevokes "refusal" 20 [] := by
    simpa [refusedRows] using ((mem_candidates_iff g).mp hg).1
  rcases hrow with rfl | rfl
  · exact absurd hlt (by decide)
  · exact absurd hgrant (by decide)

theorem stranger_spares_refusals :
    samQuery.SparesRefusals supersedingRows (withdrawsBy "eve" "x" "refusal" 40) where
  notAwaited := by
    intro hin
    exact absurd hin (by decide)
  retiresNone := by
    intro _ r hr hrefusal _
    have hrow : r = samGrants "older" 10 ∨
        r = samRevokes "refusal" 20 [("consent_supersedes", .str "latest")] ∨
        r = samGrants "latest" 30 := by
      simpa [supersedingRows] using ((mem_candidates_iff r).mp hr).1
    rcases hrow with rfl | rfl | rfl
    · exact absurd (by decide) hrefusal
    · decide
    · exact absurd (by decide) hrefusal
  supersedesNone := by
    intro hin
    exact absurd hin (by decide)

/-- The subject's own retraction of the latest refusal and a back-dated refusal that names it
re-open nothing, nor does a stranger's retraction where a grant is the latest statement. -/
theorem refusedRows_stand :
    samQuery.foldStance (withdrawsBy "sam" "x" "refusal" 30 :: refusedRows) ≠
        .granted ∧
      samQuery.foldStance
          (samRevokes "x" 0 [("consent_supersedes", .str "refusal")] :: refusedRows) ≠
        .granted ∧
      samQuery.foldStance (withdrawsBy "eve" "x" "refusal" 40 :: supersedingRows) ≠
        .granted := by
  refine ⟨?_, ?_, ?_⟩
  · exact refusal_stands_without_grant samQuery refusedRows _ _ (by decide) (List.Perm.refl _)
      (by decide) (fun h => absurd h refusedRows_latest_refusal) (by decide)
  · exact refusal_stands_without_grant samQuery refusedRows _ _ (by decide) (List.Perm.refl _)
      (by decide) (fun h => absurd h refusedRows_latest_refusal) (by decide)
  · exact refusal_stands_without_grant samQuery supersedingRows _ _ (by decide)
      (List.Perm.refl _) (by decide) (fun _ => stranger_spares_refusals) (by decide)

/-- A refusal that waits for the statement it names, and a later grant. -/
def awaitingRows : List Attestation :=
  [samRevokes "refusal" 5 [("consent_supersedes", .str "x")], samGrants "later" 10]

abbrev ReopenedBy (rows : List Attestation) (x : Attestation) : Prop :=
  ((x :: rows).map Attestation.attestationId).Nodup ∧
    ¬ (x.attestingKeyId = samQuery.subject ∧
      x.hasDimensionStem ConsentDimension.stateGrantedPrefix = true) ∧
    samQuery.foldStance rows = .revoked ∧
    samQuery.foldStance (x :: rows) = .granted

/-- The awaited statement arrives, the subject withdraws the refusal, or a further
refusal supersedes it: each time the older grant is left on top. -/
theorem consent_reopened_without_grant :
    ReopenedBy awaitingRows (samRevokes "x" 1 []) ∧
      ReopenedBy supersedingRows (withdrawsBy "sam" "x" "refusal" 40) ∧
      ReopenedBy supersedingRows
        (samRevokes "x" 2 [("consent_supersedes", .str "refusal")]) := by
  refine ⟨?_, ?_, ?_⟩ <;> decide

end ConsentQuery
end CirisPersist.Federation
