import CirisPersist.Federation.Consent.Ratchet

/-!
# A node that misses a grant

A refusal names the grant it supersedes.  On a node that never received the grant the edge
does not resolve, and the refusal ranks above the clock until the grant arrives.  This keeps
the node's answer on the safe side as long as the refusal stands there, and so does a refusal
that is the latest statement left.  Neither helps when the missing grant is also what ties
another key's expiry record to the subject: without the grant that record says nothing.
-/

namespace CirisPersist.Federation
namespace ConsentQuery

open MaxByKey

variable {q : ConsentQuery} {rows : List Attestation} {g : Attestation}

/-!
## The rows without the grant
-/

def withoutRow (rows : List Attestation) (g : Attestation) : List Attestation :=
  rows.filter fun a => decide (a.attestationId ≠ g.attestationId)

theorem mem_withoutRow_iff
    (a : Attestation) :
    a ∈ withoutRow rows g <-> a ∈ rows ∧ a.attestationId ≠ g.attestationId := by
  simp [withoutRow]

structure IsGrantOf (q : ConsentQuery) (rows : List Attestation) (g : Attestation) : Prop where
  distinct : (rows.map Attestation.attestationId).Nodup
  mem : g ∈ rows
  author : g.attestingKeyId = q.subject
  granted : g.stance = .granted

/-- A statement of the subject's own that the query meets and that stands without the grant:
no other row retires it, and no statement the query meets names it. -/
structure StandsWithout (q : ConsentQuery) (rows : List Attestation) (g n : Attestation) :
    Prop where
  mem : n ∈ rows
  other : n.attestationId ≠ g.attestationId
  author : n.attestingKeyId = q.subject
  state : n.hasDimensionStem ConsentDimension.statePrefix = true
  applies : q.applies n = true
  notRetired : ¬ EntitledRetraction (withoutRow rows g) n.attestationId
  notNamed : forall c, c ∈ rows -> q.inUniverse rows c = true -> q.applies c = true ->
    causalEdge c ≠ .names n.attestationId

def Awaited (q : ConsentQuery) (rows : List Attestation) (g : Attestation) : Prop :=
  exists n, q.StandsWithout rows g n ∧ causalEdge n = .names g.attestationId

/-- Another key's expiry record that the query meets through the grant alone. -/
structure TiedRecord (q : ConsentQuery) (rows : List Attestation) (g e : Attestation) :
    Prop where
  mem : e ∈ rows
  stranger : e.attestingKeyId ≠ q.subject
  bound : substrateExpiryBoundToSubject e rows q.subject = true
  applies : q.applies e = true
  names : causalEdge e = .names g.attestationId

/-- Nothing but the order of the grants hangs on the grant: a record tied through it is
earlier than a grant that stands, it retires no grant, and its window is open unless a later
statement speaks in its place. -/
structure OnlyGrants (q : ConsentQuery) (rows : List Attestation) (g : Attestation) : Prop where
  recordsOutdated : forall e, q.TiedRecord rows g e ->
    exists m, q.StandsWithout rows g m ∧ m.stance = .granted ∧
      e.assertedAt < m.assertedAt
  retiresNone : g.isRetraction = true -> forall m, m ∈ rows ->
    m.stance = .granted -> referencesAttestationId g = some m.attestationId ->
    retractionEntitled g m = false
  windowOpen : q.applies g = true -> q.WindowOpen g ∨
    exists c, c ∈ rows ∧ q.inUniverse rows c = true ∧ q.applies c = true ∧
      g.assertedAt < c.assertedAt

theorem IsGrantOf.distinct'
    (h : q.IsGrantOf rows g) :
    ((withoutRow rows g).map Attestation.attestationId).Nodup :=
  h.distinct.sublist (List.filter_sublist.map _)

theorem IsGrantOf.mem_iff
    (h : q.IsGrantOf rows g) (a : Attestation) :
    a ∈ rows <-> a = g ∨ a ∈ withoutRow rows g := by
  rw [mem_withoutRow_iff]
  constructor
  · intro ha
    by_cases hid : a.attestationId = g.attestationId
    · exact Or.inl (List.inj_on_of_nodup_map h.distinct ha h.mem hid)
    · exact Or.inr ⟨ha, hid⟩
  · rintro (rfl | ha)
    · exact h.mem
    · exact ha.1

variable {a : Attestation}

theorem substrateExpiryBoundToSubject_iff
    {subject : String} :
    substrateExpiryBoundToSubject a rows subject = true <->
      a.hasDimensionStem ConsentDimension.stateExpiredPrefix = true ∧
        exists grant, grant ∈ rows ∧ causalEdge a = .names grant.attestationId ∧
          isLapsedGrant subject grant.attestationId a.assertedAt grant = true := by
  unfold substrateExpiryBoundToSubject
  cases a.hasDimensionStem ConsentDimension.stateExpiredPrefix with
  | false => simp
  | true =>
      cases causalEdge a with
      | absent => simp
      | unusable => simp
      | names target =>
          simp only [Bool.not_true, Bool.false_eq_true, if_false, List.any_eq_true, true_and,
            ConsentCausalEdge.names.injEq]
          refine exists_congr fun grant => and_congr_right fun _ => ?_
          constructor
          · intro hlapsed
            have hid : grant.attestationId = target := by
              simp only [isLapsedGrant, Bool.and_eq_true, beq_iff_eq] at hlapsed
              exact hlapsed.1.1.1
            exact ⟨hid.symm, hid ▸ hlapsed⟩
          · rintro ⟨rfl, hlapsed⟩
            exact hlapsed

/-!
## Statements with and without the grant
-/

theorem state_of_grant
    (h : a.stance = .granted) :
    a.hasDimensionStem ConsentDimension.statePrefix = true := by
  rw [stance_granted_iff, Attestation.hasDimensionStem, Option.any_eq_true] at h
  rcases h with ⟨d, hd, hstem⟩
  rw [Text.startsWith, List.isPrefixOf_iff_prefix] at hstem
  have hshort : ConsentDimension.statePrefix.toList <+: ConsentDimension.stateGrantedPrefix.toList :=
    List.isPrefixOf_iff_prefix.mp (by decide)
  rw [Attestation.hasDimensionStem, Option.any_eq_true]
  exact ⟨d, hd, List.isPrefixOf_iff_prefix.mpr (hshort.trans hstem)⟩

theorem inUniverse_of_author
    {all : List Attestation} (hauthor : a.attestingKeyId = q.subject)
    (hstate : a.hasDimensionStem ConsentDimension.statePrefix = true) :
    q.inUniverse all a = true := by
  simp [inUniverse, hauthor, hstate]

theorem inUniverse_of_without
    (h : q.inUniverse (withoutRow rows g) a = true) :
    q.inUniverse rows a = true := by
  simp only [inUniverse, Bool.and_eq_true, Bool.or_eq_true] at h ⊢
  refine ⟨h.1, h.2.imp_right fun hbound => ?_⟩
  rcases substrateExpiryBoundToSubject_iff.mp hbound with ⟨hexpired, grant, hmem, hrest⟩
  exact substrateExpiryBoundToSubject_iff.mpr
    ⟨hexpired, grant, ((mem_withoutRow_iff grant).mp hmem).1, hrest⟩

theorem mem_candidates_of_without
    (h : a ∈ q.candidates (withoutRow rows g)) :
    a ∈ q.candidates rows ∧ a.attestationId ≠ g.attestationId := by
  rcases (mem_candidates_iff a).mp h with ⟨hmem, hin, happlies⟩
  rcases (mem_withoutRow_iff a).mp hmem with ⟨hrow, hother⟩
  exact ⟨(mem_candidates_iff a).mpr ⟨hrow, inUniverse_of_without hin, happlies⟩, hother⟩

theorem causalRank_le_without :
    causalRank a (q.known rows) ≤ causalRank a (q.known (withoutRow rows g)) := by
  unfold causalRank
  cases causalEdge a with
  | absent => exact le_rfl
  | unusable => exact le_rfl
  | names target =>
      have hknown : target ∈ q.known (withoutRow rows g) -> target ∈ q.known rows := by
        rw [mem_known_iff, mem_known_iff]
        rintro ⟨b, hb, hin, hid⟩
        exact ⟨b, ((mem_withoutRow_iff b).mp hb).1, inUniverse_of_without hin, hid⟩
      by_cases hpart : target ∈ q.known (withoutRow rows g)
      · simp [hpart, hknown hpart]
      · simp only [if_neg hpart]
        split <;> omega

theorem rank_zero_of_causal_grant
    {m : Attestation} (hmax : IsMaxBy (causalFoldOrderingKey (q.known (withoutRow rows g)))
      (q.survivors (withoutRow rows g)) m) (hmgrant : m.stance = .granted)
    (ha : a ∈ q.survivors (withoutRow rows g)) :
    causalRank a (q.known (withoutRow rows g)) = 0 ∧ foldOrderingKey a ≤ foldOrderingKey m := by
  have hzero : causalRank m (q.known (withoutRow rows g)) = 0 := by
    simp [causalRank, causalEdge_of_grant hmgrant]
  have hle := hmax.2 a ha
  rw [causalFoldOrderingKey, causalFoldOrderingKey, Prod.Lex.toLex_le_toLex, hzero] at hle
  rcases hle with hlt | hle
  · exact absurd hlt (Nat.not_lt_zero _)
  · exact hle

section Grant

variable (hgrant : q.IsGrantOf rows g)

include hgrant

theorem candidate_cases
    (ha : a ∈ q.candidates rows) :
    a = g ∨ a ∈ q.candidates (withoutRow rows g) ∨ q.TiedRecord rows g a := by
  rcases (mem_candidates_iff a).mp ha with ⟨hmem, hin, happlies⟩
  rcases (hgrant.mem_iff a).mp hmem with rfl | hpart
  · exact Or.inl rfl
  · right
    simp only [inUniverse, Bool.and_eq_true, Bool.or_eq_true, beq_iff_eq] at hin
    rcases hin with ⟨hstate, hwhose⟩
    by_cases hauthor : a.attestingKeyId = q.subject
    · exact Or.inl ((mem_candidates_iff a).mpr
        ⟨hpart, inUniverse_of_author hauthor hstate, happlies⟩)
    · have hbound := hwhose.resolve_left hauthor
      rcases substrateExpiryBoundToSubject_iff.mp hbound with
        ⟨hexpired, grant, hgrantMem, hnames, hlapsed⟩
      by_cases hid : grant.attestationId = g.attestationId
      · exact Or.inr ⟨hmem, hauthor, hbound, happlies, hid ▸ hnames⟩
      · -- bound through a grant that the smaller list keeps
        left
        have hbound' : substrateExpiryBoundToSubject a (withoutRow rows g) q.subject = true :=
          substrateExpiryBoundToSubject_iff.mpr
            ⟨hexpired, grant, (mem_withoutRow_iff grant).mpr ⟨hgrantMem, hid⟩, hnames, hlapsed⟩
        exact (mem_candidates_iff a).mpr ⟨hpart, by simp [inUniverse, hstate, hbound'], happlies⟩

theorem eliminated_of_without
    {id : String} (h : id ∈ q.eliminated (withoutRow rows g)) :
    id ∈ q.eliminated rows := by
  have hsubset : withoutRow rows g ⊆ rows := fun b hb => ((mem_withoutRow_iff b).mp hb).1
  rw [mem_eliminated_iff] at h ⊢
  rcases h with hretired | ⟨c, hc, hnames⟩
  · exact Or.inl (retiredIds_subset hgrant.distinct' hgrant.distinct hsubset hretired)
  · exact Or.inr ⟨c, (mem_candidates_of_without hc).1, hnames⟩

theorem StandsWithout.mem_survivors
    {n : Attestation} (h : q.StandsWithout rows g n) :
    n ∈ q.survivors (withoutRow rows g) := by
  rw [mem_survivors_iff, mem_candidates_iff, mem_withoutRow_iff, mem_eliminated_iff,
    mem_retiredIds_iff_entitled hgrant.distinct']
  refine ⟨⟨⟨h.mem, h.other⟩, inUniverse_of_author h.author h.state, h.applies⟩, ?_⟩
  rintro (hretired | ⟨c, hc, hnames⟩)
  · exact h.notRetired hretired
  · rcases (mem_candidates_iff c).mp (mem_candidates_of_without hc).1 with ⟨hmem, hin, happlies⟩
    exact h.notNamed c hmem hin happlies hnames

/-!
## Waiting for the grant
-/

theorem not_granted_of_awaited
    (hawaited : q.Awaited rows g) :
    q.foldStance (withoutRow rows g) ≠ .granted := by
  rcases hawaited with ⟨n, hstands, hnames⟩
  intro hgranted
  rcases (foldStance_granted_iff_winners q _).mp hgranted with ⟨_, _, _, _, m, hm, hmgrant⟩
  have hmax := (causalWinner_eq_some_iff hgrant.distinct' m).mp hm
  have hunknown : g.attestationId ∉ q.known (withoutRow rows g) := by
    rw [mem_known_iff]
    rintro ⟨b, hb, -, hid⟩
    exact ((mem_withoutRow_iff b).mp hb).2 hid
  have hrank := (rank_zero_of_causal_grant hmax hmgrant (hstands.mem_survivors hgrant)).1
  simp [causalRank, hnames, hunknown] at hrank

/-!
## Nothing else hangs on the grant
-/

variable (honly : q.OnlyGrants rows g)

include honly

theorem grant_survives
    {m : Attestation} (hm : m ∈ q.survivors (withoutRow rows g)) (hmgrant : m.stance = .granted) :
    m ∈ q.survivors rows := by
  rcases (mem_survivors_iff m).mp hm with ⟨hcand, hkept⟩
  rcases mem_candidates_of_without hcand with ⟨hcand', hother⟩
  refine (mem_survivors_iff m).mpr ⟨hcand', fun hgone => ?_⟩
  rcases (mem_eliminated_iff _).mp hgone with hretired | ⟨c, hc, hnames⟩
  · rcases (mem_retiredIds_iff_entitled hgrant.distinct _).mp hretired with
      ⟨row, hrow, hid, r, hr, htype, href, hentitled⟩
    have hsame := List.inj_on_of_nodup_map hgrant.distinct hrow
      ((mem_candidates_iff m).mp hcand').1 hid
    subst hsame
    rcases (hgrant.mem_iff r).mp hr with rfl | hr'
    · have hretracts : r.isRetraction = true := by
        simpa [Attestation.isRetraction] using htype
      rw [honly.retiresNone hretracts row hrow hmgrant href] at hentitled
      cases hentitled
    · refine hkept ((mem_eliminated_iff _).mpr (Or.inl ?_))
      exact (mem_retiredIds_iff_entitled hgrant.distinct' _).mpr
        ⟨row, (mem_withoutRow_iff row).mpr ⟨hrow, hother⟩, rfl, r, hr', htype, href, hentitled⟩
  · rcases candidate_cases hgrant hc with rfl | hpart | htied
    · rw [causalEdge_of_grant hgrant.granted] at hnames
      cases hnames
    · exact hkept ((mem_eliminated_iff _).mpr (Or.inr ⟨c, hpart, hnames⟩))
    · rw [htied.names, ConsentCausalEdge.names.injEq] at hnames
      exact hother hnames.symm

theorem clockWinner_of_without
    {w : Attestation} (hclock : q.clockWinner (withoutRow rows g) = some w)
    (hwgrant : w.stance = .granted) (hopen : q.WindowOpen w) :
    exists w', q.clockWinner rows = some w' ∧ w'.stance = .granted ∧ q.WindowOpen w' := by
  have hmax := (clockWinner_eq_some_iff hgrant.distinct' w).mp hclock
  rcases maxByKey_isSome_of_mem foldOrderingKey (mem_candidates_of_without hmax.1).1 with
    ⟨w', hw'⟩
  refine ⟨w', hw', ?_⟩
  rcases isMaxBy_of_maxByKey hw' with ⟨hmem', hbound'⟩
  have hlatest : forall c, c ∈ q.candidates rows -> ¬ w'.assertedAt < c.assertedAt := by
    intro c hc hlater
    exact absurd (hbound' c hc) (not_le.mpr (Prod.Lex.toLex_lt_toLex.mpr (Or.inl hlater)))
  rcases candidate_cases hgrant hmem' with rfl | hpart | htied
  · refine ⟨hgrant.granted, ?_⟩
    rcases honly.windowOpen ((mem_candidates_iff w').mp hmem').2.2 with
      hwindow | ⟨c, hc, hin, happlies, hlater⟩
    · exact hwindow
    · exact absurd hlater (hlatest c ((mem_candidates_iff c).mpr ⟨hc, hin, happlies⟩))
  · have hmax' : IsMaxBy foldOrderingKey (q.candidates (withoutRow rows g)) w' :=
      ⟨hpart, fun b hb => hbound' b (mem_candidates_of_without hb).1⟩
    rw [← clockWinner_eq_some_iff hgrant.distinct', hclock] at hmax'
    cases hmax'
    exact ⟨hwgrant, hopen⟩
  · rcases honly.recordsOutdated w' htied with ⟨m, hstands, -, hlater⟩
    have hm := ((mem_survivors_iff m).mp (hstands.mem_survivors hgrant)).1
    exact absurd hlater (hlatest m (mem_candidates_of_without hm).1)

theorem causalWinner_of_without
    {m : Attestation} (hcausal : q.causalWinner (withoutRow rows g) = some m)
    (hmgrant : m.stance = .granted) :
    exists m', q.causalWinner rows = some m' ∧ m'.stance = .granted := by
  have hmax := (causalWinner_eq_some_iff hgrant.distinct' m).mp hcausal
  have hm := grant_survives hgrant honly hmax.1 hmgrant
  rcases maxByKey_isSome_of_mem (causalFoldOrderingKey (q.known rows)) hm with ⟨m', hm'⟩
  refine ⟨m', hm', ?_⟩
  rcases isMaxBy_of_maxByKey hm' with ⟨hmem', hbound'⟩
  rcases (mem_survivors_iff m').mp hmem' with ⟨hcand', hkept'⟩
  have hzero : forall b : Attestation, b.stance = .granted -> causalRank b (q.known rows) = 0 := by
    intro b hb
    simp [causalRank, causalEdge_of_grant hb]
  -- no grant that survives the whole list is above the winner
  have htop : forall b, b ∈ q.survivors rows -> b.stance = .granted ->
      causalRank m' (q.known rows) = 0 -> foldOrderingKey b ≤ foldOrderingKey m' := by
    intro b hb hbgrant hrank
    have hle := hbound' b hb
    rw [causalFoldOrderingKey, causalFoldOrderingKey, Prod.Lex.toLex_le_toLex, hzero b hbgrant,
      hrank] at hle
    exact (hle.resolve_left (lt_irrefl 0)).2
  rcases candidate_cases hgrant hcand' with rfl | hpart | htied
  · exact hgrant.granted
  · have hsurvives : m' ∈ q.survivors (withoutRow rows g) :=
      (mem_survivors_iff m').mpr ⟨hpart, fun hgone => hkept' (eliminated_of_without hgrant hgone)⟩
    rcases rank_zero_of_causal_grant hmax hmgrant hsurvives with ⟨hrank, hle⟩
    have hrank' : causalRank m' (q.known rows) = 0 :=
      Nat.le_zero.mp (hrank ▸ causalRank_le_without)
    have hkey : causalFoldOrderingKey (q.known rows) m = causalFoldOrderingKey (q.known rows) m' := by
      rw [causalFoldOrderingKey, causalFoldOrderingKey, hzero m hmgrant, hrank',
        le_antisymm (htop m hm hmgrant hrank') hle]
    have hsame := causalFoldOrderingKey_inj hgrant.distinct
      ((mem_survivors_iff m).mp hm).1 hcand' hkey
    exact hsame ▸ hmgrant
  · rcases honly.recordsOutdated m' htied with ⟨b, hstands, hbgrant, hlater⟩
    have hb := grant_survives hgrant honly (hstands.mem_survivors hgrant) hbgrant
    have hknown : g.attestationId ∈ q.known rows :=
      (mem_known_iff _).mpr ⟨g, hgrant.mem,
        inUniverse_of_author hgrant.author (state_of_grant hgrant.granted), rfl⟩
    have hrank : causalRank m' (q.known rows) = 0 := by
      simp [causalRank, htied.names, hknown]
    have hle := htop b hb hbgrant hrank
    exact absurd hle (not_le.mpr (Prod.Lex.toLex_lt_toLex.mpr (Or.inl hlater)))

end Grant

def refusedGrantRows : List Attestation :=
  [samGrants "older" 5, samGrants "grant" 10,
    samRevokes "refusal" 20 [("consent_supersedes", .str "grant")]]

theorem refusedGrantRows_awaited :
    samQuery.Awaited refusedGrantRows (samGrants "grant" 10) := by
  refine ⟨samRevokes "refusal" 20 [("consent_supersedes", .str "grant")], ?_, by decide⟩
  refine ⟨by simp [refusedGrantRows], by decide, by decide, by decide, by decide, ?_, ?_⟩
  · rw [← mem_retiredIds_iff_entitled (by decide)]
    decide
  · intro c hc _ _
    simp only [refusedGrantRows, List.mem_cons, List.not_mem_nil, or_false] at hc
    rcases hc with rfl | rfl | rfl <;> decide

def lapsingGrant : Attestation :=
  { samGrants "grant" 10 with expiresAt := some (Instant.ofSeconds 20) }

def expiryRecord : Attestation :=
  statement "record" "node" "consent:state:expired:v1" 30
    [("consent_supersedes", .str "grant")] .scores

/-- The record of the lapsed grant is outdated by a later grant, which a refusal follows. -/
def outdatedRecordRows : List Attestation :=
  [lapsingGrant, expiryRecord, samGrants "later" 35, samRevokes "refusal" 40 []]

theorem outdatedRecordRows_onlyGrants :
    samQuery.OnlyGrants outdatedRecordRows lapsingGrant where
  recordsOutdated := by
    intro e he
    have hlater : samQuery.StandsWithout outdatedRecordRows lapsingGrant (samGrants "later" 35) := by
      refine ⟨by simp [outdatedRecordRows], by decide, by decide, by decide, by decide, ?_, ?_⟩
      · rw [← mem_retiredIds_iff_entitled (by decide)]
        decide
      · intro c hc _ _
        simp only [outdatedRecordRows, List.mem_cons, List.not_mem_nil, or_false] at hc
        rcases hc with rfl | rfl | rfl | rfl <;> decide
    refine ⟨_, hlater, by decide, ?_⟩
    have hrow := he.mem
    simp only [outdatedRecordRows, List.mem_cons, List.not_mem_nil, or_false] at hrow
    rcases hrow with rfl | rfl | rfl | rfl
    · exact absurd rfl he.stranger
    · decide
    · exact absurd rfl he.stranger
    · exact absurd rfl he.stranger
  retiresNone := by
    intro hretracts
    exact absurd hretracts (by decide)
  windowOpen := by
    intro happlies
    exact absurd happlies (by decide)

/-- A grant that runs out, a second grant, and the node's record that the first ran out. -/
def recordedExpiryRows : List Attestation :=
  [lapsingGrant, samGrants "later" 15, expiryRecord]

def withdrawnRefusal : List Attestation :=
  [samRevokes "refusal" 1 [("consent_supersedes", .str "grant")],
    withdrawsBy "sam" "w" "refusal" 2]

def shorterWindowRows : List Attestation :=
  statement "older" "sam" "consent:state:granted:v1" 20 [("scope", .str "retain")]
      .scores ::
    statement "grant" "sam" "consent:state:granted:v1" 30 [("scope", .str "retain:1d")]
      .scores :: withdrawnRefusal

def retiringGrantRows : List Attestation :=
  samGrants "older" 10 :: samRevokes "other" 5 [] ::
    statement "grant" "sam" "consent:state:granted:v1" 3
      [("references_attestation_id", .str "older")] .withdraws ::
    withdrawnRefusal

def twoDaysLater : ConsentQuery :=
  ⟨"sam", Instant.ofSeconds (48 * 3600), some ("retain", none)⟩

theorem consent_open_without_window_or_retraction :
    (twoDaysLater.foldStance shorterWindowRows = .expired ∧
      twoDaysLater.foldStance (withoutRow shorterWindowRows (samGrants "grant" 30)) =
        .granted) ∧
    samQuery.foldStance retiringGrantRows = .revoked ∧
      samQuery.foldStance (withoutRow retiringGrantRows (samGrants "grant" 3)) =
        .granted := by
  refine ⟨⟨by decide, by decide⟩, by decide, by decide⟩

end ConsentQuery
end CirisPersist.Federation
