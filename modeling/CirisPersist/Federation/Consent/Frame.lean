import CirisPersist.Federation.Consent.Ratchet
import CirisPersist.Library.Search

/-!
# The rows a consent fold uses

The fold about a subject reads the subject's own statements, the expiry records
whoever wrote them, and the composers that reference one of these.  A directory
reads just those rows.  The fold gives the same answer over any list that holds
them, whatever else it holds and in whatever order.
-/

namespace CirisPersist.Federation

/-!
## The bounded read
-/

namespace AttestationQuery

def authoredBy (q : AttestationQuery) (key : String) : AttestationQuery :=
  { q with author := some key }

end AttestationQuery

def assertedLater (a b : Attestation) : Prop :=
  b.assertedAt ≤ a.assertedAt

instance : DecidableRel assertedLater := fun a b =>
  inferInstanceAs (Decidable (b.assertedAt ≤ a.assertedAt))

/-- The principals' statements and every expiry record, each row once. -/
def scopedStatements (store : AttestationStore) (target : String) (principals : List String) :
    List Attestation :=
  Search.fresh Attestation.attestationId ∅
    ((principals.flatMap fun p => store.read (((AttestationQuery.toKey target).authoredBy
        p).withDimensionStem ConsentDimension.statePrefix)) ++
      store.read ((AttestationQuery.toKey target).withDimensionStem
        ConsentDimension.stateExpiredPrefix))

def scopedFoldRows (store : AttestationStore) (target : String) (principals : List String) :
    List Attestation :=
  let rows := scopedStatements store target principals
  let composers := store.listComposersReferencingAny (rows.map Attestation.attestationId) target
  (rows ++ Search.fresh Attestation.attestationId (rows.map Attestation.attestationId).toFinset
    composers).insertionSort assertedLater

/-!
## The selected rows

The same selection as a filter of the rows about one target.
-/

def isScopedStatement (principals : List String) (a : Attestation) : Bool :=
  (a.hasDimensionStem ConsentDimension.statePrefix && principals.contains a.attestingKeyId) ||
    a.hasDimensionStem ConsentDimension.stateExpiredPrefix

def isSelected (principals : List String) (rows : List Attestation) (a : Attestation) : Bool :=
  isScopedStatement principals a ||
    isStructuralComposer a.attestationType && (referencesAttestationId a).any fun id =>
      rows.any fun b => isScopedStatement principals b && b.attestationId == id

def selectedRows (principals : List String) (rows : List Attestation) : List Attestation :=
  rows.filter (isSelected principals rows)

variable {a : Attestation}

theorem isSelected_iff
    {principals : List String} {rows : List Attestation} :
    isSelected principals rows a = true <->
      isScopedStatement principals a = true ∨
        isStructuralComposer a.attestationType = true ∧
          exists b, b ∈ rows ∧ isScopedStatement principals b = true ∧
            referencesAttestationId a = some b.attestationId := by
  simp only [isSelected, Bool.or_eq_true, Bool.and_eq_true, Option.any_eq_true, List.any_eq_true,
    beq_iff_eq]
  constructor
  · rintro (hstatement | ⟨hcomposer, id, href, b, hb, hstatement, rfl⟩)
    · exact Or.inl hstatement
    · exact Or.inr ⟨hcomposer, b, hb, hstatement, href⟩
  · rintro (hstatement | ⟨hcomposer, b, hb, hstatement, href⟩)
    · exact Or.inl hstatement
    · exact Or.inr ⟨hcomposer, b.attestationId, href, b, hb, hstatement, rfl⟩

namespace ConsentQuery

variable {q : ConsentQuery} {rows rows' : List Attestation}

/-!
## One list inside another
-/

/-- Part of the rows, with every row in it that concerns the subject. -/
structure Frames (q : ConsentQuery) (rows rows' : List Attestation) : Prop where
  distinct : (rows.map Attestation.attestationId).Nodup
  distinct' : (rows'.map Attestation.attestationId).Nodup
  subset : rows' ⊆ rows
  keeps : forall a, a ∈ rows -> isSelected [q.subject] rows a = true -> a ∈ rows'

theorem isSelected_of_subject
    (hstate : a.hasDimensionStem ConsentDimension.statePrefix = true)
    (hauthor : a.attestingKeyId = q.subject) :
    isSelected [q.subject] rows a = true := by
  refine isSelected_iff.mpr (Or.inl ?_)
  simp [isScopedStatement, hstate, hauthor]

theorem isScopedStatement_of_inUniverse
    (h : q.inUniverse rows a = true) :
    isScopedStatement [q.subject] a = true := by
  simp only [inUniverse, Bool.and_eq_true, Bool.or_eq_true, beq_iff_eq] at h
  rcases h with ⟨hstate, hauthor | hexpiry⟩
  · simp [isScopedStatement, hstate, hauthor]
  · have hexpired : a.hasDimensionStem ConsentDimension.stateExpiredPrefix = true := by
      unfold substrateExpiryBoundToSubject at hexpiry
      by_contra hnot
      simp [Bool.eq_false_iff.mpr hnot] at hexpiry
    simp [isScopedStatement, hexpired]

theorem hasDimensionStem_of_longer
    {stem longer : String} (hstem : stem.toList <+: longer.toList)
    (h : a.hasDimensionStem longer = true) :
    a.hasDimensionStem stem = true := by
  unfold Attestation.hasDimensionStem at h ⊢
  rcases (Option.any_eq_true _ _).mp h with ⟨d, hd, hlonger⟩
  refine (Option.any_eq_true _ _).mpr ⟨d, hd, ?_⟩
  unfold Text.startsWith at hlonger ⊢
  rw [List.isPrefixOf_iff_prefix] at hlonger ⊢
  exact hstem.trans hlonger

theorem Frames.mem_of_inUniverse
    (h : q.Frames rows rows') (ha : a ∈ rows) (hin : q.inUniverse rows a = true) :
    a ∈ rows' :=
  h.keeps a ha (isSelected_iff.mpr (Or.inl (isScopedStatement_of_inUniverse hin)))

theorem Frames.inUniverse_eq
    (h : q.Frames rows rows') (a : Attestation) :
    q.inUniverse rows' a = q.inUniverse rows a := by
  have hany : forall id t, rows'.any (isLapsedGrant q.subject id t) =
      rows.any (isLapsedGrant q.subject id t) := by
    intro id t
    rw [Bool.eq_iff_iff, List.any_eq_true, List.any_eq_true]
    constructor
    · rintro ⟨g, hg, hlapsed⟩
      exact ⟨g, h.subset hg, hlapsed⟩
    · rintro ⟨g, hg, hlapsed⟩
      refine ⟨g, h.keeps g hg ?_, hlapsed⟩
      simp only [isLapsedGrant, Bool.and_eq_true, beq_iff_eq] at hlapsed
      exact isSelected_of_subject (hasDimensionStem_of_longer (by decide) hlapsed.1.2) hlapsed.1.1.2
  have hbound : substrateExpiryBoundToSubject a rows' q.subject =
      substrateExpiryBoundToSubject a rows q.subject := by
    unfold substrateExpiryBoundToSubject
    simp only [hany]
  rw [inUniverse, inUniverse, hbound]

theorem Frames.mem_candidates_iff
    (h : q.Frames rows rows') (a : Attestation) :
    a ∈ q.candidates rows' <-> a ∈ q.candidates rows := by
  rw [ConsentQuery.mem_candidates_iff, ConsentQuery.mem_candidates_iff, h.inUniverse_eq]
  constructor
  · rintro ⟨ha, hin, happlies⟩
    exact ⟨h.subset ha, hin, happlies⟩
  · rintro ⟨ha, hin, happlies⟩
    exact ⟨h.mem_of_inUniverse ha hin, hin, happlies⟩

theorem Frames.known_eq
    (h : q.Frames rows rows') :
    q.known rows' = q.known rows := by
  ext id
  rw [mem_known_iff, mem_known_iff]
  constructor
  · rintro ⟨a, ha, hin, hid⟩
    rw [h.inUniverse_eq] at hin
    exact ⟨a, h.subset ha, hin, hid⟩
  · rintro ⟨a, ha, hin, hid⟩
    exact ⟨a, h.mem_of_inUniverse ha hin, by rw [h.inUniverse_eq]; exact hin, hid⟩

theorem isStructuralComposer_of_isRetraction
    {g : Attestation} (h : g.isRetraction = true) :
    isStructuralComposer g.attestationType = true := by
  unfold Attestation.isRetraction at h
  cases htype : g.attestationType <;> simp [htype] at h <;> rfl

theorem Frames.retired_iff
    (h : q.Frames rows rows') (ha : a ∈ rows) (hin : q.inUniverse rows a = true) :
    a.attestationId ∈ retiredIds rows' <-> a.attestationId ∈ retiredIds rows := by
  refine ⟨fun hretired => retiredIds_subset h.distinct' h.distinct h.subset hretired, ?_⟩
  rw [mem_retiredIds_iff, mem_retiredIds_iff]
  rintro ⟨g, hg, hretracts, href, row, hrow, hentitled⟩
  have hselected : isSelected [q.subject] rows g = true :=
    isSelected_iff.mpr (Or.inr ⟨isStructuralComposer_of_isRetraction hretracts, a, ha,
      isScopedStatement_of_inUniverse hin, href⟩)
  rcases (rowById_eq_some_iff h.distinct _ row).mp hrow with ⟨hmem, hid⟩
  have hsame : row = a := List.inj_on_of_nodup_map h.distinct hmem ha hid
  refine ⟨g, h.keeps g hg hselected, hretracts, href, row, ?_, hentitled⟩
  exact (rowById_eq_some_iff h.distinct' _ row).mpr ⟨hsame ▸ h.mem_of_inUniverse ha hin, hid⟩

theorem Frames.mem_survivors_iff
    (h : q.Frames rows rows') (a : Attestation) :
    a ∈ q.survivors rows' <-> a ∈ q.survivors rows := by
  rw [ConsentQuery.mem_survivors_iff, ConsentQuery.mem_survivors_iff, h.mem_candidates_iff]
  refine and_congr_right fun ha => not_congr ?_
  rcases (ConsentQuery.mem_candidates_iff a).mp ha with ⟨hrow, hin, _⟩
  rw [mem_eliminated_iff, mem_eliminated_iff, h.retired_iff hrow hin]
  exact or_congr_right (exists_congr fun c => and_congr_left fun _ => h.mem_candidates_iff c)

theorem Frames.foldWinner_eq
    (h : q.Frames rows rows') :
    q.foldWinner rows' = q.foldWinner rows := by
  have hclock : q.clockWinner rows' = q.clockWinner rows := by
    refine Option.ext fun w => ?_
    rw [clockWinner_eq_some_iff h.distinct', clockWinner_eq_some_iff h.distinct]
    simp only [MaxByKey.IsMaxBy, h.mem_candidates_iff]
  have hcausal : q.causalWinner rows' = q.causalWinner rows := by
    refine Option.ext fun g => ?_
    rw [causalWinner_eq_some_iff h.distinct', causalWinner_eq_some_iff h.distinct, h.known_eq]
    simp only [MaxByKey.IsMaxBy, h.mem_survivors_iff]
  rw [foldWinner, foldWinner, hclock, hcausal]

/-!
## Answers
-/

/-- The state and the winning row of every fold over the two lists. -/
structure SameAnswer (q : ConsentQuery) (rows rows' : List Attestation) : Prop where
  winner : q.foldWinner rows' = q.foldWinner rows
  stance : q.foldStance rows' = q.foldStance rows
  scopedStance : forall scope qualifier,
    q.foldScopedStanceWithWinner rows' scope qualifier =
      q.foldScopedStanceWithWinner rows scope qualifier

theorem sameAnswer_of_foldWinner_eq
    (h : q.foldWinner rows' = q.foldWinner rows) :
    q.SameAnswer rows rows' := by
  have hscoped : forall scope qualifier,
      q.foldScopedStanceWithWinner rows' scope qualifier =
        q.foldScopedStanceWithWinner rows scope qualifier := by
    intro scope qualifier
    rw [foldScopedStanceWithWinner, foldScopedStanceWithWinner, h]
  refine ⟨h, ?_, hscoped⟩
  unfold foldStance
  rw [h]
  cases q.scopedTo with
  | none => rfl
  | some query => simp only [hscoped]

theorem SameAnswer.symm
    (h : q.SameAnswer rows rows') :
    q.SameAnswer rows' rows :=
  ⟨h.winner.symm, h.stance.symm, fun scope qualifier => (h.scopedStance scope qualifier).symm⟩

theorem SameAnswer.trans
    {rows'' : List Attestation} (h : q.SameAnswer rows rows') (h' : q.SameAnswer rows' rows'') :
    q.SameAnswer rows rows'' :=
  ⟨h'.winner.trans h.winner, h'.stance.trans h.stance, fun scope qualifier =>
    (h'.scopedStance scope qualifier).trans (h.scopedStance scope qualifier)⟩

theorem sameAnswer_of_mem_iff
    (hdistinct : (rows.map Attestation.attestationId).Nodup)
    (hdistinct' : (rows'.map Attestation.attestationId).Nodup)
    (h : forall a, a ∈ rows' <-> a ∈ rows) :
    q.SameAnswer rows rows' :=
  sameAnswer_of_foldWinner_eq
    (Frames.foldWinner_eq ⟨hdistinct, hdistinct', fun a => (h a).mp, fun a ha _ => (h a).mpr ha⟩)

theorem isSelected_mono
    {principals principals' : List String} (hsub : principals ⊆ principals')
    (h : isSelected principals rows a = true) :
    isSelected principals' rows a = true := by
  have hstatement : forall b, isScopedStatement principals b = true ->
      isScopedStatement principals' b = true := by
    intro b hb
    simp only [isScopedStatement, Bool.or_eq_true, Bool.and_eq_true, List.contains_iff_mem] at hb ⊢
    exact hb.imp_left fun ⟨hstate, hauthor⟩ => ⟨hstate, hsub hauthor⟩
  rw [isSelected_iff] at h ⊢
  refine h.imp (hstatement a) ?_
  rintro ⟨hcomposer, b, hb, hb', href⟩
  exact ⟨hcomposer, b, hb, hstatement b hb', href⟩

theorem sameAnswer_selectedRows
    {principals : List String} (hdistinct : (rows.map Attestation.attestationId).Nodup)
    (hsubject : q.subject ∈ principals) :
    q.SameAnswer rows (selectedRows principals rows) := by
  refine sameAnswer_of_foldWinner_eq (Frames.foldWinner_eq ⟨hdistinct, ?_, ?_, ?_⟩)
  · exact hdistinct.sublist (List.filter_sublist.map _)
  · exact fun a ha => List.mem_of_mem_filter ha
  · intro a ha hselected
    refine List.mem_filter.mpr ⟨ha, isSelected_mono ?_ hselected⟩
    exact List.cons_subset.mpr ⟨hsubject, List.nil_subset _⟩

end ConsentQuery

/-!
## What the bounded read returns
-/

section Read

variable {store : AttestationStore} {target : String} {principals : List String}

theorem mem_fresh_iff
    {rows : List Attestation} (hrows : forall a, a ∈ rows -> a ∈ store.rows) (seen : Finset String)
    (a : Attestation) :
    a ∈ Search.fresh Attestation.attestationId seen rows <-> a ∈ rows ∧ a.attestationId ∉ seen := by
  constructor
  · intro h
    exact ⟨Search.fresh_subset _ _ a h, Search.fresh_unseen _ _ a h⟩
  · rintro ⟨ha, hnew⟩
    rcases Search.seen_or_fresh Attestation.attestationId rows seen a ha with hseen | ⟨m, hm, hid⟩
    · exact absurd hseen hnew
    · have hmem := hrows m (Search.fresh_subset _ _ m hm)
      rw [← store.eq_of_id_eq hmem (hrows a ha) hid]
      exact hm

theorem admits_withDimensionStem_iff
    (a : Attestation) (stem : String) :
    ((AttestationQuery.toKey target).withDimensionStem stem).admits a = true <->
      (AttestationQuery.toKey target).admits a = true ∧ a.hasDimensionStem stem = true := by
  simp [AttestationQuery.admits, AttestationQuery.toKey, AttestationQuery.withDimensionStem,
    Attestation.hasDimensionStem]

theorem admits_authoredBy_iff
    (a : Attestation) (key stem : String) :
    (((AttestationQuery.toKey target).authoredBy key).withDimensionStem stem).admits a = true <->
      (AttestationQuery.toKey target).admits a = true ∧ a.attestingKeyId = key ∧
        a.hasDimensionStem stem = true := by
  simp [AttestationQuery.admits, AttestationQuery.toKey, AttestationQuery.authoredBy,
    AttestationQuery.withDimensionStem, Attestation.hasDimensionStem, and_assoc, and_left_comm]

theorem mem_scopedStatements_iff
    (a : Attestation) :
    a ∈ scopedStatements store target principals <->
      a ∈ store.read (AttestationQuery.toKey target) ∧ isScopedStatement principals a = true := by
  unfold scopedStatements
  have hrows : forall b, b ∈ (principals.flatMap fun p => store.read (((AttestationQuery.toKey
      target).authoredBy p).withDimensionStem ConsentDimension.statePrefix)) ++
      store.read ((AttestationQuery.toKey target).withDimensionStem
        ConsentDimension.stateExpiredPrefix) -> b ∈ store.rows := by
    intro b hb
    simp only [List.mem_append, List.mem_flatMap, AttestationStore.mem_read_iff] at hb
    rcases hb with ⟨p, hp, hrow, _⟩ | ⟨hrow, _⟩
    · exact hrow
    · exact hrow
  rw [mem_fresh_iff hrows]
  simp only [List.mem_append, List.mem_flatMap, AttestationStore.mem_read_iff,
    admits_authoredBy_iff, admits_withDimensionStem_iff, isScopedStatement, Bool.or_eq_true,
    Bool.and_eq_true, List.contains_iff_mem, Finset.notMem_empty, not_false_eq_true, and_true]
  constructor
  · rintro (⟨p, hp, hrow, hadmits, rfl, hstate⟩ | ⟨hrow, hadmits, hexpired⟩)
    · exact ⟨⟨hrow, hadmits⟩, Or.inl ⟨hstate, hp⟩⟩
    · exact ⟨⟨hrow, hadmits⟩, Or.inr hexpired⟩
  · rintro ⟨⟨hrow, hadmits⟩, ⟨hstate, hp⟩ | hexpired⟩
    · exact Or.inl ⟨a.attestingKeyId, hp, hrow, hadmits, rfl, hstate⟩
    · exact Or.inr ⟨hrow, hadmits, hexpired⟩

theorem mem_listComposersReferencingAny_iff
    (ids : List String) (a : Attestation) :
    a ∈ store.listComposersReferencingAny ids target <->
      a ∈ store.read (AttestationQuery.toKey target) ∧
        isStructuralComposer a.attestationType = true ∧
        exists id, id ∈ ids ∧ referencesAttestationId a = some id := by
  simp only [AttestationStore.listComposersReferencingAny, List.mem_filter, Bool.and_eq_true,
    Option.any_eq_true, List.contains_iff_mem]
  refine and_congr_right fun _ => and_congr_right fun _ => exists_congr fun id => ?_
  exact and_comm

theorem mem_scopedFoldRows_iff
    (a : Attestation) :
    a ∈ scopedFoldRows store target principals <->
      a ∈ selectedRows principals (store.read (AttestationQuery.toKey target)) := by
  have hread : forall b, b ∈ store.read (AttestationQuery.toKey target) -> b ∈ store.rows :=
    fun b hb => ((AttestationStore.mem_read_iff _ _ _).mp hb).1
  have hcomposers : forall ids b, b ∈ store.listComposersReferencingAny ids target ->
      b ∈ store.rows := fun ids b hb =>
    hread b ((mem_listComposersReferencingAny_iff ids b).mp hb).1
  unfold scopedFoldRows selectedRows
  simp only [List.mem_insertionSort, List.mem_append, List.mem_filter,
    mem_fresh_iff (hcomposers _), List.mem_toFinset, List.mem_map, isSelected_iff,
    mem_listComposersReferencingAny_iff, mem_scopedStatements_iff]
  constructor
  · rintro (⟨ha, hstatement⟩ | ⟨⟨ha, hcomposer, _, ⟨b, ⟨hb, hb'⟩, rfl⟩, href⟩, _⟩)
    · exact ⟨ha, Or.inl hstatement⟩
    · exact ⟨ha, Or.inr ⟨hcomposer, b, hb, hb', href⟩⟩
  · rintro ⟨ha, hselected⟩
    by_cases hstatement : isScopedStatement principals a = true
    · exact Or.inl ⟨ha, hstatement⟩
    · rcases hselected with hnot | ⟨hcomposer, b, hb, hb', href⟩
      · exact absurd hnot hstatement
      · refine Or.inr ⟨⟨ha, hcomposer, _, ⟨b, ⟨hb, hb'⟩, rfl⟩, href⟩, ?_⟩
        rintro ⟨c, ⟨hc, hc'⟩, hid⟩
        rw [store.eq_of_id_eq (hread c hc) (hread a ha) hid] at hc'
        exact hstatement hc'

theorem scopedFoldRows_distinct
    (store : AttestationStore) (target : String) (principals : List String) :
    ((scopedFoldRows store target principals).map Attestation.attestationId).Nodup := by
  unfold scopedFoldRows
  refine ((List.perm_insertionSort _ _).map Attestation.attestationId).nodup_iff.mpr ?_
  rw [List.map_append]
  refine List.Nodup.append (Search.nodup_map_fresh _ _) (Search.nodup_map_fresh _ _) ?_
  intro id hfirst hsecond
  rcases List.mem_map.mp hsecond with ⟨c, hc, rfl⟩
  exact Search.fresh_unseen _ _ c hc (List.mem_toFinset.mpr hfirst)

end Read

namespace ConsentQuery

/-- The fold's answer does not depend on the order of the rows, nor on any row that is
not selected for the subject; over the bounded read of a directory it is the answer
over all rows about the target. -/
theorem fold_reads_selected_rows
    (q : ConsentQuery) {rows : List Attestation}
    (hdistinct : (rows.map Attestation.attestationId).Nodup) :
    (forall rows', rows'.Perm rows -> q.SameAnswer rows rows') ∧
    (forall principals, q.subject ∈ principals ->
      q.SameAnswer rows (selectedRows principals rows)) ∧
    (forall rows', (rows'.map Attestation.attestationId).Nodup ->
      (forall a, a ∈ selectedRows [q.subject] rows' <-> a ∈ selectedRows [q.subject] rows) ->
      q.SameAnswer rows rows') ∧
    (forall (store : AttestationStore) target principals, q.subject ∈ principals ->
      rows.Perm (store.read (AttestationQuery.toKey target)) ->
      q.SameAnswer rows (scopedFoldRows store target principals)) := by
  have hself : q.subject ∈ [q.subject] := List.mem_singleton_self _
  refine ⟨?_, fun principals => sameAnswer_selectedRows hdistinct, ?_, ?_⟩
  · intro rows' hperm
    exact sameAnswer_of_mem_iff hdistinct ((hperm.map _).nodup_iff.mpr hdistinct)
      fun a => hperm.mem_iff
  · intro rows' hdistinct' hsame
    have hselected : q.SameAnswer (selectedRows [q.subject] rows)
        (selectedRows [q.subject] rows') :=
      sameAnswer_of_mem_iff (hdistinct.sublist (List.filter_sublist.map _))
        (hdistinct'.sublist (List.filter_sublist.map _)) hsame
    exact ((sameAnswer_selectedRows hdistinct hself).trans hselected).trans
      (sameAnswer_selectedRows hdistinct' hself).symm
  · intro store target principals hsubject hperm
    have hread := store.read_distinct (AttestationQuery.toKey target)
    have hall : q.SameAnswer rows (store.read (AttestationQuery.toKey target)) :=
      sameAnswer_of_mem_iff hdistinct hread fun a => hperm.mem_iff.symm
    have hbounded : q.SameAnswer
        (selectedRows principals (store.read (AttestationQuery.toKey target)))
        (scopedFoldRows store target principals) :=
      sameAnswer_of_mem_iff (hread.sublist (List.filter_sublist.map _))
        (scopedFoldRows_distinct store target principals) mem_scopedFoldRows_iff
    exact (hall.trans (sameAnswer_selectedRows hread hsubject)).trans hbounded

theorem refusedRows_selected :
    (refusedRows.map Attestation.attestationId).Nodup ∧
      samQuery.SameAnswer refusedRows refusedRows.reverse ∧
      samQuery.SameAnswer refusedRows (selectedRows ["sam", "eve"] refusedRows) := by
  have hdistinct : (refusedRows.map Attestation.attestationId).Nodup := by decide
  have hspec := fold_reads_selected_rows samQuery hdistinct
  exact ⟨hdistinct, hspec.1 _ (List.reverse_perm _), hspec.2.1 ["sam", "eve"] (by simp [samQuery])⟩

end ConsentQuery

end CirisPersist.Federation
