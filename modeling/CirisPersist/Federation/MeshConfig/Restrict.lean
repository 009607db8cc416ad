import CirisPersist.Federation.MeshConfig.Fold
import Mathlib.Data.Prod.Lex

/-!
# Mesh configuration only restricts

The fold is described without its loops: for each root the maximal live row, and
over the roots the most restrictive value.  From that description it follows that
no root can make a node share more, that the order of rows and roots does not
matter, and that the roots do not touch each other's entries.
-/

namespace CirisPersist.Federation
namespace MeshConfig

open MeshConfigKey Sorting

/-!
## The most restrictive value
-/

/-- A value of `S` that restricts at least as much as every other. -/
def MostRestrictive (key : MeshConfigKey) (S : Int -> Prop) (v : Int) : Prop :=
  S v ∧ forall w, S w -> key.moreRestrictiveOf v w = v

theorem foldl_mostRestrictive
    (key : MeshConfigKey) (rvs : List RootValue) :
    forall base,
      MostRestrictive key (fun v => v = base ∨ exists rv, rv ∈ rvs ∧ rv.effective = v)
        (rvs.foldl (fun e rv => key.moreRestrictiveOf e rv.effective) base) := by
  induction rvs with
  | nil =>
      intro base
      refine ⟨Or.inl rfl, ?_⟩
      rintro w (rfl | ⟨rv, hrv, -⟩)
      · exact moreRestrictiveOf_eq_left_iff.mpr (le_refl _)
      · cases hrv
  | cons first rest ih =>
      intro base
      rw [List.foldl_cons]
      rcases ih (key.moreRestrictiveOf base first.effective) with ⟨hmem, hmost⟩
      -- the running value already restricts at least as much as both it came from
      have hrunning := moreRestrictiveOf_eq_left_iff.mp (hmost _ (Or.inl rfl))
      rw [rank_moreRestrictiveOf] at hrunning
      constructor
      · rcases hmem with hrun | ⟨rv, hrv, hvalue⟩
        · rw [hrun, moreRestrictiveOf_eq]
          split
          · exact Or.inl rfl
          · exact Or.inr ⟨first, List.mem_cons_self, rfl⟩
        · exact Or.inr ⟨rv, List.mem_cons_of_mem _ hrv, hvalue⟩
      · rintro w (rfl | ⟨rv, hrv, rfl⟩)
        · exact moreRestrictiveOf_eq_left_iff.mpr (le_trans (le_max_left _ _) hrunning)
        · rcases List.mem_cons.mp hrv with rfl | hrv
          · exact moreRestrictiveOf_eq_left_iff.mpr (le_trans (le_max_right _ _) hrunning)
          · exact hmost _ (Or.inr ⟨rv, hrv, rfl⟩)

variable {base : Int}

theorem mostRestrictive_of_clamped
    {key : MeshConfigKey} {asked clamped : Int -> Prop} {v : Int}
    (hclamped : forall w, clamped w <-> exists a, asked a ∧ key.clampToConsent a base = w)
    (h : MostRestrictive key (fun w => w = base ∨ clamped w) v) :
    MostRestrictive key (fun w => w = base ∨ asked w) v := by
  constructor
  · rcases h.1 with hbase | hmem
    · exact Or.inl hbase
    · rcases (hclamped v).mp hmem with ⟨a, ha, hv⟩
      unfold clampToConsent at hv
      split at hv
      · exact Or.inl hv.symm
      · exact Or.inr (hv ▸ ha)
  · rintro w (rfl | hasked)
    · exact h.2 w (Or.inl rfl)
    · have hrank := moreRestrictiveOf_eq_left_iff.mp
        (h.2 _ (Or.inr ((hclamped _).mpr ⟨w, hasked, rfl⟩)))
      rw [rank_clampToConsent] at hrank
      exact moreRestrictiveOf_eq_left_iff.mpr (le_trans (le_max_left _ _) hrank)

theorem not_expandsBeyond_of_mostRestrictive
    {key : MeshConfigKey} {v : Int} {S : Int -> Prop} (h : MostRestrictive key S v)
    (hbase : S base) :
    key.expandsBeyond v base = false := by
  rw [Bool.eq_false_iff]
  intro hexpands
  have hle := moreRestrictiveOf_eq_left_iff.mp (h.2 base hbase)
  exact absurd (expandsBeyond_eq_true_iff.mp hexpands) (not_lt.mpr hle)

theorem winner_eq_some
    {perRoot : List RootValue} {effective : Int} {w : RootValue}
    (h : winner perRoot effective base = some w) :
    w ∈ perRoot ∧ w.effective = effective := by
  have hmatch := List.find?_some h
  rw [Bool.and_eq_true, decide_eq_true_eq] at hmatch
  exact ⟨List.mem_of_find?_eq_some h, hmatch.1⟩

theorem winner_of_moved
    {perRoot : List RootValue} {effective : Int} {rv : RootValue} (hrv : rv ∈ perRoot)
    (hvalue : rv.effective = effective) (hmoved : effective ≠ base) :
    exists w, winner perRoot effective base = some w := by
  refine Option.isSome_iff_exists.mp (List.find?_isSome.mpr ⟨rv, hrv, ?_⟩)
  rw [Bool.and_eq_true, decide_eq_true_eq, decide_eq_true_eq]
  exact ⟨hvalue, hmoved⟩

theorem winner_of_not_moved
    (perRoot : List RootValue) (base : Int) :
    winner perRoot base base = none := by
  refine List.find?_eq_none.mpr fun rv _ => ?_
  simp

/-!
## The governing row
-/

/-- `a` is at least as new as `b`; at one instant it restricts more, or else has no
smaller id. -/
def Outranks (key : MeshConfigKey) (a b : LiveRow) : Prop :=
  b.1.assertedAt < a.1.assertedAt ∨
    (b.1.assertedAt = a.1.assertedAt ∧
      (key.expandsBeyond b.2.value a.2.value = true ∨
        (b.2.value = a.2.value ∧ b.1.attestationId ≤ a.1.attestationId)))

def liveKey (key : MeshConfigKey) (a : LiveRow) : Instant ×ₗ (Int ×ₗ String) :=
  toLex (a.1.assertedAt, toLex (key.rank a.2.value, a.1.attestationId))

theorem liveKey_le_iff
    (key : MeshConfigKey) (a b : LiveRow) :
    liveKey key b ≤ liveKey key a <-> Outranks key a b := by
  unfold liveKey Outranks
  rw [Prod.Lex.toLex_le_toLex, Prod.Lex.toLex_le_toLex, expandsBeyond_eq_true_iff]
  have hrank : key.rank b.2.value = key.rank a.2.value <-> b.2.value = a.2.value :=
    ⟨rank_injective, fun h => by rw [h]⟩
  simp only [hrank]

theorem compareRestriction_eq_eq_iff
    (key : MeshConfigKey) (a b : Int) :
    compareRestriction key a b = Ordering.eq <-> a = b := by
  unfold compareRestriction
  split
  · next h => exact ⟨fun _ => h, fun _ => rfl⟩
  · next h =>
    refine ⟨fun heq => ?_, fun hab => absurd hab h⟩
    split at heq
    · cases heq
    · cases heq

theorem compareRestriction_eq_lt_iff
    (key : MeshConfigKey) (a b : Int) :
    compareRestriction key a b = Ordering.lt <-> key.expandsBeyond a b = true := by
  rw [expandsBeyond_eq_true_iff]
  unfold compareRestriction
  split
  · next h =>
    rw [h]
    exact ⟨nofun, fun hlt => absurd hlt (lt_irrefl _)⟩
  · split
    · next hleft =>
      exact ⟨nofun, fun hlt =>
        absurd (moreRestrictiveOf_eq_left_iff.mp hleft) (not_le.mpr hlt)⟩
    · next hright =>
      exact ⟨fun _ => not_le.mp fun hle => hright (moreRestrictiveOf_eq_left_iff.mpr hle),
        fun _ => rfl⟩

theorem liveLe_iff
    (key : MeshConfigKey) (a b : LiveRow) :
    liveLe key a b <-> liveKey key a ≤ liveKey key b := by
  rw [liveKey_le_iff]
  unfold liveLe compareLive Outranks
  rw [Ordering.isLE_then_iff_or, Ordering.then_eq_lt, Ordering.then_eq_eq, compare_lt_iff_lt,
    compare_eq_iff_eq, compareRestriction_eq_lt_iff, compareRestriction_eq_eq_iff,
    Ordering.isLE_iff_ne_gt, ← ne_eq, compare_le_iff_le]
  tauto

section Readers

variable [DateReader]

structure IsLive (key : MeshConfigKey) (root : String) (rows : List Attestation) (now : Instant)
    (live : LiveRow) : Prop where
  held : live.1 ∈ rows
  reads : parseRow live.1 = some live.2
  sameKey : live.2.key = key
  sameRoot : live.2.rootRef = root
  asserted : live.1.assertedAt ≤ now
  unexpired : forall vu, live.2.validUntil = some vu -> now < vu

def Governs (key : MeshConfigKey) (root : String) (rows : List Attestation) (now : Instant)
    (live : LiveRow) : Prop :=
  IsLive key root rows now live ∧
    forall other, IsLive key root rows now other -> Outranks key live other

variable {key : MeshConfigKey} {root : String} {rows : List Attestation} {now : Instant}

theorem mem_liveRows_iff
    (live : LiveRow) :
    live ∈ liveRows key root rows now <-> IsLive key root rows now live := by
  rcases live with ⟨r, p⟩
  simp only [liveRows, List.mem_filter, List.mem_filterMap, Option.map_eq_some_iff,
    Prod.mk.injEq, Bool.and_eq_true, decide_eq_true_eq, Option.all_eq_true]
  constructor
  · rintro ⟨⟨_, hr, _, hp, rfl, rfl⟩, ⟨⟨hkey, hroot⟩, hnow⟩, hlater⟩
    exact ⟨hr, hp, hkey, hroot, hnow, hlater⟩
  · intro h
    exact ⟨⟨r, h.held, p, h.reads, rfl, rfl⟩, ⟨⟨h.sameKey, h.sameRoot⟩, h.asserted⟩, h.unexpired⟩

theorem live_eq_of_key_eq
    (hids : (rows.map Attestation.attestationId).Nodup) {a b : LiveRow}
    (ha : IsLive key root rows now a) (hb : IsLive key root rows now b)
    (h : liveKey key a = liveKey key b) :
    a = b := by
  have hid : a.1.attestationId = b.1.attestationId := by
    have hsecond := congrArg (fun k => (ofLex (ofLex k).2).2) h
    exact hsecond
  have hrow := List.inj_on_of_nodup_map hids ha.held hb.held hid
  have hreads : some a.2 = some b.2 := by
    rw [← ha.reads, ← hb.reads, hrow]
  exact Prod.ext hrow (Option.some.inj hreads)

theorem governing_eq_some_iff
    (hids : (rows.map Attestation.attestationId).Nodup) (live : LiveRow) :
    governing key root rows now = some live <-> Governs key root rows now live := by
  unfold governing Governs
  rw [getLast_sort_eq_some_iff (liveLe_iff key)
    (fun a ha b hb => live_eq_of_key_eq hids ((mem_liveRows_iff a).mp ha)
      ((mem_liveRows_iff b).mp hb))]
  unfold MaxByKey.IsMaxBy
  simp only [mem_liveRows_iff, liveKey_le_iff]

/-!
## The value a node runs
-/

def AskedBy (key : MeshConfigKey) (roots : List String) (rows : List Attestation) (now : Instant)
    (v : Int) : Prop :=
  exists root live, root ∈ roots ∧ Governs key root rows now live ∧ live.2.value = v

variable {baseline : MeshConfigBaseline} {roots : List String}

theorem rootValue_eq_some_iff
    (hids : (rows.map Attestation.attestationId).Nodup) (rv : RootValue) :
    rootValue key base rows now root = some rv <->
      exists live, Governs key root rows now live ∧
        rv = ⟨root, live.2.value, key.clampToConsent live.2.value base,
          decide (key.clampToConsent live.2.value base ≠ live.2.value), live.1.attestationId,
          live.2.form, live.2.validUntil⟩ := by
  unfold rootValue
  rw [Option.map_eq_some_iff]
  constructor
  · rintro ⟨live, hlive, rfl⟩
    exact ⟨live, (governing_eq_some_iff hids live).mp hlive, rfl⟩
  · rintro ⟨live, hlive, rfl⟩
    exact ⟨live, (governing_eq_some_iff hids live).mpr hlive, rfl⟩

theorem mem_perRoot_iff
    (rv : RootValue) :
    rv ∈ (foldKey baseline (sortDedup roots) rows now key).perRoot <->
      exists root, root ∈ roots ∧ rootValue key (baseline.get key) rows now root = some rv := by
  simp only [foldKey, List.mem_filterMap, mem_sortDedup_iff]

theorem effective_mostRestrictive
    (hids : (rows.map Attestation.attestationId).Nodup) (key : MeshConfigKey)
    (baseline : MeshConfigBaseline) (roots : List String) (now : Instant) :
    MostRestrictive key
      (fun v => v = baseline.get key ∨ AskedBy key roots rows now v)
      (foldKey baseline (sortDedup roots) rows now key).effective := by
  have hfold := foldl_mostRestrictive key
    (foldKey baseline (sortDedup roots) rows now key).perRoot (baseline.get key)
  refine mostRestrictive_of_clamped (fun w => ?_) hfold
  constructor
  · rintro ⟨rv, hrv, rfl⟩
    rcases (mem_perRoot_iff rv).mp hrv with ⟨root, hroot, hvalue⟩
    rcases (rootValue_eq_some_iff hids rv).mp hvalue with ⟨live, hlive, rfl⟩
    exact ⟨live.2.value, ⟨root, live, hroot, hlive, rfl⟩, rfl⟩
  · rintro ⟨_, ⟨root, live, hroot, hlive, rfl⟩, rfl⟩
    exact ⟨_, (mem_perRoot_iff _).mpr
      ⟨root, hroot, (rootValue_eq_some_iff hids _).mpr ⟨live, hlive, rfl⟩⟩, rfl⟩

/-!
## Rows and roots in any order
-/

variable {rows' : List Attestation}

theorem governs_perm
    (hperm : rows.Perm rows') (live : LiveRow) :
    Governs key root rows now live <-> Governs key root rows' now live := by
  have hlive : forall l, IsLive key root rows now l <-> IsLive key root rows' now l := by
    intro l
    constructor
    · intro h
      exact ⟨hperm.mem_iff.mp h.held, h.reads, h.sameKey, h.sameRoot, h.asserted, h.unexpired⟩
    · intro h
      exact ⟨hperm.mem_iff.mpr h.held, h.reads, h.sameKey, h.sameRoot, h.asserted, h.unexpired⟩
  unfold Governs
  simp only [hlive]

section Distinct

variable (hids : (rows.map Attestation.attestationId).Nodup)

include hids

theorem rootValue_perm
    (hperm : rows.Perm rows') (base : Int) (root : String) :
    rootValue key base rows now root = rootValue key base rows' now root := by
  have hids' := (hperm.map Attestation.attestationId).nodup_iff.mp hids
  refine Option.ext fun rv => ?_
  rw [rootValue_eq_some_iff hids, rootValue_eq_some_iff hids']
  simp only [governs_perm hperm]

theorem foldKey_perm
    (hperm : rows.Perm rows') (sortedRoots : List String) :
    foldKey baseline sortedRoots rows now key = foldKey baseline sortedRoots rows' now key := by
  have hids' := (hperm.map Attestation.attestationId).nodup_iff.mp hids
  have hvalues : rootValue key (baseline.get key) rows now =
      rootValue key (baseline.get key) rows' now :=
    funext (rootValue_perm hids hperm _)
  have hfind : forall id, rows.find? (fun r => decide (r.attestationId = id)) =
      rows'.find? (fun r => decide (r.attestationId = id)) :=
    fun _ => FirstWins.find_key_eq_of_perm hids' hperm
  unfold foldKey
  simp only [hvalues, hfind]

theorem foldMeshConfig_perm
    (nodeKeyId : String) {roots' : List String} (hperm : rows.Perm rows')
    (hroots : forall r, r ∈ roots <-> r ∈ roots') :
    foldMeshConfig nodeKeyId baseline roots rows now =
      foldMeshConfig nodeKeyId baseline roots' rows' now := by
  have hsettings : foldKey baseline (sortDedup roots') rows now =
      foldKey baseline (sortDedup roots') rows' now :=
    funext fun _ => foldKey_perm hids hperm _
  unfold foldMeshConfig
  simp only [sortDedup_congr hroots, hsettings]

/-!
## One root more, one row more
-/

theorem effective_of_more_roots
    (root : String) :
    key.moreRestrictiveOf
        (foldKey baseline (sortDedup (root :: roots)) rows now key).effective
        (foldKey baseline (sortDedup roots) rows now key).effective =
      (foldKey baseline (sortDedup (root :: roots)) rows now key).effective := by
  have hmore := effective_mostRestrictive hids key baseline (root :: roots) now
  have hfewer := effective_mostRestrictive hids key baseline roots now
  refine hmore.2 _ ?_
  rcases hfewer.1 with hbase | ⟨r, live, hr, hlive, hvalue⟩
  · exact Or.inl hbase
  · exact Or.inr ⟨r, live, List.mem_cons_of_mem _ hr, hlive, hvalue⟩

end Distinct

theorem rootRef_of_parseRow
    {row : Attestation} {p : ParsedRow} (h : parseRow row = some p) :
    envStr row "root_ref" = some p.rootRef := by
  simp only [parseRow, Option.bind_eq_bind, Option.bind_eq_some_iff] at h
  rcases h with ⟨_, _, _, _, _, _, h⟩
  split at h
  · cases h
  · rcases Option.bind_eq_some_iff.mp h with ⟨_, _, h⟩
    split at h
    · cases h
    · rcases Option.bind_eq_some_iff.mp h with ⟨rootRef, hroot, h⟩
      rcases Option.bind_eq_some_iff.mp h with ⟨_, _, h⟩
      rcases Option.bind_eq_some_iff.mp h with ⟨_, _, h⟩
      cases h
      exact (Option.filter_eq_some_iff.mp hroot).1

variable {named : String} {x : Attestation}

theorem liveRows_cons_of_other_root
    (hnamed : envStr x "root_ref" = some named) (hother : root ≠ named) :
    liveRows key root (x :: rows) now = liveRows key root rows now := by
  unfold liveRows
  rw [List.filterMap_cons]
  cases hparse : parseRow x with
  | none => rfl
  | some p =>
      have hroot : p.rootRef ≠ root := by
        intro heq
        rw [rootRef_of_parseRow hparse, heq] at hnamed
        exact hother (Option.some.inj hnamed)
      simp [hroot]

theorem rootValue_cons_of_other_root
    (base : Int) (hnamed : envStr x "root_ref" = some named) (hother : root ≠ named) :
    rootValue key base (x :: rows) now root = rootValue key base rows now root := by
  unfold rootValue governing
  rw [liveRows_cons_of_other_root hnamed hother]

theorem rootRef_of_rootValue
    {rv : RootValue} (h : rootValue key base rows now root = some rv) :
    rv.rootRef = root := by
  rcases Option.map_eq_some_iff.mp h with ⟨live, _, rfl⟩
  rfl

theorem perRoot_cons_of_named
    (sortedRoots : List String) (hnamed : envStr x "root_ref" = some named) :
    (foldKey baseline sortedRoots (x :: rows) now key).perRoot.filter
        (fun rv => decide (rv.rootRef ≠ named)) =
      (foldKey baseline sortedRoots rows now key).perRoot.filter
        (fun rv => decide (rv.rootRef ≠ named)) := by
  simp only [foldKey, List.filter_filterMap]
  refine List.filterMap_congr fun root _ => ?_
  by_cases hroot : root = named
  · -- entries of the named root are filtered out on both sides
    have hnone : forall rows', (rootValue key (baseline.get key) rows' now root).filter
        (fun rv => decide (rv.rootRef ≠ named)) = none := by
      intro rows'
      rw [Option.filter_eq_none_iff]
      intro rv hrv
      rw [rootRef_of_rootValue hrv, hroot]
      simp
    rw [hnone, hnone]
  · rw [rootValue_cons_of_other_root _ hnamed hroot]

/-!
## The decider
-/

theorem foldKey_decided
    (baseline : MeshConfigBaseline) (sortedRoots : List String) (rows : List Attestation)
    (now : Instant) (key : MeshConfigKey) {w : Option RootValue}
    (hw : winner (foldKey baseline sortedRoots rows now key).perRoot
      (foldKey baseline sortedRoots rows now key).effective (baseline.get key) = w) :
    let s := foldKey baseline sortedRoots rows now key
    s.decidedByRoot = w.map RootValue.rootRef ∧ s.rowId = w.map RootValue.rowId ∧
      s.decidedBy =
        (w.bind fun rv => rows.find? fun r => decide (r.attestationId = rv.rowId)).map
          Attestation.attestingKeyId := by
  subst hw
  exact ⟨rfl, rfl, rfl⟩

theorem decider_of_relieved
    (hids : (rows.map Attestation.attestationId).Nodup)
    (hrelieved : (foldKey baseline (sortDedup roots) rows now key).effective ≠ baseline.get key) :
    let s := foldKey baseline (sortDedup roots) rows now key
    exists root live, root ∈ roots ∧ Governs key root rows now live ∧
      key.clampToConsent live.2.value (baseline.get key) = s.effective ∧
      s.decidedByRoot = some root ∧ s.rowId = some live.1.attestationId ∧
      s.decidedBy = some live.1.attestingKeyId := by
  -- some root's value is the one the node runs, so the search for a decider succeeds
  have hfold := (foldl_mostRestrictive key
    (foldKey baseline (sortDedup roots) rows now key).perRoot (baseline.get key)).1
  rcases hfold with hbase | ⟨moved, hmoved, hvalue⟩
  · exact absurd hbase hrelieved
  · rcases winner_of_moved hmoved hvalue hrelieved with ⟨w, hw⟩
    rcases winner_eq_some hw with ⟨hmem, heffective⟩
    rcases (mem_perRoot_iff w).mp hmem with ⟨root, hroot, hrv⟩
    rcases (rootValue_eq_some_iff hids w).mp hrv with ⟨live, hlive, rfl⟩
    have hrow := (FirstWins.find_key_eq_some_iff hids).mpr ⟨hlive.1.held, rfl⟩
    rcases foldKey_decided baseline (sortDedup roots) rows now key hw with
      ⟨hbyRoot, hrowId, hby⟩
    refine ⟨root, live, hroot, hlive, heffective, hbyRoot, hrowId, ?_⟩
    rw [hby, Option.bind_some, hrow]
    rfl

theorem no_decider_of_not_relieved
    (hbase : (foldKey baseline (sortDedup roots) rows now key).effective = baseline.get key) :
    let s := foldKey baseline (sortDedup roots) rows now key
    s.decidedByRoot = none ∧ s.rowId = none ∧ s.decidedBy = none := by
  have hnone : winner (foldKey baseline (sortDedup roots) rows now key).perRoot
      (foldKey baseline (sortDedup roots) rows now key).effective
      (baseline.get key) = none := by
    rw [hbase]
    exact winner_of_not_moved _ _
  exact foldKey_decided baseline (sortDedup roots) rows now key hnone

/-!
## The fold as a whole
-/

theorem setting_foldMeshConfig
    (nodeKeyId : String) (baseline : MeshConfigBaseline) (roots : List String)
    (rows : List Attestation) (now : Instant) (key : MeshConfigKey) :
    (foldMeshConfig nodeKeyId baseline roots rows now).setting key =
      some (foldKey baseline (sortDedup roots) rows now key) := by
  cases key <;> rfl

/-- Mesh configuration only restricts, whatever the roots write, and every node that
holds the same rows restricts alike. -/
theorem foldMeshConfig_only_restricts
    (nodeKeyId : String) (baseline : MeshConfigBaseline) (roots : List String)
    (rows : List Attestation) (now : Instant)
    (hids : (rows.map Attestation.attestationId).Nodup) :
    (forall key, exists s,
      (foldMeshConfig nodeKeyId baseline roots rows now).setting key = some s ∧
      key.expandsBeyond s.effective (baseline.get key) = false ∧
      MostRestrictive key (fun v => v = baseline.get key ∨ AskedBy key roots rows now v)
        s.effective ∧
      (s.relieved = true <-> s.effective ≠ baseline.get key) ∧
      (s.relieved = true -> exists root live,
        root ∈ roots ∧ Governs key root rows now live ∧
          key.clampToConsent live.2.value (baseline.get key) = s.effective ∧
          s.decidedByRoot = some root ∧ s.rowId = some live.1.attestationId ∧
          s.decidedBy = some live.1.attestingKeyId) ∧
      (s.relieved = false ->
        s.decidedByRoot = none ∧ s.rowId = none ∧ s.decidedBy = none)) ∧
    (forall rows' roots', rows.Perm rows' -> (forall r, r ∈ roots <-> r ∈ roots') ->
      foldMeshConfig nodeKeyId baseline roots rows now =
        foldMeshConfig nodeKeyId baseline roots' rows' now) ∧
    (forall key root s s',
      (foldMeshConfig nodeKeyId baseline roots rows now).setting key = some s ->
      (foldMeshConfig nodeKeyId baseline (root :: roots) rows now).setting key = some s' ->
      key.moreRestrictiveOf s'.effective s.effective = s'.effective) ∧
    (forall key x named s s', envStr x "root_ref" = some named ->
      (foldMeshConfig nodeKeyId baseline roots rows now).setting key = some s ->
      (foldMeshConfig nodeKeyId baseline roots (x :: rows) now).setting key = some s' ->
      s'.perRoot.filter (fun rv => decide (rv.rootRef ≠ named)) =
        s.perRoot.filter (fun rv => decide (rv.rootRef ≠ named))) := by
  refine ⟨?_, ?_, ?_, ?_⟩
  · intro key
    have hmost := effective_mostRestrictive hids key baseline roots now
    refine ⟨_, setting_foldMeshConfig nodeKeyId baseline roots rows now key,
      not_expandsBeyond_of_mostRestrictive hmost (Or.inl rfl), hmost, ?_, ?_, ?_⟩
    · exact decide_eq_true_iff
    · intro hrelieved
      exact decider_of_relieved hids (of_decide_eq_true hrelieved)
    · intro hrelieved
      exact no_decider_of_not_relieved (not_not.mp (of_decide_eq_false hrelieved))
  · intro rows' roots' hperm hroots
    exact foldMeshConfig_perm hids nodeKeyId hperm hroots
  · intro key root s s' hs hs'
    rw [setting_foldMeshConfig] at hs hs'
    cases hs
    cases hs'
    exact effective_of_more_roots hids root
  · intro key x named s s' hnamed hs hs'
    rw [setting_foldMeshConfig] at hs hs'
    cases hs
    cases hs'
    exact perRoot_cons_of_named _ hnamed

end Readers

section Samples

open Reference

def ceilingRow (id root : String) (value : Int) (seconds : Int) : Attestation :=
  { Attestation.ofAuthor id root root .scores (Instant.ofSeconds seconds)
      [("dimension", .str "mesh_config:load.ceiling:v1"),
        ("mesh_config_key", .str "load.ceiling"), ("value", .num (.int value)),
        ("root_ref", .str root), ("form", .str "durable"),
        ("delegation_id", .str "d"), ("grounds", .str "congestion")] with
    scrub := ⟨root, "sig", none⟩ }

/-- One root relieves the node, another asks for more than the owner consented to. -/
def ceilingRows : List Attestation :=
  [ceilingRow "a" "north" 10 1, ceilingRow "b" "south" 4000 2]

theorem ceilingRows_only_restrict :
    (foldMeshConfig "node" MeshConfigBaseline.ownerDefaults ["north", "south"] ceilingRows
        (Instant.ofSeconds 5)).settings.map MeshConfigSetting.effective =
      [20, 20, 64, 64, 60, 500, 0, 1, 1, 100, 600, 10] ∧
    foldMeshConfig "node" MeshConfigBaseline.ownerDefaults ["north", "south"] ceilingRows
        (Instant.ofSeconds 5) =
      foldMeshConfig "node" MeshConfigBaseline.ownerDefaults ["south", "north", "south"]
        ceilingRows.reverse (Instant.ofSeconds 5) := by
  refine ⟨by decide, ?_⟩
  exact (foldMeshConfig_only_restricts "node" MeshConfigBaseline.ownerDefaults
    ["north", "south"] ceilingRows (Instant.ofSeconds 5) (by decide)).2.1 _ _
      (List.reverse_perm _).symm (by intro r; simp; tauto)

end Samples

end MeshConfig
end CirisPersist.Federation
