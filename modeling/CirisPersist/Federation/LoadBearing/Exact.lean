import CirisPersist.Federation.LoadBearing.Closure
import Mathlib.Data.Set.Card

/-!
# What a complete closure leaves out

The documentation of the walk names its edges: a key leads to every row by it or about it.
The walk reads those rows through queries of the federation tier.  A row that only this
node holds is therefore not reached from the keys it names, although it may be live, and the
walk reports itself complete without it.  Otherwise a complete closure is the reachable
live set, at shortest depth.
-/

namespace CirisPersist.Federation
namespace Closure

/-!
## Documented edges and live objects
-/

/-- A key leads to the rows by it or about it that are read, and a row to the keys it names
and the row it cites. -/
inductive Edge (Read : Attestation -> Prop) (store : AttestationStore) :
    ObjectRef -> ObjectRef -> Prop where
  | authored {row : Attestation} (hrow : row ∈ store.rows) (hread : Read row) :
      Edge Read store (.keyRecord row.attestingKeyId)
        (.attestation row.attestationId)
  | attested {row : Attestation} (hrow : row ∈ store.rows) (hread : Read row) :
      Edge Read store (.keyRecord row.attestedKeyId)
        (.attestation row.attestationId)
  | names {row : Attestation} {key : String} (hrow : row ∈ store.rows)
      (hnamed : key ∈ namedKeys row) (hkey : key ≠ "") :
      Edge Read store (.attestation row.attestationId) (.keyRecord key)
  | cites {row : Attestation} {target : String} (hrow : row ∈ store.rows)
      (hcites : citedRow row = some target) :
      Edge Read store (.attestation row.attestationId) (.attestation target)

def DocumentedEdge : AttestationStore -> ObjectRef -> ObjectRef -> Prop :=
  Edge fun _ => True

def FollowedEdge : AttestationStore -> ObjectRef -> ObjectRef -> Prop :=
  Edge fun row => row.tier = .federation

section Reached

variable {D : Type} (verdict : ObjectRef -> LoadBearing D) (edge : ObjectRef -> ObjectRef -> Prop)
  (roots : List ObjectRef)

/-- The object is a root, or an edge leads to it from one that is reached and not proved
dead. -/
inductive Reached : ObjectRef -> Nat -> Prop where
  | root {o : ObjectRef} (hroot : o ∈ roots) : Reached o 0
  | step {p o : ObjectRef} {d : Nat} (hp : Reached p d) (hlive : (verdict p).isNo = false)
      (hedge : edge p o) : Reached o (d + 1)

def LiveAt (o : ObjectRef) (d : Nat) : Prop :=
  Reached verdict edge roots o d ∧ (verdict o).isNo = false

/-- The members are the live objects, each at the length of a shortest path. -/
structure ExactMembers (members : List (ClosureMember D)) : Prop where
  shortest : forall m, m ∈ members -> LiveAt verdict edge roots m.object m.depth ∧
    forall d, LiveAt verdict edge roots m.object d -> m.depth ≤ d
  every : forall o d, LiveAt verdict edge roots o d -> exists m, m ∈ members ∧ m.object = o

end Reached

/-- Each live row of the local tier that is by or about a key which the followed edges reach is
reached by followed edges too, at most one step beyond the key. -/
def LocalRowsReached {D : Type} (verdict : ObjectRef -> LoadBearing D) (store : AttestationStore)
    (roots : List ObjectRef) : Prop :=
  forall key d, LiveAt verdict (FollowedEdge store) roots (.keyRecord key) d ->
    forall row, row ∈ store.rows -> row.tier = .localTier ->
    (row.attestingKeyId = key ∨ row.attestedKeyId = key) ->
    (verdict (.attestation row.attestationId)).isNo = false ->
    exists d', d' ≤ d + 1 ∧
      LiveAt verdict (FollowedEdge store) roots (.attestation row.attestationId) d'

/-!
## Edges that the walk follows
-/

def ObjectRef.KeyOrRow : ObjectRef -> Prop
  | .attestation _ => True
  | .keyRecord _ => True
  | _ => False

variable {o o' : ObjectRef}

theorem visitKey_inj
    (ho : o.KeyOrRow) (ho' : o'.KeyOrRow) (h : o.visitKey = o'.visitKey) :
    o = o' := by
  have hclasses : forall id id' : String,
      "attestation" ++ ":" ++ id ≠ "key_record" ++ ":" ++ id' := by
    intro id id' heq
    have hfirst := congrArg (fun s : String => s.toList.head?) heq
    simp at hfirst
  cases o with
  | attestation id =>
      cases o' with
      | attestation id' => exact congrArg ObjectRef.attestation (String.append_right_inj _ |>.mp h)
      | keyRecord id' => exact absurd h (hclasses id id')
      | transportDestination _ _ | fountainContent _ _ | hardCaseEvent _ => cases ho'
  | keyRecord id =>
      cases o' with
      | attestation id' => exact absurd h.symm (hclasses id' id)
      | keyRecord id' => exact congrArg ObjectRef.keyRecord (String.append_right_inj _ |>.mp h)
      | transportDestination _ _ | fountainContent _ _ | hardCaseEvent _ => cases ho'
  | transportDestination _ _ | fountainContent _ _ | hardCaseEvent _ => cases ho

variable {store : AttestationStore}

theorem mem_neighbours_key_iff
    (store : AttestationStore) (key : String) (o : ObjectRef) :
    o ∈ neighbours store (.keyRecord key) <->
      exists row, row ∈ store.rows ∧ row.tier = .federation ∧
        (row.attestingKeyId = key ∨ row.attestedKeyId = key) ∧
        o = .attestation row.attestationId := by
  have hby : forall row, row ∈ store.read (AttestationQuery.byKey key) <->
      row ∈ store.rows ∧ row.attestingKeyId = key ∧ row.tier = .federation := by
    intro row
    simp [AttestationQuery.byKey, AttestationQuery.admits]
  have hto : forall row, row ∈ store.read (AttestationQuery.toKey key) <->
      row ∈ store.rows ∧ row.attestedKeyId = key ∧ row.tier = .federation := by
    intro row
    simp [AttestationQuery.toKey, AttestationQuery.admits]
  have hdelegations : forall row, row ∈ delegationsTo store key ->
      row ∈ store.read (AttestationQuery.toKey key) := by
    intro row hrow
    have hread := Search.fresh_subset _ _ row hrow
    rw [hto]
    simp only [AttestationStore.mem_read_iff, AttestationQuery.admits, AttestationQuery.withTypes,
      AttestationQuery.toKey, Bool.and_eq_true, Option.all_some, beq_iff_eq] at hread
    exact ⟨hread.1, hread.2.1.1.1.2, hread.2.1.1.2⟩
  simp only [neighbours, List.mem_map, List.mem_append]
  constructor
  · rintro ⟨row, (hrow | hrow) | hrow, rfl⟩
    · rcases (hby row).mp hrow with ⟨hmem, hkey, htier⟩
      exact ⟨row, hmem, htier, Or.inl hkey, rfl⟩
    · rcases (hto row).mp hrow with ⟨hmem, hkey, htier⟩
      exact ⟨row, hmem, htier, Or.inr hkey, rfl⟩
    · rcases (hto row).mp (hdelegations row hrow) with ⟨hmem, hkey, htier⟩
      exact ⟨row, hmem, htier, Or.inr hkey, rfl⟩
  · rintro ⟨row, hmem, htier, hkey | hkey, rfl⟩
    · exact ⟨row, Or.inl (Or.inl ((hby row).mpr ⟨hmem, hkey, htier⟩)), rfl⟩
    · exact ⟨row, Or.inl (Or.inr ((hto row).mpr ⟨hmem, hkey, htier⟩)), rfl⟩

theorem mem_neighbours_row_iff
    (store : AttestationStore) (id : String) (o : ObjectRef) :
    o ∈ neighbours store (.attestation id) <->
      exists row, row ∈ store.rows ∧ row.attestationId = id ∧
        ((exists key, key ∈ namedKeys row ∧ key ≠ "" ∧ o = .keyRecord key) ∨
          exists target, citedRow row = some target ∧ o = .attestation target) := by
  have hneighbours : forall row, o ∈ rowNeighbours row <->
      (exists key, key ∈ namedKeys row ∧ key ≠ "" ∧ o = .keyRecord key) ∨
        exists target, citedRow row = some target ∧ o = .attestation target := by
    intro row
    rw [rowNeighbours, List.mem_append, List.mem_map, List.mem_map]
    refine or_congr (exists_congr fun key => ?_) (exists_congr fun target => ?_)
    · rw [List.mem_filter, decide_eq_true_iff, and_assoc, @eq_comm _ o]
    · rw [Option.mem_toList, @eq_comm _ o]
  have hstored : o ∈ neighbours store (.attestation id) <->
      exists row, store.getAttestation id = some row ∧ o ∈ rowNeighbours row := by
    cases hget : store.getAttestation id with
    | none => simp [neighbours, hget]
    | some row => simp [neighbours, hget]
  rw [hstored]
  refine exists_congr fun row => ?_
  rw [AttestationStore.getAttestation_eq_some_iff, hneighbours, and_assoc]

theorem mem_neighbours_iff_followedEdge :
    o' ∈ neighbours store o <-> FollowedEdge store o o' := by
  constructor
  · intro h
    cases o with
    | keyRecord key =>
        rcases (mem_neighbours_key_iff store key o').mp h with ⟨row, hrow, htier, rfl | rfl, rfl⟩
        · exact .authored hrow htier
        · exact .attested hrow htier
    | attestation id =>
        rcases (mem_neighbours_row_iff store id o').mp h with ⟨row, hrow, rfl, hnames | hcites⟩
        · rcases hnames with ⟨key, hnamed, hkey, rfl⟩
          exact .names hrow hnamed hkey
        · rcases hcites with ⟨target, hcites, rfl⟩
          exact .cites hrow hcites
    | transportDestination _ _ | fountainContent _ _ | hardCaseEvent _ => cases h
  · intro h
    cases h with
    | authored hrow htier =>
        exact (mem_neighbours_key_iff store _ _).mpr ⟨_, hrow, htier, Or.inl rfl, rfl⟩
    | attested hrow htier =>
        exact (mem_neighbours_key_iff store _ _).mpr ⟨_, hrow, htier, Or.inr rfl, rfl⟩
    | names hrow hnamed hkey =>
        exact (mem_neighbours_row_iff store _ _).mpr
          ⟨_, hrow, rfl, Or.inl ⟨_, hnamed, hkey, rfl⟩⟩
    | cites hrow hcites =>
        exact (mem_neighbours_row_iff store _ _).mpr ⟨_, hrow, rfl, Or.inr ⟨_, hcites, rfl⟩⟩

theorem FollowedEdge.documented
    (h : FollowedEdge store o o') :
    DocumentedEdge store o o' := by
  cases h with
  | authored hrow _ => exact .authored hrow trivial
  | attested hrow _ => exact .attested hrow trivial
  | names hrow hnamed hkey => exact .names hrow hnamed hkey
  | cites hrow hcites => exact .cites hrow hcites

theorem FollowedEdge.keyOrRow
    (h : FollowedEdge store o o') :
    o'.KeyOrRow := by
  cases h <;> trivial

theorem followedEdge_or_local
    (h : DocumentedEdge store o o') :
    FollowedEdge store o o' ∨
      exists key row, o = .keyRecord key ∧ row ∈ store.rows ∧ row.tier = .localTier ∧
        (row.attestingKeyId = key ∨ row.attestedKeyId = key) ∧
        o' = .attestation row.attestationId := by
  cases h with
  | @authored row hrow _ =>
      cases htier : row.tier with
      | federation => exact Or.inl (.authored hrow htier)
      | localTier => exact Or.inr ⟨_, row, rfl, hrow, htier, Or.inl rfl, rfl⟩
  | @attested row hrow _ =>
      cases htier : row.tier with
      | federation => exact Or.inl (.attested hrow htier)
      | localTier => exact Or.inr ⟨_, row, rfl, hrow, htier, Or.inr rfl, rfl⟩
  | names hrow hnamed hkey => exact Or.inl (.names hrow hnamed hkey)
  | cites hrow hcites => exact Or.inl (.cites hrow hcites)

section Live

variable {D : Type} {verdict : ObjectRef -> LoadBearing D} {roots : List ObjectRef} {d : Nat}

theorem Reached.documented
    (h : Reached verdict (FollowedEdge store) roots o d) :
    Reached verdict (DocumentedEdge store) roots o d := by
  induction h with
  | root hroot => exact .root hroot
  | step _ hlive hedge ih => exact .step ih hlive hedge.documented

theorem LiveAt.documented
    (h : LiveAt verdict (FollowedEdge store) roots o d) :
    LiveAt verdict (DocumentedEdge store) roots o d :=
  ⟨h.1.documented, h.2⟩

/-- Where the local rows are reached, the followed edges lead wherever the documented ones do,
and no later. -/
theorem LocalRowsReached.followed
    (hlocal : LocalRowsReached verdict store roots)
    (h : Reached verdict (DocumentedEdge store) roots o d) (hlive : (verdict o).isNo = false) :
    exists d', d' ≤ d ∧ LiveAt verdict (FollowedEdge store) roots o d' := by
  induction h with
  | root hroot => exact ⟨0, Nat.le_refl 0, .root hroot, hlive⟩
  | step _ hplive hedge ih =>
      rcases ih hplive with ⟨d', hle, hp⟩
      rcases followedEdge_or_local hedge with
        hfollowed | ⟨key, row, rfl, hrow, htier, hkey, rfl⟩
      · exact ⟨d' + 1, Nat.succ_le_succ hle, .step hp.1 hp.2 hfollowed, hlive⟩
      · rcases hlocal key d' hp row hrow htier hkey hlive with ⟨d'', hle', hreached⟩
        exact ⟨d'', le_trans hle' (Nat.succ_le_succ hle), hreached⟩

end Live

/-!
## The closure against the documented edges
-/

section Members

variable {D : Type} {verdict : ObjectRef -> LoadBearing D} {roots : List ObjectRef} {budget : Nat}

theorem mem_successors_iff
    (n c : QueuedObject) :
    c ∈ successors verdict store n <->
      (verdict n.object).isNo = false ∧ exists o, o ∈ neighbours store n.object ∧
        c = ⟨o, n.depth + 1, some n.object.visitKey⟩ := by
  unfold successors QueuedObject.onward
  cases hno : (verdict n.object).isNo with
  | true => simp
  | false => simp [eq_comm]

structure Proposed (verdict : ObjectRef -> LoadBearing D) (store : AttestationStore)
    (roots : List ObjectRef) (n : QueuedObject) : Prop where
  keyOrRow : n.object.KeyOrRow
  reached : Reached verdict (FollowedEdge store) roots n.object n.depth

variable {n : QueuedObject}

theorem Proposed.successor
    {c : QueuedObject} (h : Proposed verdict store roots n) (hc : c ∈ successors verdict store n) :
    Proposed verdict store roots c := by
  rcases (mem_successors_iff n c).mp hc with ⟨hlive, o, ho, rfl⟩
  have hedge := mem_neighbours_iff_followedEdge.mp ho
  exact ⟨hedge.keyOrRow, .step h.reached hlive hedge⟩

theorem proposed_startNodes
    (hroots : forall o, o ∈ roots -> o.KeyOrRow) (hn : n ∈ startNodes roots) :
    Proposed verdict store roots n := by
  rcases List.mem_map.mp hn with ⟨o, ho, rfl⟩
  exact ⟨hroots o ho, .root ho⟩

theorem proposed_of_judged
    (hroots : forall o, o ∈ roots -> o.KeyOrRow) (hn : n ∈ judgedFrom verdict store roots budget) :
    Proposed verdict store roots n := by
  refine Search.explore_invariant (fun _ h _ hc => h.successor hc) budget _ _ ?_ n hn
  intro m hm
  exact proposed_startNodes hroots (Search.fresh_subset _ _ m hm)

theorem mem_members_iff
    (m : ClosureMember D) :
    m ∈ (loadBearingClosure verdict store roots budget).members <->
      exists n, n ∈ judgedFrom verdict store roots budget ∧
        (verdict n.object).isNo = false ∧ n.member verdict = m := by
  rw [(closureSpec verdict store roots budget).members]
  simp [isLive, and_assoc]

theorem liveAt_of_mem_members
    (hroots : forall o, o ∈ roots -> o.KeyOrRow) {m : ClosureMember D}
    (hm : m ∈ (loadBearingClosure verdict store roots budget).members) :
    LiveAt verdict (FollowedEdge store) roots m.object m.depth := by
  rcases (mem_members_iff m).mp hm with ⟨n, hn, hlive, rfl⟩
  exact ⟨(proposed_of_judged hroots hn).reached, hlive⟩

theorem nodup_members
    (verdict : ObjectRef -> LoadBearing D) (store : AttestationStore) (roots : List ObjectRef)
    (budget : Nat) :
    ((loadBearingClosure verdict store roots budget).members.map ClosureMember.object).Nodup := by
  have hkeys : ((judgedFrom verdict store roots budget).map QueuedObject.key).Nodup := by
    refine Search.nodup_map_explore budget _ _ (Search.nodup_map_fresh _ _) ?_
    intro n hn
    exact Finset.mem_union_right _ (List.mem_toFinset.mpr (List.mem_map_of_mem hn))
  have hobjects : ((judgedFrom verdict store roots budget).map QueuedObject.object).Nodup := by
    refine List.Nodup.of_map ObjectRef.visitKey ?_
    rw [List.map_map]
    exact hkeys
  rw [(closureSpec verdict store roots budget).members, List.map_map]
  exact hobjects.sublist (List.filter_sublist.map _)

theorem judged_count
    (verdict : ObjectRef -> LoadBearing D) (store : AttestationStore) (roots : List ObjectRef)
    (budget : Nat) :
    (loadBearingClosure verdict store roots budget).members.length +
      (loadBearingClosure verdict store roots budget).excludedProvenNotLoadBearing ≤ budget := by
  have hspec := closureSpec verdict store roots budget
  have hparts := List.length_eq_length_filter_add (l := judgedFrom verdict store roots budget)
    (isLive verdict)
  have hlength : (judgedFrom verdict store roots budget).length ≤ budget :=
    Search.length_explore_le budget _ _
  rw [hspec.members, hspec.excluded, List.length_map]
  omega

/-!
## When the walk is complete
-/

theorem level_startNodes :
    forall a, a ∈ startNodes roots -> forall b, b ∈ startNodes roots -> a.depth = b.depth := by
  intro a ha b hb
  rcases List.mem_map.mp ha with ⟨_, -, rfl⟩
  rcases List.mem_map.mp hb with ⟨_, -, rfl⟩
  rfl

theorem depth_of_successor
    (n c : QueuedObject) (hc : c ∈ successors verdict store n) :
    c.depth = n.depth + 1 := by
  rcases (mem_successors_iff n c).mp hc with ⟨-, o, -, rfl⟩
  rfl

theorem complete_of_budget
    (hroots : forall o, o ∈ roots -> o.KeyOrRow)
    (hbudget : {o | exists d, Reached verdict (DocumentedEdge store) roots o d}.encard ≤ budget) :
    (loadBearingClosure verdict store roots budget).completeness = .complete := by
  rw [(closureSpec verdict store roots budget).complete]
  have hfinite := Set.finite_of_encard_le_coe hbudget
  rw [hfinite.encard_eq_coe_toFinset_card, Nat.cast_le] at hbudget
  have hkeys : forall n : QueuedObject, Proposed verdict store roots n ->
      n.key ∈ hfinite.toFinset.image ObjectRef.visitKey := by
    intro n hn
    exact Finset.mem_image_of_mem _ (hfinite.mem_toFinset.mpr ⟨n.depth, hn.reached.documented⟩)
  have henough : Search.Enough (hfinite.toFinset.image ObjectRef.visitKey)
      (Search.seenAfter QueuedObject.key ∅ (startNodes roots))
      (Search.fresh QueuedObject.key ∅ (startNodes roots)) budget :=
    Search.Enough.start (fun r hr => hkeys r (proposed_startNodes hroots hr))
      (le_trans Finset.card_image_le hbudget)
  refine Search.Enough.drained (Proposed verdict store roots) ?_ budget _ _ henough ?_
  · intro n hn c hc
    exact ⟨hn.successor hc, hkeys c (hn.successor hc)⟩
  · intro n hn
    exact proposed_startNodes hroots (Search.fresh_subset _ _ n hn)

theorem object_of_key
    (hroots : forall o, o ∈ roots -> o.KeyOrRow) (hn : n ∈ judgedFrom verdict store roots budget)
    (ho : o.KeyOrRow) (hkey : n.key = o.visitKey) :
    n.object = o :=
  visitKey_inj (proposed_of_judged hroots hn).keyOrRow ho hkey

section Complete

variable (hroots : forall o, o ∈ roots -> o.KeyOrRow)
  (hcomplete : (loadBearingClosure verdict store roots budget).completeness =
    .complete)

include hroots hcomplete

theorem exists_judged_root
    (ho : o ∈ roots) :
    exists n, n ∈ judgedFrom verdict store roots budget ∧ n.object = o ∧ n.depth = 0 := by
  have hleft := (closureSpec verdict store roots budget).complete.mp hcomplete
  rcases Search.exists_explored_root level_startNodes hleft
    (List.mem_map_of_mem (f := fun object => (⟨object, 0, none⟩ : QueuedObject)) ho) with
    ⟨n, hn, hkey, hle⟩
  exact ⟨n, hn, object_of_key hroots hn (hroots o ho) hkey, Nat.le_zero.mp hle⟩

theorem exists_judged_neighbour
    (hn : n ∈ judgedFrom verdict store roots budget) (hlive : (verdict n.object).isNo = false)
    (ho : o ∈ neighbours store n.object) :
    exists m, m ∈ judgedFrom verdict store roots budget ∧ m.object = o ∧ m.depth ≤ n.depth + 1 := by
  have hleft := (closureSpec verdict store roots budget).complete.mp hcomplete
  have hc : (⟨o, n.depth + 1, some n.object.visitKey⟩ : QueuedObject) ∈
      successors verdict store n :=
    (mem_successors_iff n _).mpr ⟨hlive, o, ho, rfl⟩
  rcases Search.exists_explored_successor depth_of_successor level_startNodes hleft hn hc with
    ⟨m, hm, hkey, hle⟩
  exact ⟨m, hm, object_of_key hroots hm (mem_neighbours_iff_followedEdge.mp ho).keyOrRow hkey,
    hle⟩

theorem exists_member_of_liveAt
    {d : Nat} (h : LiveAt verdict (FollowedEdge store) roots o d) :
    exists m, m ∈ (loadBearingClosure verdict store roots budget).members ∧ m.object = o ∧
      m.depth ≤ d := by
  have hjudged : exists n, n ∈ judgedFrom verdict store roots budget ∧ n.object = o ∧
      n.depth ≤ d := by
    rcases h with ⟨hreached, -⟩
    induction hreached with
    | root ho =>
        rcases exists_judged_root hroots hcomplete ho with ⟨n, hn, hobject, hdepth⟩
        exact ⟨n, hn, hobject, Nat.le_of_eq hdepth⟩
    | step _ hplive hedge ih =>
        rcases ih with ⟨n, hn, rfl, hdepth⟩
        rcases exists_judged_neighbour hroots hcomplete hn hplive
          (mem_neighbours_iff_followedEdge.mpr hedge) with ⟨m, hm, hobject, hle⟩
        exact ⟨m, hm, hobject, by omega⟩
  rcases hjudged with ⟨n, hn, rfl, hdepth⟩
  exact ⟨n.member verdict, (mem_members_iff _).mpr ⟨n, hn, h.2, rfl⟩, rfl, hdepth⟩

theorem exactMembers_iff :
    ExactMembers verdict (DocumentedEdge store) roots
        (loadBearingClosure verdict store roots budget).members <->
      LocalRowsReached verdict store roots := by
  constructor
  · intro hexact key d hkey row hrow _ hnamed hlive
    have hedge : DocumentedEdge store (.keyRecord key)
        (.attestation row.attestationId) := by
      rcases hnamed with rfl | rfl
      · exact .authored hrow trivial
      · exact .attested hrow trivial
    have hrowLive : LiveAt verdict (DocumentedEdge store) roots
        (.attestation row.attestationId) (d + 1) :=
      ⟨.step hkey.1.documented hkey.2 hedge, hlive⟩
    rcases hexact.every _ _ hrowLive with ⟨m, hm, hobject⟩
    refine ⟨m.depth, (hexact.shortest m hm).2 _ (hobject ▸ hrowLive), ?_⟩
    exact hobject ▸ liveAt_of_mem_members hroots hm
  · intro hlocal
    have hevery : forall o d, LiveAt verdict (DocumentedEdge store) roots o d ->
        exists m, m ∈ (loadBearingClosure verdict store roots budget).members ∧ m.object = o ∧
          m.depth ≤ d := by
      intro o d hd
      rcases hlocal.followed hd.1 hd.2 with ⟨d', hle, hfollowed⟩
      rcases exists_member_of_liveAt hroots hcomplete hfollowed with ⟨m, hm, hobject, hdepth⟩
      exact ⟨m, hm, hobject, le_trans hdepth hle⟩
    constructor
    · intro m hm
      refine ⟨(liveAt_of_mem_members hroots hm).documented, ?_⟩
      intro d hd
      rcases hevery m.object d hd with ⟨m', hm', hobject, hle⟩
      have hsame : m' = m :=
        List.inj_on_of_nodup_map (nodup_members verdict store roots budget) hm' hm hobject
      exact hsame ▸ hle
    · intro o d hd
      rcases hevery o d hd with ⟨m, hm, hobject, -⟩
      exact ⟨m, hm, hobject⟩

end Complete

end Members

/-- For every store, verdict function, list of key and row roots and budget: no more objects
are judged than the budget allows, no object is a member twice and every member is live and
reached by a path of its depth, whether or not the walk was cut short.  The walk is complete
whenever the budget covers the objects reached, and a complete closure is the live set at
shortest depths just if the followed edges reach the live rows of the local tier beside the
keys they reach. -/
theorem closure_exact_iff_local_kept
    {D : Type} (verdict : ObjectRef -> LoadBearing D) (store : AttestationStore)
    (roots : List ObjectRef) (hroots : forall o, o ∈ roots -> o.KeyOrRow) (budget : Nat) :
    let c := loadBearingClosure verdict store roots budget
    c.members.length + c.excludedProvenNotLoadBearing ≤ budget ∧
    (c.members.map ClosureMember.object).Nodup ∧
    (forall m, m ∈ c.members ->
      LiveAt verdict (DocumentedEdge store) roots m.object m.depth) ∧
    ({o | exists d, Reached verdict (DocumentedEdge store) roots o d}.encard ≤ budget ->
      c.completeness = ClosureCompleteness.complete) ∧
    (c.completeness = ClosureCompleteness.complete ->
      (ExactMembers verdict (DocumentedEdge store) roots c.members <->
        LocalRowsReached verdict store roots)) := by
  refine ⟨judged_count verdict store roots budget, nodup_members verdict store roots budget, ?_,
    complete_of_budget hroots, exactMembers_iff hroots⟩
  intro m hm
  exact (liveAt_of_mem_members hroots hm).documented

/-!
## More budget
-/

section Budget

variable {D : Type} (verdict : ObjectRef -> LoadBearing D) (store : AttestationStore)

theorem walkFrontier_of_nil
    {st : ClosureState D} (h : st.frontier = []) (budget : Nat) :
    walkFrontier verdict store budget st = st := by
  cases budget with
  | zero => rfl
  | succ left => rw [walkFrontier, h]

theorem walkFrontier_add
    (budget extra : Nat) (st : ClosureState D) :
    walkFrontier verdict store (budget + extra) st =
      walkFrontier verdict store extra (walkFrontier verdict store budget st) := by
  induction budget generalizing st with
  | zero => rw [Nat.zero_add, walkFrontier]
  | succ left ih =>
      cases hfrontier : st.frontier with
      | nil => simp only [walkFrontier_of_nil verdict store hfrontier]
      | cons n rest =>
          rw [Nat.add_right_comm, walkFrontier, walkFrontier, hfrontier]
          exact ih _

/-- A larger budget only adds members after those already found, and it changes nothing once
the closure is complete. -/
theorem closure_grows_with_budget
    (roots : List ObjectRef) (budget extra : Nat) :
    let c := loadBearingClosure verdict store roots budget
    let c' := loadBearingClosure verdict store roots (budget + extra)
    c.members <+: c'.members ∧ (c.completeness = .complete -> c' = c) := by
  have hadd := walkFrontier_add verdict store budget extra (startState roots)
  constructor
  · simp only [loadBearingClosure, hadd, (walked_walkFrontier verdict store extra _).members]
    exact List.prefix_append _ _
  · intro hcomplete
    have hdrained : (walkFrontier verdict store budget (startState roots)).frontier = [] := by
      by_contra hleft
      simp [loadBearingClosure, hleft] at hcomplete
    simp only [loadBearingClosure, hadd, walkFrontier_of_nil verdict store hdrained, hdrained,
      if_pos]

end Budget

/-!
## A row that only this node holds
-/

def ownRow (tier : AttestationTier) : Attestation :=
  { Attestation.ofAuthor "draft" "owner" "owner" .scores 0 [] with tier }

def ownStore (tier : AttestationTier) : AttestationStore where
  rows := [ownRow tier]
  distinct := List.nodup_singleton _

def undecided (_ : ObjectRef) : LoadBearing String :=
  .unknown "scores" "no reverse index"

def ownClosure (tier : AttestationTier) (roots : List ObjectRef) : LoadBearingClosure String :=
  loadBearingClosure undecided (ownStore tier) roots 2

/-- All rows are of the federation tier, or the local row is a root itself. -/
theorem sealedRow_kept :
    ((ownClosure .federation [.keyRecord "owner"]).completeness =
        .complete ∧
      ExactMembers undecided (DocumentedEdge (ownStore .federation))
        [.keyRecord "owner"]
        (ownClosure .federation [.keyRecord "owner"]).members) ∧
    (ownClosure .localTier
        [.keyRecord "owner", .attestation "draft"]).completeness =
        .complete ∧
      ExactMembers undecided (DocumentedEdge (ownStore .localTier))
        [.keyRecord "owner", .attestation "draft"]
        (ownClosure .localTier
          [.keyRecord "owner", .attestation "draft"]).members := by
  have hcomplete : (ownClosure .federation
      [.keyRecord "owner"]).completeness = .complete := by
    decide
  have hcomplete' : (ownClosure .localTier
      [.keyRecord "owner", .attestation "draft"]).completeness =
        .complete := by
    decide
  refine ⟨⟨hcomplete, ?_⟩, hcomplete', ?_⟩
  · refine ((closure_exact_iff_local_kept undecided (ownStore .federation)
      [.keyRecord "owner"] (by simp [ObjectRef.KeyOrRow]) 2).2.2.2.2 hcomplete).mpr ?_
    intro key d _ row hrow htier
    rw [List.mem_singleton.mp hrow] at htier
    cases htier
  · refine ((closure_exact_iff_local_kept undecided (ownStore .localTier)
      [.keyRecord "owner", .attestation "draft"]
      (by simp [ObjectRef.KeyOrRow]) 2).2.2.2.2 hcomplete').mpr ?_
    intro key d _ row hrow _ _ _
    rw [List.mem_singleton.mp hrow]
    exact ⟨0, Nat.zero_le _, .root (List.mem_cons_of_mem _ List.mem_cons_self), rfl⟩

/-- The owner's own row of the local tier is one documented step from the owner and live, and
a complete closure of the owner does not hold it. -/
theorem draftRow_left_out :
    let c := ownClosure .localTier [.keyRecord "owner"]
    c.completeness = .complete ∧
      LiveAt undecided (DocumentedEdge (ownStore .localTier))
        [.keyRecord "owner"] (.attestation "draft") 1 ∧
      .attestation "draft" ∉ c.members.map ClosureMember.object ∧
      "draft" ∉ c.attestationIds := by
  have hedge : DocumentedEdge (ownStore .localTier) (.keyRecord "owner")
      (.attestation "draft") :=
    @.authored _ (ownStore .localTier) (ownRow .localTier)
      List.mem_cons_self trivial
  refine ⟨by decide, ⟨?_, rfl⟩, by decide, by decide⟩
  exact .step (.root List.mem_cons_self) rfl hedge

end Closure
end CirisPersist.Federation
