import CirisPersist.Federation.Lineage.Apply

/-!
# Writing an offer version by version

The store admits each version against the head it holds at that point.  What it has
written when a version is refused stays written.
-/

namespace CirisPersist.Federation
namespace Lineage

open Checks Expiring

/-!
## Writing versions
-/

section Write

/-- A version of the list, with the versions before it as its lineage. -/
def WrittenFrom (before rest : List Version) (s : SignedCommunity) : Prop :=
  exists mid v post, rest = mid ++ v :: post ∧ s = { v with lineage := before ++ mid }

variable {rest : List Version} {s : SignedCommunity} {v : Version}

theorem writtenFrom_cons
    {before : List Version} (h : WrittenFrom (before ++ [v]) rest s) :
    WrittenFrom before (v :: rest) s := by
  rcases h with ⟨mid, w, post, rfl, rfl⟩
  exact ⟨v :: mid, w, post, rfl, by rw [List.append_assoc]; rfl⟩

theorem writtenFrom_head
    (before rest : List Version) (v : Version) :
    WrittenFrom before (v :: rest) { v with lineage := before } :=
  ⟨[], v, rest, rfl, by rw [List.append_nil]⟩

theorem chainOf_prefix_of_writtenFrom
    (h : WrittenFrom [] rest s) :
    chainOf s <+: rest := by
  rcases h with ⟨mid, v, post, rfl, rfl⟩
  exact ⟨post, by simp [chainOf]⟩

theorem prefix_chainOf_of_writtenFrom
    {before : List Version} (h : WrittenFrom before rest s) :
    before <+: chainOf s := by
  rcases h with ⟨mid, v, post, _, rfl⟩
  rw [chainOf, List.append_assoc]
  exact List.prefix_append _ _

variable [LineageCodec]

theorem writeVersions_cons_cases
    (id : String) (replaces : Option Authorization) (store : GroupStore)
    (before : List Version) (v : Version) (rest : List Version) :
    (exists e, writeVersions id replaces store before (v :: rest) = (.error e, store)) ∨
    exists authorization held,
      authorizationOf replaces v = some authorization ∧
      store.communities v.community.communityKeyId = some held ∧
      GroupStore.proofNames { v with lineage := before }
        (LineageCodec.rowHash held.community) = true ∧
      GroupStore.namesHeldHead { v with lineage := before }
        (LineageCodec.rowHash held.community) authorization = true ∧
      writeVersions id replaces store before (v :: rest) =
        let written := writeVersions id replaces
          (store.place { v with lineage := before } held authorization) (before ++ [v]) rest
        (written.1.map (· + 1), written.2) := by
  cases hauth : authorizationOf replaces v with
  | none => exact Or.inl ⟨.doesNotExtend id, by simp only [writeVersions, hauth]⟩
  | some authorization =>
      cases hsup : store.supersedeGroupRow { v with lineage := before } authorization with
      | error e => exact Or.inl ⟨e, by simp only [writeVersions, hauth, hsup]⟩
      | ok store' =>
          rcases GroupStore.supersedeGroupRow_eq_ok_iff.mp hsup with
            ⟨held, hheld, hproof, hnames, rfl⟩
          exact Or.inr ⟨authorization, held, rfl, hheld, hproof, hnames,
            by simp only [writeVersions, hauth, hsup]⟩

variable {id : String} {row : StoredRow}

theorem holds_writeVersions
    {replaces : Option Authorization} {store : GroupStore} {before : List Version}
    (h : (writeVersions id replaces store before rest).2.Holds row) :
    store.Holds row ∨ exists s, WrittenFrom before rest s ∧ row = .signed s := by
  induction rest generalizing store before with
  | nil => exact Or.inl h
  | cons v rest ih =>
      rcases writeVersions_cons_cases id replaces store before v rest with
        ⟨e, heq⟩ | ⟨authorization, held, _, hheld, _, _, heq⟩
      · rw [heq] at h
        exact Or.inl h
      · rw [heq] at h
        rcases ih h with hplaced | ⟨s, hs, rfl⟩
        · rcases GroupStore.holds_place hheld hplaced with hold | rfl
          · exact Or.inl hold
          · exact Or.inr ⟨_, writtenFrom_head before rest v, rfl⟩
        · exact Or.inr ⟨s, writtenFrom_cons hs, rfl⟩

theorem communities_writeVersions
    (id : String) (replaces : Option Authorization) (rest : List Version) (k : String)
    (store : GroupStore) (before : List Version) :
    (writeVersions id replaces store before rest).2.communities k = store.communities k ∨
      exists s, WrittenFrom before rest s ∧
        (writeVersions id replaces store before rest).2.communities k =
          some (.signed s) := by
  induction rest generalizing store before with
  | nil => exact Or.inl rfl
  | cons v rest ih =>
      rcases writeVersions_cons_cases id replaces store before v rest with
        ⟨e, heq⟩ | ⟨authorization, held, _, hheld, _, _, heq⟩
      · rw [heq]
        exact Or.inl rfl
      · rw [heq]
        rcases ih (store.place { v with lineage := before } held authorization) (before ++ [v]) with
          hkeep | ⟨s, hs, hlive⟩
        · simp only
          rw [hkeep]
          by_cases hk : k = v.community.communityKeyId
          · refine Or.inr ⟨_, writtenFrom_head before rest v, ?_⟩
            rw [hk]
            exact GroupStore.communities_place_self ..
          · exact Or.inl (GroupStore.communities_place_of_ne _ _ _ _ hk)
        · exact Or.inr ⟨s, writtenFrom_cons hs, hlive⟩

theorem length_groupVersions_writeVersions
    (id : String) (replaces : Option Authorization) (rest : List Version) (store : GroupStore)
    (before : List Version) :
    store.groupVersions.length ≤
      (writeVersions id replaces store before rest).2.groupVersions.length := by
  induction rest generalizing store before with
  | nil => exact le_refl _
  | cons v rest ih =>
      rcases writeVersions_cons_cases id replaces store before v rest with
        ⟨e, heq⟩ | ⟨authorization, held, _, _, _, _, heq⟩
      · rw [heq]
      · rw [heq]
        have hrest := ih (store.place { v with lineage := before } held authorization)
          (before ++ [v])
        rw [GroupStore.length_groupVersions_place] at hrest
        exact le_trans (Nat.le_succ _) hrest

/-!
## Versions that name their predecessors
-/

/-- The version carries the id and the digest of the version before it. -/
def NamesPrior (id : String) (prior v : Version) : Prop :=
  v.community.communityKeyId = id ∧
    v.community.prevHeadDigest = LineageCodec.rowHash prior.community

def NamesPriors (id : String) : Version -> List Version -> Prop
  | _, [] => True
  | prior, v :: rest => NamesPrior id prior v ∧ NamesPriors id v rest

def ProofsLink : Version -> List Version -> Prop
  | _, [] => True
  | prior, v :: rest =>
      (exists proof, v.supersedeProof = some proof ∧
        proof.priorPersistRowHash = LineageCodec.rowHash prior.community) ∧
      ProofsLink v rest

/-- Two records of one hash have one id, as they would have one content. -/
def HashNamesId : Prop :=
  forall c d : Community, LineageCodec.rowHash c = LineageCodec.rowHash d ->
    c.communityKeyId = d.communityKeyId

/-- Where a row with the prior's content is live, a version that its proof links to the
prior is placed exactly when it names the prior. -/
theorem writeVersions_cons_of_link
    (hids : HashNamesId) {store : GroupStore} (before rest : List Version) {prior : Version}
    {proof : GroupSupersedeProof} (hrow : store.communities id = some row)
    (hcontent : row.community = prior.community) (hproof : v.supersedeProof = some proof)
    (hlink : proof.priorPersistRowHash = LineageCodec.rowHash prior.community) :
    (NamesPrior id prior v ∧ exists authorization,
      writeVersions id none store before (v :: rest) =
        let written := writeVersions id none
          (store.place { v with lineage := before } row authorization) (before ++ [v]) rest
        (written.1.map (· + 1), written.2)) ∨
    (¬ NamesPrior id prior v ∧
      exists e, writeVersions id none store before (v :: rest) = (Except.error e, store)) := by
  let change := Authorization.change proof.changeEnvelope proof.quorumSignatures
  have hauth : authorizationOf none v = some change := by
    simp only [authorizationOf, hproof, change]
  rcases writeVersions_cons_cases id none store before v rest with
    ⟨e, heq⟩ | ⟨authorization, held, hauth', hheld, hproofNames, hnames, heq⟩
  · by_cases hnp : NamesPrior id prior v
    · -- every check of the store passes, so the version is not refused
      have hok : store.supersedeGroupRow { v with lineage := before } change =
          Except.ok (store.place { v with lineage := before } row change) := by
        refine GroupStore.supersedeGroupRow_eq_ok_iff.mpr ⟨row, ?_, ?_, ?_, rfl⟩
        · exact (congrArg store.communities hnp.1).trans hrow
        · simp [GroupStore.proofNames, hproof, hlink, hcontent]
        · simp [GroupStore.namesHeldHead, hnp.2, hcontent]
      exact Or.inl ⟨hnp, change, by simp only [writeVersions, hauth, hok]⟩
    · exact Or.inr ⟨hnp, e, heq⟩
  · have hheldHash : LineageCodec.rowHash held.community =
        LineageCodec.rowHash prior.community := by
      simp only [GroupStore.proofNames, hproof, Option.all_some, decide_eq_true_eq] at hproofNames
      exact hproofNames.symm.trans hlink
    have hid : v.community.communityKeyId = id := by
      have hkeyed := store.keyed _ _ hheld
      have hkeyedRow := store.keyed _ _ hrow
      rw [hcontent] at hkeyedRow
      rw [← hkeyed, ← hkeyedRow]
      exact hids _ _ hheldHash
    have hnp : NamesPrior id prior v := by
      refine ⟨hid, ?_⟩
      rw [hauth] at hauth'
      cases hauth'
      simp only [GroupStore.namesHeldHead, Authorization.replaced, Bool.or_eq_true,
        Bool.and_eq_true, decide_eq_true_eq, reduceCtorEq, and_false, or_false] at hnames
      exact hnames.trans hheldHash
    rw [hid, hrow] at hheld
    cases hheld
    exact Or.inl ⟨hnp, authorization, heq⟩

theorem writeVersions_isOk_iff
    (hids : HashNamesId) (store : GroupStore) (before : List Version) (prior : Version)
    (row : StoredRow) (hrow : store.communities id = some row)
    (hcontent : row.community = prior.community) (hlinks : ProofsLink prior rest) :
    ((exists n, (writeVersions id none store before rest).1 = .ok n) <->
      NamesPriors id prior rest) := by
  induction rest generalizing store before prior row with
  | nil => exact ⟨fun _ => trivial, fun _ => ⟨0, rfl⟩⟩
  | cons v rest ih =>
      rcases hlinks with ⟨⟨proof, hproof, hlink⟩, hlinks⟩
      rcases writeVersions_cons_of_link hids before rest hrow hcontent hproof hlink with
        ⟨hnp, authorization, heq⟩ | ⟨hnp, e, heq⟩
      · have hplaced : (store.place { v with lineage := before } row
            authorization).communities id =
            some (.signed { v with lineage := before }) := by
          rw [← hnp.1]
          exact GroupStore.communities_place_self ..
        have hrest := ih _ (before ++ [v]) v _ hplaced rfl hlinks
        rw [heq]
        simp only [NamesPriors, hnp, true_and]
        rw [← hrest]
        simp [map_eq_ok_iff]
      · rw [heq]
        refine ⟨?_, fun h => absurd h.1 hnp⟩
        rintro ⟨n, hn⟩
        cases hn

theorem writeVersions_store_eq_iff
    (hids : HashNamesId) {store : GroupStore} (before rest : List Version) {prior : Version}
    (hrow : store.communities id = some row) (hcontent : row.community = prior.community)
    (hlinks : ProofsLink prior (v :: rest)) :
    (writeVersions id none store before (v :: rest)).2 = store <-> ¬ NamesPrior id prior v := by
  rcases hlinks with ⟨⟨proof, hproof, hlink⟩, _⟩
  rcases writeVersions_cons_of_link hids before rest hrow hcontent hproof hlink with
    ⟨hnames, authorization, heq⟩ | ⟨hnames, e, heq⟩
  · refine ⟨fun hstore => ?_, fun h => absurd hnames h⟩
    -- the replaced row is in the history from now on
    have hlonger := length_groupVersions_writeVersions id none rest
      (store.place { v with lineage := before } row authorization) (before ++ [v])
    rw [GroupStore.length_groupVersions_place] at hlonger
    rw [heq] at hstore
    rw [hstore] at hlonger
    exact absurd hlonger (Nat.not_succ_le_self _)
  · rw [heq]
    exact ⟨fun _ => hnames, fun _ => rfl⟩

end Write

/-!
## Verified links
-/

section Links

variable {W : Type} [RubricNum W] [External] [LineageCodec] {reads : ChainReads} {now : Instant}

theorem proofsLink_of_verifyLinks
    {rest : List Version} {before : List Version} {prior : Version}
    (hprior : before.getLast? = some prior)
    (h : (verifyLinks W reads before rest).outcome now = .ok ()) :
    ProofsLink prior rest := by
  induction rest generalizing before prior with
  | nil => trivial
  | cons v rest ih =>
      rw [verifyLinks, Judged.outcome_bind_eq_ok_iff] at h
      rcases h with ⟨amendedAt, hlink, hrest⟩
      rcases proof_of_verifyFoundersLink hlink with ⟨prior', proof, hlast, hproof, hnames⟩
      cases hprior.symm.trans hlast
      exact ⟨⟨proof, hproof, hnames⟩, ih List.getLast?_concat hrest⟩

theorem verified_of_writtenFrom
    {before rest : List Version} {s : SignedCommunity}
    (h : (verifyLinks W reads before rest).outcome now = .ok ()) (hs : WrittenFrom before rest s) :
    exists amendedAt,
      (verifyFoundersLink W reads s.lineage s.toVersion).outcome now = .ok amendedAt := by
  rcases hs with ⟨mid, v, post, hsplit, rfl⟩
  exact (verifyLinks_eq_ok_iff before).mp h mid v post hsplit

end Links

end Lineage
end CirisPersist.Federation
