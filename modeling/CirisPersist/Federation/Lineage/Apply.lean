import Mathlib.Logic.Function.Basic
import CirisPersist.Federation.Lineage.Standing

/-!
# Applying an offered chain

A node that holds a trust-root row takes a replicated row by its chain.  A chain that
extends the held one is stored version by version from there.  A row that is not
rooted, or whose founders no longer count, may be replaced by a chain from an accord
birth.
-/

namespace CirisPersist.Federation

/-!
## The group store
-/

inductive StoredRow where
  | unsigned (community : Community)
  | signed (row : SignedCommunity)
deriving DecidableEq

def StoredRow.community : StoredRow -> Community
  | unsigned c => c
  | signed s => s.community

inductive Authorization where
  | birthReplacesUnrooted (rowHash : String)
  | rebirthReplacesStalled (rowHash : String)
  | change (changeEnvelope : Json) (quorumSignatures : List ThresholdSignature)
deriving DecidableEq

def Authorization.replaced : Authorization -> Option String
  | birthReplacesUnrooted h => some h
  | rebirthReplacesStalled h => some h
  | change _ _ => none

/-- The live row of each community, and the rows they superseded, oldest first. -/
structure GroupStore where
  communities : String -> Option StoredRow
  groupVersions : List (StoredRow × Authorization)
  keyed : forall k row, communities k = some row -> row.community.communityKeyId = k

inductive ApplyError where
  | chain (error : ChainError)
  | doesNotExtend (id : String)
  | disagreesWithFold (lineageKeyId : String)
  | unknownGroup (groupKeyId : String)
  | staleProof (groupKeyId held : String)
  | prevHeadMismatch (groupKeyId named held : String)
deriving DecidableEq

namespace GroupStore

open Checks

def place (store : GroupStore) (version : SignedCommunity) (held : StoredRow)
    (authorization : Authorization) : GroupStore where
  communities := Function.update store.communities version.community.communityKeyId
    (some (.signed version))
  groupVersions := store.groupVersions ++ [(held, authorization)]
  keyed := by
    intro k row h
    rw [Function.update_apply] at h
    split at h
    · next hk =>
      cases h
      exact hk.symm
    · exact store.keyed k row h

variable (store : GroupStore) (version : SignedCommunity)

@[simp]
theorem communities_place_self
    (held : StoredRow) (authorization : Authorization) :
    (store.place version held authorization).communities version.community.communityKeyId =
      some (.signed version) :=
  Function.update_self ..

theorem communities_place_of_ne
    (held : StoredRow) (authorization : Authorization) {k : String}
    (hk : k ≠ version.community.communityKeyId) :
    (store.place version held authorization).communities k = store.communities k :=
  Function.update_of_ne hk ..

@[simp]
theorem length_groupVersions_place
    (held : StoredRow) (authorization : Authorization) :
    (store.place version held authorization).groupVersions.length =
      store.groupVersions.length + 1 :=
  List.length_append

def Holds (store : GroupStore) (row : StoredRow) : Prop :=
  (exists id, store.communities id = some row) ∨
    exists authorization, (row, authorization) ∈ store.groupVersions

theorem holds_place
    {store : GroupStore} {version : SignedCommunity} {held row : StoredRow}
    {authorization : Authorization} {id : String} (hheld : store.communities id = some held)
    (h : (store.place version held authorization).Holds row) :
    store.Holds row ∨ row = .signed version := by
  rcases h with ⟨k, hk⟩ | ⟨auth, hmem⟩
  · simp only [place, Function.update_apply] at hk
    split at hk
    · exact Or.inr (Option.some.inj hk).symm
    · exact Or.inl (Or.inl ⟨k, hk⟩)
  · rcases List.mem_append.mp hmem with hold | hnew
    · exact Or.inl (Or.inr ⟨auth, hold⟩)
    · cases List.mem_singleton.mp hnew
      exact Or.inl (Or.inl ⟨id, hheld⟩)

section Supersede

variable [LineageCodec]

/-- A version names the head it succeeds; a birth may replace the row it is recorded
as replacing. -/
def namesHeldHead (version : SignedCommunity) (heldHash : String)
    (authorization : Authorization) : Bool :=
  decide (version.community.prevHeadDigest = heldHash) ||
    (decide (version.community.prevHeadDigest = "") &&
      decide (authorization.replaced = some heldHash))

def proofNames (version : SignedCommunity) (heldHash : String) : Bool :=
  version.supersedeProof.all fun p => decide (p.priorPersistRowHash = heldHash)

def supersedeGroupRow (store : GroupStore) (version : SignedCommunity)
    (authorization : Authorization) : Except ApplyError GroupStore := do
  let key := version.community.communityKeyId
  let held ← orRefuse (store.communities key) (.unknownGroup key)
  let heldHash := LineageCodec.rowHash held.community
  require (proofNames version heldHash) (.staleProof key heldHash)
  require (namesHeldHead version heldHash authorization)
    (.prevHeadMismatch key version.community.prevHeadDigest heldHash)
  .ok (store.place version held authorization)

theorem supersedeGroupRow_eq_ok_iff
    {store store' : GroupStore} {version : SignedCommunity} {authorization : Authorization} :
    store.supersedeGroupRow version authorization = .ok store' <->
      exists held, store.communities version.community.communityKeyId = some held ∧
        proofNames version (LineageCodec.rowHash held.community) = true ∧
        namesHeldHead version (LineageCodec.rowHash held.community) authorization = true ∧
        store' = store.place version held authorization := by
  unfold supersedeGroupRow
  constructor
  · intro h
    rcases bind_eq_ok_iff.mp h with ⟨held, hheld, h⟩
    rcases bind_eq_ok_iff.mp h with ⟨_, hproof, h⟩
    rcases bind_eq_ok_iff.mp h with ⟨_, hnames, h⟩
    exact ⟨held, orRefuse_eq_ok_iff.mp hheld, require_eq_ok_iff.mp hproof,
      require_eq_ok_iff.mp hnames, (Except.ok.inj h).symm⟩
  · rintro ⟨held, hheld, hproof, hnames, rfl⟩
    refine bind_eq_ok_iff.mpr ⟨held, orRefuse_eq_ok_iff.mpr hheld, ?_⟩
    refine bind_eq_ok_iff.mpr ⟨(), require_eq_ok_iff.mpr hproof, ?_⟩
    exact bind_eq_ok_iff.mpr ⟨(), require_eq_ok_iff.mpr hnames, rfl⟩

end Supersede

end GroupStore

namespace Lineage

open Checks Expiring

/-!
## Extensions
-/

inductive Extends where
  | same
  | fromPos (pos : Nat)
  | no
deriving DecidableEq

section Model

variable [LineageCodec]

def sameVersion (a b : Version) : Bool :=
  decide (LineageCodec.rowHash a.community = LineageCodec.rowHash b.community) &&
    decide (a.authorityKeyId = b.authorityKeyId) &&
    decide (a.supersedeProof = b.supersedeProof)

def extendsHeld (held : SignedCommunity) (chain : List Version) : Extends :=
  let heldChain := chainOf held
  let pos := heldChain.length - 1
  if pos < chain.length ∧ (heldChain.zip chain).all (fun p => sameVersion p.1 p.2) then
    if chain.length - 1 = pos then .same else .fromPos pos
  else if (chain.getLast?).any fun v =>
      decide (LineageCodec.rowHash v.community = LineageCodec.rowHash held.community) then
    .same
  else
    .no

/-- The held chain, and after it the offered versions past the held one. -/
def walkFromHeld (held : SignedCommunity) (offered : List Version) (pos : Nat) :
    List Version × Nat :=
  (chainOf held ++ offered.drop (pos + 1), (chainOf held).length - 1)

/-- A birth founded later than the held chain's, over founders that no longer count. -/
def isRebirthOverStalled (standing : StoredStanding) (chain : List Version) : Bool :=
  match standing with
  | .stalled held _ =>
      let heldBirth := (held.lineage.head?.map fun b => b.community.foundedAt).getD
        held.community.foundedAt
      chain.head?.any fun b =>
        b.supersedeProof.isNone && decide (heldBirth < b.community.foundedAt)
  | _ => false

/-- The authorization recorded for a version: the row a birth replaces, or the founders'
proof. -/
def authorizationOf (replaces : Option Authorization) (v : Version) : Option Authorization :=
  match v.supersedeProof with
  | some p => some (.change p.changeEnvelope p.quorumSignatures)
  | none => replaces

/-- Each version in turn, with the versions before it as its lineage.  What was written
before a refusal stays. -/
def writeVersions (id : String) (replaces : Option Authorization) :
    GroupStore -> List Version -> List Version -> Except ApplyError Nat × GroupStore
  | store, _, [] => (.ok 0, store)
  | store, before, v :: rest =>
      match authorizationOf replaces v with
      | none => (.error (.doesNotExtend id), store)
      | some authorization =>
          match store.supersedeGroupRow { v with lineage := before } authorization with
          | .error e => (.error e, store)
          | .ok store' =>
              let written := writeVersions id replaces store' (before ++ [v]) rest
              (written.1.map (· + 1), written.2)

end Model

/-- One offer, with what the node reads and its clock when the offer is applied. -/
structure Application where
  reads : StandingReads
  coversFold : Community -> Instant -> Instant -> Bool
  now : Instant
  offered : SignedCommunity

namespace Application

variable (W : Type) [RubricNum W] [External] [LineageCodec] (a : Application)
  (store : GroupStore)

def id : String :=
  a.offered.community.communityKeyId

def storedStanding : Except ChainError StoredStanding :=
  match store.communities a.id with
  | none => .ok .absent
  | some row =>
      if !isTrustRootGrade row.community then
        .ok (.notRooted .notTrustRoot)
      else
        match row with
        | .unsigned _ =>
            .ok (.notRooted .notSigned)
        | .signed s => (computeStanding W a.reads s).outcome a.now

def coversHead (walk : List Version) : Bool :=
  match walk.reverse with
  | head :: before :: _ =>
      a.coversFold head.community (headInstant before) (headInstant head)
  | _ => true

def extendStored (held : SignedCommunity) (pos : Nat) :
    Except ApplyError (Option Nat) × GroupStore :=
  let walk := walkFromHeld held (chainOf a.offered) pos
  match (verifyLinksFrom W a.reads.toChainReads walk.1 walk.2).outcome a.now with
  | .error e => (.error (.chain e), store)
  | .ok _ =>
      if !a.coversHead walk.1 then
        (.error (.disagreesWithFold a.id), store)
      else
        let written := writeVersions a.id none store (walk.1.take (walk.2 + 1))
          (walk.1.drop (walk.2 + 1))
        (written.1.map some, written.2)

def replaceStored (replaces : Authorization) : Except ApplyError (Option Nat) × GroupStore :=
  match (verifyChain W a.reads.toChainReads (chainOf a.offered)).outcome a.now with
  | .error e => (.error (.chain e), store)
  | .ok _ =>
      let written := writeVersions a.id (some replaces) store [] (chainOf a.offered)
      (written.1.map some, written.2)

/-- The count of versions written, nothing where no row is held, and the store after. -/
def applyTrustRootChainCounted : Except ApplyError (Option Nat) × GroupStore :=
  match a.storedStanding W store with
  | .error e => (.error (.chain e), store)
  | .ok .absent => (.ok none, store)
  | .ok standing =>
      match standing.held with
      | some held =>
          match extendsHeld held (chainOf a.offered) with
          | .same => (.ok (some 0), store)
          | .fromPos pos => a.extendStored W store held pos
          | .no =>
              if isRebirthOverStalled standing (chainOf a.offered) then
                a.replaceStored W store (.rebirthReplacesStalled
                  (LineageCodec.rowHash held.community))
              else
                (.error (.doesNotExtend a.id), store)
      | none =>
          a.replaceStored W store (.birthReplacesUnrooted
            (((store.communities a.id).map fun row => LineageCodec.rowHash row.community).getD ""))

end Application

end Lineage

end CirisPersist.Federation
