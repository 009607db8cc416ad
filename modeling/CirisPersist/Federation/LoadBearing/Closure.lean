import CirisPersist.Federation.Precedence
import CirisPersist.Library.Search

/-!
# The load-bearing closure

What does a node have to keep?  The walk starts at a list of roots, judges each object it
takes from the frontier and follows the edges of those that are not proved dead.  A key
leads to the rows that name it, and a row to the keys it names and to the row it cites.
The number of objects judged is bounded by a budget, and a walk that runs out of it says so.
-/

namespace CirisPersist.Federation
namespace Closure

/-!
## Objects
-/

inductive ObjectRef where
  | attestation (attestationId : String)
  | keyRecord (keyId : String)
  | transportDestination (occurrenceKeyId transportKind : String)
  | fountainContent (contentId corpusKind : String)
  | hardCaseEvent (eventId : String)
deriving DecidableEq

namespace ObjectRef

/-- The identifier; a class with a composite key reports its leading part. -/
def id : ObjectRef -> String
  | attestation attestationId => attestationId
  | keyRecord keyId => keyId
  | transportDestination occurrenceKeyId _ => occurrenceKeyId
  | fountainContent contentId _ => contentId
  | hardCaseEvent eventId => eventId

def classToken : ObjectRef -> String
  | attestation _ => "attestation"
  | keyRecord _ => "key_record"
  | transportDestination _ _ => "transport_destination"
  | fountainContent _ _ => "fountain_content"
  | hardCaseEvent _ => "hard_case_event"

/-- The class and the full identity, under which an object is visited once. -/
def visitKey : ObjectRef -> String
  | transportDestination occurrenceKeyId transportKind =>
      "transport_destination:" ++ occurrenceKeyId ++ "\x1f" ++ transportKind
  | fountainContent contentId corpusKind =>
      "fountain_content:" ++ contentId ++ "\x1f" ++ corpusKind
  | other => other.classToken ++ ":" ++ other.id

end ObjectRef

/-- The verdict on one object, with what depends on it or why that is not known. -/
inductive LoadBearing (D : Type) where
  | yes (because : List D)
  | no
  | unknown (family reason : String)
deriving DecidableEq

def LoadBearing.isNo {D : Type} : LoadBearing D -> Bool
  | no => true
  | _ => false

/-!
## Edges
-/

def delegationsTo (store : AttestationStore) (key : String) : List Attestation :=
  Search.fresh Attestation.attestationId ∅
    (store.read ((AttestationQuery.toKey key).withTypes [.delegatesTo]))

def namedKeys (row : Attestation) : List String :=
  [row.attestingKeyId, row.attestedKeyId, row.scrub.scrubKeyId] ++ row.subjectKeyIds ++
    row.additionalScrubs.map ScrubSig.scrubKeyId

/-- The row that a row cites.  On a structural composer the reference is no citation. -/
def citedRow (row : Attestation) : Option String :=
  if isStructuralComposer row.attestationType then
    none
  else
    referencesAttestationId row

def rowNeighbours (row : Attestation) : List ObjectRef :=
  ((namedKeys row).filter (· ≠ "")).map .keyRecord ++
    (citedRow row).toList.map .attestation

def neighbours (store : AttestationStore) : ObjectRef -> List ObjectRef
  | .keyRecord keyId =>
      (store.read (AttestationQuery.byKey keyId) ++ store.read (AttestationQuery.toKey keyId) ++
        delegationsTo store keyId).map fun row => .attestation row.attestationId
  | .attestation attestationId =>
      match store.getAttestation attestationId with
      | none => []
      | some row => rowNeighbours row
  | _ => []

/-!
## The walk
-/

structure QueuedObject where
  object : ObjectRef
  depth : Nat
  reachedFrom : Option String
deriving DecidableEq

def QueuedObject.key (n : QueuedObject) : String :=
  n.object.visitKey

structure ClosureMember (D : Type) where
  object : ObjectRef
  verdict : LoadBearing D
  depth : Nat
  reachedFrom : Option String
deriving DecidableEq

inductive ClosureCompleteness where
  | complete
  | truncated (budget frontierRemaining : Nat)
deriving DecidableEq

structure LoadBearingClosure (D : Type) where
  roots : List ObjectRef
  members : List (ClosureMember D)
  attestationIds : Finset String
  keyIds : Finset String
  revisits : Nat
  excludedProvenNotLoadBearing : Nat
  completeness : ClosureCompleteness

structure ClosureState (D : Type) where
  visited : Finset String
  frontier : List QueuedObject
  members : List (ClosureMember D)
  attestationIds : Finset String
  keyIds : Finset String
  revisits : Nat
  excluded : Nat

namespace ClosureState

variable {D : Type}

def empty : ClosureState D where
  visited := ∅
  frontier := []
  members := []
  attestationIds := ∅
  keyIds := ∅
  revisits := 0
  excluded := 0

/-- An object enters the frontier only when it was not visited before. -/
def push (st : ClosureState D) (next : QueuedObject) : ClosureState D :=
  if next.key ∈ st.visited then
    { st with revisits := st.revisits + 1 }
  else
    { st with
      visited := insert next.key st.visited
      frontier := st.frontier ++ [next] }

def keep (st : ClosureState D) (m : ClosureMember D) : ClosureState D :=
  { st with
    members := st.members ++ [m]
    attestationIds := match m.object with
      | .attestation attestationId => insert attestationId st.attestationIds
      | _ => st.attestationIds
    keyIds := match m.object with
      | .keyRecord keyId => insert keyId st.keyIds
      | _ => st.keyIds }

end ClosureState

section Walk

variable {D : Type} (verdict : ObjectRef -> LoadBearing D) (store : AttestationStore)

def QueuedObject.member (n : QueuedObject) : ClosureMember D where
  object := n.object
  verdict := verdict n.object
  depth := n.depth
  reachedFrom := n.reachedFrom

def QueuedObject.onward (n : QueuedObject) : List QueuedObject :=
  (neighbours store n.object).map fun object =>
    ⟨object, n.depth + 1, some n.object.visitKey⟩

/-- One expansion: an object that is proved dead is neither kept nor followed. -/
def expand (st : ClosureState D) (n : QueuedObject) : ClosureState D :=
  if (verdict n.object).isNo then
    { st with excluded := st.excluded + 1 }
  else
    (n.onward store).foldl ClosureState.push (st.keep (n.member verdict))

def walkFrontier : Nat -> ClosureState D -> ClosureState D
  | 0, st => st
  | left + 1, st =>
      match st.frontier with
      | [] => st
      | n :: rest => walkFrontier left (expand verdict store { st with frontier := rest } n)

def startNodes (roots : List ObjectRef) : List QueuedObject :=
  roots.map fun object => ⟨object, 0, none⟩

def startState (roots : List ObjectRef) : ClosureState D :=
  (startNodes roots).foldl ClosureState.push ClosureState.empty

def loadBearingClosure (roots : List ObjectRef) (budget : Nat) : LoadBearingClosure D :=
  let st := walkFrontier verdict store budget (startState roots)
  { roots := roots
    members := st.members
    attestationIds := st.attestationIds
    keyIds := st.keyIds
    revisits := st.revisits
    excludedProvenNotLoadBearing := st.excluded
    completeness :=
      if st.frontier = [] then
        .complete
      else
        .truncated budget st.frontier.length }

/-!
## The walk as a search
-/

def successors (n : QueuedObject) : List QueuedObject :=
  if (verdict n.object).isNo then [] else n.onward store

def judged (budget : Nat) (st : ClosureState D) : List QueuedObject :=
  Search.explore QueuedObject.key (successors verdict store) budget st.visited st.frontier

def isLive (n : QueuedObject) : Bool :=
  !(verdict n.object).isNo

end Walk

structure Pushed {D : Type} (st : ClosureState D) (children : List QueuedObject)
    (st' : ClosureState D) : Prop where
  visited : st'.visited = Search.seenAfter QueuedObject.key st.visited children
  frontier : st'.frontier = st.frontier ++ Search.fresh QueuedObject.key st.visited children
  members : st'.members = st.members
  attestationIds : st'.attestationIds = st.attestationIds
  keyIds : st'.keyIds = st.keyIds
  excluded : st'.excluded = st.excluded

section Simulation

variable {D : Type}

theorem pushed_foldl
    (children : List QueuedObject) (st : ClosureState D) :
    Pushed st children (children.foldl ClosureState.push st) := by
  induction children generalizing st with
  | nil => constructor <;> simp [Search.seenAfter, Search.fresh]
  | cons n rest ih =>
      by_cases hseen : n.key ∈ st.visited
      · have hpush : st.push n = { st with revisits := st.revisits + 1 } := if_pos hseen
        have hrest := ih (st.push n)
        rw [hpush] at hrest
        rw [List.foldl_cons, hpush]
        constructor
        · rw [hrest.visited, Search.seenAfter_cons_of_mem rest hseen]
        · rw [hrest.frontier, Search.fresh, if_pos hseen]
        · exact hrest.members
        · exact hrest.attestationIds
        · exact hrest.keyIds
        · exact hrest.excluded
      · have hpush : st.push n =
            { st with visited := insert n.key st.visited, frontier := st.frontier ++ [n] } :=
          if_neg hseen
        have hrest := ih (st.push n)
        rw [hpush] at hrest
        rw [List.foldl_cons, hpush]
        constructor
        · rw [hrest.visited, Search.seenAfter_cons_of_notMem rest hseen]
        · rw [hrest.frontier, Search.fresh, if_neg hseen, List.append_assoc, List.singleton_append]
        · exact hrest.members
        · exact hrest.attestationIds
        · exact hrest.keyIds
        · exact hrest.excluded

structure Projected (st : ClosureState D) : Prop where
  attestationIds : forall id, id ∈ st.attestationIds <->
    exists m, m ∈ st.members ∧ m.object = .attestation id
  keyIds : forall id, id ∈ st.keyIds <->
    exists m, m ∈ st.members ∧ m.object = .keyRecord id

/-- One round of the search, with what the walk notes about the object taken. -/
structure Expanded (verdict : ObjectRef -> LoadBearing D) (store : AttestationStore)
    (st : ClosureState D) (n : QueuedObject) (st' : ClosureState D) : Prop where
  visited : st'.visited =
    Search.seenAfter QueuedObject.key st.visited (successors verdict store n)
  frontier : st'.frontier =
    st.frontier ++ Search.fresh QueuedObject.key st.visited (successors verdict store n)
  members : st'.members =
    st.members ++ (([n].filter (isLive verdict)).map fun n => n.member verdict)
  excluded : st'.excluded = st.excluded + ([n].filter fun n => !isLive verdict n).length
  projected : Projected st -> Projected st'

theorem Projected.keep
    {st : ClosureState D} (h : Projected st) (m : ClosureMember D) :
    Projected (st.keep m) := by
  have hmembers : forall o : ObjectRef, (exists m', m' ∈ (st.keep m).members ∧ m'.object = o) <->
      (exists m', m' ∈ st.members ∧ m'.object = o) ∨ m.object = o := by
    intro o
    simp [ClosureState.keep, or_and_right, exists_or]
  constructor
  · intro id
    rw [hmembers, ← h.attestationIds]
    unfold ClosureState.keep
    cases m.object <;> simp [or_comm, eq_comm]
  · intro id
    rw [hmembers, ← h.keyIds]
    unfold ClosureState.keep
    cases m.object <;> simp [or_comm, eq_comm]

variable (verdict : ObjectRef -> LoadBearing D) (store : AttestationStore)

theorem expanded_expand
    (st : ClosureState D) (n : QueuedObject) :
    Expanded verdict store st n (expand verdict store st n) := by
  unfold expand
  by_cases hno : (verdict n.object).isNo = true
  · rw [if_pos hno]
    constructor
    · simp [successors, hno, Search.seenAfter, Search.fresh]
    · simp [successors, hno, Search.fresh]
    · simp [isLive, hno]
    · simp [isLive, hno]
    · intro h
      exact ⟨h.attestationIds, h.keyIds⟩
  · rw [if_neg hno]
    have hsuccessors : successors verdict store n = n.onward store := if_neg hno
    have hpushed := pushed_foldl (n.onward store) (st.keep (n.member verdict))
    constructor
    · rw [hpushed.visited, hsuccessors]
      rfl
    · rw [hpushed.frontier, hsuccessors]
      rfl
    · rw [hpushed.members]
      simp [ClosureState.keep, isLive, hno]
    · rw [hpushed.excluded]
      simp [ClosureState.keep, isLive, hno]
    · intro h
      have hkept := h.keep (n.member verdict)
      constructor
      · rw [hpushed.attestationIds, hpushed.members]
        exact hkept.attestationIds
      · rw [hpushed.keyIds, hpushed.members]
        exact hkept.keyIds

/-- What the whole loop does: it is the search, and it notes the verdict on each object it
takes. -/
structure Walked (verdict : ObjectRef -> LoadBearing D) (store : AttestationStore)
    (budget : Nat) (st st' : ClosureState D) : Prop where
  frontier : st'.frontier = Search.remaining QueuedObject.key (successors verdict store) budget
    st.visited st.frontier
  members : st'.members = st.members ++
    (((judged verdict store budget st).filter (isLive verdict)).map fun n => n.member verdict)
  excluded : st'.excluded = st.excluded +
    ((judged verdict store budget st).filter fun n => !isLive verdict n).length
  projected : Projected st -> Projected st'

theorem walked_walkFrontier
    (budget : Nat) (st : ClosureState D) :
    Walked verdict store budget st (walkFrontier verdict store budget st) := by
  induction budget generalizing st with
  | zero => constructor <;> simp [walkFrontier, Search.remaining, judged, Search.explore]
  | succ left ih =>
      cases hfrontier : st.frontier with
      | nil =>
          have hstop : walkFrontier verdict store (left + 1) st = st := by
            rw [walkFrontier, hfrontier]
          rw [hstop]
          constructor <;> simp [hfrontier, judged, Search.remaining, Search.explore]
      | cons n rest =>
          have hrun : walkFrontier verdict store (left + 1) st =
              walkFrontier verdict store left
                (expand verdict store { st with frontier := rest } n) := by
            rw [walkFrontier, hfrontier]
          have hstep := expanded_expand verdict store { st with frontier := rest } n
          have hrest := ih (expand verdict store { st with frontier := rest } n)
          have hjudged : judged verdict store (left + 1) st =
              [n] ++ judged verdict store left
                (expand verdict store { st with frontier := rest } n) := by
            unfold judged
            rw [hfrontier, Search.explore, hstep.visited, hstep.frontier, List.singleton_append]
          rw [hrun]
          constructor
          · rw [hrest.frontier, hstep.visited, hstep.frontier, hfrontier, Search.remaining]
          · rw [hrest.members, hstep.members, hjudged, List.filter_append, List.map_append,
              List.append_assoc]
          · rw [hrest.excluded, hstep.excluded, hjudged, List.filter_append, List.length_append,
              Nat.add_assoc]
          · intro h
            exact hrest.projected (hstep.projected ⟨h.attestationIds, h.keyIds⟩)

/-!
## What a closure holds
-/

def judgedFrom (verdict : ObjectRef -> LoadBearing D) (store : AttestationStore)
    (roots : List ObjectRef) (budget : Nat) : List QueuedObject :=
  Search.explore QueuedObject.key (successors verdict store) budget
    (Search.seenAfter QueuedObject.key ∅ (startNodes roots))
    (Search.fresh QueuedObject.key ∅ (startNodes roots))

def leftFrom (verdict : ObjectRef -> LoadBearing D) (store : AttestationStore)
    (roots : List ObjectRef) (budget : Nat) : List QueuedObject :=
  Search.remaining QueuedObject.key (successors verdict store) budget
    (Search.seenAfter QueuedObject.key ∅ (startNodes roots))
    (Search.fresh QueuedObject.key ∅ (startNodes roots))

structure ClosureSpec (verdict : ObjectRef -> LoadBearing D) (store : AttestationStore)
    (roots : List ObjectRef) (budget : Nat) (c : LoadBearingClosure D) : Prop where
  members : c.members = ((judgedFrom verdict store roots budget).filter (isLive verdict)).map
    fun n => n.member verdict
  excluded : c.excludedProvenNotLoadBearing =
    ((judgedFrom verdict store roots budget).filter fun n => !isLive verdict n).length
  complete : c.completeness = .complete <->
    leftFrom verdict store roots budget = []
  attestationIds : forall id, id ∈ c.attestationIds <->
    exists m, m ∈ c.members ∧ m.object = .attestation id
  keyIds : forall id, id ∈ c.keyIds <->
    exists m, m ∈ c.members ∧ m.object = .keyRecord id

theorem closureSpec
    (roots : List ObjectRef) (budget : Nat) :
    ClosureSpec verdict store roots budget (loadBearingClosure verdict store roots budget) := by
  have hstart : Pushed (ClosureState.empty : ClosureState D) (startNodes roots)
      (startState roots) :=
    pushed_foldl (startNodes roots) ClosureState.empty
  have hjudged : judged verdict store budget (startState roots) =
      judgedFrom verdict store roots budget := by
    unfold judged
    rw [hstart.visited, hstart.frontier]
    rfl
  have hwalked := walked_walkFrontier verdict store budget (startState roots)
  have hprojected := hwalked.projected ⟨by
    intro id
    rw [hstart.attestationIds, hstart.members]
    simp [ClosureState.empty], by
    intro id
    rw [hstart.keyIds, hstart.members]
    simp [ClosureState.empty]⟩
  constructor
  · have hmembers := hwalked.members
    rw [hstart.members, hjudged] at hmembers
    exact hmembers
  · have hexcluded := hwalked.excluded
    rw [hstart.excluded, hjudged] at hexcluded
    exact hexcluded.trans (Nat.zero_add _)
  · have hfrontier := hwalked.frontier
    rw [hstart.visited, hstart.frontier] at hfrontier
    have hleft : (walkFrontier verdict store budget (startState roots)).frontier =
        leftFrom verdict store roots budget := hfrontier
    rw [← hleft]
    unfold loadBearingClosure
    dsimp only
    split
    · rename_i hempty
      simp [hempty]
    · rename_i hqueued
      simp [hqueued]
  · exact hprojected.attestationIds
  · exact hprojected.keyIds

end Simulation

end Closure
end CirisPersist.Federation
