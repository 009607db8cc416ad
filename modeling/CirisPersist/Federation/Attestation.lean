import CirisPersist.Base.Text
import CirisPersist.Base.Json
import CirisPersist.Base.External
import CirisPersist.Library.FirstWins
import Mathlib.Data.List.Sort

/-!
# Attestation rows and typed reads

A federation directory holds attestation rows, each under its own id.  Every
fold of the federation layer reads it through a typed query: the rows by one
author or about one subject key, of the federation tier, newest first.
-/

namespace CirisPersist.Federation

/-!
## Rows
-/

inductive AttestationType where
  | scores
  | delegatesTo
  | supersedes
  | withdraws
  | recants
  | other (token : String)
deriving DecidableEq

inductive AttestationTier where
  | localTier
  | federation
deriving DecidableEq

structure ScrubSig where
  scrubKeyId : String
  scrubSignatureClassical : String
  scrubSignaturePqc : Option String
deriving DecidableEq

structure Attestation where
  attestationId : String
  attestingKeyId : String
  attestedKeyId : String
  attestationType : AttestationType
  assertedAt : Instant
  expiresAt : Option Instant
  envelope : Json
  scrub : ScrubSig
  subjectKeyIds : List String
  withdrawsAdmissionRule : Option Nat
  tier : AttestationTier
  additionalScrubs : List ScrubSig

namespace Attestation

/-- A federation row signed by its author alone, without an expiry. -/
def ofAuthor (id author attested : String) (kind : AttestationType) (assertedAt : Instant)
    (fields : List (String × Json)) : Attestation where
  attestationId := id
  attestingKeyId := author
  attestedKeyId := attested
  attestationType := kind
  assertedAt := assertedAt
  expiresAt := none
  envelope := .obj fields
  scrub := ⟨author, "", none⟩
  subjectKeyIds := []
  withdrawsAdmissionRule := none
  tier := .federation
  additionalScrubs := []

def dimension (a : Attestation) : Option String :=
  a.envelope.getStr? "dimension"

def scrubs (a : Attestation) : List ScrubSig :=
  a.scrub :: a.additionalScrubs

def isRetraction (a : Attestation) : Bool :=
  a.attestationType == .withdraws ||
    a.attestationType == .recants

def isDelegation (a : Attestation) : Bool :=
  a.attestationType == .delegatesTo

end Attestation

/-!
## Queries

Paging is left out: a caller that reads every page reads the whole answer, as the page
walk of the query module shows.
-/

inductive DimensionFilter where
  | any
  | startingWith (stem : String)

structure AttestationQuery where
  author : Option String
  subject : Option String
  dimension : DimensionFilter
  types : List AttestationType

namespace AttestationQuery

def byKey (key : String) : AttestationQuery where
  author := some key
  subject := none
  dimension := .any
  types := []

def toKey (key : String) : AttestationQuery where
  author := none
  subject := some key
  dimension := .any
  types := []

def withTypes (q : AttestationQuery) (types : List AttestationType) : AttestationQuery :=
  { q with types := types }

def withDimensionStem (q : AttestationQuery) (stem : String) : AttestationQuery :=
  { q with dimension := .startingWith stem }

def admits (q : AttestationQuery) (a : Attestation) : Bool :=
  q.author.all (fun k => a.attestingKeyId == k) &&
    q.subject.all (fun k => a.attestedKeyId == k) &&
    a.tier == .federation &&
    (match q.dimension with
      | .any => true
      | .startingWith stem => a.dimension.any (Text.startsWith stem)) &&
    (q.types.isEmpty || q.types.contains a.attestationType)

end AttestationQuery

def newerThan (a b : Attestation) : Prop :=
  b.assertedAt < a.assertedAt ∨
    (b.assertedAt = a.assertedAt ∧ b.attestationId ≤ a.attestationId)

instance : DecidableRel newerThan := by
  intro a b
  unfold newerThan
  infer_instance

/-!
## The store
-/

structure AttestationStore where
  rows : List Attestation
  distinct : (rows.map Attestation.attestationId).Nodup

namespace AttestationStore

def read (store : AttestationStore) (q : AttestationQuery) : List Attestation :=
  (store.rows.filter q.admits).insertionSort newerThan

variable (store : AttestationStore)

@[simp]
theorem mem_read_iff
    (q : AttestationQuery) (a : Attestation) :
    a ∈ store.read q <-> a ∈ store.rows ∧ q.admits a = true := by
  simp [read, List.mem_insertionSort]

theorem read_distinct
    (q : AttestationQuery) :
    ((store.read q).map Attestation.attestationId).Nodup := by
  have hperm := (List.perm_insertionSort newerThan (store.rows.filter q.admits)).map
    Attestation.attestationId
  exact hperm.nodup_iff.mpr (store.distinct.sublist (List.filter_sublist.map _))

theorem eq_of_id_eq
    {a b : Attestation} (ha : a ∈ store.rows) (hb : b ∈ store.rows)
    (h : a.attestationId = b.attestationId) :
    a = b :=
  List.inj_on_of_nodup_map store.distinct ha hb h

def getAttestation (store : AttestationStore) (id : String) : Option Attestation :=
  store.rows.find? fun row => decide (row.attestationId = id)

theorem getAttestation_eq_some_iff
    (id : String) (r : Attestation) :
    store.getAttestation id = some r <-> r ∈ store.rows ∧ r.attestationId = id :=
  FirstWins.find_key_eq_some_iff store.distinct

def empty : AttestationStore where
  rows := []
  distinct := List.nodup_nil

def insert (store : AttestationStore) (a : Attestation)
    (hfresh : a.attestationId ∉ store.rows.map Attestation.attestationId) :
    AttestationStore where
  rows := a :: store.rows
  distinct := by
    rw [List.map_cons, List.nodup_cons]
    exact ⟨hfresh, store.distinct⟩

/-- A row under an id that is held already leaves the store as it is. -/
def put (store : AttestationStore) (a : Attestation) : AttestationStore :=
  if hheld : a.attestationId ∈ store.rows.map Attestation.attestationId then
    store
  else
    store.insert a hheld

end AttestationStore

end CirisPersist.Federation
