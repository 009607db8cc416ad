import CirisPersist.Federation.Crossing.Widening

/-!
# Bounded attestation reads

A query pins a key, narrows the rows and asks for one page.  The storage runs it as one
statement that fetches a row more than the page holds; the wrapper cuts the page and
mints the cursor of the next one.  A fold that needs every row walks the pages: each
call reads the page after the cursor that the call before returned.
-/

namespace CirisPersist.Federation
namespace Query

/-!
## Queries
-/

def maxPage : Nat :=
  10000

structure PageSize where
  rows : Nat
  pos : 0 < rows
  fits : rows < 2 ^ 32

inductive DimensionFilter where
  | any
  | startingWith (stem : String)
  | exact (dimension : String)
  | anyOf (dimensions : List String)
deriving DecidableEq

structure ScopeFilter where
  cohortScope : String
  cohortTarget : Option String
deriving DecidableEq

inductive Direction where
  | asc
  | desc
deriving DecidableEq

structure AttestationCursor where
  version : String
  lastAssertedAt : Instant
  lastAttestationId : String
deriving DecidableEq

def AttestationCursor.fromTrailing (lastAssertedAt : Instant) (lastAttestationId : String) :
    AttestationCursor where
  version := "v1"
  lastAssertedAt := lastAssertedAt
  lastAttestationId := lastAttestationId

/-- The fields `by` and `to` of the source are `author` and `subject` here. -/
structure AttestationQuery where
  author : Option String
  subject : Option String
  dimension : DimensionFilter
  types : List String
  typePrefix : Option String
  excludedDimensions : List String
  tier : AttestationTier
  order : Direction
  limit : PageSize
  after : Option AttestationCursor
  asOf : Option Instant
  scope : Option ScopeFilter

/-!
## What can go wrong
-/

inductive QueryDefect where
  | pinsNoKey
  | limitExceeds (limit : Nat)
  | namesNoDimension
  | cursorVersion (version : String)
deriving DecidableEq

def QueryDefect.message : QueryDefect -> String
  | pinsNoKey => "AttestationQuery pins no key (by or to)"
  | limitExceeds limit =>
      "AttestationQuery limit " ++ toString limit ++ " exceeds " ++ toString maxPage
  | namesNoDimension => "AttestationQuery DimensionFilter::AnyOf names no dimension"
  | cursorVersion version =>
      "AttestationCursor version " ++ version ++ " unsupported; v1 only"

inductive BackendFault where
  | pastPage (surplus fetch limit : Nat)
  | cursorStuck (cursor : AttestationCursor)
  | storage (message : String)
deriving DecidableEq

/-- The text of a fault, given how the date type prints an instant. -/
def BackendFault.message (display : Instant -> String) : BackendFault -> String
  | pastPage surplus fetch limit =>
      "execute_attestation_query returned " ++ toString surplus ++ " rows past its page of " ++
        toString fetch ++ " (limit " ++ toString limit ++ " + 1)"
  | cursorStuck cursor =>
      "attestation query cursor did not advance past (" ++ display cursor.lastAssertedAt ++ ", " ++
        cursor.lastAttestationId ++ ")"
  | storage message => message

inductive Error where
  | invalidArgument (defect : QueryDefect)
  | backend (fault : BackendFault)
  | unsupported (operation : String)
  | other (message : String)
deriving DecidableEq

/-!
## The order of rows
-/

def rowKey (a : PlacedAttestation) : Instant × String :=
  (a.assertedAt, a.attestationId)

def AttestationCursor.mark (c : AttestationCursor) : Instant × String :=
  (c.lastAssertedAt, c.lastAttestationId)

def KeyLt (k m : Instant × String) : Prop :=
  k.1 < m.1 ∨ (k.1 = m.1 ∧ k.2 < m.2)

instance (k m : Instant × String) : Decidable (KeyLt k m) := by
  unfold KeyLt
  infer_instance

namespace Direction

def Before : Direction -> Instant × String -> Instant × String -> Prop
  | asc, k, m => KeyLt k m
  | desc, k, m => KeyLt m k

instance (d : Direction) (k m : Instant × String) : Decidable (d.Before k m) := by
  cases d <;> (unfold Before; infer_instance)

def Precedes : Direction -> PlacedAttestation -> PlacedAttestation -> Prop
  | asc, a, b => newerThan b.toAttestation a.toAttestation
  | desc, a, b => newerThan a.toAttestation b.toAttestation

instance (d : Direction) : DecidableRel d.Precedes := by
  intro a b
  cases d <;> (unfold Precedes; infer_instance)

end Direction

/-!
## Running a query
-/

def typeText : AttestationType -> String
  | .scores => "scores"
  | .delegatesTo => "delegates_to"
  | .supersedes => "supersedes"
  | .withdraws => "withdraws"
  | .recants => "recants"
  | .other token => token

def cohortTargetOfEnvelope (envelope : Json) : Option String :=
  cohortTargetEnvelopeFields.findSome? envelope.getStr?

def DimensionFilter.accepts : DimensionFilter -> Option String -> Bool
  | any, _ => true
  | startingWith stem, dimension => dimension.any (Text.startsWith stem)
  | exact x, dimension => dimension == some x
  | anyOf xs, dimension => dimension.any xs.contains

def ScopeFilter.accepts (s : ScopeFilter) (a : PlacedAttestation) : Bool :=
  a.cohortScope == s.cohortScope &&
    s.cohortTarget.all fun t => cohortTargetOfEnvelope a.envelope == some t

namespace AttestationQuery

def validate (q : AttestationQuery) : Except Error Unit :=
  if q.author = none ∧ q.subject = none then
    .error (.invalidArgument .pinsNoKey)
  else if maxPage < q.limit.rows then
    .error (.invalidArgument (.limitExceeds q.limit.rows))
  else if q.dimension = .anyOf [] then
    .error (.invalidArgument .namesNoDimension)
  else
    match q.after with
    | some c =>
        if c.version ≠ "v1" then
          .error (.invalidArgument (.cursorVersion c.version))
        else
          .ok ()
    | none => .ok ()

def admits (q : AttestationQuery) (a : PlacedAttestation) : Bool :=
  q.author.all (fun k => a.attestingKeyId == k) &&
    q.subject.all (fun k => a.attestedKeyId == k) &&
    a.tier == q.tier &&
    q.dimension.accepts a.dimension &&
    q.scope.all (fun s => s.accepts a) &&
    (q.types.isEmpty || q.types.contains (typeText a.attestationType)) &&
    q.typePrefix.all (fun p => Text.startsWith p (typeText a.attestationType)) &&
    !a.dimension.any q.excludedDimensions.contains &&
    q.asOf.all (fun t => decide (a.assertedAt ≤ t)) &&
    q.after.all fun c => decide (q.order.Before c.mark (rowKey a))

def sort (q : AttestationQuery) (rows : List PlacedAttestation) : List PlacedAttestation :=
  rows.insertionSort q.order.Precedes

/-- One row past the page, so that the wrapper knows whether another page exists. -/
def fetch (q : AttestationQuery) : Nat :=
  q.limit.rows + 1

end AttestationQuery

abbrev Executor :=
  AttestationQuery -> Except Error (List PlacedAttestation)

def execute (rows : List PlacedAttestation) : Executor := fun q =>
  .ok ((q.sort (rows.filter q.admits)).take q.fetch)

structure Page where
  rows : List PlacedAttestation
  next : Option AttestationCursor

inductive NotServedReason where
  | refused (e : Error)
  | fault (e : Error)

def NotServedReason.intoError : NotServedReason -> Error
  | refused e => e
  | fault e => e

inductive ReadOutcome where
  | served (page : Page)
  | notServed (reason : NotServedReason)

def ReadOutcome.result : ReadOutcome -> Except Error Page
  | served page => .ok page
  | notServed reason => .error reason.intoError

def queryAttestations (exec : Executor) (q : AttestationQuery) : ReadOutcome :=
  match q.validate with
  | .error e => .notServed (.refused e)
  | .ok _ =>
      match exec q with
      | .error (.unsupported operation) =>
          .notServed (.refused (.unsupported operation))
      | .error e => .notServed (.fault e)
      | .ok rows =>
          if q.fetch < rows.length then
            .notServed (.fault (.backend
              (.pastPage (rows.length - q.fetch) q.fetch q.limit.rows)))
          else if q.limit.rows < rows.length then
            let kept := rows.take q.limit.rows
            .served ⟨kept, kept.getLast?.map fun a =>
              AttestationCursor.fromTrailing a.assertedAt a.attestationId⟩
          else
            .served ⟨rows, none⟩

/-!
## Walking the pages
-/

structure Pages where
  query : AttestationQuery
  done : Bool
  last : Option AttestationCursor

def AttestationQuery.pages (q : AttestationQuery) : Pages where
  query := q
  done := false
  last := none

namespace Pages

/-- The next page's rows and the state after the call.  A call that fails leaves the state
as it was. -/
def next (exec : Executor) (p : Pages) :
    Except Error (Option (List PlacedAttestation) × Pages) :=
  if p.done then
    .ok (none, p)
  else
    match (queryAttestations exec p.query).result with
    | .error e => .error e
    | .ok page =>
        match page.next with
        | some c =>
            if p.last = some c then
              .error (.backend (.cursorStuck c))
            else
              .ok (some page.rows,
                { p with last := some c, query := { p.query with after := some c } })
        | none => .ok (some page.rows, { p with done := true })

/-- At most `calls` pages in a row.  The call numbered `i` meets the executor `exec i`, so
that the store may change from one call to the next. -/
def walk (exec : Nat -> Executor) : Nat -> Nat -> Pages ->
    Except Error (List (List PlacedAttestation) × Pages)
  | _, 0, p => .ok ([], p)
  | i, calls + 1, p =>
      match p.next (exec i) with
      | .error e => .error e
      | .ok (none, p) => .ok ([], p)
      | .ok (some rows, p) =>
          match walk exec (i + 1) calls p with
          | .error e => .error e
          | .ok (rest, p) => .ok (rows :: rest, p)

end Pages

end Query
end CirisPersist.Federation
