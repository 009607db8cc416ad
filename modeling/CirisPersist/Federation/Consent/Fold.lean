import CirisPersist.Federation.Consent.Scope
import CirisPersist.Federation.Precedence
import Mathlib.Data.Prod.Lex
import Mathlib.Data.String.Basic

/-!
# The consent fold

A subject's consent about a target is folded from the `consent:state:*` rows the
subject signed.  One fold orders them by the clock.  A second one first removes
the statements that a refusal names as superseded or that a retraction retired,
and lifts a refusal whose named statement is not known.  The answer is the more
restrictive of the two.
-/

namespace CirisPersist.Federation

/-!
## Stances
-/

inductive ConsentState where
  | granted
  | revoked
  | expired
  | unspecified
deriving DecidableEq

namespace ConsentDimension

def statePrefix :=
  "consent:state:"

def stateGrantedPrefix :=
  "consent:state:granted"

def stateRevokedPrefix :=
  "consent:state:revoked"

def stateExpiredPrefix :=
  "consent:state:expired"

end ConsentDimension

def Attestation.hasDimensionStem (a : Attestation) (stem : String) : Bool :=
  a.dimension.any (Text.startsWith stem)

def consentStateOf (dimension : Option String) : ConsentState :=
  if dimension.any (Text.startsWith ConsentDimension.stateGrantedPrefix) then
    .granted
  else if dimension.any (Text.startsWith ConsentDimension.stateRevokedPrefix) then
    .revoked
  else if dimension.any (Text.startsWith ConsentDimension.stateExpiredPrefix) then
    .expired
  else
    .unspecified

def Attestation.stance (a : Attestation) : ConsentState :=
  consentStateOf a.dimension

def restrictionRank : ConsentState -> Nat
  | .granted => 0
  | .unspecified => 1
  | .expired => 2
  | .revoked => 3

/-!
## Causal edges
-/

def consentSupersedesField :=
  "consent_supersedes"

inductive ConsentCausalEdge where
  | absent
  | names (target : String)
  | unusable
deriving DecidableEq

/-- The statement a refusal supersedes.  A grant's pointer is not read. -/
def causalEdge (a : Attestation) : ConsentCausalEdge :=
  if !a.hasDimensionStem ConsentDimension.statePrefix then
    .absent
  else if a.stance = .granted then
    .absent
  else
    match a.envelope.get? consentSupersedesField with
    | none => .absent
    | some .null => .absent
    | some (.str target) =>
        if target ≠ "" ∧ target ≠ a.attestationId then
          .names target
        else
          .unusable
    | some _ => .unusable

/-- An edge that does not resolve among the known statements ranks above the
clock. -/
def causalRank (a : Attestation) (known : Finset String) : Nat :=
  match causalEdge a with
  | .absent => 0
  | .names target => if target ∈ known then 0 else 1
  | .unusable => 1

def foldOrderingKey (a : Attestation) : Instant ×ₗ Nat ×ₗ String :=
  toLex (a.assertedAt, toLex (restrictionRank a.stance, a.attestationId))

def causalFoldOrderingKey (known : Finset String) (a : Attestation) :
    Nat ×ₗ Instant ×ₗ Nat ×ₗ String :=
  toLex (causalRank a known, foldOrderingKey a)

/-!
## Scopes
-/

def namedScopes (a : Attestation) : List String :=
  match a.envelope.get? "scope" with
  | some (.str s) => if s = "" then [] else [s]
  | some (.arr items) => (items.filterMap Json.asStr).filter (· ≠ "")
  | _ => []

def scopeTokens (a : Attestation) : List ScopeToken :=
  (namedScopes a).filterMap fun s => (parseScopeToken s).toOption

/-- The token that covers the query.  A refusal that names no scope covers every
query, and a grant that names none covers nothing. -/
def coveringToken (a : Attestation) (scope : String) (qualifier : Option String) :
    Option ScopeToken :=
  if namedScopes a = [] then
    if a.hasDimensionStem ConsentDimension.stateGrantedPrefix then
      none
    else
      some ⟨scope, .whole⟩
  else
    (parseScopeToken scope).toOption.bind fun query =>
      ((scopeTokens a).find? fun g => covers g query).bind fun token =>
        match qualifier with
        | some q => if a.envelope.getStr? "content_class" = some q then some token else none
        | none => some token

def matchesScopedQuery (a : Attestation) (scope : String) (qualifier : Option String) :
    Bool :=
  (coveringToken a scope qualifier).isSome

/-!
## Lapses
-/

/-- The earlier of the signed expiry and the end of the first window to close. -/
def grantLapseInstant (a : Attestation) : Option Instant :=
  let windowEnd := ((scopeTokens a).filterMap fun t => retainUntil t a.assertedAt).min?
  match a.expiresAt, windowEnd with
  | some e, some w => some (min e w)
  | some e, none => some e
  | none, w => w

def isLapsedGrant (subject grantId : String) (assertedAt : Instant) (g : Attestation) : Bool :=
  g.attestationId == grantId && g.attestingKeyId == subject &&
    g.hasDimensionStem ConsentDimension.stateGrantedPrefix &&
    (grantLapseInstant g).any fun lapse => decide (lapse ≤ assertedAt)

def substrateExpiryBoundToSubject (a : Attestation) (rows : List Attestation)
    (subject : String) : Bool :=
  if !a.hasDimensionStem ConsentDimension.stateExpiredPrefix then
    false
  else
    match causalEdge a with
    | .names grantId =>
        rows.any (isLapsedGrant subject grantId a.assertedAt)
    | _ => false

/-!
## The fold
-/

/-- Whose consent is asked for, when, and under which scope and qualifier. -/
structure ConsentQuery where
  subject : String
  now : Instant
  scopedTo : Option (String × Option String)

namespace ConsentQuery

variable (q : ConsentQuery)

def inUniverse (rows : List Attestation) (a : Attestation) : Bool :=
  a.hasDimensionStem ConsentDimension.statePrefix &&
    (a.attestingKeyId == q.subject || substrateExpiryBoundToSubject a rows q.subject)

def consentUniverse (rows : List Attestation) : List Attestation :=
  rows.filter (q.inUniverse rows)

def known (rows : List Attestation) : Finset String :=
  ((q.consentUniverse rows).map Attestation.attestationId).toFinset

def applies (a : Attestation) : Bool :=
  a.expiresAt.all (fun e => decide (q.now < e)) &&
    q.scopedTo.all fun (scope, qualifier) => matchesScopedQuery a scope qualifier

def candidates (rows : List Attestation) : List Attestation :=
  (q.consentUniverse rows).filter q.applies

def namedTarget (a : Attestation) : Option String :=
  match causalEdge a with
  | .names target => some target
  | _ => none

def eliminated (rows : List Attestation) : Finset String :=
  retiredIds rows ∪ ((q.candidates rows).filterMap namedTarget).toFinset

def survivors (rows : List Attestation) : List Attestation :=
  (q.candidates rows).filter fun a => a.attestationId ∉ q.eliminated rows

def stanceOf (winner : Option Attestation) : ConsentState :=
  consentStateOf (winner.bind Attestation.dimension)

def clockWinner (rows : List Attestation) : Option Attestation :=
  MaxByKey.maxByKey foldOrderingKey (q.candidates rows)

def causalWinner (rows : List Attestation) : Option Attestation :=
  MaxByKey.maxByKey (causalFoldOrderingKey (q.known rows)) (q.survivors rows)

/-- The more restrictive of the two folds, with the row that decided it. -/
def foldWinner (rows : List Attestation) : ConsentState × Option Attestation :=
  if restrictionRank (stanceOf (q.clockWinner rows)) <
      restrictionRank (stanceOf (q.causalWinner rows)) then
    (stanceOf (q.causalWinner rows), q.causalWinner rows)
  else
    (stanceOf (q.clockWinner rows), q.clockWinner rows)

structure ScopedStance where
  state : ConsentState
  retainUntil : Option Instant

def foldScopedStanceWithWinner (rows : List Attestation) (scope : String)
    (qualifier : Option String) : ScopedStance × Option Attestation :=
  let (state, winner) := q.foldWinner rows
  let ending := winner.bind fun w =>
    (coveringToken w scope qualifier).bind fun t => retainUntil t w.assertedAt
  let state := if state = .granted ∧ ending.any (fun e => decide (e ≤ q.now)) then
      .expired
    else
      state
  (⟨state, ending⟩, winner)

def foldStance (rows : List Attestation) : ConsentState :=
  match q.scopedTo with
  | some (scope, qualifier) => (q.foldScopedStanceWithWinner rows scope qualifier).1.state
  | none => (q.foldWinner rows).1

end ConsentQuery

end CirisPersist.Federation
