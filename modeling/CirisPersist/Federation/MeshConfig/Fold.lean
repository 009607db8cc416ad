import CirisPersist.Federation.Attestation
import CirisPersist.Federation.MeshConfig.Key
import CirisPersist.Library.Sorting

/-!
# The mesh configuration fold

What a node runs for each key is read off the rows of the roots it trusts: within
a root the newest live row governs, its value is clamped to what the owner
consented to, and the most restrictive of the roots' values wins.
-/

namespace CirisPersist.Federation

/-!
## Rows
-/

structure ParsedRow where
  key : MeshConfigKey
  value : Int
  rootRef : String
  form : MeshConfigForm
  validUntil : Option Instant
deriving DecidableEq

namespace MeshConfig

def envStr (row : Attestation) (key : String) : Option String :=
  row.envelope.getStr? key

def envNonempty (row : Attestation) (key : String) : Option String :=
  (envStr row key).filter fun s => s ≠ ""

section Parse

variable [DateReader]

def envTime (row : Attestation) (key : String) : Option Instant :=
  (envStr row key).bind DateReader.parseDateTime

/-- Present but unreadable is a refusal: a garbled expiry read as absent would make
the row immortal. -/
def parseValidUntil (row : Attestation) : Option (Option Instant) :=
  match row.envelope.get? "valid_until" with
  | none => some none
  | some .null => some none
  | some _ => (envTime row "valid_until").map some

def parseRow (row : Attestation) : Option ParsedRow := do
  let dimension ← envStr row "dimension"
  let key ← MeshConfigKey.fromDimension dimension
  let name ← envStr row "mesh_config_key"
  if name ≠ key.wireName then none else
  let value ← row.envelope.getI64? "value"
  if !key.inDomain value then none else
  let rootRef ← envNonempty row "root_ref"
  let form ← (envStr row "form").bind MeshConfigForm.fromWire
  let validUntil ← parseValidUntil row
  return ⟨key, value, rootRef, form, validUntil⟩

end Parse

end MeshConfig

/-!
## Settings
-/

/-- One root's own answer for one key, before and after the clamp. -/
structure RootValue where
  rootRef : String
  asked : Int
  effective : Int
  clamped : Bool
  rowId : String
  form : MeshConfigForm
  expiresAt : Option Instant
deriving DecidableEq

structure MeshConfigSetting where
  key : MeshConfigKey
  polarity : FlowPolarity
  unit : MeshConfigUnit
  baseline : Int
  effective : Int
  relieved : Bool
  decidedByRoot : Option String
  rowId : Option String
  decidedBy : Option String
  delegationId : Option String
  form : Option MeshConfigForm
  expiresAt : Option Instant
  grounds : Option String
  perRoot : List RootValue
  clampedRoots : List String
deriving DecidableEq

structure MeshConfigFold where
  nodeKeyId : String
  roots : List String
  settings : List MeshConfigSetting
  unreadableRoots : List String
deriving DecidableEq

def MeshConfigFold.setting (fold : MeshConfigFold) (key : MeshConfigKey) :
    Option MeshConfigSetting :=
  fold.settings.find? fun s => s.key = key

/-!
## The fold
-/

namespace MeshConfig

abbrev LiveRow :=
  Attestation × ParsedRow

def compareRestriction (key : MeshConfigKey) (a b : Int) : Ordering :=
  if a = b then Ordering.eq
  else if key.moreRestrictiveOf a b = a then Ordering.gt
  else Ordering.lt

/-- Newest last; at a tie the more restrictive value, then the larger id. -/
def compareLive (key : MeshConfigKey) (a b : LiveRow) : Ordering :=
  ((compare a.1.assertedAt b.1.assertedAt).then
    (compareRestriction key a.2.value b.2.value)).then
    (compare a.1.attestationId b.1.attestationId)

def liveLe (key : MeshConfigKey) (a b : LiveRow) : Prop :=
  (compareLive key a b).isLE = true

instance (key : MeshConfigKey) : DecidableRel (liveLe key) := by
  intro a b
  unfold liveLe
  infer_instance

/-- The first root whose value is the one the node runs, if some root moved it. -/
def winner (perRoot : List RootValue) (effective base : Int) : Option RootValue :=
  perRoot.find? fun rv => decide (rv.effective = effective) && decide (effective ≠ base)

variable [DateReader]

def liveRows (key : MeshConfigKey) (root : String) (rows : List Attestation) (now : Instant) :
    List LiveRow :=
  (rows.filterMap fun r => (parseRow r).map fun p => (r, p)).filter fun live =>
    decide (live.2.key = key) && decide (live.2.rootRef = root) &&
      decide (live.1.assertedAt ≤ now) && live.2.validUntil.all fun vu => decide (now < vu)

/-- The row that governs: the last one in the order of the live rows. -/
def governing (key : MeshConfigKey) (root : String) (rows : List Attestation) (now : Instant) :
    Option LiveRow :=
  ((liveRows key root rows now).insertionSort (liveLe key)).getLast?

def rootValue (key : MeshConfigKey) (base : Int) (rows : List Attestation) (now : Instant)
    (root : String) : Option RootValue :=
  (governing key root rows now).map fun live =>
    let effective := key.clampToConsent live.2.value base
    { rootRef := root
      asked := live.2.value
      effective := effective
      clamped := decide (effective ≠ live.2.value)
      rowId := live.1.attestationId
      form := live.2.form
      expiresAt := live.2.validUntil }

def foldKey (baseline : MeshConfigBaseline) (sortedRoots : List String)
    (rows : List Attestation) (now : Instant) (key : MeshConfigKey) : MeshConfigSetting :=
  let base := baseline.get key
  let perRoot := sortedRoots.filterMap (rootValue key base rows now)
  let effective := perRoot.foldl (fun e rv => key.moreRestrictiveOf e rv.effective) base
  let winner := winner perRoot effective base
  let winningRow := winner.bind fun w => rows.find? fun r => r.attestationId = w.rowId
  { key := key
    polarity := key.polarity
    unit := key.unit
    baseline := base
    effective := effective
    relieved := decide (effective ≠ base)
    decidedByRoot := winner.map RootValue.rootRef
    rowId := winner.map RootValue.rowId
    decidedBy := winningRow.map Attestation.attestingKeyId
    delegationId := winningRow.bind fun r => envNonempty r "delegation_id"
    form := winner.map RootValue.form
    expiresAt := winner.bind RootValue.expiresAt
    grounds := winningRow.bind fun r => envNonempty r "grounds"
    perRoot := perRoot
    clampedRoots := (perRoot.filter RootValue.clamped).map RootValue.rootRef }

def foldMeshConfig (nodeKeyId : String) (baseline : MeshConfigBaseline) (roots : List String)
    (rows : List Attestation) (now : Instant) : MeshConfigFold :=
  let sortedRoots := Sorting.sortDedup roots
  { nodeKeyId := nodeKeyId
    roots := sortedRoots
    settings := MeshConfigKey.all.map (foldKey baseline sortedRoots rows now)
    unreadableRoots := [] }

end MeshConfig

end CirisPersist.Federation
