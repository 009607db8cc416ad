import CirisPersist.Base.Bytes
import CirisPersist.Federation.Blobs.Rows
import CirisPersist.Library.FirstWins

/-!
# The chunk floor

Every chunk of a stream is stored through one floor: the blob row, the counter of the
stream epoch, the slot a stream-keyed chunk was sealed at, the index row and the epoch
binding, each item in a savepoint of its own.  A savepoint that does not answer `Ok` is
rolled back, so an item is a function into `Except`: a refusal has no tables.

A chunk sealed under the key of its stream epoch is offered with the slot of its nonce,
a counter and a flag for the last chunk.  The slot is no column of the index; it stands
in the nonce of the stored envelope, and the model keeps it with the row.
-/

namespace CirisPersist.Federation
namespace Stream

def maxChunksPerEpoch : Nat := 2 ^ 24

def epochChunkCapReached (existingChunkCount : Nat) : Bool :=
  decide (maxChunksPerEpoch ≤ existingChunkCount)

structure StreamKeySlot where
  counter : UInt32
  last : Bool
deriving DecidableEq

structure EpochBinding where
  communityKeyId : String
  minterKeyId : String
  epoch : UInt64
deriving DecidableEq

structure StreamClaim where
  communityKeyId : Option String
  ownerKeyId : Option String
  streamKey : Option StreamKeySlot
deriving DecidableEq

/-!
## The tables
-/

structure HeldStream where
  cohortScope : String
  communityKeyId : Option String
  ownerKeyId : Option String
  abandoned : Bool
deriving DecidableEq

structure StreamDekRow where
  streamId : String
  epoch : UInt64
  ownerKeyId : String
  cohortScope : String
  groupKeyId : String
  dek : Dek
  closed : Bool
  terminated : Bool
  supplied : Bool
deriving DecidableEq

/-- A row of `federation_stream_chunks`, with the slot its envelope carries. -/
structure StreamChunkRow where
  streamId : String
  seq : UInt64
  chunkSha : Sha256
  epoch : UInt64
  sizeBytes : Int
  plaintextSize : Int
  slot : Option StreamKeySlot
deriving DecidableEq

/-- The tables other doors write too: the blob addresses, the epoch bindings, the
standing purge notices and the communities' keys. -/
structure Surroundings where
  blobs : List Sha256
  bindings : List (Sha256 × EpochBinding)
  notice : Sha256 -> Option String
  enabled : EpochBinding -> Bool
  currentEpoch : String -> String -> UInt64

structure Tables where
  streams : List (String × HeldStream)
  /-- `federation_stream_epoch_counts`, 0 where there is no row. -/
  counts : String -> UInt64 -> Nat
  deks : List StreamDekRow
  chunks : List StreamChunkRow
  around : Surroundings

def StreamDekRow.isAt (streamId : String) (epoch : UInt64) (d : StreamDekRow) : Bool :=
  decide (d.streamId = streamId) && decide (d.epoch = epoch)

@[simp]
theorem StreamDekRow.isAt_iff
    {streamId : String} {epoch : UInt64} {d : StreamDekRow} :
    d.isAt streamId epoch = true <-> d.streamId = streamId ∧ d.epoch = epoch := by
  simp [isAt]

/-!
## One item
-/

inductive ItemAppended where
  | ok
  | seqConflict
  | capReached
  | epochMoved
  | streamCounterMoved
  | streamEpochClosed
  | purged (noticeId : String)
deriving DecidableEq

structure ChunkTx where
  streamId : String
  epoch : UInt64
  binding : Option EpochBinding
  bindAsDeclared : Bool
  streamKey : Option StreamKeySlot

structure ChunkFloorRow where
  slot : Nat
  seq : UInt64
  sha256 : Sha256
  sizeBytes : Int
  plaintextSize : Int

namespace ChunkTx

variable (c : ChunkTx) (row : ChunkFloorRow)

def indexed : StreamChunkRow where
  streamId := c.streamId
  seq := row.seq
  chunkSha := row.sha256
  epoch := c.epoch
  sizeBytes := row.sizeBytes
  plaintextSize := row.plaintextSize
  slot := c.streamKey

def findRepair (t : Tables) : Except ItemAppended Bool :=
  if c.bindAsDeclared then
    match t.chunks.find? fun r => decide (r.streamId = c.streamId) && decide (r.seq = row.seq) with
    | none => .ok false
    | some held =>
        if held.chunkSha = row.sha256 ∧ held.epoch = c.epoch then
          .ok true
        else
          .error .seqConflict
  else
    .ok false

def refuseTombstoned (t : Tables) : Except ItemAppended Unit :=
  match t.around.notice row.sha256 with
  | some noticeId => .error (.purged noticeId)
  | none => .ok ()

def insertBlob (t : Tables) : Tables :=
  { t with around := { t.around with blobs := FirstWins.insert id t.around.blobs row.sha256 } }

def bound (b : EpochBinding) : EpochBinding :=
  { b with epoch := if b.epoch.toNat < 2 ^ 63 then b.epoch else 9223372036854775807 }

def declareBinding (b : EpochBinding) (t : Tables) : Tables :=
  { t with around :=
    { t.around with
      bindings := FirstWins.insert Prod.fst t.around.bindings (row.sha256, bound b) } }

def repair (t : Tables) : Tables :=
  match c.binding with
  | some b => declareBinding row b t
  | none => t

def countChunk (t : Tables) : Tables :=
  { t with counts := fun streamId epoch =>
      if streamId = c.streamId ∧ epoch = c.epoch then
        t.counts streamId epoch + 1
      else
        t.counts streamId epoch }

def terminateDek (t : Tables) : Tables :=
  { t with deks := t.deks.map fun d =>
      if d.isAt c.streamId c.epoch && !d.terminated then
        { d with terminated := true, closed := true }
      else
        d }

/-- The slot is the count before this chunk, and its epoch is open. -/
def takeSlot (counted : Nat) (t : Tables) : Except ItemAppended Tables :=
  match c.streamKey with
  | none => .ok t
  | some slot =>
      if counted - 1 ≠ slot.counter.toNat then
        .error .streamCounterMoved
      else if slot.last then
        if (t.deks.countP fun d => d.isAt c.streamId c.epoch && !d.terminated) = 1 then
          .ok (c.terminateDek t)
        else
          .error .streamEpochClosed
      else if t.deks.any fun d => d.isAt c.streamId c.epoch && !d.closed && !d.terminated then
        .ok t
      else
        .error .streamEpochClosed

def indexRow (t : Tables) : Except ItemAppended Tables :=
  if t.chunks.any fun r => decide (r.streamId = c.streamId) && decide (r.seq = row.seq) then
    .error .seqConflict
  else
    .ok { t with chunks := t.chunks ++ [c.indexed row] }

/-- Bound as declared, or only to the community's current enabled epoch. -/
def tryBinding (b : EpochBinding) (t : Tables) : Tables :=
  if c.bindAsDeclared || (t.around.enabled (bound b) &&
      decide ((bound b).epoch = t.around.currentEpoch b.communityKeyId b.minterKeyId)) then
    declareBinding row b t
  else
    t

def bindEpoch (t : Tables) : Except ItemAppended Tables :=
  match c.binding with
  | none => .ok t
  | some b =>
      if (c.tryBinding row b t).around.bindings.length = t.around.bindings.length ∧
          (row.sha256, bound b) ∉ (c.tryBinding row b t).around.bindings then
        .error .epochMoved
      else
        .ok (c.tryBinding row b t)

def appendNew (t : Tables) : Except ItemAppended Tables :=
  let counted := t.counts c.streamId c.epoch + 1
  if epochChunkCapReached (counted - 1) then
    .error .capReached
  else do
    let slotted ← c.takeSlot counted (c.countChunk t)
    let listed ← c.indexRow row slotted
    c.bindEpoch row listed

def appendChunkItem (t : Tables) : Except ItemAppended Tables := do
  let repaired ← c.findRepair row t
  refuseTombstoned row t
  let t := insertBlob row t
  if repaired then
    .ok (c.repair row t)
  else
    c.appendNew row t

end ChunkTx

/-!
## A refusal is not `Ok`
-/

def Refuses {A : Type} (x : Except ItemAppended A) : Prop :=
  forall refusal, x = .error refusal -> refusal ≠ .ok

theorem Refuses.bind
    {A B : Type} {x : Except ItemAppended A} {f : A -> Except ItemAppended B} (hx : Refuses x)
    (hf : forall a, Refuses (f a)) :
    Refuses (x >>= f) := by
  cases x with
  | error e =>
      intro refusal h
      cases h
      exact hx e rfl
  | ok a => exact hf a

namespace ChunkTx

variable (c : ChunkTx) (row : ChunkFloorRow) (t : Tables)

theorem refuses_findRepair :
    Refuses (c.findRepair row t) := by
  unfold findRepair
  split
  · split
    · exact nofun
    · split
      · exact nofun
      · rintro _ ⟨⟩ ⟨⟩
  · exact nofun

theorem refuses_refuseTombstoned :
    Refuses (refuseTombstoned row t) := by
  unfold refuseTombstoned
  split
  · rintro _ ⟨⟩ ⟨⟩
  · exact nofun

theorem refuses_takeSlot
    (counted : Nat) :
    Refuses (c.takeSlot counted t) := by
  unfold takeSlot
  split
  · exact nofun
  · split
    · rintro _ ⟨⟩ ⟨⟩
    · split
      · split
        · exact nofun
        · rintro _ ⟨⟩ ⟨⟩
      · split
        · exact nofun
        · rintro _ ⟨⟩ ⟨⟩

theorem refuses_indexRow :
    Refuses (c.indexRow row t) := by
  unfold indexRow
  split
  · rintro _ ⟨⟩ ⟨⟩
  · exact nofun

theorem refuses_bindEpoch :
    Refuses (c.bindEpoch row t) := by
  unfold bindEpoch
  split
  · exact nofun
  · split
    · rintro _ ⟨⟩ ⟨⟩
    · exact nofun

theorem refuses_appendNew :
    Refuses (c.appendNew row t) := by
  unfold appendNew
  simp only
  split
  · rintro _ ⟨⟩ ⟨⟩
  · refine (c.refuses_takeSlot _ _).bind fun slotted => ?_
    exact (c.refuses_indexRow row slotted).bind fun listed => c.refuses_bindEpoch row listed

theorem refuses_appendChunkItem :
    Refuses (c.appendChunkItem row t) := by
  refine (c.refuses_findRepair row t).bind fun repaired => ?_
  refine (refuses_refuseTombstoned row t).bind fun _ => ?_
  simp only
  split
  · exact nofun
  · exact c.refuses_appendNew row _

end ChunkTx

/-!
## A batch
-/

structure PlannedChunkBatch where
  streamId : String
  epoch : UInt64
  cohortScope : String
  binding : Option EpochBinding
  bindAsDeclared : Bool
  claim : StreamClaim
  rows : List ChunkFloorRow

inductive StreamClaimWrite where
  | proceed
  | adopt
deriving DecidableEq

def streamAbandonedRefusal (streamId : String) : BlobError :=
  .invalidArgument ("stream_abandoned: stream " ++ streamId ++
    " was abandoned by its owner; its id is tombstoned and never reused (CIRISPersist#954) — " ++
    "start a new stream")

def streamElsewhereRefusal (streamId streamCohort : String) (streamCommunity : Option String)
    (namedCohort : String) (namedCommunity : Option String) : BlobError :=
  .invalidArgument ("put_blob_chunk: stream " ++ streamId ++ " belongs to cohort " ++
    Text.debugStr streamCohort ++ ", community " ++ debugToken streamCommunity ++
    "; this append names cohort " ++ Text.debugStr namedCohort ++ ", community " ++
    debugToken namedCommunity ++ " — a stream belongs to its first append " ++
    "(BLOB_ENCRYPTION_AT_REST.md §12.9, I41)")

def streamForeignRefusal (streamId streamCohort : String) (streamCommunity : Option String) :
    BlobError :=
  .invalidArgument ("put_blob_chunk: stream " ++ streamId ++ " belongs to another writer (cohort " ++
    Text.debugStr streamCohort ++ ", community " ++ debugToken streamCommunity ++
    "); an append by a different key is refused at its first chunk " ++
    "(BLOB_ENCRYPTION_AT_REST.md §12.9, I41)")

namespace PlannedChunkBatch

variable (batch : PlannedChunkBatch)

def tx : ChunkTx where
  streamId := batch.streamId
  epoch := batch.epoch
  binding := batch.binding
  bindAsDeclared := batch.bindAsDeclared
  streamKey := batch.claim.streamKey

def refuseHeldStream (held : HeldStream) : Except BlobError Unit :=
  if held.abandoned then
    .error (streamAbandonedRefusal batch.streamId)
  else if held.cohortScope ≠ batch.cohortScope ∨ held.communityKeyId ≠ batch.claim.communityKeyId then
    .error (streamElsewhereRefusal batch.streamId held.cohortScope held.communityKeyId
      batch.cohortScope batch.claim.communityKeyId)
  else
    match held.ownerKeyId with
    | none => .ok ()
    | some owner =>
        if batch.claim.ownerKeyId = some owner then
          .ok ()
        else
          .error (streamForeignRefusal batch.streamId held.cohortScope held.communityKeyId)

def streamClaimVerdict (held : HeldStream) : Except BlobError StreamClaimWrite := do
  batch.refuseHeldStream held
  match held.ownerKeyId, batch.claim.ownerKeyId with
  | none, some _ => .ok .adopt
  | _, _ => .ok .proceed

def claimed : String × HeldStream :=
  (batch.streamId,
    { cohortScope := batch.cohortScope, communityKeyId := batch.claim.communityKeyId,
      ownerKeyId := batch.claim.ownerKeyId, abandoned := false })

/-- The stream's row inserted if absent, judged, and adopted when it has no owner. -/
def claimStream (streams : List (String × HeldStream)) :
    Except BlobError (List (String × HeldStream)) := do
  let streams := FirstWins.insert Prod.fst streams batch.claimed
  let held := ((streams.find? fun s => decide (s.1 = batch.streamId)).getD batch.claimed).2
  let verdict ← batch.streamClaimVerdict held
  match verdict with
  | .proceed => .ok streams
  | .adopt => .ok (streams.map fun s =>
      if s.1 = batch.streamId then
        (s.1, { s.2 with ownerKeyId := batch.claim.ownerKeyId })
      else
        s)

/-- The loop over the items, each in a savepoint that is kept only when it answers `ok`. -/
def appendItems : List ChunkFloorRow -> Tables -> List (Nat × ItemAppended) × Tables
  | [], t => ([], t)
  | row :: rest, t =>
      match batch.tx.appendChunkItem row t with
      | .ok next => ((row.slot, .ok) :: (appendItems rest next).1, (appendItems rest next).2)
      | .error refusal => ((row.slot, refusal) :: (appendItems rest t).1, (appendItems rest t).2)

theorem appendItems_of_ok
    {row : ChunkFloorRow} {t next : Tables} (h : batch.tx.appendChunkItem row t = .ok next) :
    batch.appendItems [row] t = ([(row.slot, .ok)], next) := by
  simp only [appendItems, h]

theorem appendItems_of_error
    {row : ChunkFloorRow} {t : Tables} {refusal : ItemAppended}
    (h : batch.tx.appendChunkItem row t = .error refusal) :
    batch.appendItems [row] t = ([(row.slot, refusal)], t) := by
  simp only [appendItems, h]

def store (t : Tables) : Except BlobError (List (Nat × ItemAppended)) × Tables :=
  match batch.claimStream t.streams with
  | .error e => (.error e, t)
  | .ok streams =>
      let out := batch.appendItems batch.rows { t with streams }
      (.ok out.1, if out.1.any fun a => decide (a.2 = .ok) then out.2 else t)

end PlannedChunkBatch

/-!
## The plan of a batch
-/

structure ChunkFloorItem where
  seq : UInt64
  body : BlobBody
  plaintextSize : UInt64

/-- The rules of the floor that ask no table: the inline cap, the scope against the tier,
and a body against its tier and the length it declares. -/
class FloorRules where
  inlineBytesCap : Nat
  checkScope : CryptoTier -> String -> Except BlobError Unit
  checkChunkBody : ByteArray -> CryptoTier -> UInt64 -> Except BlobError Unit

def isAsciiHexdigit (c : Char) : Bool :=
  c.isDigit || (decide ('a' ≤ c) && decide (c ≤ 'f')) || (decide ('A' ≤ c) && decide (c ≤ 'F'))

def refuseReservedStreamId (streamId : String) : Except BlobError Unit :=
  if streamId.utf8ByteSize = 64 ∧ streamId.toList.all isAsciiHexdigit then
    .error (.invalidArgument ("stream_id " ++ Text.debugStr streamId ++
      " is shaped like a SHA-256; that name is reserved for the one-leaf log of the inline blob " ++
      "it names (CIRISPersist#953) — name the stream anything else"))
  else
    .ok ()

def maxChunksPerBatch : Nat := 64

def maxBatchBytes : Nat := 32 * 1024 * 1024

def ChunkFloorItem.inlineSize (item : ChunkFloorItem) : Nat :=
  match item.body with
  | .inline bytes => bytes.size
  | _ => 0

def checkChunkBatchBounds (items : List ChunkFloorItem) : Except BlobError Unit :=
  let bytes := (items.map ChunkFloorItem.inlineSize).sum
  if items.isEmpty then
    .error (.invalidArgument "adopt_sealed_chunks: an empty batch")
  else if items.length > maxChunksPerBatch then
    .error (.invalidArgument ("adopt_sealed_chunks: " ++ items.length.repr ++
      " chunks in one batch; at most " ++ maxChunksPerBatch.repr ++ " — split the run"))
  else if bytes > maxBatchBytes then
    .error (.invalidArgument ("adopt_sealed_chunks: " ++ bytes.repr ++
      " bytes in one batch; at most " ++ maxBatchBytes.repr ++ " — split the run"))
  else
    .ok ()

def checkStreamKeyBatch (claim : StreamClaim) (items : Nat) : Except BlobError Unit :=
  if claim.streamKey.isSome ∧ items ≠ 1 then
    .error (.invalidArgument ("put_blob_chunk: a stream-keyed append names one STREAM-nonce slot " ++
      "and carries one chunk, not " ++ items.repr))
  else
    .ok ()

def epochCapRefusal (streamId : String) (epoch : UInt64) : BlobError :=
  .invalidArgument ("put_blob_chunk: (stream_id=" ++ streamId ++ ", epoch=" ++ epoch.toNat.repr ++
    ") is at MAX_CHUNKS_PER_EPOCH (" ++ maxChunksPerEpoch.repr ++
    ") — roll the epoch (STREAM-nonce counter exhaustion, CEG §10.5.3)")

def streamCounterMovedToken : String := "stream_counter_moved"

def streamEpochClosedToken : String := "stream_epoch_closed"

def streamCounterMovedRefusal (streamId : String) (epoch : UInt64) (counter : UInt32) : BlobError :=
  .invalidArgument (streamCounterMovedToken ++ ": (stream_id=" ++ streamId ++ ", epoch=" ++
    epoch.toNat.repr ++ ") is no longer at counter " ++ counter.toNat.repr ++
    "; nothing was stored — re-seal at the current counter (CC 5.3.3.1)")

def streamEpochClosedRefusal (streamId : String) (epoch : UInt64) : BlobError :=
  .invalidArgument (streamEpochClosedToken ++ ": (stream_id=" ++ streamId ++ ", epoch=" ++
    epoch.toNat.repr ++ ") is closed or terminated, or holds no stream DEK; a chunk after an " ++
    "epoch's last is refused (CC 5.3.3.1 append resistance)")

structure ChunkFloorCall where
  streamId : String
  items : List ChunkFloorItem
  epoch : UInt64
  cohortScope : String
  tier : CryptoTier
  binding : Option EpochBinding
  claim : StreamClaim
  bindAsDeclared : Bool

namespace ChunkFloorCall

def itemAnswer (call : ChunkFloorCall) (row : ChunkFloorRow) :
    ItemAppended -> Except BlobError Sha256
  | .ok => .ok row.sha256
  | .seqConflict =>
      .error (.invalidArgument ("stream " ++ call.streamId ++ " seq " ++ row.seq.toNat.repr ++
        " already exists"))
  | .capReached => .error (epochCapRefusal call.streamId call.epoch)
  | .epochMoved =>
      .error (match call.binding with
        | some b => .epochNotCurrent b.communityKeyId b.epoch
        | none => .backend "EpochMoved only arises with a binding")
  | .streamCounterMoved =>
      .error (streamCounterMovedRefusal call.streamId call.epoch
        ((call.claim.streamKey.map StreamKeySlot.counter).getD 0))
  | .streamEpochClosed => .error (streamEpochClosedRefusal call.streamId call.epoch)
  | .purged noticeId => .error (.purged row.sha256.hex noticeId)

theorem eq_ok_of_itemAnswer
    {call : ChunkFloorCall} {row : ChunkFloorRow} {appended : ItemAppended} {sha : Sha256}
    (h : call.itemAnswer row appended = .ok sha) :
    appended = .ok := by
  cases appended with
  | ok => rfl
  | _ => cases h

variable [FloorRules] [Sha256Hash]

def checkBatch (call : ChunkFloorCall) : Except BlobError Unit := do
  FloorRules.checkScope call.tier call.cohortScope
  refuseReservedStreamId call.streamId
  checkChunkBatchBounds call.items
  checkStreamKeyBatch call.claim call.items.length
  let _ ← toI64 call.epoch "put_blob_chunk: epoch exceeds i64"
  .ok ()

def chunkBytes (item : ChunkFloorItem) (tier : CryptoTier) : Except BlobError ByteArray :=
  match item.body with
  | .inline bytes =>
      if bytes.size > FloorRules.inlineBytesCap then
        .error (.inlineSizeExceeded bytes.size FloorRules.inlineBytesCap)
      else do
        FloorRules.checkChunkBody bytes tier item.plaintextSize
        .ok bytes
  | .external _ =>
      .error (.invalidArgument ("put_blob_chunk: External chunk body not supported in this cut — " ++
        "a live chunk's SHA is computed from its inline bytes (Cut C1a)"))
  | .chunkDag _ =>
      .error (.invalidArgument ("put_blob_chunk: chunk body is itself a ChunkDag — you cannot chunk " ++
        "a chunk"))

def prepareChunkItem (slot : Nat) (item : ChunkFloorItem) (tier : CryptoTier) :
    Except BlobError ChunkFloorRow := do
  let bytes ← chunkBytes item tier
  let sizeBytes ← toI64 (UInt64.ofNat bytes.size) "put_blob_chunk: chunk size_bytes exceeds i64"
  let _ ← toI64 item.seq "put_blob_chunk: seq exceeds i64"
  let plaintextSize ← toI64 item.plaintextSize "put_blob_chunk: plaintext_size exceeds i64"
  .ok { slot, seq := item.seq, sha256 := Sha256Hash.digest bytes, sizeBytes, plaintextSize }

def admittedRow (call : ChunkFloorCall) (t : Tables) (slot : Nat) (item : ChunkFloorItem) :
    Except BlobError ChunkFloorRow := do
  let row ← prepareChunkItem slot item call.tier
  match t.around.notice row.sha256 with
  | some noticeId => .error (.purged row.sha256.hex noticeId)
  | none => .ok row

def admittedRows (call : ChunkFloorCall) (t : Tables) : List (Except BlobError ChunkFloorRow) :=
  call.items.zipIdx.map fun p => call.admittedRow t p.2 p.1

def batch (call : ChunkFloorCall) (t : Tables) : PlannedChunkBatch where
  streamId := call.streamId
  epoch := call.epoch
  cohortScope := call.cohortScope
  binding := call.binding
  bindAsDeclared := call.bindAsDeclared
  claim := call.claim
  rows := (call.admittedRows t).filterMap Except.toOption

/-- The chunk floor: a refusal of the batch, or an answer for each item. -/
def chunkFloorPlanned (call : ChunkFloorCall) (t : Tables) :
    Except BlobError (List (Except BlobError Sha256)) × Tables :=
  match call.checkBatch with
  | .error e => (.error e, t)
  | .ok _ =>
      match (call.batch t).store t with
      | (.error e, after) => (.error e, after)
      | (.ok appended, after) =>
          (.ok ((call.admittedRows t).map fun admitted => do
            let row ← admitted
            call.itemAnswer row (((appended.find? fun a => decide (a.1 = row.slot)).map
              Prod.snd).getD .ok)), after)

end ChunkFloorCall

/-!
## The keys of the epochs
-/

def StreamDekRow.key (d : StreamDekRow) : String × UInt64 :=
  (d.streamId, d.epoch)

def StreamDekRow.opened (d : StreamDekRow) : StreamDekRow :=
  { d with closed := false, terminated := false }

def insertDek (d : StreamDekRow) (t : Tables) : Tables :=
  { t with deks := FirstWins.insert StreamDekRow.key t.deks d.opened }

def closeDek (streamId : String) (epoch : UInt64) (t : Tables) : Tables :=
  { t with deks := t.deks.map fun d =>
      if d.isAt streamId epoch then { d with closed := true } else d }

/-!
## What an item can do
-/

inductive SlotTaken (c : ChunkTx) (t : Tables) : List StreamDekRow -> Prop where
  | unkeyed (hkey : c.streamKey = none) : SlotTaken c t t.deks
  | data (slot : StreamKeySlot) (d : StreamDekRow) (hkey : c.streamKey = some slot)
      (hlast : slot.last = false)
      (hcounter : slot.counter.toNat = t.counts c.streamId c.epoch) (hd : d ∈ t.deks)
      (hat : d.isAt c.streamId c.epoch = true) (hopen : d.terminated = false) :
      SlotTaken c t t.deks
  | last (slot : StreamKeySlot) (d : StreamDekRow) (hkey : c.streamKey = some slot)
      (hlast : slot.last = true)
      (hcounter : slot.counter.toNat = t.counts c.streamId c.epoch) (hd : d ∈ t.deks)
      (hat : d.isAt c.streamId c.epoch = true) (hopen : d.terminated = false) :
      SlotTaken c t (c.terminateDek t).deks

/-- The tables after an item that answers `Ok`: a repair touches no table of the
streams, any other item counts, takes its slot and is listed. -/
inductive ItemEffect (c : ChunkTx) (row : ChunkFloorRow) (t : Tables) : Tables -> Prop where
  | repaired (around : Surroundings) (hblobs : t.around.blobs ⊆ around.blobs)
      (hdeclared : c.bindAsDeclared = true) :
      ItemEffect c row t { t with around }
  | stored (around : Surroundings) (hblobs : t.around.blobs ⊆ around.blobs)
      (hheld : row.sha256 ∈ around.blobs)
      (hcap : t.counts c.streamId c.epoch < maxChunksPerEpoch)
      (hfresh : forall r, r ∈ t.chunks -> r.streamId = c.streamId -> r.seq ≠ row.seq)
      (deks : List StreamDekRow) (hslot : SlotTaken c t deks) :
      ItemEffect c row t
        { t with
          counts := (c.countChunk t).counts, deks, chunks := t.chunks ++ [c.indexed row], around }

theorem SlotTaken.deks_cases
    {c : ChunkTx} {t : Tables} {deks : List StreamDekRow} (h : SlotTaken c t deks) :
    (deks = t.deks ∧ forall slot, c.streamKey = some slot -> slot.last = false) ∨
      (deks = (c.terminateDek t).deks ∧ exists slot, c.streamKey = some slot ∧ slot.last = true) := by
  cases h with
  | unkeyed hkey =>
      refine Or.inl ⟨rfl, fun slot hslot => ?_⟩
      rw [hkey] at hslot
      cases hslot
  | data slot d hkey hlast =>
      refine Or.inl ⟨rfl, fun slot' hslot => ?_⟩
      rw [hkey, Option.some.injEq] at hslot
      rw [← hslot]
      exact hlast
  | last slot d hkey hlast => exact Or.inr ⟨rfl, slot, hkey, hlast⟩

namespace ChunkTx

variable {c : ChunkTx} {row : ChunkFloorRow} {t t' : Tables}

theorem takeSlot_eq_ok
    {counted : Nat} (hcounted : counted - 1 = t.counts c.streamId c.epoch)
    (h : c.takeSlot counted (c.countChunk t) = .ok t') :
    exists deks, SlotTaken c t deks ∧ t' = { c.countChunk t with deks } := by
  unfold takeSlot at h
  split at h
  · rename_i hkey
    cases h
    exact ⟨t.deks, .unkeyed hkey, rfl⟩
  · rename_i slot hkey
    rw [hcounted] at h
    split at h
    · cases h
    · rename_i hcounter
      rw [not_not] at hcounter
      split at h
      · rename_i hlast
        split at h
        · rename_i hone
          cases h
          have hpos : 0 < t.deks.countP fun d => d.isAt c.streamId c.epoch && !d.terminated := by
            rw [show t.deks = (c.countChunk t).deks from rfl, hone]
            exact Nat.one_pos
          rcases List.countP_pos_iff.mp hpos with ⟨d, hd, hopen⟩
          rw [Bool.and_eq_true, Bool.not_eq_true'] at hopen
          exact ⟨_, .last slot d hkey hlast hcounter.symm hd hopen.1 hopen.2, rfl⟩
        · cases h
      · rename_i hlast
        split at h
        · rename_i hany
          cases h
          rcases List.any_eq_true.mp hany with ⟨d, hd, hopen⟩
          rw [Bool.and_eq_true, Bool.and_eq_true, Bool.not_eq_true', Bool.not_eq_true'] at hopen
          exact ⟨t.deks, .data slot d hkey (Bool.not_eq_true _ ▸ hlast) hcounter.symm hd hopen.1.1
            hopen.2, rfl⟩
        · cases h

theorem indexRow_eq_ok
    (h : c.indexRow row t = .ok t') :
    (forall r, r ∈ t.chunks -> r.streamId = c.streamId -> r.seq ≠ row.seq) ∧
      t' = { t with chunks := t.chunks ++ [c.indexed row] } := by
  unfold indexRow at h
  split at h
  · cases h
  · rename_i hnone
    cases h
    refine ⟨?_, rfl⟩
    intro r hr hstream hseq
    apply hnone
    exact List.any_eq_true.mpr ⟨r, hr, by simp [hstream, hseq]⟩

theorem bindEpoch_eq_ok
    (h : c.bindEpoch row t = .ok t') :
    exists around, around.blobs = t.around.blobs ∧ t' = { t with around } := by
  unfold bindEpoch at h
  split at h
  · cases h
    exact ⟨t.around, rfl, rfl⟩
  · rename_i b _
    split at h
    · cases h
    · cases h
      unfold tryBinding
      split
      · exact ⟨(declareBinding row b t).around, rfl, rfl⟩
      · exact ⟨t.around, rfl, rfl⟩

theorem appendNew_effect
    (hheld : row.sha256 ∈ t.around.blobs) (h : c.appendNew row t = .ok t') :
    ItemEffect c row t t' := by
  unfold appendNew at h
  simp only at h
  split at h
  · cases h
  · rename_i hcap
    have hcap' : t.counts c.streamId c.epoch < maxChunksPerEpoch := by
      simpa [epochChunkCapReached] using hcap
    rcases Checks.bind_eq_ok_iff.mp h with ⟨slotted, hslotted, h⟩
    rcases Checks.bind_eq_ok_iff.mp h with ⟨listed, hlisted, hbound⟩
    rcases takeSlot_eq_ok (by omega) hslotted with ⟨deks, hslot, rfl⟩
    rcases indexRow_eq_ok hlisted with ⟨hfresh, rfl⟩
    rcases bindEpoch_eq_ok hbound with ⟨around, hblobs, rfl⟩
    have hsame : around.blobs = t.around.blobs := hblobs
    exact .stored around (by rw [hsame]; exact List.Subset.refl _) (by rw [hsame]; exact hheld) hcap'
      hfresh deks hslot

theorem blobs_subset_insertBlob :
    t.around.blobs ⊆ (insertBlob row t).around.blobs := by
  intro sha hsha
  exact FirstWins.mem_insert_of_mem hsha

theorem bindAsDeclared_of_findRepair
    (h : c.findRepair row t = .ok true) :
    c.bindAsDeclared = true := by
  unfold findRepair at h
  split at h
  · rename_i hdeclared
    exact hdeclared
  · cases h

theorem appendChunkItem_effect
    (h : c.appendChunkItem row t = .ok t') :
    ItemEffect c row t t' := by
  rcases Checks.bind_eq_ok_iff.mp h with ⟨repaired, hrepaired, h⟩
  rcases Checks.bind_eq_ok_iff.mp h with ⟨_, -, h⟩
  simp only at h
  split at h
  · rename_i htrue
    rw [htrue] at hrepaired
    cases h
    have hrepair : exists around, around.blobs = (insertBlob row t).around.blobs ∧
        c.repair row (insertBlob row t) = { t with around } := by
      unfold repair
      split
      · rename_i b _
        exact ⟨(declareBinding row b (insertBlob row t)).around, rfl, rfl⟩
      · exact ⟨(insertBlob row t).around, rfl, rfl⟩
    rcases hrepair with ⟨around, hblobs, hrepair⟩
    rw [hrepair]
    exact .repaired around (by rw [hblobs]; exact blobs_subset_insertBlob)
      (bindAsDeclared_of_findRepair hrepaired)
  · have hheld : row.sha256 ∈ (insertBlob row t).around.blobs := by
      rcases FirstWins.exists_key_insert id t.around.blobs row.sha256 with ⟨sha, hsha, hkey⟩
      rw [show row.sha256 = sha from hkey.symm]
      exact hsha
    -- the blob row is the only difference between the tables of the item and `t`
    cases appendNew_effect hheld h with
    | repaired around hblobs hdeclared =>
        exact .repaired around (List.Subset.trans blobs_subset_insertBlob hblobs) hdeclared
    | stored around hblobs hheld' hcap hfresh deks hslot =>
        refine .stored around (List.Subset.trans blobs_subset_insertBlob hblobs) hheld' hcap hfresh
          deks ?_
        cases hslot with
        | unkeyed hkey => exact .unkeyed hkey
        | data slot d hkey hlast hcounter hd hat hopen =>
            exact .data slot d hkey hlast hcounter hd hat hopen
        | last slot d hkey hlast hcounter hd hat hopen =>
            exact .last slot d hkey hlast hcounter hd hat hopen

end ChunkTx

namespace PlannedChunkBatch

variable {batch : PlannedChunkBatch} {I : Tables -> Prop}

theorem appendItems_invariant
    (rows : List ChunkFloorRow)
    (hitem : forall row, row ∈ rows -> forall t t', ItemEffect batch.tx row t t' -> I t -> I t') :
    forall t, I t -> I (batch.appendItems rows t).2 := by
  induction rows with
  | nil =>
      intro t h
      exact h
  | cons row rest ih =>
      intro t h
      have hrest := ih fun row' hmem => hitem row' (List.mem_cons_of_mem _ hmem)
      unfold appendItems
      split
      · rename_i next hnext
        exact hrest next
          (hitem row List.mem_cons_self t next (ChunkTx.appendChunkItem_effect hnext) h)
      · exact hrest t h

theorem store_invariant
    (hstreams : forall t streams, I t -> I { t with streams })
    (hitem : forall row, row ∈ batch.rows ->
      forall t t', ItemEffect batch.tx row t t' -> I t -> I t')
    {t : Tables} (h : I t) :
    I (batch.store t).2 := by
  unfold store
  split
  · exact h
  · rename_i streams _
    simp only
    split
    · exact appendItems_invariant batch.rows hitem _ (hstreams t streams h)
    · exact h

end PlannedChunkBatch

end Stream
end CirisPersist.Federation
