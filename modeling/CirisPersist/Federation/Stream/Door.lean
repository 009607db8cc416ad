import CirisPersist.Federation.Blobs.Sealing
import CirisPersist.Federation.Stream.Slots
import CirisPersist.Library.Stateful

/-!
# The stream-keyed doors

An append finds the epoch it seals under, rolls it when only the terminator's slot is
left or a recipient has left the audience, seals at the count of the epoch and offers
the chunk to the floor.  A roll, a supplied key and the seal write the terminator of an
epoch: an empty chunk with the last flag, at a position the producer cannot take.

Doors run one after the other here.  What a door can do to the tables is a run of the
floor, so the results about those runs hold for interleaved doors too.
-/

namespace CirisPersist.Federation
namespace Stream

abbrev Door :=
  Stateful.Action Tables BlobError

open Stateful.Action

/-!
## Reading the keys
-/

structure StreamDekRecord extends StreamDekRow where
  chunkCount : Nat

def StreamDekRow.record (t : Tables) (d : StreamDekRow) : StreamDekRecord where
  toStreamDekRow := d
  chunkCount := t.counts d.streamId d.epoch

def streamDekList (t : Tables) (streamId : String) : List StreamDekRecord :=
  ((t.deks.filter fun d => decide (d.streamId = streamId)).insertionSort
    fun a b => a.epoch ≤ b.epoch).map (StreamDekRow.record t)

def latestDek (t : Tables) (streamId : String) : Option StreamDekRecord :=
  (streamDekList t streamId).getLast?

/-!
## The rules of an epoch
-/

structure StreamWrite where
  cohortScope : String
  groupKeyId : String
  writerKeyId : String
  communityKeyId : Option String
  streamId : String
  epoch : UInt64
  tier : CryptoTier

def nextEpoch (epoch : UInt64) : UInt64 :=
  if epoch = 18446744073709551615 then epoch else epoch + 1

/-- The producer's epoch, never below the current one, and past it once that is closed. -/
def streamTargetEpoch (latest : Option StreamDekRecord) (producerEpoch : UInt64) : UInt64 :=
  match latest with
  | none => producerEpoch
  | some l =>
      if l.closed || l.terminated then
        max producerEpoch (nextEpoch l.epoch)
      else
        max producerEpoch l.epoch

inductive EpochVerdict where
  | sealChunk
  | roll
deriving DecidableEq

def streamEpochVerdict (record : StreamDekRecord) (cap : Nat) (removed : Option String) :
    Except BlobError EpochVerdict :=
  let refuse (reason : StreamRotationReason) (removedKeyId : Option String) :
      Except BlobError EpochVerdict :=
    if record.supplied then
      .error (.streamEpochRotationRequired record.streamId record.epoch reason removedKeyId)
    else
      .ok .roll
  if record.chunkCount + 1 ≥ cap then
    refuse .cap none
  else if removed.isSome then
    refuse .removal removed
  else
    .ok .sealChunk

def terminatorSeqBase : UInt64 := 4611686018427387904

def terminatorSeq (epoch : UInt64) : Except BlobError UInt64 :=
  if terminatorSeqBase.toNat + epoch.toNat < 2 ^ 63 then
    .ok (terminatorSeqBase + epoch)
  else
    .error (.invalidArgument ("stream epoch " ++ epoch.toNat.repr ++
      " is past the terminator range (CIRISPersist#969)"))

/-!
## Sealing a chunk and offering it
-/

section Doors

variable [FloorRules] [Sha256Hash] [AtRestSeal] [StreamNonceKdf]

def sealStoredStreamChunk (dek : Dek) (streamId : String) (epoch : UInt64) (slot : StreamKeySlot)
    (callerAad : Option (List UInt8)) (storageSeq : UInt64) (plaintext : ByteArray) :
    Except BlobError ByteArray :=
  AtRestSeal.sealAtNonce dek (streamNonce dek streamId epoch slot)
    (chunkAad callerAad streamId storageSeq) plaintext

def StreamWrite.call (w : StreamWrite) (epoch seq : UInt64) (slot : StreamKeySlot)
    (envelope : ByteArray) (plaintextSize : UInt64) : ChunkFloorCall where
  streamId := w.streamId
  items := [⟨seq, .inline envelope, plaintextSize⟩]
  epoch := epoch
  cohortScope := w.cohortScope
  tier := w.tier
  binding := none
  claim :=
    { communityKeyId := w.communityKeyId, ownerKeyId := some w.writerKeyId, streamKey := some slot }
  bindAsDeclared := false

def putBlobChunk (call : ChunkFloorCall) : Door Sha256 := fun t =>
  match call.chunkFloorPlanned t with
  | (.error e, after) => (.error e, after)
  | (.ok answers, after) => (answers.getLast?.getD (.error (.backend "an empty batch")), after)

def lostSlot : BlobError -> Bool
  | .invalidArgument message =>
      Text.startsWith streamCounterMovedToken message ||
        Text.startsWith streamEpochClosedToken message
  | _ => false

def slotCounter (record : StreamDekRecord) (message : String) : Except BlobError UInt32 :=
  if record.chunkCount < 2 ^ 32 then
    .ok (UInt32.ofNat record.chunkCount)
  else
    .error (.backend message)

def streamSealAttempts : Nat := 8

/-!
## Terminators
-/

def terminatorLoop (w : StreamWrite) (aad : Option (List UInt8)) (seq : UInt64) :
    Nat -> StreamDekRecord -> Door Unit
  | 0, record =>
      fail (.backend ("stream " ++ w.streamId ++ " epoch " ++ record.epoch.toNat.repr ++
        " could not settle its terminator"))
  | attempts + 1, record =>
      if record.terminated then
        pure ()
      else do
        let counter ← lift (slotCounter record ("stream " ++ w.streamId ++ " epoch " ++
          record.epoch.toNat.repr ++ " past the STREAM counter"))
        let slot : StreamKeySlot := { counter, last := true }
        let envelope ← lift (sealStoredStreamChunk record.dek w.streamId record.epoch slot aad seq
          ByteArray.empty)
        let answer ← attempt (putBlobChunk (w.call record.epoch seq slot envelope 0))
        match answer with
        | .ok _ => pure ()
        | .error e =>
            if lostSlot e then do
              let t ← read
              match (streamDekList t w.streamId).find? fun r => decide (r.epoch = record.epoch) with
              | some again => terminatorLoop w aad seq attempts again
              | none => fail (.backend ("stream " ++ w.streamId ++ " epoch " ++
                  record.epoch.toNat.repr ++ " lost its DEK row"))
            else
              fail e

def writeTerminator (w : StreamWrite) (aad : Option (List UInt8)) (record : StreamDekRecord) :
    Door Unit :=
  if record.ownerKeyId ≠ w.writerKeyId then
    fail (.invalidArgument ("stream " ++ w.streamId ++ " epoch " ++ record.epoch.toNat.repr ++
      " was sealed by another writer; a terminator is appended only by the stream's single " ++
      "sender (CC 5.3.3.1)"))
  else do
    let seq ← lift (terminatorSeq record.epoch)
    terminatorLoop w aad seq streamSealAttempts record

def terminateEach (w : StreamWrite) (aad : Option (List UInt8)) : List StreamDekRecord -> Door Nat
  | [] => pure 0
  | record :: rest =>
      if record.terminated then
        terminateEach w aad rest
      else do
        writeTerminator w aad record
        let written ← terminateEach w aad rest
        pure (written + 1)

def terminateStreamEpochs (w : StreamWrite) (aad : Option (List UInt8)) : Door Nat := do
  let t ← read
  terminateEach w aad (streamDekList t w.streamId)

/-!
## The append door
-/

def streamDekInsert (d : StreamDekRow) : Door StreamDekRecord := do
  lift (refuseReservedStreamId d.streamId)
  let _ ← lift (toI64 d.epoch "stream epoch exceeds i64")
  modify (insertDek d)
  let t ← read
  pure (((t.deks.find? fun r => r.isAt d.streamId d.epoch).getD d.opened).record t)

def StreamWrite.dekRow (w : StreamWrite) (epoch : UInt64) (dek : Dek) (supplied : Bool) :
    StreamDekRow where
  streamId := w.streamId
  epoch := epoch
  ownerKeyId := w.writerKeyId
  cohortScope := w.cohortScope
  groupKeyId := w.groupKeyId
  dek := dek
  closed := false
  terminated := false
  supplied := supplied

def terminateUnlessDone (w : StreamWrite) (aad : Option (List UInt8)) (record : StreamDekRecord) :
    Door Unit :=
  if record.terminated then pure () else writeTerminator w aad record

/-- The epoch's key row: the newest when it is the target, else minted, the previous epoch
terminated first. -/
def ensureStreamEpoch (w : StreamWrite) (aad : Option (List UInt8)) (freshDek : UInt64 -> Dek)
    (latest : Option StreamDekRecord) : Door StreamDekRecord :=
  let target := streamTargetEpoch latest w.epoch
  let mint := streamDekInsert (w.dekRow target (freshDek target) false)
  match latest with
  | none => mint
  | some l =>
      if l.cohortScope ≠ w.cohortScope ∨ l.groupKeyId ≠ w.groupKeyId then
        fail (streamElsewhereRefusal w.streamId l.cohortScope (some l.groupKeyId) w.cohortScope
          w.communityKeyId)
      else if l.epoch = target then
        pure l
      else if l.supplied then
        fail (.streamEpochDekMissing w.streamId target)
      else do
        terminateUnlessDone w aad l
        mint

/-- One append.  Whom an epoch was granted to and who has left since, and the fresh keys,
come from outside. -/
structure AppendRequest where
  w : StreamWrite
  seq : UInt64
  plaintext : ByteArray
  aad : Option (List UInt8)
  removed : UInt64 -> Option String
  freshDek : UInt64 -> Dek

namespace AppendRequest

def appendLoop (r : AppendRequest) : Nat -> Door Sha256
  | 0 =>
      fail (.backend ("put_blob_chunk_scoped: stream " ++ r.w.streamId ++
        " could not settle a STREAM-nonce slot in " ++ streamSealAttempts.repr ++ " attempts"))
  | attempts + 1 => do
      let t ← read
      let record ← ensureStreamEpoch r.w r.aad r.freshDek (latestDek t r.w.streamId)
      let verdict ← lift (streamEpochVerdict record maxChunksPerEpoch (r.removed record.epoch))
      match verdict with
      | .roll => do
          writeTerminator r.w r.aad record
          appendLoop r attempts
      | .sealChunk => do
          let counter ← lift (slotCounter record ("stream " ++ r.w.streamId ++ " epoch " ++
            record.epoch.toNat.repr ++ " counts " ++ record.chunkCount.repr ++
            " chunks, past the STREAM counter"))
          let slot : StreamKeySlot := { counter, last := false }
          let envelope ← lift (sealStoredStreamChunk record.dek r.w.streamId record.epoch slot r.aad
            r.seq r.plaintext)
          let answer ← attempt (putBlobChunk (r.w.call record.epoch r.seq slot envelope
            (UInt64.ofNat r.plaintext.size)))
          match answer with
          | .ok sha => pure sha
          | .error e => if lostSlot e then appendLoop r attempts else fail e

def putStreamKeyedChunk (r : AppendRequest) : Door Sha256 :=
  if terminatorSeqBase ≤ r.seq then
    fail (.invalidArgument ("put_blob_chunk_scoped: seq " ++ r.seq.toNat.repr ++
      " is in the range persist reserves for epoch terminators (≥ " ++
      terminatorSeqBase.toNat.repr ++ "); a producer's seq stays below it (CIRISPersist#969)"))
  else
    appendLoop r streamSealAttempts

end AppendRequest

/-!
## Supplied keys
-/

def recordedOwner (t : Tables) (streamId : String) : Option String :=
  (((t.streams.find? fun s => decide (s.1 = streamId)).bind fun s => s.2.ownerKeyId)).or
    ((latestDek t streamId).map fun l => l.ownerKeyId)

def checkSupply (w : StreamWrite) (t : Tables) : Except BlobError Unit := do
  refuseReservedStreamId w.streamId
  if w.tier = .plaintext then
    .error (.invalidArgument ("register_stream_epoch_dek: " ++ Text.debugStr w.cohortScope ++
      " content in " ++ Text.debugStr w.groupKeyId ++
      " is plaintext; there is no key to supply (CIRISPersist#981)"))
  else if (recordedOwner t w.streamId).any fun owner => decide (owner ≠ w.writerKeyId) then
    .error (.streamNotAuthored w.streamId)
  else if (latestDek t w.streamId).isNone &&
      t.chunks.any (fun r => decide (r.streamId = w.streamId)) then
    .error (.invalidArgument ("register_stream_epoch_dek: stream " ++ w.streamId ++
      " holds per-chunk-keyed chunks (written before CIRISPersist#969); one DAG never mixes " ++
      "per-chunk and stream keys"))
  else
    .ok ()

/-- Seal the next epoch under a key the caller supplies.  `false` is a key that was there. -/
def registerStreamEpochDek (named : StreamWrite) (dek : Dek) (aad : Option (List UInt8)) :
    Door Bool := do
  let w := { named with communityKeyId := some named.groupKeyId }
  let t ← read
  lift (checkSupply w t)
  let supply : Door Bool := do
    let _ ← streamDekInsert (w.dekRow w.epoch dek true)
    pure true
  match latestDek t w.streamId with
  | none => supply
  | some l =>
      if l.cohortScope ≠ w.cohortScope ∨ l.groupKeyId ≠ w.groupKeyId then
        fail (streamElsewhereRefusal w.streamId l.cohortScope (some l.groupKeyId) w.cohortScope
          (some w.groupKeyId))
      else
        match (streamDekList t w.streamId).find? fun r => decide (r.epoch = w.epoch) with
        | some held =>
            if held.dek = dek then pure false else fail (.streamEpochDekExists w.streamId w.epoch)
        | none =>
            if w.epoch < l.epoch then
              fail (.invalidArgument ("register_stream_epoch_dek: epoch " ++ w.epoch.toNat.repr ++
                " is below stream " ++ w.streamId ++ "'s newest epoch " ++ l.epoch.toNat.repr ++
                "; a stream's epochs are monotonic (CC 5.1)"))
            else do
              terminateUnlessDone w aad l
              supply

/-!
## Runs of the doors
-/

inductive DoorRequest where
  | append (r : AppendRequest)
  | register (w : StreamWrite) (dek : Dek) (aad : Option (List UInt8))

def DoorRequest.perform (t : Tables) : DoorRequest -> Tables
  | .append r => (r.putStreamKeyedChunk t).2
  | .register w dek aad => (registerStreamEpochDek w dek aad t).2

def runDoors (around : Surroundings) (requests : List DoorRequest) : Tables :=
  requests.foldl DoorRequest.perform (.empty around)

end Doors

/-!
## What a door can do

A door writes key rows and stream-keyed chunks: data below the positions kept for
terminators, terminators at their own.
-/

/-- Where a slot may stand: a terminator at the position of its epoch, data below all of
them. -/
def Placed (epoch seq : UInt64) (slot : StreamKeySlot) : Prop :=
  (slot.last = true -> seq.toNat = terminatorSeqBase.toNat + epoch.toNat) ∧
    (slot.last = false -> seq.toNat < terminatorSeqBase.toNat)

def FloorAction.ByDoor : FloorAction -> Prop
  | .append batch => batch.bindAsDeclared = false ∧ exists slot, batch.claim.streamKey = some slot ∧
      forall row, row ∈ batch.rows -> Placed batch.epoch row.seq slot
  | .insertDek _ => True
  | .closeDek _ _ => True
  | .surroundings _ => False

def FloorAction.Terminates : FloorAction -> Prop
  | .append batch => batch.bindAsDeclared = false ∧ exists slot, batch.claim.streamKey = some slot ∧
      slot.last = true ∧ forall row, row ∈ batch.rows -> Placed batch.epoch row.seq slot
  | _ => False

theorem FloorAction.byDoor_of_terminates
    {action : FloorAction} (h : action.Terminates) :
    action.ByDoor := by
  cases action with
  | append batch =>
      rcases h with ⟨hdeclared, slot, hkey, -, hplaced⟩
      exact ⟨hdeclared, slot, hkey, hplaced⟩
  | insertDek d => trivial
  | closeDek streamId epoch => trivial
  | surroundings around => cases h

def Leads (P : FloorAction -> Prop) (t t' : Tables) : Prop :=
  exists actions : List FloorAction, (forall action, action ∈ actions -> P action) ∧
    actions.foldl FloorAction.step t = t'

section Leads

variable {P : FloorAction -> Prop}

theorem leads_refl
    (t : Tables) :
    Leads P t t :=
  ⟨[], nofun, rfl⟩

theorem leads_trans
    (a b c : Tables) (h : Leads P a b) (h' : Leads P b c) :
    Leads P a c := by
  rcases h with ⟨actions, hactions, rfl⟩
  rcases h' with ⟨later, hlater, rfl⟩
  refine ⟨actions ++ later, ?_, List.foldl_append⟩
  intro action haction
  rcases List.mem_append.mp haction with hmem | hmem
  · exact hactions action hmem
  · exact hlater action hmem

theorem leads_step
    (action : FloorAction) (h : P action) (t : Tables) :
    Leads P t (action.step t) := by
  refine ⟨[action], ?_, rfl⟩
  intro other hother
  rw [List.mem_singleton.mp hother]
  exact h

theorem Leads.mono
    {P' : FloorAction -> Prop} (himp : forall action, P action -> P' action) (t t' : Tables)
    (h : Leads P t t') :
    Leads P' t t' := by
  rcases h with ⟨actions, hactions, heq⟩
  exact ⟨actions, fun action hmem => himp action (hactions action hmem), heq⟩

theorem Leads.invariant
    {I : Tables -> Prop} {t t' : Tables} (h : Leads P t t')
    (hstep : forall t action, P action -> I t -> I (action.step t)) (ht : I t) :
    I t' := by
  rcases h with ⟨actions, hactions, rfl⟩
  exact List.foldlRecOn actions _ ht fun t ht action hmem => hstep t action (hactions action hmem) ht

end Leads

variable {epoch seq : UInt64}

theorem placed_terminator
    (h : terminatorSeq epoch = .ok seq) (counter : UInt32) :
    Placed epoch seq { counter, last := true } := by
  refine ⟨?_, nofun⟩
  intro _
  unfold terminatorSeq at h
  split at h
  · rename_i hlt
    cases h
    rw [UInt64.toNat_add, Nat.mod_eq_of_lt (by omega)]
  · cases h

section Floor

variable [FloorRules] [Sha256Hash]

theorem tables_chunkFloorPlanned
    (call : ChunkFloorCall) (t : Tables) :
    (call.chunkFloorPlanned t).2 = t ∨ (call.chunkFloorPlanned t).2 = ((call.batch t).store t).2 := by
  unfold ChunkFloorCall.chunkFloorPlanned
  split
  · exact Or.inl rfl
  · right
    split
    · rename_i heq
      rw [heq]
    · rename_i heq
      rw [heq]

theorem seq_of_admittedRow
    {call : ChunkFloorCall} {t : Tables} {slot : Nat} {item : ChunkFloorItem} {row : ChunkFloorRow}
    (h : call.admittedRow t slot item = .ok row) :
    row.seq = item.seq := by
  rcases Checks.bind_eq_ok_iff.mp h with ⟨prepared, hprepared, h⟩
  have hseq : prepared.seq = item.seq := by
    iterate 4 rcases Checks.bind_eq_ok_iff.mp hprepared with ⟨_, -, hprepared⟩
    cases hprepared
    rfl
  split at h
  · cases h
  · cases h
    exact hseq

theorem placed_of_mem_batch
    (w : StreamWrite) {slot : StreamKeySlot} (hplaced : Placed epoch seq slot)
    {envelope : ByteArray} {plaintextSize : UInt64} {t : Tables} {row : ChunkFloorRow}
    (hrow : row ∈ ((w.call epoch seq slot envelope plaintextSize).batch t).rows) :
    Placed epoch row.seq slot := by
  rcases List.mem_filterMap.mp hrow with ⟨admitted, hadmitted, hrow⟩
  cases admitted with
  | error e => cases hrow
  | ok row' =>
      cases hrow
      rcases List.mem_map.mp hadmitted with ⟨p, hp, hrow⟩
      have hitem : p.1 = ⟨seq, .inline envelope, plaintextSize⟩ :=
        List.mem_singleton.mp (List.fst_mem_of_mem_zipIdx hp)
      have hseq := seq_of_admittedRow hrow
      rw [hitem] at hseq
      rw [hseq]
      exact hplaced

theorem snd_putBlobChunk
    (call : ChunkFloorCall) (t : Tables) :
    (putBlobChunk call t).2 = (call.chunkFloorPlanned t).2 := by
  unfold putBlobChunk
  split
  · rename_i heq
    rw [heq]
  · rename_i heq
    rw [heq]

theorem stays_putBlobChunk
    {P : FloorAction -> Prop} {call : ChunkFloorCall} (h : forall t, P (.append (call.batch t))) :
    Stateful.Stays (Leads P) (putBlobChunk call) := by
  intro t
  rw [snd_putBlobChunk]
  rcases tables_chunkFloorPlanned call t with hsame | hbatch
  · rw [hsame]
    exact leads_refl t
  · rw [hbatch]
    exact leads_step _ (h t) t

end Floor

open Stateful

theorem Stays.byDoor
    {A : Type} {m : Door A} (h : Stays (Leads FloorAction.Terminates) m) :
    Stays (Leads FloorAction.ByDoor) m :=
  h.mono (Leads.mono fun _ => FloorAction.byDoor_of_terminates)

theorem stays_streamDekInsert
    (d : StreamDekRow) :
    Stays (Leads FloorAction.ByDoor) (streamDekInsert d) := by
  refine (stays_lift leads_refl _).bind leads_trans fun _ => ?_
  refine (stays_lift leads_refl _).bind leads_trans fun _ => ?_
  have hinsert : Stays (Leads FloorAction.ByDoor) (Action.modify (insertDek d) : Door Unit) :=
    leads_step (.insertDek d) trivial
  refine hinsert.bind leads_trans fun _ => ?_
  exact (stays_read leads_refl).bind leads_trans fun t => stays_pure leads_refl _

section Effects

variable [FloorRules] [Sha256Hash] [AtRestSeal] [StreamNonceKdf]

section Writing

variable (w : StreamWrite) (aad : Option (List UInt8))

theorem stays_terminatorLoop
    (hseq : terminatorSeq epoch = .ok seq) (attempts : Nat) (record : StreamDekRecord)
    (hepoch : record.epoch = epoch) :
    Stays (Leads FloorAction.Terminates) (terminatorLoop w aad seq attempts record) := by
  induction attempts generalizing record with
  | zero => exact stays_fail leads_refl _
  | succ attempts ih =>
      rw [terminatorLoop]
      split
      · exact stays_pure leads_refl ()
      · refine (stays_lift leads_refl _).bind leads_trans fun counter => ?_
        refine (stays_lift leads_refl _).bind leads_trans fun envelope => ?_
        have hplaced : Placed record.epoch seq { counter, last := true } := by
          rw [hepoch]
          exact placed_terminator hseq counter
        have hput : Stays (Leads FloorAction.Terminates)
            (putBlobChunk (w.call record.epoch seq { counter, last := true } envelope 0)) :=
          stays_putBlobChunk fun t => ⟨rfl, _, rfl, rfl, fun row => placed_of_mem_batch w hplaced⟩
        refine hput.attempt.bind leads_trans fun answer => ?_
        split
        · exact stays_pure leads_refl ()
        · split
          · refine (stays_read leads_refl).bind leads_trans fun t => ?_
            split
            · rename_i again hagain
              have hfound := List.find?_some hagain
              rw [decide_eq_true_eq] at hfound
              exact ih again (hfound.trans hepoch)
            · exact stays_fail leads_refl _
          · exact stays_fail leads_refl _

theorem stays_writeTerminator
    (record : StreamDekRecord) :
    Stays (Leads FloorAction.Terminates) (writeTerminator w aad record) := by
  unfold writeTerminator
  split
  · exact stays_fail leads_refl _
  · -- the position is read before the loop, and the loop keeps the epoch it is for
    intro t
    cases hseq : terminatorSeq record.epoch with
    | error e => exact leads_refl t
    | ok seq => exact stays_terminatorLoop w aad hseq streamSealAttempts record rfl t

theorem stays_terminateUnlessDone
    (record : StreamDekRecord) :
    Stays (Leads FloorAction.Terminates) (terminateUnlessDone w aad record) := by
  unfold terminateUnlessDone
  split
  · exact stays_pure leads_refl ()
  · exact stays_writeTerminator w aad record

theorem stays_terminateEach
    (records : List StreamDekRecord) :
    Stays (Leads FloorAction.Terminates) (terminateEach w aad records) := by
  induction records with
  | nil => exact stays_pure leads_refl 0
  | cons record rest ih =>
      rw [terminateEach]
      split
      · exact ih
      · refine (stays_writeTerminator w aad record).bind leads_trans fun _ => ?_
        exact ih.bind leads_trans fun written => stays_pure leads_refl (written + 1)

theorem stays_terminateStreamEpochs :
    Stays (Leads FloorAction.Terminates) (terminateStreamEpochs w aad) :=
  (stays_read leads_refl).bind leads_trans fun t =>
    stays_terminateEach w aad (streamDekList t w.streamId)

theorem stays_ensureStreamEpoch
    (freshDek : UInt64 -> Dek) (latest : Option StreamDekRecord) :
    Stays (Leads FloorAction.ByDoor) (ensureStreamEpoch w aad freshDek latest) := by
  cases latest with
  | none => exact stays_streamDekInsert _
  | some l =>
      simp only [ensureStreamEpoch]
      split
      · exact stays_fail leads_refl _
      · split
        · exact stays_pure leads_refl l
        · split
          · exact stays_fail leads_refl _
          · exact (Stays.byDoor (stays_terminateUnlessDone w aad l)).bind leads_trans
              fun _ => stays_streamDekInsert _

end Writing

namespace AppendRequest

theorem stays_appendLoop
    {r : AppendRequest} (hseq : r.seq.toNat < terminatorSeqBase.toNat) (attempts : Nat) :
    Stays (Leads FloorAction.ByDoor) (r.appendLoop attempts) := by
  induction attempts with
  | zero => exact stays_fail leads_refl _
  | succ attempts ih =>
      rw [appendLoop]
      refine (stays_read leads_refl).bind leads_trans fun t => ?_
      refine (stays_ensureStreamEpoch r.w r.aad r.freshDek _).bind leads_trans fun record => ?_
      refine (stays_lift leads_refl _).bind leads_trans fun verdict => ?_
      cases verdict with
      | roll =>
          exact (Stays.byDoor (stays_writeTerminator r.w r.aad record)).bind leads_trans fun _ => ih
      | sealChunk =>
          refine (stays_lift leads_refl _).bind leads_trans fun counter => ?_
          refine (stays_lift leads_refl _).bind leads_trans fun envelope => ?_
          have hplaced : Placed record.epoch r.seq { counter, last := false } :=
            ⟨nofun, fun _ => hseq⟩
          have hput : Stays (Leads FloorAction.ByDoor) (putBlobChunk (r.w.call record.epoch r.seq
              { counter, last := false } envelope (UInt64.ofNat r.plaintext.size))) :=
            stays_putBlobChunk fun t => ⟨rfl, _, rfl, fun row => placed_of_mem_batch r.w hplaced⟩
          refine hput.attempt.bind leads_trans fun answer => ?_
          split
          · exact stays_pure leads_refl _
          · split
            · exact ih
            · exact stays_fail leads_refl _

theorem stays_putStreamKeyedChunk
    (r : AppendRequest) :
    Stays (Leads FloorAction.ByDoor) r.putStreamKeyedChunk := by
  unfold putStreamKeyedChunk
  split
  · exact stays_fail leads_refl _
  · rename_i hbelow
    exact stays_appendLoop (UInt64.lt_iff_toNat_lt.mp (UInt64.not_le.mp hbelow)) streamSealAttempts

end AppendRequest

theorem stays_registerStreamEpochDek
    (w : StreamWrite) (dek : Dek) (aad : Option (List UInt8)) :
    Stays (Leads FloorAction.ByDoor) (registerStreamEpochDek w dek aad) := by
  have hsupply : forall d, Stays (Leads FloorAction.ByDoor) (do
      let _ ← streamDekInsert d
      pure true : Door Bool) := fun d =>
    (stays_streamDekInsert d).bind leads_trans fun _ => stays_pure leads_refl true
  unfold registerStreamEpochDek
  refine (stays_read leads_refl).bind leads_trans fun t => ?_
  refine (stays_lift leads_refl _).bind leads_trans fun _ => ?_
  split
  · exact hsupply _
  · split
    · exact stays_fail leads_refl _
    · split
      · split
        · exact stays_pure leads_refl false
        · exact stays_fail leads_refl _
      · split
        · exact stays_fail leads_refl _
        · exact (Stays.byDoor (stays_terminateUnlessDone _ aad _)).bind leads_trans
            fun _ => hsupply _

theorem leads_perform
    (t : Tables) (request : DoorRequest) :
    Leads FloorAction.ByDoor t (request.perform t) := by
  cases request with
  | append r => exact r.stays_putStreamKeyedChunk t
  | register w dek aad => exact stays_registerStreamEpochDek w dek aad t

theorem leads_runDoors
    (around : Surroundings) (requests : List DoorRequest) :
    Leads FloorAction.ByDoor (.empty around) (runDoors around requests) :=
  List.foldlRecOn requests _ (leads_refl _)
    fun t h request _ => leads_trans _ _ _ h (leads_perform t request)

end Effects

end Stream
end CirisPersist.Federation
