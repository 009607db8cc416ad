import CirisPersist.Federation.Stream.Door
import CirisPersist.Federation.Stream.Structure
import CirisPersist.Library.Sorting
import Mathlib.Data.List.Destutter

/-!
# Reading a sealed stream back

Counters are given in the order chunks arrive, and the reader checks them in the order
of the positions.  Every terminator stands above all data, so a sealed stream passes
the check exactly when the data of each epoch arrived in the order of their positions.
-/

namespace CirisPersist.Federation
namespace Stream

open Stateful

/-!
## A seal terminates every epoch
-/

def Terminated (streamId : String) (epoch : UInt64) (t : Tables) : Prop :=
  forall d, d ∈ t.deks -> d.isAt streamId epoch = true -> d.terminated = true

def Marked (t t' : Tables) : Prop :=
  exists f : StreamDekRow -> StreamDekRow, t'.deks = t.deks.map f ∧
    forall d, (f d).key = d.key ∧ (d.terminated = true -> (f d).terminated = true)

theorem marked_refl
    (t : Tables) :
    Marked t t :=
  ⟨id, by rw [List.map_id], fun _ => ⟨rfl, id⟩⟩

theorem marked_trans
    (a b c : Tables) (h : Marked a b) (h' : Marked b c) :
    Marked a c := by
  rcases h with ⟨f, hf, hkeep⟩
  rcases h' with ⟨g, hg, hkeep'⟩
  refine ⟨g ∘ f, by rw [hg, hf, List.map_map], ?_⟩
  intro d
  exact ⟨(hkeep' (f d)).1.trans (hkeep d).1, fun hd => (hkeep' (f d)).2 ((hkeep d).2 hd)⟩

variable {epoch : UInt64}

theorem isAt_iff_key
    {streamId : String} {d : StreamDekRow} :
    d.isAt streamId epoch = true <-> d.key = (streamId, epoch) := by
  rw [StreamDekRow.isAt_iff, StreamDekRow.key, Prod.mk.injEq]

variable {t' : Tables}

theorem Terminated.of_marked
    {streamId : String} {t : Tables} (h : Terminated streamId epoch t) (hmarked : Marked t t') :
    Terminated streamId epoch t' := by
  rcases hmarked with ⟨f, hf, hkeep⟩
  intro d' hd' hat'
  rw [hf] at hd'
  rcases List.mem_map.mp hd' with ⟨d, hd, rfl⟩
  rw [isAt_iff_key, (hkeep d).1, ← isAt_iff_key] at hat'
  exact (hkeep d).2 (h d hd hat')

theorem Marked.keys
    {t : Tables} (h : Marked t t') :
    t'.deks.map StreamDekRow.key = t.deks.map StreamDekRow.key := by
  rcases h with ⟨f, hf, hkeep⟩
  rw [hf, List.map_map]
  exact List.map_congr_left fun d _ => (hkeep d).1

variable {c : ChunkTx}

theorem SlotTaken.marked
    {t : Tables} {deks : List StreamDekRow} (h : SlotTaken c t deks) :
    Marked t { t with deks } := by
  rcases h.deks_cases with ⟨rfl, -⟩ | ⟨rfl, -⟩
  · exact marked_refl t
  · refine ⟨_, rfl, ?_⟩
    intro d
    split
    · exact ⟨rfl, fun _ => rfl⟩
    · exact ⟨rfl, id⟩

theorem marked_item
    {row : ChunkFloorRow} {t : Tables} (h : ItemEffect c row t t') :
    Marked t t' := by
  cases h with
  | repaired => exact marked_refl t
  | stored around hblobs hheld hcap hfresh deks hslot => exact hslot.marked

theorem marked_store
    (batch : PlannedChunkBatch) (t : Tables) :
    Marked t (batch.store t).2 :=
  PlannedChunkBatch.store_invariant (I := Marked t) (fun _ _ hx => hx)
    (fun _ _ x x' heffect hx => marked_trans t x x' hx (marked_item heffect)) (marked_refl t)

theorem Leads.marked
    {t : Tables} (h : Leads FloorAction.Terminates t t') :
    Marked t t' := by
  refine h.invariant (I := Marked t) ?_ (marked_refl t)
  intro s action hterminates hs
  cases action with
  | append batch => exact marked_trans t s _ hs (marked_store batch s)
  | _ => cases hterminates

theorem terminated_of_record
    {t : Tables} (hkeys : (t.deks.map StreamDekRow.key).Nodup) {streamId : String}
    {record : StreamDekRecord} (hmem : record ∈ streamDekList t streamId)
    (hmark : record.terminated = true) :
    Terminated streamId record.epoch t := by
  rcases List.mem_map.mp hmem with ⟨d, hd, rfl⟩
  rw [List.mem_insertionSort, List.mem_filter, decide_eq_true_eq] at hd
  rcases hd with ⟨hd, hstream⟩
  intro d' hd' hat'
  have hsame : d' = d := by
    apply List.inj_on_of_nodup_map hkeys hd' hd
    rw [isAt_iff_key.mp hat', StreamDekRow.key, hstream]
    rfl
  rw [hsame]
  exact hmark

section Seal

variable [FloorRules] [Sha256Hash]

theorem marked_putBlobChunk
    (call : ChunkFloorCall) :
    Stays Marked (putBlobChunk call) := by
  intro t
  rw [snd_putBlobChunk]
  rcases tables_chunkFloorPlanned call t with hsame | hbatch
  · rw [hsame]
    exact marked_refl t
  · rw [hbatch]
    exact marked_store _ t

theorem exists_item_of_putBlobChunk
    {call : ChunkFloorCall} {item : ChunkFloorItem} (hitems : call.items = [item]) {t : Tables}
    {sha : Sha256} (h : putBlobChunk call t = (.ok sha, t')) :
    exists row streams, (call.batch t).tx.appendChunkItem row { t with streams } = .ok t' := by
  have hadmitted : call.admittedRows t = [call.admittedRow t 0 item] := by
    rw [ChunkFloorCall.admittedRows, hitems]
    rfl
  unfold putBlobChunk at h
  split at h
  · cases h
  · rename_i answers after hplanned
    rw [Prod.mk.injEq] at h
    rcases h with ⟨hanswer, rfl⟩
    unfold ChunkFloorCall.chunkFloorPlanned at hplanned
    split at hplanned
    · cases hplanned
    · split at hplanned
      · cases hplanned
      · rename_i appended stored hstore
        rw [Prod.mk.injEq, Except.ok.injEq, hadmitted] at hplanned
        rcases hplanned with ⟨rfl, rfl⟩
        rw [List.map_singleton, List.getLast?_singleton, Option.getD_some,
          Checks.bind_eq_ok_iff] at hanswer
        rcases hanswer with ⟨row, hrow, hanswer⟩
        have hrows : (call.batch t).rows = [row] := by
          rw [ChunkFloorCall.batch, hadmitted, hrow]
          rfl
        unfold PlannedChunkBatch.store at hstore
        split at hstore
        · cases hstore
        · rename_i streams _
          refine ⟨row, streams, ?_⟩
          cases hitem : (call.batch t).tx.appendChunkItem row { t with streams } with
          | ok next =>
              simp only [hrows, PlannedChunkBatch.appendItems_of_ok _ hitem, List.any_cons,
                decide_true, Bool.true_or, if_true] at hstore
              cases hstore
              rfl
          | error refusal =>
              -- a refused item is not answered with an address
              simp only [hrows, PlannedChunkBatch.appendItems_of_error _ hitem, Prod.mk.injEq,
                Except.ok.injEq] at hstore
              rw [← hstore.1, List.find?_cons_of_pos (by simp), Option.map_some,
                Option.getD_some] at hanswer
              exact absurd (ChunkFloorCall.eq_ok_of_itemAnswer hanswer)
                ((call.batch t).tx.refuses_appendChunkItem row { t with streams } refusal hitem)

variable {w : StreamWrite}

theorem terminated_of_putBlobChunk
    {seq : UInt64} {slot : StreamKeySlot} (hlast : slot.last = true) {envelope : ByteArray}
    {plaintextSize : UInt64} {t : Tables} {sha : Sha256}
    (h : putBlobChunk (w.call epoch seq slot envelope plaintextSize) t = (.ok sha, t')) :
    Terminated w.streamId epoch t' := by
  rcases exists_item_of_putBlobChunk rfl h with ⟨row, streams, hitem⟩
  cases ChunkTx.appendChunkItem_effect hitem with
  | repaired around hblobs hdeclared => cases hdeclared
  | stored around hblobs hheld hcap hfresh deks hslot =>
      rcases hslot.deks_cases with ⟨-, hdata⟩ | ⟨rfl, -⟩
      · rw [hdata slot rfl] at hlast
        cases hlast
      · intro d' hd' hat'
        rcases List.mem_map.mp hd' with ⟨d, hd, rfl⟩
        rw [isAt_terminated] at hat'
        rw [terminated_terminated, Bool.or_eq_true]
        exact Or.inr hat'

variable [AtRestSeal] [StreamNonceKdf]

variable {aad : Option (List UInt8)}

theorem terminatorLoop_ok
    {seq : UInt64} (attempts : Nat) {record : StreamDekRecord} {t t' : Tables}
    (hkeys : (t.deks.map StreamDekRow.key).Nodup)
    (hread : record.terminated = true -> Terminated w.streamId record.epoch t)
    (h : terminatorLoop w aad seq attempts record t = (.ok (), t')) :
    Terminated w.streamId record.epoch t' := by
  induction attempts generalizing record t t' with
  | zero => cases h
  | succ attempts ih =>
      rw [terminatorLoop] at h
      split at h
      · rename_i hmark
        rw [(pure_eq_ok_iff.mp h).2] at hread
        exact hread hmark
      · rcases bind_eq_ok_iff.mp h with ⟨counter, t₁, hcounter, h⟩
        rcases bind_eq_ok_iff.mp h with ⟨envelope, t₂, henvelope, h⟩
        rcases bind_eq_ok_iff.mp h with ⟨answer, t₃, hanswer, h⟩
        rw [lift_eq_ok_iff] at hcounter henvelope
        rw [attempt_eq_ok_iff, ← henvelope.2, ← hcounter.2] at hanswer
        split at h
        · rw [← (pure_eq_ok_iff.mp h).2]
          exact terminated_of_putBlobChunk rfl hanswer
        · split at h
          · rcases bind_eq_ok_iff.mp h with ⟨t₄, t₅, hread', h⟩
            rw [read_eq_ok_iff] at hread'
            rcases hread' with ⟨rfl, rfl⟩
            cases hagain : (streamDekList t₃ w.streamId).find? fun r =>
                decide (r.epoch = record.epoch) with
            | none =>
                rw [hagain] at h
                cases h
            | some again =>
                rw [hagain] at h
                have hepoch := List.find?_some hagain
                rw [decide_eq_true_eq] at hepoch
                have hmarked := marked_putBlobChunk (w.call record.epoch seq
                  { counter, last := true } envelope 0) t
                rw [hanswer] at hmarked
                have hkeys' : (t₃.deks.map StreamDekRow.key).Nodup := by
                  rw [hmarked.keys]
                  exact hkeys
                rw [← hepoch]
                exact ih hkeys' (terminated_of_record hkeys' (List.mem_of_find?_eq_some hagain)) h
          · cases h

theorem marked_writeTerminator
    (w : StreamWrite) (aad : Option (List UInt8)) (record : StreamDekRecord) :
    Stays Marked (writeTerminator w aad record) :=
  (stays_writeTerminator w aad record).mono fun _ _ h => h.marked

theorem writeTerminator_ok
    {record : StreamDekRecord} {t : Tables} (hkeys : (t.deks.map StreamDekRow.key).Nodup)
    (hread : record.terminated = true -> Terminated w.streamId record.epoch t)
    (h : writeTerminator w aad record t = (.ok (), t')) :
    Terminated w.streamId record.epoch t' := by
  unfold writeTerminator at h
  split at h
  · cases h
  · rcases bind_eq_ok_iff.mp h with ⟨seq, mid, hseq, hloop⟩
    rw [lift_eq_ok_iff] at hseq
    rw [← hseq.2] at hloop
    exact terminatorLoop_ok streamSealAttempts hkeys hread hloop

theorem terminateEach_ok
    (records : List StreamDekRecord) {t t' : Tables} {n : Nat}
    (hkeys : (t.deks.map StreamDekRow.key).Nodup)
    (hread : forall record, record ∈ records -> record.terminated = true ->
      Terminated w.streamId record.epoch t)
    (h : terminateEach w aad records t = (.ok n, t')) :
    forall record, record ∈ records -> Terminated w.streamId record.epoch t' := by
  induction records generalizing t t' n with
  | nil =>
      intro record hrecord
      cases hrecord
  | cons first rest ih =>
      have hfirst := hread first List.mem_cons_self
      have hrest := fun record hmem => hread record (List.mem_cons_of_mem first hmem)
      have hstays := (stays_terminateEach w aad rest).mono fun _ _ h => h.marked
      rw [terminateEach] at h
      split at h
      · rename_i hmark
        have hmarked := hstays t
        rw [h] at hmarked
        intro record hrecord
        rcases List.mem_cons.mp hrecord with rfl | hrecord
        · exact (hfirst hmark).of_marked hmarked
        · exact ih hkeys hrest h record hrecord
      · rcases bind_eq_ok_iff.mp h with ⟨_, mid, hwritten, h⟩
        rcases bind_eq_ok_iff.mp h with ⟨written, after, heach, h⟩
        rw [pure_eq_ok_iff] at h
        rcases h with ⟨-, rfl⟩
        have hmarked := marked_writeTerminator w aad first t
        rw [hwritten] at hmarked
        have hmarked' := hstays mid
        rw [heach] at hmarked'
        have hkeys' : (mid.deks.map StreamDekRow.key).Nodup := by
          rw [hmarked.keys]
          exact hkeys
        intro record hrecord
        rcases List.mem_cons.mp hrecord with rfl | hrecord
        · exact (writeTerminator_ok hkeys hfirst hwritten).of_marked hmarked'
        · exact ih hkeys' (fun r hr hmark => (hrest r hr hmark).of_marked hmarked) heach record hrecord

theorem terminateStreamEpochs_ok
    {t : Tables} {n : Nat} (hkeys : (t.deks.map StreamDekRow.key).Nodup)
    (h : terminateStreamEpochs w aad t = (.ok n, t')) (epoch : UInt64) :
    Terminated w.streamId epoch t' := by
  have hmarked := ((stays_terminateStreamEpochs w aad).mono fun _ _ h => h.marked) t
  rw [h] at hmarked
  rcases bind_eq_ok_iff.mp h with ⟨read, mid, hread, heach⟩
  rw [read_eq_ok_iff] at hread
  rcases hread with ⟨rfl, rfl⟩
  intro d' hd' hat'
  have hkey : d'.key ∈ t.deks.map StreamDekRow.key := by
    rw [← hmarked.keys]
    exact List.mem_map_of_mem hd'
  rcases List.mem_map.mp hkey with ⟨d, hd, hsame⟩
  rw [isAt_iff_key.mp hat', StreamDekRow.key, Prod.mk.injEq] at hsame
  have hrecord : d.record t ∈ streamDekList t w.streamId := by
    apply List.mem_map_of_mem
    rw [List.mem_insertionSort, List.mem_filter, decide_eq_true_eq]
    exact ⟨hd, hsame.1⟩
  have hterminated := terminateEach_ok _ hkeys
    (fun record hmem => terminated_of_record hkeys hmem) heach (d.record t) hrecord
  rw [show (d.record t).epoch = epoch from hsame.2] at hterminated
  exact hterminated d' hd' hat'

end Seal

/-!
## What the doors keep
-/

structure DoorInv (t : Tables) : Prop where
  epochs : forall streamId epoch, EpochInv streamId epoch t
  placed : forall r, r ∈ t.chunks -> exists slot, r.slot = some slot ∧ Placed r.epoch r.seq slot
  distinct : t.chunks.Pairwise fun a b => a.streamId = b.streamId -> a.seq ≠ b.seq
  held : forall r, r ∈ t.chunks -> r.chunkSha ∈ t.around.blobs
  keys : (t.deks.map StreamDekRow.key).Nodup

theorem doorInv_empty
    (around : Surroundings) :
    DoorInv (.empty around) where
  epochs streamId epoch := epochInv_empty streamId epoch around
  placed := nofun
  distinct := List.Pairwise.nil
  held := nofun
  keys := List.nodup_nil

theorem DoorInv.item
    {row : ChunkFloorRow} {slot : StreamKeySlot} {t : Tables} (hkey : c.streamKey = some slot)
    (hplaced : Placed c.epoch row.seq slot) (heffect : ItemEffect c row t t') (h : DoorInv t) :
    DoorInv t' := by
  have hepochs := fun streamId epoch => (h.epochs streamId epoch).item heffect
  have hkeys : (t'.deks.map StreamDekRow.key).Nodup := by
    rw [(marked_item heffect).keys]
    exact h.keys
  cases heffect with
  | repaired around hblobs => exact ⟨hepochs, h.placed, h.distinct, fun r hr => hblobs (h.held r hr), hkeys⟩
  | stored around hblobs hheld hcap hfresh deks hslot =>
      refine ⟨hepochs, ?_, ?_, ?_, hkeys⟩
      · intro r hr
        rcases List.mem_append.mp hr with hold | hnew
        · exact h.placed r hold
        · rw [List.mem_singleton.mp hnew]
          exact ⟨slot, hkey, hplaced⟩
      · rw [List.pairwise_append]
        refine ⟨h.distinct, List.pairwise_singleton _ _, ?_⟩
        intro r hr new hnew hstream
        rw [List.mem_singleton.mp hnew] at hstream ⊢
        exact hfresh r hr hstream
      · intro r hr
        rcases List.mem_append.mp hr with hold | hnew
        · exact hblobs (h.held r hold)
        · rw [List.mem_singleton.mp hnew]
          exact hheld

theorem DoorInv.step
    {t : Tables} (action : FloorAction) (hdoor : action.ByDoor) (h : DoorInv t) :
    DoorInv (action.step t) := by
  have hepochs := fun streamId epoch => (h.epochs streamId epoch).step action
  cases action with
  | append batch =>
      rcases hdoor with ⟨-, slot, hkey, hplaced⟩
      apply PlannedChunkBatch.store_invariant _ _ h
      · intro t streams h
        exact ⟨fun streamId epoch => (h.epochs streamId epoch).beside streams t.around, h.placed,
          h.distinct, h.held, h.keys⟩
      · intro row hrow t t' heffect h
        exact h.item hkey (hplaced row hrow) heffect
  | insertDek d => exact ⟨hepochs, h.placed, h.distinct, h.held, FirstWins.nodup_insert h.keys⟩
  | closeDek streamId epoch =>
      refine ⟨hepochs, h.placed, h.distinct, h.held, ?_⟩
      have hsame : (closeDek streamId epoch t).deks.map StreamDekRow.key =
          t.deks.map StreamDekRow.key := by
        rw [closeDek, List.map_map]
        apply List.map_congr_left
        intro d _
        rw [Function.comp_apply]
        split
        · rfl
        · rfl
      exact hsame ▸ h.keys
  | surroundings around => cases hdoor

theorem Leads.doorInv
    {t : Tables} (h : Leads FloorAction.ByDoor t t') (ht : DoorInv t) :
    DoorInv t' :=
  h.invariant (fun _ action hdoor hs => hs.step action hdoor) ht

/-!
## The entries a reader sees
-/

/-- `stream_chunks`: the rows of a stream whose blobs are held, by position. -/
def Tables.streamChunks (t : Tables) (streamId : String) : List StreamChunkRow :=
  ((t.streamRows streamId).filter fun r => decide (r.chunkSha ∈ t.around.blobs)).insertionSort
    fun a b => a.seq ≤ b.seq

def StreamChunkRow.entry (r : StreamChunkRow) : Option SlotEntry :=
  r.slot.map fun slot => (r.seq, r.epoch, slot)

def Tables.slotEntries (t : Tables) (streamId : String) : List SlotEntry :=
  (t.streamChunks streamId).filterMap StreamChunkRow.entry

/-- The end of a whole read of `chunks` chunks, from the slots in the order it opened them. -/
def checkWholeStreamStructure (dagSha : Sha256) (opened : List SlotEntry) (chunks : Nat) :
    Except BlobError Unit :=
  let slots := (opened.insertionSort fun a b => a.1 ≤ b.1).destutter fun a b => a.1 ≠ b.1
  if slots.length ≠ chunks then
    .error (.backend ("chunk_dag " ++ dagSha.hex ++ ": " ++ slots.length.repr ++ " of its " ++
      chunks.repr ++ " chunks were opened under a stream key"))
  else
    checkStreamEpochStructure dagSha slots

/-- The positions of the data of an epoch, in the order they arrived. -/
def Tables.dataSeqs (t : Tables) (streamId : String) (epoch : UInt64) : List UInt64 :=
  ((t.epochRows streamId epoch).filter fun r => r.slot.any fun slot => !slot.last).map
    StreamChunkRow.seq

theorem epochSlots_filterMap
    (epoch : UInt64) (rows : List StreamChunkRow) :
    epochSlots epoch (rows.filterMap StreamChunkRow.entry) =
      (rows.filter fun r => decide (r.epoch = epoch)).filterMap StreamChunkRow.slot := by
  unfold epochSlots
  rw [List.filter_filterMap, List.map_filterMap, List.filterMap_filter]
  congr 1
  funext r
  cases hslot : r.slot with
  | none => simp [StreamChunkRow.entry, hslot]
  | some slot =>
      by_cases hepoch : r.epoch = epoch
      · simp [StreamChunkRow.entry, hslot, hepoch]
      · simp [StreamChunkRow.entry, hslot, hepoch]

namespace DoorInv

variable {t : Tables}

theorem keyed
    (h : DoorInv t) {r : StreamChunkRow} (hr : r ∈ t.chunks) :
    r.slot.isSome = true := by
  rcases h.placed r hr with ⟨slot, hslot, -⟩
  rw [hslot]
  rfl

section Listed

variable (h : DoorInv t) (streamId : String)

include h

theorem perm_streamChunks :
    (t.streamChunks streamId).Perm (t.streamRows streamId) := by
  have hall : ((t.streamRows streamId).filter fun r => decide (r.chunkSha ∈ t.around.blobs)) =
      t.streamRows streamId := by
    rw [List.filter_eq_self]
    intro r hr
    exact decide_eq_true (h.held r (List.mem_filter.mp hr).1)
  rw [Tables.streamChunks, hall]
  exact List.perm_insertionSort _ _

theorem perm_epochRows
    (epoch : UInt64) :
    ((t.streamChunks streamId).filter fun r => decide (r.epoch = epoch)).Perm
      (t.epochRows streamId epoch) := by
  rw [← filter_streamRows]
  exact (h.perm_streamChunks streamId).filter _

theorem pairwise_streamRows :
    (t.streamRows streamId).Pairwise fun a b => a.seq ≠ b.seq := by
  refine (h.distinct.filter _).imp_of_mem ?_
  intro a b ha hb hne
  have ha' := (List.mem_filter.mp ha).2
  have hb' := (List.mem_filter.mp hb).2
  rw [decide_eq_true_eq] at ha' hb'
  exact hne (ha'.trans hb'.symm)

theorem pairwise_streamChunks :
    (t.streamChunks streamId).Pairwise fun a b => a.seq.toNat < b.seq.toNat := by
  have hle : forall a b : StreamChunkRow, a.seq ≤ b.seq <-> a.seq.toNat ≤ b.seq.toNat :=
    fun _ _ => UInt64.le_iff_toNat_le
  have hsorted : (t.streamChunks streamId).Pairwise fun a b => a.seq.toNat ≤ b.seq.toNat :=
    Sorting.pairwise_key_of_sort hle _
  have hdistinct : (t.streamChunks streamId).Pairwise fun a b => a.seq ≠ b.seq :=
    (h.perm_streamChunks streamId).symm.pairwise (h.pairwise_streamRows streamId) fun hne => hne.symm
  refine (hsorted.and hdistinct).imp ?_
  rintro a b ⟨hle, hne⟩
  refine Nat.lt_of_le_of_ne hle fun heq => hne (UInt64.toNat_inj.mp heq)

theorem length_slotEntries :
    (t.slotEntries streamId).length = (t.streamChunks streamId).length := by
  rw [Tables.slotEntries, List.filterMap_length_eq_length]
  intro r hr
  have hmem := (List.mem_filter.mp ((h.perm_streamChunks streamId).mem_iff.mp hr)).1
  rw [StreamChunkRow.entry, Option.isSome_map]
  exact h.keyed hmem

theorem pairwise_slotEntries :
    (t.slotEntries streamId).Pairwise fun a b => a.1.toNat < b.1.toNat := by
  refine (h.pairwise_streamChunks streamId).filterMap _ ?_
  intro a b hlt x hx y hy
  rcases Option.map_eq_some_iff.mp hx with ⟨_, -, rfl⟩
  rcases Option.map_eq_some_iff.mp hy with ⟨_, -, rfl⟩
  exact hlt

end Listed

end DoorInv

/-!
## One epoch
-/

section Epoch

variable {rows sorted : List StreamChunkRow}

def StreamChunkRow.counter (r : StreamChunkRow) : Nat :=
  (r.slot.map fun slot => slot.counter.toNat).getD 0

theorem pairwise_counter
    (hkeyed : forall r, r ∈ rows -> r.slot.isSome = true)
    (hcounters : (rows.filterMap StreamChunkRow.slot).map (fun slot => slot.counter.toNat) =
      List.range (rows.filterMap StreamChunkRow.slot).length) :
    rows.Pairwise fun a b => a.counter < b.counter := by
  have hmap : rows.map StreamChunkRow.counter =
      (rows.filterMap StreamChunkRow.slot).map fun slot => slot.counter.toNat := by
    have hslots := congrArg
      (List.map fun o : Option StreamKeySlot => (o.map fun slot => slot.counter.toNat).getD 0)
      (map_slot_eq rows hkeyed)
    rw [List.map_map, List.map_map] at hslots
    exact hslots
  rw [← List.pairwise_map, hmap, hcounters]
  exact List.pairwise_lt_range

theorem Numbered.whole
    {slots : List StreamKeySlot} (h : Numbered (slots.map some)) {slot : StreamKeySlot}
    (hmem : slot ∈ slots) (hlast : slot.last = true) :
    Whole slots := by
  refine ⟨h.counters, ?_⟩
  rcases List.mem_iff_getElem?.mp hmem with ⟨i, hi⟩
  have hfinal := h.last_is_final hi hlast
  refine ⟨slots.take i, slot, ?_, hlast, ?_⟩
  · rcases List.getElem?_eq_some_iff.mp hi with ⟨hlt, hget⟩
    rw [← hget, ← List.take_succ_eq_append_getElem hlt, hfinal, List.take_length]
  · intro s hs
    rcases List.mem_iff_getElem?.mp hs with ⟨j, hj⟩
    cases hopen : s.last with
    | false => rfl
    | true =>
        have hlt := (List.getElem?_eq_some_iff.mp hj).1
        rw [List.length_take] at hlt
        rw [List.getElem?_take_of_lt (by omega)] at hj
        have hfinal' := h.last_is_final hj hopen
        omega

theorem whole_iff_ascending
    (hkeyed : forall r, r ∈ rows -> r.slot.isSome = true)
    (hnumbered : Numbered (rows.map StreamChunkRow.slot))
    (hended : exists r slot, r ∈ rows ∧ r.slot = some slot ∧ slot.last = true)
    (hsorted : sorted.Pairwise fun a b => a.seq.toNat < b.seq.toNat) (hperm : sorted.Perm rows) :
    Whole (sorted.filterMap StreamChunkRow.slot) <->
      rows.Pairwise fun a b => a.seq.toNat < b.seq.toNat := by
  rw [map_slot_eq rows hkeyed] at hnumbered
  rw [← Sorting.eq_iff_ascending_of_perm hsorted hperm]
  constructor
  · -- the rows ascend by counter, and a whole epoch does so to the reader too
    intro hwhole
    have hcounters := pairwise_counter (fun r hr => hkeyed r (hperm.mem_iff.mp hr)) hwhole.counters
    have hrows := pairwise_counter hkeyed hnumbered.counters
    exact ((Sorting.eq_iff_ascending_of_perm hrows hperm.symm).mpr hcounters).symm
  · rintro rfl
    rcases hended with ⟨r, slot, hr, hslot, hlast⟩
    exact hnumbered.whole (List.mem_filterMap.mpr ⟨r, hr, hslot⟩) hlast

theorem Numbered.pairwise_data
    (hkeyed : forall r, r ∈ rows -> r.slot.isSome = true)
    (hnumbered : Numbered (rows.map StreamChunkRow.slot)) :
    rows.Pairwise fun a _ => (a.slot.any fun slot => !slot.last) = true := by
  rw [List.pairwise_iff_getElem]
  intro i j hi hj hlt
  rcases Option.isSome_iff_exists.mp (hkeyed _ (List.getElem_mem hi)) with ⟨slot, hslot⟩
  rcases Option.isSome_iff_exists.mp (hkeyed _ (List.getElem_mem hj)) with ⟨slot', hslot'⟩
  rw [hslot, Option.any_some, Bool.not_eq_true']
  cases hlast : slot.last with
  | false => rfl
  | true =>
      have hle := hnumbered.ended i j slot slot'
        (by rw [List.getElem?_map, List.getElem?_eq_getElem hi, Option.map_some, hslot]) hlast
        (by rw [List.getElem?_map, List.getElem?_eq_getElem hj, Option.map_some, hslot'])
      omega

theorem ascending_iff_data
    (hplaced : forall r, r ∈ rows -> exists slot, r.slot = some slot ∧ Placed r.epoch r.seq slot)
    (hnumbered : Numbered (rows.map StreamChunkRow.slot)) :
    (rows.Pairwise fun a b => a.seq.toNat < b.seq.toNat) <->
      (((rows.filter fun r => r.slot.any fun slot => !slot.last).map StreamChunkRow.seq).Pairwise
        (· < ·)) := by
  have hkeyed : forall r, r ∈ rows -> r.slot.isSome = true := by
    intro r hr
    rcases hplaced r hr with ⟨slot, hslot, -⟩
    rw [hslot]
    rfl
  rw [List.pairwise_map, List.pairwise_filter]
  constructor
  · intro h
    exact h.imp fun hlt _ _ => UInt64.lt_iff_toNat_lt.mpr hlt
  · intro h
    refine ((Numbered.pairwise_data hkeyed hnumbered).and h).imp_of_mem ?_
    rintro a b ha hb ⟨hdata, hascending⟩
    rcases hplaced a ha with ⟨slot, hslot, hbelow⟩
    rcases hplaced b hb with ⟨slot', hslot', habove⟩
    rw [hslot, Option.any_some, Bool.not_eq_true'] at hdata
    cases hlast : slot'.last with
    | true =>
        have hlow := hbelow.2 hdata
        have hhigh := habove.1 hlast
        omega
    | false =>
        refine UInt64.lt_iff_toNat_lt.mp (hascending ?_ ?_)
        · rw [hslot, Option.any_some, hdata]
          rfl
        · rw [hslot', Option.any_some, hlast]
          rfl

end Epoch

/-!
## The whole stream
-/

namespace DoorInv

variable {t : Tables} {streamId : String}

theorem exists_last
    (h : DoorInv t) (hterminated : Terminated streamId epoch t) {r : StreamChunkRow}
    (hr : r ∈ t.epochRows streamId epoch) :
    exists r slot, r ∈ t.epochRows streamId epoch ∧ r.slot = some slot ∧ slot.last = true := by
  have hinv := h.epochs streamId epoch
  rcases hinv.keyed r hr (h.keyed (mem_epochRows.mp hr).1) with ⟨d, hd, hat⟩
  exact hinv.marked d hd hat (hterminated d hd hat)

theorem whole_epoch_iff
    (h : DoorInv t) (hterminated : Terminated streamId epoch t) :
    (epochSlots epoch (t.slotEntries streamId) ≠ [] ->
        Whole (epochSlots epoch (t.slotEntries streamId))) <->
      (t.dataSeqs streamId epoch).Pairwise (· < ·) := by
  have hperm := h.perm_epochRows streamId epoch
  have hsorted := (h.pairwise_streamChunks streamId).filter fun r => decide (r.epoch = epoch)
  have hplaced : forall r, r ∈ t.epochRows streamId epoch ->
      exists slot, r.slot = some slot ∧ Placed r.epoch r.seq slot :=
    fun r hr => h.placed r (mem_epochRows.mp hr).1
  have hkeyed : forall r, r ∈ t.epochRows streamId epoch -> r.slot.isSome = true :=
    fun r hr => h.keyed (mem_epochRows.mp hr).1
  have hnumbered := (h.epochs streamId epoch).numbered
  rw [Tables.slotEntries, epochSlots_filterMap]
  cases hrows : t.epochRows streamId epoch with
  | nil =>
      rw [hrows] at hperm
      rw [Tables.dataSeqs, hrows, hperm.eq_nil]
      exact iff_of_true (fun hne => absurd rfl hne) List.Pairwise.nil
  | cons r rest =>
      have hended := h.exists_last hterminated (r := r) (by rw [hrows]; exact List.mem_cons_self)
      have hwhole := whole_iff_ascending hkeyed hnumbered hended hsorted hperm
      rw [Tables.dataSeqs, ← ascending_iff_data hplaced hnumbered, ← hwhole]
      refine ⟨fun h => h ?_, fun h _ => h⟩
      rcases hended with ⟨last, slot, hlast, hslot, -⟩
      exact List.ne_nil_of_mem (List.mem_filterMap.mpr ⟨last, hperm.mem_iff.mpr hlast, hslot⟩)

theorem checkStreamEpochStructure_iff
    (h : DoorInv t) (hterminated : forall epoch, Terminated streamId epoch t) (dagSha : Sha256) :
    checkStreamEpochStructure dagSha (t.slotEntries streamId) = .ok () <->
      forall epoch, (t.dataSeqs streamId epoch).Pairwise (· < ·) := by
  have hlength : forall epoch, (epochSlots epoch (t.slotEntries streamId)).length ≤ 2 ^ 32 := by
    intro epoch
    have hperm := h.perm_epochRows streamId epoch
    have hle := List.length_filterMap_le StreamChunkRow.slot
      ((t.streamChunks streamId).filter fun r => decide (r.epoch = epoch))
    have hinv := h.epochs streamId epoch
    have hcap := hinv.cap
    rw [hinv.count, maxChunksPerEpoch] at hcap
    rw [hperm.length_eq] at hle
    rw [Tables.slotEntries, epochSlots_filterMap]
    omega
  rw [Stream.checkStreamEpochStructure_iff hlength]
  exact forall_congr' fun epoch => h.whole_epoch_iff (hterminated epoch)

theorem checkWholeStreamStructure_eq
    (h : DoorInv t) {opened : List SlotEntry} (hopened : opened.Perm (t.slotEntries streamId))
    (dagSha : Sha256) :
    checkWholeStreamStructure dagSha opened (t.streamChunks streamId).length =
      checkStreamEpochStructure dagSha (t.slotEntries streamId) := by
  have hascending := h.pairwise_slotEntries streamId
  have hle : forall a b : SlotEntry, a.1 ≤ b.1 <-> a.1.toNat ≤ b.1.toNat :=
    fun _ _ => UInt64.le_iff_toNat_le
  have hsorted := Sorting.insertionSort_eq_of_ascending hle hascending hopened
  have hsame : (t.slotEntries streamId).destutter (fun a b => a.1 ≠ b.1) =
      t.slotEntries streamId := by
    apply List.destutter_of_isChain
    exact (hascending.imp fun hlt heq => absurd hlt (by rw [heq]; exact Nat.lt_irrefl _)).isChain
  simp only [checkWholeStreamStructure, hsorted, hsame, h.length_slotEntries, ne_eq,
    not_true_eq_false, if_false]

end DoorInv

section ReadBack

variable [FloorRules] [Sha256Hash] [AtRestSeal] [StreamNonceKdf]

/-- A sealed stream is read back exactly when the data of each epoch arrived in the order
of their positions; the doors accept them in any order. -/
theorem sealed_stream_reads_back_iff
    (around : Surroundings) (requests : List DoorRequest) (w : StreamWrite)
    (aad : Option (List UInt8)) {n : Nat} {t : Tables}
    (hsealed : terminateStreamEpochs w aad (runDoors around requests) = (.ok n, t))
    (dagSha : Sha256) :
    (checkStreamEpochStructure dagSha (t.slotEntries w.streamId) = .ok () <->
      forall epoch, (t.dataSeqs w.streamId epoch).Pairwise (· < ·)) ∧
    forall opened : List SlotEntry, opened.Perm (t.slotEntries w.streamId) ->
      (checkWholeStreamStructure dagSha opened (t.streamChunks w.streamId).length = .ok () <->
        forall epoch, (t.dataSeqs w.streamId epoch).Pairwise (· < ·)) := by
  have hbefore := (leads_runDoors around requests).doorInv (doorInv_empty around)
  have hafter : DoorInv t := by
    have hleads := (Stays.byDoor (stays_terminateStreamEpochs w aad)) (runDoors around requests)
    rw [hsealed] at hleads
    exact hleads.doorInv hbefore
  have hcheck := hafter.checkStreamEpochStructure_iff
    (terminateStreamEpochs_ok hbefore.keys hsealed) dagSha
  refine ⟨hcheck, ?_⟩
  intro opened hopened
  rw [hafter.checkWholeStreamStructure_eq hopened]
  exact hcheck

end ReadBack

end Stream
end Federation

namespace Reference

scoped instance floorRules : Federation.Stream.FloorRules where
  inlineBytesCap := 1024
  checkScope _ _ := .ok ()
  checkChunkBody _ _ _ := .ok ()

end Reference

namespace Federation
namespace Stream

def cameraWrite : StreamWrite where
  cohortScope := "self"
  groupKeyId := "owner"
  writerKeyId := "owner"
  communityKeyId := some "owner"
  streamId := "camera"
  epoch := 0
  tier := .invisibleEncrypted

def cameraAppend (seq : UInt64) : DoorRequest :=
  .append
    { w := cameraWrite
      seq := seq
      plaintext := ⟨#[1]⟩
      aad := none
      removed := fun _ => none
      freshDek := fun _ => Dek.zero }

open Reference in
def cameraSealed (seqs : List UInt64) : Except BlobError Nat × Tables :=
  terminateStreamEpochs cameraWrite none (runDoors quietSurroundings (seqs.map cameraAppend))

open Reference in
theorem cameraSealed_in_order :
    (cameraSealed [3, 5]).1 = .ok 1 ∧
      checkStreamEpochStructure Sha256.zero ((cameraSealed [3, 5]).2.slotEntries "camera") = .ok () := by
  have hok : (cameraSealed [3, 5]).1 = .ok 1 := by decide +kernel
  refine ⟨hok, ?_⟩
  refine (sealed_stream_reads_back_iff quietSurroundings _ cameraWrite none (Prod.ext hok rfl)
    Sha256.zero).1.mpr ?_
  intro epoch
  by_cases hepoch : epoch = 0
  · rw [hepoch]
    show ((cameraSealed [3, 5]).2.dataSeqs "camera" 0).Pairwise (· < ·)
    decide +kernel
  · have hzero : forall r, r ∈ (cameraSealed [3, 5]).2.chunks -> r.epoch = 0 := by decide +kernel
    have hnone : (cameraSealed [3, 5]).2.epochRows "camera" epoch = [] := by
      rw [List.eq_nil_iff_forall_not_mem]
      intro r hr
      rcases mem_epochRows.mp hr with ⟨hmem, -, hat⟩
      exact hepoch (hat.symm.trans (hzero r hmem))
    show ((cameraSealed [3, 5]).2.dataSeqs "camera" epoch).Pairwise (· < ·)
    rw [Tables.dataSeqs, hnone]
    exact List.Pairwise.nil

/-- Two appends, the later position first: both are accepted, and the sealed stream is
refused to every reader. -/
theorem cameraSealed_out_of_order :
    (cameraSealed [5, 3]).1 = .ok 1 ∧
      ((cameraSealed [5, 3]).2.epochRows "camera" 0).map (fun r => (r.seq, r.slot)) =
        [(5, some ⟨0, false⟩), (3, some ⟨1, false⟩), (terminatorSeqBase, some ⟨2, true⟩)] ∧
      checkStreamEpochStructure Sha256.zero ((cameraSealed [5, 3]).2.slotEntries "camera") =
        .error (.backend ("chunk_dag " ++ Sha256.zero.hex ++ " chunk seq 3 (epoch 0): carries " ++
          "counter 1 where its epoch's next is 0 — a chunk was dropped, duplicated or moved " ++
          "(CC 5.3.3.1; CIRISPersist#969)")) := by
  refine ⟨by decide +kernel, by decide +kernel, by decide +kernel⟩

end Stream
end CirisPersist.Federation
