import CirisPersist.Federation.Stream.Floor
import CirisPersist.Library.Grouping

/-!
# Slots are taken once

The counter row of a stream epoch counts the rows listed for it, and a stream-keyed
chunk is stored only at the count it finds.  So the counter of a slot is the place of
its row among the rows of the epoch.  The chunk with the last flag marks the key row
terminated in its own transaction, and a terminated epoch takes no further slot.
-/

namespace CirisPersist.Federation
namespace Stream

/-!
## Runs of the floor
-/

/-- What writes the tables: batches, inserted and closed key rows, and whatever other
doors do to the tables around them. -/
inductive FloorAction where
  | append (batch : PlannedChunkBatch)
  | insertDek (d : StreamDekRow)
  | closeDek (streamId : String) (epoch : UInt64)
  | surroundings (around : Surroundings)

def FloorAction.step (t : Tables) : FloorAction -> Tables
  | .append batch => (batch.store t).2
  | .insertDek d => Stream.insertDek d t
  | .closeDek streamId epoch => Stream.closeDek streamId epoch t
  | .surroundings around => { t with around }

def Tables.empty (around : Surroundings) : Tables where
  streams := []
  counts := fun _ _ => 0
  deks := []
  chunks := []
  around := around

def run (around : Surroundings) (actions : List FloorAction) : Tables :=
  actions.foldl FloorAction.step (.empty around)

def Tables.epochRows (t : Tables) (streamId : String) (epoch : UInt64) : List StreamChunkRow :=
  t.chunks.filter fun r => decide (r.streamId = streamId) && decide (r.epoch = epoch)

variable {r : StreamChunkRow}

theorem mem_epochRows
    {t : Tables} {streamId : String} {epoch : UInt64} :
    r ∈ t.epochRows streamId epoch <-> r ∈ t.chunks ∧ r.streamId = streamId ∧ r.epoch = epoch := by
  simp [Tables.epochRows]

/-!
## Numbered slots
-/

/-- Each slot is numbered by its place, and none follows a last one. -/
structure Numbered (slots : List (Option StreamKeySlot)) : Prop where
  counter : forall (i : Nat) (slot : StreamKeySlot), slots[i]? = some (some slot) ->
    slot.counter.toNat = i
  ended : forall (i j : Nat) (slot slot' : StreamKeySlot), slots[i]? = some (some slot) ->
    slot.last = true -> slots[j]? = some (some slot') -> j ≤ i

theorem Numbered.concat
    {slots : List (Option StreamKeySlot)} {x : Option StreamKeySlot} (h : Numbered slots)
    (hcounter : forall slot, x = some slot -> slot.counter.toNat = slots.length)
    (hopen : forall slot, x = some slot -> forall slot', some slot' ∈ slots -> slot'.last = false) :
    Numbered (slots ++ [x]) := by
  have hget : forall i slot, (slots ++ [x])[i]? = some (some slot) ->
      slots[i]? = some (some slot) ∨ (i = slots.length ∧ x = some slot) := by
    intro i slot hi
    rcases Nat.lt_trichotomy i slots.length with hlt | rfl | hgt
    · rw [List.getElem?_append_left hlt] at hi
      exact Or.inl hi
    · rw [List.getElem?_concat_length, Option.some.injEq] at hi
      exact Or.inr ⟨rfl, hi⟩
    · rw [List.getElem?_eq_none (by rw [List.length_append, List.length_singleton]; omega)] at hi
      cases hi
  constructor
  · intro i slot hi
    rcases hget i slot hi with hold | ⟨rfl, hnew⟩
    · exact h.counter i slot hold
    · exact hcounter slot hnew
  · intro i j slot slot' hi hlast hj
    rcases hget i slot hi with hold | ⟨rfl, -⟩
    · rcases hget j slot' hj with hold' | ⟨-, hnew⟩
      · exact h.ended i j slot slot' hold hlast hold'
      · have hnot := hopen slot' hnew slot (List.mem_of_getElem? hold)
        rw [hlast] at hnot
        cases hnot
    · have hlt := (List.getElem?_eq_some_iff.mp hj).1
      rw [List.length_append, List.length_singleton] at hlt
      omega

/-!
## The invariant of an epoch
-/

structure EpochInv (streamId : String) (epoch : UInt64) (t : Tables) : Prop where
  count : t.counts streamId epoch = (t.epochRows streamId epoch).length
  cap : t.counts streamId epoch ≤ maxChunksPerEpoch
  numbered : Numbered ((t.epochRows streamId epoch).map StreamChunkRow.slot)
  keyed : forall r, r ∈ t.epochRows streamId epoch -> r.slot.isSome = true ->
    exists d, d ∈ t.deks ∧ d.isAt streamId epoch = true
  ended : forall r slot, r ∈ t.epochRows streamId epoch -> r.slot = some slot -> slot.last = true ->
    forall d, d ∈ t.deks -> d.isAt streamId epoch = true -> d.terminated = true
  marked : forall d, d ∈ t.deks -> d.isAt streamId epoch = true -> d.terminated = true ->
    exists r slot, r ∈ t.epochRows streamId epoch ∧ r.slot = some slot ∧ slot.last = true

theorem epochInv_empty
    (streamId : String) (epoch : UInt64) (around : Surroundings) :
    EpochInv streamId epoch (.empty around) where
  count := rfl
  cap := Nat.zero_le _
  numbered := ⟨nofun, nofun⟩
  keyed := nofun
  ended := nofun
  marked := nofun

section Steps

variable {streamId : String} {epoch : UInt64} {t : Tables}

theorem EpochInv.beside
    (h : EpochInv streamId epoch t) (streams : List (String × HeldStream)) (around : Surroundings) :
    EpochInv streamId epoch { t with streams, around } where
  count := h.count
  cap := h.cap
  numbered := h.numbered
  keyed := h.keyed
  ended := h.ended
  marked := h.marked

variable {deks : List StreamDekRow}

theorem EpochInv.of_deks
    (h : EpochInv streamId epoch t) (hkept : forall d, d ∈ t.deks -> d.isAt streamId epoch = true ->
      exists d', d' ∈ deks ∧ d'.isAt streamId epoch = true)
    (hmarks : forall d', d' ∈ deks -> d'.isAt streamId epoch = true ->
      (exists d, d ∈ t.deks ∧ d.isAt streamId epoch = true ∧ d.terminated = d'.terminated) ∨
        ((forall d, d ∈ t.deks -> d.isAt streamId epoch = false) ∧ d'.terminated = false)) :
    EpochInv streamId epoch { t with deks } where
  count := h.count
  cap := h.cap
  numbered := h.numbered
  keyed := by
    intro r hr hslot
    rcases h.keyed r hr hslot with ⟨d, hd, hat⟩
    exact hkept d hd hat
  ended := by
    intro r slot hr hslot hlast d' hd' hat'
    rcases hmarks d' hd' hat' with ⟨d, hd, hat, hmark⟩ | ⟨hnone, -⟩
    · rw [← hmark]
      exact h.ended r slot hr hslot hlast d hd hat
    · -- a stream-keyed row has its key row
      rcases h.keyed r hr (by rw [hslot]; rfl) with ⟨d, hd, hat⟩
      rw [hnone d hd] at hat
      cases hat
  marked := by
    intro d' hd' hat' hterminated
    rcases hmarks d' hd' hat' with ⟨d, hd, hat, hmark⟩ | ⟨-, hopen⟩
    · exact h.marked d hd hat (by rw [hmark, hterminated])
    · rw [hopen] at hterminated
      cases hterminated

theorem EpochInv.insertDek
    (h : EpochInv streamId epoch t) (d : StreamDekRow) :
    EpochInv streamId epoch (insertDek d t) := by
  apply h.of_deks
  · intro d' hd' hat
    exact ⟨d', FirstWins.mem_insert_of_mem hd', hat⟩
  · intro d' hd' hat
    by_cases hheld : (t.deks.any fun b => decide (b.key = d.opened.key)) = true
    · rw [FirstWins.insert, if_pos hheld] at hd'
      exact Or.inl ⟨d', hd', hat, rfl⟩
    · rcases FirstWins.mem_of_mem_insert hd' with hold | rfl
      · exact Or.inl ⟨d', hold, hat, rfl⟩
      · refine Or.inr ⟨?_, rfl⟩
        intro b hb
        rw [Bool.eq_false_iff]
        intro hbat
        rw [StreamDekRow.isAt_iff] at hbat hat
        apply hheld
        refine List.any_eq_true.mpr ⟨b, hb, decide_eq_true ?_⟩
        rw [StreamDekRow.key, StreamDekRow.key, hbat.1, hbat.2, hat.1, hat.2]

theorem EpochInv.closeDek
    (h : EpochInv streamId epoch t) (s : String) (e : UInt64) :
    EpochInv streamId epoch (closeDek s e t) := by
  have hsame : forall d : StreamDekRow,
      (if d.isAt s e then { d with closed := true } else d).isAt streamId epoch =
        d.isAt streamId epoch ∧
      (if d.isAt s e then { d with closed := true } else d).terminated = d.terminated := by
    intro d
    split
    · exact ⟨rfl, rfl⟩
    · exact ⟨rfl, rfl⟩
  apply h.of_deks
  · intro d hd hat
    exact ⟨_, List.mem_map_of_mem hd, by rw [(hsame d).1, hat]⟩
  · intro d' hd' hat
    rcases List.mem_map.mp hd' with ⟨d, hd, rfl⟩
    rw [(hsame d).1] at hat
    exact Or.inl ⟨d, hd, hat, (hsame d).2.symm⟩

/-!
## An item
-/

variable {c : ChunkTx} {row : ChunkFloorRow}

theorem isAt_terminated
    (c : ChunkTx) (d : StreamDekRow) :
    (if d.isAt c.streamId c.epoch && !d.terminated then
      { d with terminated := true, closed := true } else d).isAt streamId epoch =
        d.isAt streamId epoch := by
  split
  · rfl
  · rfl

theorem terminated_terminated
    (c : ChunkTx) (d : StreamDekRow) :
    (if d.isAt c.streamId c.epoch && !d.terminated then
      { d with terminated := true, closed := true } else d).terminated =
        (d.terminated || d.isAt c.streamId c.epoch) := by
  cases hat : d.isAt c.streamId c.epoch <;> cases hmark : d.terminated <;> simp [hmark]

theorem epochRows_concat
    (around : Surroundings) (counts : String -> UInt64 -> Nat) (deks : List StreamDekRow) :
    Tables.epochRows { t with counts, deks, chunks := t.chunks ++ [c.indexed row], around }
      c.streamId c.epoch = t.epochRows c.streamId c.epoch ++ [c.indexed row] := by
  unfold Tables.epochRows
  rw [List.filter_append]
  congr 1
  simp [ChunkTx.indexed]

theorem epochRows_of_ne
    (row : ChunkFloorRow) (hne : Not (streamId = c.streamId ∧ epoch = c.epoch))
    (around : Surroundings) (counts : String -> UInt64 -> Nat) (deks : List StreamDekRow) :
    Tables.epochRows { t with counts, deks, chunks := t.chunks ++ [c.indexed row], around }
      streamId epoch = t.epochRows streamId epoch := by
  unfold Tables.epochRows
  rw [List.filter_append]
  have hnil : ([c.indexed row].filter fun r =>
      decide (r.streamId = streamId) && decide (r.epoch = epoch)) = [] := by
    rw [List.filter_cons_of_neg, List.filter_nil]
    intro hat
    rw [Bool.and_eq_true, decide_eq_true_eq, decide_eq_true_eq] at hat
    exact hne ⟨hat.1.symm, hat.2.symm⟩
  rw [hnil, List.append_nil]

theorem SlotTaken.open_of_keyed
    (h : SlotTaken c t deks) {slot : StreamKeySlot} (hkey : c.streamKey = some slot) :
    slot.counter.toNat = t.counts c.streamId c.epoch ∧
      exists d, d ∈ t.deks ∧ d.isAt c.streamId c.epoch = true ∧ d.terminated = false := by
  cases h with
  | unkeyed hnone =>
      rw [hnone] at hkey
      cases hkey
  | data slot' d hkey' _ hcounter hd hat hopen =>
      rw [hkey', Option.some.injEq] at hkey
      subst hkey
      exact ⟨hcounter, d, hd, hat, hopen⟩
  | last slot' d hkey' _ hcounter hd hat hopen =>
      rw [hkey', Option.some.injEq] at hkey
      subst hkey
      exact ⟨hcounter, d, hd, hat, hopen⟩

theorem SlotTaken.kept
    (h : SlotTaken c t deks) {d : StreamDekRow} (hd : d ∈ t.deks)
    (hat : d.isAt streamId epoch = true) :
    exists d', d' ∈ deks ∧ d'.isAt streamId epoch = true := by
  rcases h.deks_cases with ⟨rfl, -⟩ | ⟨rfl, -⟩
  · exact ⟨d, hd, hat⟩
  · exact ⟨_, List.mem_map_of_mem hd, by rw [isAt_terminated, hat]⟩

theorem SlotTaken.marks_of_ne
    (h : SlotTaken c t deks) (hne : Not (streamId = c.streamId ∧ epoch = c.epoch))
    {d' : StreamDekRow} (hd' : d' ∈ deks) (hat' : d'.isAt streamId epoch = true) :
    exists d, d ∈ t.deks ∧ d.isAt streamId epoch = true ∧ d.terminated = d'.terminated := by
  rcases h.deks_cases with ⟨rfl, -⟩ | ⟨rfl, -⟩
  · exact ⟨d', hd', hat', rfl⟩
  · rcases List.mem_map.mp hd' with ⟨d, hd, rfl⟩
    rw [isAt_terminated] at hat'
    refine ⟨d, hd, hat', ?_⟩
    have hother : d.isAt c.streamId c.epoch = false := by
      rw [Bool.eq_false_iff]
      intro hat
      rw [StreamDekRow.isAt_iff] at hat hat'
      exact hne ⟨hat'.1.symm.trans hat.1, hat'.2.symm.trans hat.2⟩
    rw [terminated_terminated, hother, Bool.or_false]

theorem EpochInv.not_last_of_open
    (h : EpochInv streamId epoch t) {d : StreamDekRow} (hd : d ∈ t.deks)
    (hat : d.isAt streamId epoch = true) (hopen : d.terminated = false) {slot : StreamKeySlot}
    (hr : r ∈ t.epochRows streamId epoch) (hslot : r.slot = some slot) :
    slot.last = false := by
  cases hlast : slot.last with
  | false => rfl
  | true =>
      have hmark := h.ended r slot hr hslot hlast d hd hat
      rw [hopen] at hmark
      cases hmark

theorem EpochInv.stored
    (h : EpochInv c.streamId c.epoch t) (row : ChunkFloorRow) (around : Surroundings)
    (hcap : t.counts c.streamId c.epoch < maxChunksPerEpoch) (hslot : SlotTaken c t deks) :
    EpochInv c.streamId c.epoch
      { t with
        counts := (c.countChunk t).counts, deks, chunks := t.chunks ++ [c.indexed row], around } := by
  have hcounted : (c.countChunk t).counts c.streamId c.epoch = t.counts c.streamId c.epoch + 1 := by
    simp [ChunkTx.countChunk]
  have hnoLast : forall slot, c.streamKey = some slot -> forall r slot',
      r ∈ t.epochRows c.streamId c.epoch -> r.slot = some slot' -> slot'.last = false := by
    intro slot hkey r slot' hr hr'
    rcases (hslot.open_of_keyed hkey).2 with ⟨d, hd, hat, hopen⟩
    exact h.not_last_of_open hd hat hopen hr hr'
  constructor
  · rw [epochRows_concat, List.length_append, List.length_singleton, ← h.count]
    exact hcounted
  · show (c.countChunk t).counts c.streamId c.epoch ≤ maxChunksPerEpoch
    omega
  · rw [epochRows_concat, List.map_append]
    apply h.numbered.concat
    · intro slot hkey
      rw [List.length_map, ← h.count]
      exact (hslot.open_of_keyed hkey).1
    · intro slot hkey slot' hmem
      rcases List.mem_map.mp hmem with ⟨r, hr, hr'⟩
      exact hnoLast slot hkey r slot' hr hr'
  · intro r hr hsome
    rw [epochRows_concat, List.mem_append, List.mem_singleton] at hr
    rcases hr with hold | rfl
    · rcases h.keyed r hold hsome with ⟨d, hd, hat⟩
      exact hslot.kept hd hat
    · rcases Option.isSome_iff_exists.mp hsome with ⟨slot, hkey⟩
      rcases (hslot.open_of_keyed hkey).2 with ⟨d, hd, hat, -⟩
      exact hslot.kept hd hat
  · intro r slot hr hrslot hlast d' hd' hat'
    rw [epochRows_concat, List.mem_append, List.mem_singleton] at hr
    rcases hslot.deks_cases with ⟨rfl, hdata⟩ | ⟨rfl, -⟩
    · rcases hr with hold | rfl
      · exact h.ended r slot hold hrslot hlast d' hd' hat'
      · rw [hdata slot hrslot] at hlast
        cases hlast
    · rcases List.mem_map.mp hd' with ⟨d, hd, rfl⟩
      rw [isAt_terminated] at hat'
      rw [terminated_terminated, hat', Bool.or_true]
  · intro d' hd' hat' hmark
    rw [epochRows_concat]
    rcases hslot.deks_cases with ⟨rfl, -⟩ | ⟨-, slot, hkey, hlast⟩
    · rcases h.marked d' hd' hat' hmark with ⟨r, slot, hr, hrest⟩
      exact ⟨r, slot, List.mem_append_left _ hr, hrest⟩
    · exact ⟨c.indexed row, slot, List.mem_append_right _ (List.mem_singleton_self _), hkey, hlast⟩

theorem EpochInv.item
    {t' : Tables} (heffect : ItemEffect c row t t') (h : EpochInv streamId epoch t) :
    EpochInv streamId epoch t' := by
  cases heffect with
  | repaired around => exact h.beside t.streams around
  | stored around hblobs hheld hcap hfresh deks hslot =>
      by_cases hkey : streamId = c.streamId ∧ epoch = c.epoch
      · rcases hkey with ⟨rfl, rfl⟩
        exact h.stored row around hcap hslot
      · have hrows := epochRows_of_ne (t := t) row hkey around (c.countChunk t).counts deks
        have hcounts : (c.countChunk t).counts streamId epoch = t.counts streamId epoch := by
          simp [ChunkTx.countChunk, hkey]
        have hdeks : EpochInv streamId epoch { t with deks } :=
          h.of_deks (fun d hd hat => hslot.kept hd hat)
            fun d' hd' hat' => Or.inl (hslot.marks_of_ne hkey hd' hat')
        constructor
        · rw [hrows, ← h.count]
          exact hcounts
        · show (c.countChunk t).counts streamId epoch ≤ maxChunksPerEpoch
          rw [hcounts]
          exact h.cap
        · rw [hrows]
          exact h.numbered
        · rw [hrows]
          exact hdeks.keyed
        · rw [hrows]
          exact hdeks.ended
        · rw [hrows]
          exact hdeks.marked

theorem EpochInv.step
    (h : EpochInv streamId epoch t) (action : FloorAction) :
    EpochInv streamId epoch (action.step t) := by
  cases action with
  | append batch =>
      exact PlannedChunkBatch.store_invariant (fun t streams h => h.beside streams t.around)
        (fun row _ t t' heffect h => h.item heffect) h
  | insertDek d => exact h.insertDek d
  | closeDek s e => exact h.closeDek s e
  | surroundings around => exact h.beside t.streams around

end Steps

/-!
## Stream-keyed streams
-/

/-- The action offers the stream nothing but stream-keyed chunks. -/
def FloorAction.KeyedFor (streamId : String) : FloorAction -> Prop
  | .append batch => batch.streamId = streamId -> batch.claim.streamKey.isSome = true
  | _ => True

def AllKeyed (streamId : String) (t : Tables) : Prop :=
  forall r, r ∈ t.chunks -> r.streamId = streamId -> r.slot.isSome = true

theorem AllKeyed.step
    {streamId : String} {t : Tables} (h : AllKeyed streamId t) {action : FloorAction}
    (hkeyed : action.KeyedFor streamId) :
    AllKeyed streamId (action.step t) := by
  cases action with
  | append batch =>
      apply PlannedChunkBatch.store_invariant (fun t streams h => h) _ h
      intro row _ t t' heffect h
      cases heffect with
      | repaired => exact h
      | stored =>
          intro r hr hstream
          rcases List.mem_append.mp hr with hold | hnew
          · exact h r hold hstream
          · rw [List.mem_singleton.mp hnew] at hstream ⊢
            exact hkeyed hstream
  | _ => exact h

structure Frozen (streamId : String) (epoch : UInt64) (rows : List StreamChunkRow) (t : Tables) :
    Prop where
  inv : EpochInv streamId epoch t
  same : t.epochRows streamId epoch = rows
  last : exists r slot, r ∈ rows ∧ r.slot = some slot ∧ slot.last = true

variable {rows : List StreamChunkRow}

theorem Frozen.item
    {streamId : String} {epoch : UInt64} {c : ChunkTx} {row : ChunkFloorRow} {t t' : Tables}
    (hkeyed : c.streamId = streamId -> c.streamKey.isSome = true) (heffect : ItemEffect c row t t')
    (h : Frozen streamId epoch rows t) :
    Frozen streamId epoch rows t' := by
  refine ⟨h.inv.item heffect, ?_, h.last⟩
  cases heffect with
  | repaired => exact h.same
  | stored around hblobs hheld hcap hfresh deks hslot =>
      by_cases hkey : streamId = c.streamId ∧ epoch = c.epoch
      · -- the epoch is terminated, so it has no open key row to take a slot in
        rcases hkey with ⟨rfl, rfl⟩
        rcases Option.isSome_iff_exists.mp (hkeyed rfl) with ⟨slot, hslotKey⟩
        rcases (hslot.open_of_keyed hslotKey).2 with ⟨d, hd, hat, hopen⟩
        rcases h.last with ⟨r, last, hr, hrslot, hlast⟩
        rw [← h.same] at hr
        rw [h.inv.not_last_of_open hd hat hopen hr hrslot] at hlast
        cases hlast
      · rw [epochRows_of_ne row hkey, h.same]

theorem Frozen.step
    {streamId : String} {epoch : UInt64} {t : Tables} (h : Frozen streamId epoch rows t)
    {action : FloorAction} (hkeyed : action.KeyedFor streamId) :
    Frozen streamId epoch rows (action.step t) := by
  cases action with
  | append batch =>
      apply PlannedChunkBatch.store_invariant _ _ h
      · intro t streams h
        exact ⟨h.inv.beside streams t.around, h.same, h.last⟩
      · intro row _ t t' heffect h
        have hkeyed' : batch.tx.streamId = streamId -> batch.tx.streamKey.isSome = true := hkeyed
        exact h.item hkeyed' heffect
  | insertDek d => exact ⟨h.inv.insertDek d, h.same, h.last⟩
  | closeDek s e => exact ⟨h.inv.closeDek s e, h.same, h.last⟩
  | surroundings around => exact ⟨h.inv.beside t.streams around, h.same, h.last⟩

theorem epochInv_run
    (around : Surroundings) (actions : List FloorAction) (streamId : String) (epoch : UInt64) :
    EpochInv streamId epoch (run around actions) :=
  List.foldlRecOn actions _ (epochInv_empty streamId epoch around) fun _ h action _ => h.step action

theorem allKeyed_run
    {streamId : String} (around : Surroundings) {actions : List FloorAction}
    (hkeyed : forall action, action ∈ actions -> action.KeyedFor streamId) :
    AllKeyed streamId (run around actions) :=
  List.foldlRecOn actions _ nofun fun _ h action hmem => h.step (hkeyed action hmem)

theorem frozen_run
    {streamId : String} {epoch : UInt64} (around : Surroundings) (actions : List FloorAction)
    {later : List FloorAction} (h : Frozen streamId epoch rows (run around actions))
    (hlater : forall action, action ∈ later -> action.KeyedFor streamId) :
    Frozen streamId epoch rows (run around (actions ++ later)) := by
  rw [run, List.foldl_append]
  exact List.foldlRecOn later _ h fun _ h action hmem => h.step (hlater action hmem)

/-!
## The slots of an epoch
-/

theorem map_slot_eq
    (rows : List StreamChunkRow) (h : forall r, r ∈ rows -> r.slot.isSome = true) :
    rows.map StreamChunkRow.slot = (rows.filterMap StreamChunkRow.slot).map some := by
  induction rows with
  | nil => rfl
  | cons r rest ih =>
      rcases Option.isSome_iff_exists.mp (h r List.mem_cons_self) with ⟨slot, hslot⟩
      rw [List.filterMap_cons_some hslot, List.map_cons, List.map_cons, hslot,
        ih fun x hx => h x (List.mem_cons_of_mem _ hx)]

theorem Numbered.counters
    {slots : List StreamKeySlot} (h : Numbered (slots.map some)) :
    slots.map (fun slot => slot.counter.toNat) = List.range slots.length := by
  apply List.ext_getElem?
  intro i
  rw [List.getElem?_map]
  by_cases hlt : i < slots.length
  · have hcounter := h.counter i slots[i] (by rw [List.getElem?_map, List.getElem?_eq_getElem hlt]; rfl)
    rw [List.getElem?_eq_getElem hlt, List.getElem?_range hlt, Option.map_some, hcounter]
  · rw [List.getElem?_eq_none (by omega), List.getElem?_eq_none (by simpa using hlt)]
    rfl

theorem Numbered.last_is_final
    {slots : List StreamKeySlot} (h : Numbered (slots.map some)) {i : Nat} {slot : StreamKeySlot}
    (hi : slots[i]? = some slot) (hlast : slot.last = true) :
    i + 1 = slots.length := by
  have hlt := (List.getElem?_eq_some_iff.mp hi).1
  have hget : forall j (hj : j < slots.length), (slots.map some)[j]? = some (some slots[j]) := by
    intro j hj
    rw [List.getElem?_map, List.getElem?_eq_getElem hj]
    rfl
  have hfinal := h.ended i (slots.length - 1) slot _ (by rw [List.getElem?_map, hi]; rfl) hlast
    (hget (slots.length - 1) (by omega))
  omega

theorem Numbered.pairwise
    {slots : List (Option StreamKeySlot)} (h : Numbered slots)
    (hkeyed : forall x, x ∈ slots -> x.isSome = true) :
    slots.Pairwise fun a b => a ≠ b := by
  rw [List.pairwise_iff_getElem]
  intro i j hi hj hlt heq
  rcases Option.isSome_iff_exists.mp (hkeyed _ (List.getElem_mem hi)) with ⟨slot, hslot⟩
  have hcounter := h.counter i slot (by rw [List.getElem?_eq_getElem hi, hslot])
  have hcounter' := h.counter j slot (by rw [List.getElem?_eq_getElem hj, ← heq, hslot])
  omega

def Tables.streamRows (t : Tables) (streamId : String) : List StreamChunkRow :=
  t.chunks.filter fun r => decide (r.streamId = streamId)

theorem filter_streamRows
    (t : Tables) (streamId : String) (epoch : UInt64) :
    ((t.streamRows streamId).filter fun r => decide (r.epoch = epoch)) =
      t.epochRows streamId epoch := by
  rw [Tables.streamRows, List.filter_filter]
  congr 1
  funext r
  exact Bool.and_comm _ _

theorem pairwise_slots
    {t : Tables} {streamId : String} (hinv : forall epoch, EpochInv streamId epoch t)
    (hkeyed : AllKeyed streamId t) :
    (t.streamRows streamId).Pairwise fun a b => a.epoch = b.epoch -> a.slot ≠ b.slot := by
  apply Grouping.pairwise_of_groups
  intro epoch
  rw [filter_streamRows]
  have hpairs := (hinv epoch).numbered.pairwise (by
    intro x hx
    rcases List.mem_map.mp hx with ⟨r, hr, rfl⟩
    rcases mem_epochRows.mp hr with ⟨hmem, hstream, -⟩
    exact hkeyed r hmem hstream)
  exact List.pairwise_map.mp hpairs

/-!
## Nonces
-/

/-- The derivation of a nonce's first bytes, in the signature crate. -/
class StreamNonceKdf where
  noncePrefix : Dek -> String -> UInt64 -> List UInt8

section Nonces

variable [StreamNonceKdf]

def streamNonce (dek : Dek) (streamId : String) (epoch : UInt64) (slot : StreamKeySlot) :
    List UInt8 :=
  StreamNonceKdf.noncePrefix dek streamId epoch ++ u32Be slot.counter ++
    [if slot.last then 1 else 0]

theorem streamNonce_inj
    {dek : Dek} {streamId : String} {epoch : UInt64} {slot slot' : StreamKeySlot}
    (h : streamNonce dek streamId epoch slot = streamNonce dek streamId epoch slot') :
    slot = slot' := by
  rcases List.append_inj' h rfl with ⟨hinit, hflag⟩
  have hcounter := u32Be_inj (List.append_cancel_left hinit)
  have hlast : slot.last = slot'.last := by
    cases hs : slot.last <;> cases hs' : slot'.last <;> simp [hs, hs'] at hflag
    · rfl
    · rfl
  cases slot
  cases slot'
  rw [StreamKeySlot.mk.injEq]
  exact ⟨hcounter, hlast⟩

def Tables.sealedUnder (t : Tables) (r : StreamChunkRow) : Option (Dek × List UInt8) :=
  match r.slot, t.deks.find? (StreamDekRow.isAt r.streamId r.epoch) with
  | some slot, some d => some (d.dek, streamNonce d.dek r.streamId r.epoch slot)
  | _, _ => none

theorem sealedUnder_eq_some
    {t : Tables} {streamId : String} (hinv : EpochInv streamId r.epoch t)
    (hkeyed : AllKeyed streamId t) (hr : r ∈ t.streamRows streamId) :
    exists slot d, r.slot = some slot ∧ d ∈ t.deks ∧ d.streamId = streamId ∧ d.epoch = r.epoch ∧
      t.deks.find? (StreamDekRow.isAt streamId r.epoch) = some d ∧
      t.sealedUnder r = some (d.dek, streamNonce d.dek streamId r.epoch slot) := by
  rcases List.mem_filter.mp hr with ⟨hmem, hstream⟩
  rw [decide_eq_true_eq] at hstream
  have hsome := hkeyed r hmem hstream
  rcases Option.isSome_iff_exists.mp hsome with ⟨slot, hslot⟩
  rcases hinv.keyed r (mem_epochRows.mpr ⟨hmem, hstream, rfl⟩) hsome with ⟨d, hd, hat⟩
  have hfound : (t.deks.find? (StreamDekRow.isAt streamId r.epoch)).isSome = true :=
    List.find?_isSome.mpr ⟨d, hd, hat⟩
  rcases Option.isSome_iff_exists.mp hfound with ⟨d', hfind⟩
  rcases StreamDekRow.isAt_iff.mp (List.find?_some hfind) with ⟨hs, he⟩
  refine ⟨slot, d', hslot, List.mem_of_find?_eq_some hfind, hs, he, hfind, ?_⟩
  rw [Tables.sealedUnder, hslot, hstream, hfind]

theorem nodup_sealedUnder
    {t : Tables} {streamId : String} (hinv : forall epoch, EpochInv streamId epoch t)
    (hkeyed : AllKeyed streamId t) :
    ((t.streamRows streamId).map fun r => (r.epoch, t.sealedUnder r)).Nodup := by
  rw [List.Nodup, List.pairwise_map]
  refine (pairwise_slots hinv hkeyed).imp_of_mem ?_
  intro a b ha hb hslots heq
  rw [Prod.mk.injEq] at heq
  rcases heq with ⟨hepoch, hsealed⟩
  rcases sealedUnder_eq_some (hinv a.epoch) hkeyed ha with ⟨slot, d, hslot, -, -, -, hfind, hpair⟩
  rcases sealedUnder_eq_some (hinv b.epoch) hkeyed hb with
    ⟨slot', d', hslot', -, -, -, hfind', hpair'⟩
  rw [hepoch, hfind', Option.some.injEq] at hfind
  rw [hpair, hpair', hfind, hepoch, Option.some.injEq, Prod.mk.injEq] at hsealed
  apply hslots hepoch
  rw [hslot, hslot', streamNonce_inj hsealed.2]

/-- Slots are never reused: in every run that offers the stream only stream-keyed chunks,
the chunks of an epoch are numbered from zero up to its count, the count stays within the
cap, a last chunk is the final one, and nothing is stored in the epoch after it.  So no
two stored chunks share a key and a nonce, as long as no two epochs share a key. -/
theorem stream_slots_never_reused
    (around : Surroundings) (actions : List FloorAction) (streamId : String)
    (hkeyed : forall action, action ∈ actions -> action.KeyedFor streamId) :
    (forall epoch, exists slots : List StreamKeySlot,
      ((run around actions).epochRows streamId epoch).map StreamChunkRow.slot = slots.map some ∧
      slots.map (fun slot => slot.counter.toNat) =
        List.range ((run around actions).counts streamId epoch) ∧
      (run around actions).counts streamId epoch ≤ maxChunksPerEpoch ∧
      (forall i slot, slots[i]? = some slot -> slot.last = true ->
        i + 1 = slots.length ∧
        forall later, (forall action, action ∈ later -> action.KeyedFor streamId) ->
          (run around (actions ++ later)).epochRows streamId epoch =
            (run around actions).epochRows streamId epoch)) ∧
    (forall r, r ∈ (run around actions).streamRows streamId ->
      ((run around actions).sealedUnder r).isSome = true) ∧
    (((run around actions).streamRows streamId).map fun r =>
      (r.epoch, (run around actions).sealedUnder r)).Nodup ∧
    ((forall d d', d ∈ (run around actions).deks -> d' ∈ (run around actions).deks ->
        d.streamId = streamId -> d'.streamId = streamId -> d.dek = d'.dek -> d.epoch = d'.epoch) ->
      (((run around actions).streamRows streamId).map
        (run around actions).sealedUnder).Nodup) := by
  have hinv := epochInv_run around actions streamId
  have hall := allKeyed_run around hkeyed
  refine ⟨?_, ?_, nodup_sealedUnder hinv hall, ?_⟩
  · intro epoch
    have hmap := map_slot_eq ((run around actions).epochRows streamId epoch) (by
      intro r hr
      rcases mem_epochRows.mp hr with ⟨hmem, hstream, -⟩
      exact hall r hmem hstream)
    have hnumbered := (hinv epoch).numbered
    rw [hmap] at hnumbered
    refine ⟨_, hmap, ?_, (hinv epoch).cap, ?_⟩
    · have hlength := congrArg List.length hmap
      rw [List.length_map, List.length_map, ← (hinv epoch).count] at hlength
      rw [hnumbered.counters, hlength]
    · intro i slot hi hlast
      refine ⟨hnumbered.last_is_final hi hlast, ?_⟩
      intro later hlater
      rcases List.mem_filterMap.mp (List.mem_of_getElem? hi) with ⟨r, hr, hslot⟩
      exact (frozen_run around actions ⟨hinv epoch, rfl, r, slot, hr, hslot, hlast⟩ hlater).same
  · intro r hr
    rcases sealedUnder_eq_some (hinv r.epoch) hall hr with ⟨_, _, _, _, _, _, _, hpair⟩
    rw [hpair]
    rfl
  · intro hdeks
    have hnodup := nodup_sealedUnder hinv hall
    rw [List.Nodup, List.pairwise_map] at hnodup ⊢
    refine hnodup.imp_of_mem ?_
    intro a b ha hb hne heq
    rcases sealedUnder_eq_some (hinv a.epoch) hall ha with ⟨_, d, _, hd, hs, he, _, hpair⟩
    rcases sealedUnder_eq_some (hinv b.epoch) hall hb with ⟨_, d', _, hd', hs', he', _, hpair'⟩
    rw [hpair, hpair', Option.some.injEq, Prod.mk.injEq] at heq
    have hepoch := hdeks d d' hd hd' hs hs' heq.1
    apply hne
    rw [Prod.mk.injEq, hpair, hpair', Option.some.injEq, Prod.mk.injEq]
    exact ⟨he.symm.trans (hepoch.trans he'), heq⟩

end Nonces

end Stream
end Federation

namespace Reference

scoped instance streamNonceKdf : Federation.Stream.StreamNonceKdf where
  noncePrefix _ _ _ := List.replicate 7 0

end Reference

namespace Federation
namespace Stream

def quietSurroundings : Surroundings where
  blobs := []
  bindings := []
  notice := fun _ => none
  enabled := fun _ => true
  currentEpoch := fun _ _ => 0

def cameraKey : StreamDekRow where
  streamId := "camera"
  epoch := 3
  ownerKeyId := "owner"
  cohortScope := "self"
  groupKeyId := "owner"
  dek := Dek.zero
  closed := false
  terminated := false
  supplied := false

def cameraChunk (seq : UInt64) (counter : UInt32) (last : Bool) : FloorAction :=
  .append
    { streamId := "camera"
      epoch := 3
      cohortScope := "self"
      binding := none
      bindAsDeclared := false
      claim :=
        { communityKeyId := some "owner", ownerKeyId := some "owner",
          streamKey := some { counter, last } }
      rows := [⟨0, seq, Sha256.zero, 36, 0⟩] }

def cameraActions : List FloorAction :=
  [.insertDek cameraKey, cameraChunk 5 0 false, cameraChunk 6 0 false, cameraChunk 7 1 true,
    cameraChunk 8 2 false]

open Reference in
theorem cameraActions_store_two :
    ((run quietSurroundings cameraActions).epochRows "camera" 3).map StreamChunkRow.slot =
        [some ⟨0, false⟩, some ⟨1, true⟩] ∧
      (((run quietSurroundings cameraActions).streamRows "camera").map fun r =>
        (r.epoch, (run quietSurroundings cameraActions).sealedUnder r)).Nodup := by
  refine ⟨by decide +kernel, ?_⟩
  have hkeyed : forall action, action ∈ cameraActions -> action.KeyedFor "camera" := by
    intro action haction
    simp only [cameraActions, List.mem_cons, List.not_mem_nil, or_false] at haction
    rcases haction with rfl | rfl | rfl | rfl | rfl
    · trivial
    · intro _
      rfl
    · intro _
      rfl
    · intro _
      rfl
    · intro _
      rfl
  exact (stream_slots_never_reused quietSurroundings cameraActions "camera" hkeyed).2.2.1

end Stream
end CirisPersist.Federation
