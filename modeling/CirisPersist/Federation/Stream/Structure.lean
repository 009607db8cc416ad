import CirisPersist.Federation.Stream.Floor
import Std.Data.TreeMap.Lemmas

/-!
# The structure of a stream-keyed DAG

A whole read and a promotion scan the chunks in the order of their positions, with the
next counter of each epoch and whether its last chunk was seen.  The scan looks at each
epoch by itself, so it is a small automaton run on the slots of every epoch.
-/

namespace CirisPersist.Federation
namespace Stream

abbrev SlotEntry :=
  UInt64 × UInt64 × StreamKeySlot

def saturatingSucc (n : UInt32) : UInt32 :=
  if n = 4294967295 then n else n + 1

/-- The loop: the next counter of each epoch seen so far, and whether it is closed. -/
def scanEntries (dagSha : Sha256) : Std.TreeMap UInt64 (UInt32 × Bool) -> List SlotEntry ->
    Except BlobError (Std.TreeMap UInt64 (UInt32 × Bool))
  | perEpoch, [] => .ok perEpoch
  | perEpoch, (seq, epoch, slot) :: rest =>
      let refuse (why : String) : Except BlobError (Std.TreeMap UInt64 (UInt32 × Bool)) :=
        .error (.backend ("chunk_dag " ++ dagSha.hex ++ " chunk seq " ++ seq.toNat.repr ++
          " (epoch " ++ epoch.toNat.repr ++ "): " ++ why ++ " (CC 5.3.3.1; CIRISPersist#969)"))
      let held := perEpoch[epoch]?.getD (0, false)
      if held.2 then
        refuse "follows its epoch's last chunk — nothing may be appended after it"
      else if slot.counter ≠ held.1 then
        refuse ("carries counter " ++ slot.counter.toNat.repr ++ " where its epoch's next is " ++
          held.1.toNat.repr ++ " — a chunk was dropped, duplicated or moved")
      else
        scanEntries dagSha (perEpoch.insert epoch (saturatingSucc held.1, slot.last)) rest

def checkStreamEpochStructure (dagSha : Sha256) (entries : List SlotEntry) :
    Except BlobError Unit := do
  let perEpoch ← scanEntries dagSha ∅ entries
  match perEpoch.toList.find? fun held => !held.2.2 with
  | some (epoch, _) =>
      .error (.backend ("chunk_dag " ++ dagSha.hex ++ " epoch " ++ epoch.toNat.repr ++
        " carries no last chunk: the DAG is truncated (CC 5.3.3.1; CIRISPersist#969)"))
  | none => .ok ()

/-!
## One epoch
-/

def scanSlots : UInt32 × Bool -> List StreamKeySlot -> Option (UInt32 × Bool)
  | held, [] => some held
  | held, slot :: rest =>
      if held.2 || decide (slot.counter ≠ held.1) then
        none
      else
        scanSlots (saturatingSucc held.1, slot.last) rest

def epochSlots (epoch : UInt64) (entries : List SlotEntry) : List StreamKeySlot :=
  (entries.filter fun entry => decide (entry.2.1 = epoch)).map fun entry => entry.2.2

theorem epochSlots_cons
    (epoch : UInt64) (entry : SlotEntry) (rest : List SlotEntry) :
    epochSlots epoch (entry :: rest) =
      if entry.2.1 = epoch then entry.2.2 :: epochSlots epoch rest else epochSlots epoch rest := by
  unfold epochSlots
  by_cases hepoch : entry.2.1 = epoch
  · simp [hepoch]
  · simp [hepoch]

theorem epochSlots_append
    (epoch : UInt64) (entries entries' : List SlotEntry) :
    epochSlots epoch (entries ++ entries') = epochSlots epoch entries ++ epochSlots epoch entries' := by
  rw [epochSlots, List.filter_append, List.map_append]
  rfl

theorem length_epochSlots_le
    (epoch : UInt64) (entries : List SlotEntry) :
    (epochSlots epoch entries).length ≤ entries.length := by
  rw [epochSlots, List.length_map]
  exact List.length_filter_le _ entries

theorem epochSlots_cons_self
    (entry : SlotEntry) (rest : List SlotEntry) :
    epochSlots entry.2.1 (entry :: rest) = entry.2.2 :: epochSlots entry.2.1 rest := by
  rw [epochSlots_cons, if_pos rfl]

theorem length_epochSlots_insert_le
    (epoch : UInt64) (before after : List SlotEntry) (entry : SlotEntry) :
    (epochSlots epoch (before ++ entry :: after)).length ≤
      (epochSlots epoch (before ++ after)).length + 1 := by
  rw [epochSlots_append, epochSlots_append, epochSlots_cons]
  split
  · simp
    omega
  · omega

theorem mem_epochSlots
    {entries : List SlotEntry} {entry : SlotEntry} (hmem : entry ∈ entries) :
    entry.2.2 ∈ epochSlots entry.2.1 entries :=
  List.mem_map.mpr ⟨entry, List.mem_filter.mpr ⟨hmem, decide_eq_true rfl⟩, rfl⟩

/-- The slots of a whole epoch: numbered from zero, the last flag on the final one. -/
structure Whole (slots : List StreamKeySlot) : Prop where
  counters : slots.map (fun slot => slot.counter.toNat) = List.range slots.length
  ended : exists init slot, slots = init ++ [slot] ∧ slot.last = true ∧
    forall s, s ∈ init -> s.last = false

theorem toNat_saturatingSucc
    {n : UInt32} (h : n.toNat + 1 < 2 ^ 32) :
    (saturatingSucc n).toNat = n.toNat + 1 := by
  have hne : n ≠ 4294967295 := by
    rintro rfl
    exact absurd h (by decide)
  rw [saturatingSucc, if_neg hne, UInt32.toNat_add]
  exact Nat.mod_eq_of_lt h

variable {slots : List StreamKeySlot}

theorem scanSlots_closed
    {n : UInt32} {held : UInt32 × Bool} (h : scanSlots (n, true) slots = some held) :
    slots = [] ∧ held = (n, true) := by
  cases slots with
  | nil =>
      rw [scanSlots, Option.some.injEq] at h
      exact ⟨rfl, h.symm⟩
  | cons slot rest =>
      rw [scanSlots, if_pos (by simp)] at h
      cases h

variable {slot : StreamKeySlot}

theorem ended_cons_of_last
    {rest : List StreamKeySlot} (hlast : slot.last = true) :
    (exists init final, slot :: rest = init ++ [final] ∧ final.last = true ∧
      forall s, s ∈ init -> s.last = false) <-> rest = [] := by
  constructor
  · rintro ⟨init, final, heq, -, hinit⟩
    cases init with
    | nil =>
        rw [List.nil_append, List.cons.injEq] at heq
        exact heq.2
    | cons first init =>
        rw [List.cons_append, List.cons.injEq] at heq
        have hnot := hinit first List.mem_cons_self
        rw [← heq.1, hlast] at hnot
        cases hnot
  · rintro rfl
    exact ⟨[], slot, rfl, hlast, nofun⟩

theorem ended_cons_of_data
    {rest : List StreamKeySlot} (hdata : slot.last = false) :
    (exists init final, slot :: rest = init ++ [final] ∧ final.last = true ∧
      forall s, s ∈ init -> s.last = false) <->
    exists init final, rest = init ++ [final] ∧ final.last = true ∧
      forall s, s ∈ init -> s.last = false := by
  constructor
  · rintro ⟨init, final, heq, hfinal, hinit⟩
    cases init with
    | nil =>
        rw [List.nil_append, List.cons.injEq] at heq
        rw [← heq.1, hdata] at hfinal
        cases hfinal
    | cons first init =>
        rw [List.cons_append, List.cons.injEq] at heq
        exact ⟨init, final, heq.2, hfinal, fun s hs => hinit s (List.mem_cons_of_mem _ hs)⟩
  · rintro ⟨init, final, rfl, hfinal, hinit⟩
    refine ⟨slot :: init, final, rfl, hfinal, ?_⟩
    intro s hs
    rcases List.mem_cons.mp hs with rfl | hs
    · exact hdata
    · exact hinit s hs

theorem not_ended_nil :
    ¬ exists init final, ([] : List StreamKeySlot) = init ++ [final] ∧ final.last = true ∧
      forall s, s ∈ init -> s.last = false := by
  rintro ⟨init, final, heq, -⟩
  exact absurd (congrArg List.length heq) (by simp)

theorem scanSlots_ends_iff
    (slots : List StreamKeySlot) (n : UInt32) (hlength : n.toNat + slots.length ≤ 2 ^ 32) :
    ((exists m, scanSlots (n, false) slots = some (m, true)) <->
      slots.map (fun slot => slot.counter.toNat) = List.range' n.toNat slots.length ∧
      exists init slot, slots = init ++ [slot] ∧ slot.last = true ∧
        forall s, s ∈ init -> s.last = false) := by
  induction slots generalizing n with
  | nil =>
      apply iff_of_false
      · rintro ⟨m, h⟩
        cases h
      · rintro ⟨-, hended⟩
        exact not_ended_nil hended
  | cons slot rest ih =>
      rw [List.length_cons] at hlength
      rw [scanSlots, List.map_cons, List.length_cons, List.range'_succ, List.cons.injEq]
      by_cases hcounter : slot.counter = n
      · rw [if_neg (by simp [hcounter]), hcounter]
        cases hlast : slot.last with
        | true =>
            rw [ended_cons_of_last hlast]
            constructor
            · rintro ⟨m, h⟩
              rcases scanSlots_closed h with ⟨rfl, -⟩
              exact ⟨⟨rfl, rfl⟩, rfl⟩
            · rintro ⟨-, rfl⟩
              exact ⟨_, rfl⟩
        | false =>
            rw [ended_cons_of_data hlast]
            cases rest with
            | nil =>
                apply iff_of_false
                · rintro ⟨m, h⟩
                  cases h
                · rintro ⟨-, hended⟩
                  exact not_ended_nil hended
            | cons next rest =>
                have hnext : (saturatingSucc n).toNat = n.toNat + 1 := by
                  rw [List.length_cons] at hlength
                  exact toNat_saturatingSucc (by omega)
                rw [ih (saturatingSucc n) (by omega), hnext, eq_self_iff_true, true_and]
      · rw [if_pos (by simp [hcounter])]
        apply iff_of_false
        · rintro ⟨m, h⟩
          cases h
        · rintro ⟨⟨hhead, -⟩, -⟩
          exact hcounter (UInt32.toNat_inj.mp hhead)

theorem scanSlots_whole_iff
    (hlength : slots.length ≤ 2 ^ 32) :
    (exists m, scanSlots (0, false) slots = some (m, true)) <-> Whole slots := by
  have hzero : (0 : UInt32).toNat = 0 := rfl
  rw [scanSlots_ends_iff slots 0 (by rw [hzero]; omega), hzero, ← List.range_eq_range']
  constructor
  · rintro ⟨hcounters, hended⟩
    exact ⟨hcounters, hended⟩
  · rintro ⟨hcounters, hended⟩
    exact ⟨hcounters, hended⟩

theorem Whole.nodup
    (h : Whole slots) :
    (slots.map fun slot => slot.counter.toNat).Nodup := by
  rw [h.counters]
  exact List.nodup_range

theorem Whole.counter_of_last
    (h : Whole slots) (hmem : slot ∈ slots) (hlast : slot.last = true) :
    slot.counter.toNat + 1 = slots.length := by
  rcases h.ended with ⟨init, final, rfl, -, hinit⟩
  have hfinal : slot = final := by
    rcases List.mem_append.mp hmem with hin | hin
    · rw [hinit slot hin] at hlast
      cases hlast
    · exact List.mem_singleton.mp hin
  have hcounters := h.counters
  rw [List.map_append, List.length_append, List.length_singleton, List.range_succ] at hcounters
  have hcount := (List.append_inj' hcounters rfl).2
  rw [List.map_singleton, List.singleton_inj] at hcount
  rw [List.length_append, List.length_singleton, hfinal, hcount]

/-!
## All epochs
-/

def heldAt (perEpoch : Std.TreeMap UInt64 (UInt32 × Bool)) (epoch : UInt64) : UInt32 × Bool :=
  perEpoch[epoch]?.getD (0, false)

theorem heldAt_insert
    (perEpoch : Std.TreeMap UInt64 (UInt32 × Bool)) (epoch epoch' : UInt64) (held : UInt32 × Bool) :
    heldAt (perEpoch.insert epoch held) epoch' =
      if epoch = epoch' then held else heldAt perEpoch epoch' := by
  unfold heldAt
  rw [Std.TreeMap.getElem?_insert]
  by_cases hepoch : epoch = epoch'
  · simp [hepoch]
  · simp [hepoch]

theorem scanEntries_eq_ok
    {dagSha : Sha256} (entries : List SlotEntry)
    {perEpoch after : Std.TreeMap UInt64 (UInt32 × Bool)}
    (h : scanEntries dagSha perEpoch entries = .ok after) :
    forall epoch, scanSlots (heldAt perEpoch epoch) (epochSlots epoch entries) =
        some (heldAt after epoch) ∧
      (epoch ∈ after <-> epoch ∈ perEpoch ∨ epochSlots epoch entries ≠ []) := by
  induction entries generalizing perEpoch after with
  | nil =>
      intro epoch
      cases h
      exact ⟨rfl, by simp [epochSlots]⟩
  | cons entry rest ih =>
      intro epoch
      rcases entry with ⟨seq, epoch', slot⟩
      simp only [scanEntries] at h
      split at h
      · cases h
      · rename_i hclosed
        split at h
        · cases h
        · rename_i hcounter
          rcases ih h epoch with ⟨hscan, hmem⟩
          rw [heldAt_insert] at hscan
          rw [epochSlots_cons, hmem, Std.TreeMap.mem_insert]
          by_cases hepoch : epoch' = epoch
          · subst hepoch
            rw [if_pos rfl] at hscan
            rw [if_pos rfl, scanSlots, if_neg (by
              rw [not_not] at hcounter
              simp [heldAt, hcounter, hclosed])]
            exact ⟨hscan, by simp⟩
          · rw [if_neg hepoch] at hscan
            rw [if_neg hepoch]
            exact ⟨hscan, by simp [hepoch]⟩

theorem exists_scanEntries
    (dagSha : Sha256) (entries : List SlotEntry) :
    forall {perEpoch : Std.TreeMap UInt64 (UInt32 × Bool)},
      (forall epoch, (scanSlots (heldAt perEpoch epoch) (epochSlots epoch entries)).isSome = true) ->
      exists after, scanEntries dagSha perEpoch entries = .ok after := by
  induction entries with
  | nil =>
      intro perEpoch _
      exact ⟨perEpoch, rfl⟩
  | cons entry rest ih =>
      intro perEpoch h
      rcases entry with ⟨seq, epoch', slot⟩
      have hhere := h epoch'
      rw [epochSlots_cons, if_pos rfl, scanSlots] at hhere
      split at hhere
      · cases hhere
      · rename_i hpass
        rw [Bool.or_eq_true, not_or, Bool.not_eq_true, decide_eq_true_eq, not_not] at hpass
        have hrest : forall epoch, (scanSlots
            (heldAt (perEpoch.insert epoch' (saturatingSucc (heldAt perEpoch epoch').1, slot.last)) epoch)
              (epochSlots epoch rest)).isSome = true := by
          intro epoch
          rw [heldAt_insert]
          by_cases hepoch : epoch' = epoch
          · subst hepoch
            rw [if_pos rfl]
            exact hhere
          · have hother := h epoch
            rw [epochSlots_cons, if_neg hepoch] at hother
            rw [if_neg hepoch]
            exact hother
        rcases ih hrest with ⟨after, hafter⟩
        refine ⟨after, ?_⟩
        have hclosed : (perEpoch[epoch']?.getD (0, false)).2 = false := hpass.1
        have hcounter : slot.counter = (perEpoch[epoch']?.getD (0, false)).1 := hpass.2
        simp only [scanEntries, hclosed, Bool.false_eq_true, if_false, hcounter, ne_eq, not_true_eq_false]
        exact hafter

theorem checkStreamEpochStructure_iff_scan
    (dagSha : Sha256) (entries : List SlotEntry) :
    checkStreamEpochStructure dagSha entries = .ok () <->
      forall epoch, epochSlots epoch entries ≠ [] ->
        exists m, scanSlots (0, false) (epochSlots epoch entries) = some (m, true) := by
  have hempty : forall epoch, heldAt ∅ epoch = (0, false) := by
    intro epoch
    simp [heldAt]
  unfold checkStreamEpochStructure
  rw [Checks.bind_eq_ok_iff]
  constructor
  · rintro ⟨after, hscan, hclosed⟩ epoch hne
    rcases scanEntries_eq_ok entries hscan epoch with ⟨hslots, hmem⟩
    rw [hempty] at hslots
    have hin : epoch ∈ after := hmem.mpr (Or.inr hne)
    have hentry : (epoch, heldAt after epoch) ∈ after.toList := by
      rw [Std.TreeMap.mem_toList_iff_getElem?_eq_some, heldAt]
      rcases Option.isSome_iff_exists.mp (Std.TreeMap.mem_iff_isSome_getElem?.mp hin) with
        ⟨held, hheld⟩
      rw [hheld]
      rfl
    split at hclosed
    · cases hclosed
    · rename_i hnone
      have hflag := List.find?_eq_none.mp hnone _ hentry
      rw [Bool.not_eq_true', Bool.not_eq_false] at hflag
      refine ⟨(heldAt after epoch).1, ?_⟩
      rw [hslots, ← hflag]
  · intro h
    have hsome : forall epoch,
        (scanSlots (heldAt ∅ epoch) (epochSlots epoch entries)).isSome = true := by
      intro epoch
      rw [hempty]
      by_cases hne : epochSlots epoch entries = []
      · rw [hne]
        rfl
      · rcases h epoch hne with ⟨m, hm⟩
        rw [hm]
        rfl
    rcases exists_scanEntries dagSha entries hsome with ⟨after, hafter⟩
    refine ⟨after, hafter, ?_⟩
    split
    · rename_i epoch held hfound
      rcases scanEntries_eq_ok entries hafter epoch with ⟨hslots, hmem⟩
      have hentry := Std.TreeMap.mem_toList_iff_getElem?_eq_some.mp (List.mem_of_find?_eq_some hfound)
      have hin : epoch ∈ after := by
        rw [Std.TreeMap.mem_iff_isSome_getElem?, hentry]
        rfl
      have hne : epochSlots epoch entries ≠ [] := by
        rcases hmem.mp hin with hold | hne
        · exact absurd hold Std.TreeMap.not_mem_emptyc
        · exact hne
      rcases h epoch hne with ⟨m, hm⟩
      rw [hempty, hm, heldAt, hentry, Option.some.injEq, Option.getD_some] at hslots
      have hflag := List.find?_some hfound
      rw [← hslots] at hflag
      cases hflag
    · rfl

theorem checkStreamEpochStructure_iff
    {dagSha : Sha256} {entries : List SlotEntry}
    (hlength : forall epoch, (epochSlots epoch entries).length ≤ 2 ^ 32) :
    checkStreamEpochStructure dagSha entries = .ok () <->
      forall epoch, epochSlots epoch entries ≠ [] -> Whole (epochSlots epoch entries) := by
  rw [checkStreamEpochStructure_iff_scan]
  constructor
  · intro h epoch hne
    exact (scanSlots_whole_iff (hlength epoch)).mp (h epoch hne)
  · intro h epoch hne
    exact (scanSlots_whole_iff (hlength epoch)).mpr (h epoch hne)

/-!
## Tampering
-/

theorem Whole.not_whole_of_sublist
    {kept : List StreamKeySlot} (h : Whole slots) (hsub : kept.Sublist slots)
    (hless : kept.length < slots.length) :
    ¬ Whole kept := by
  intro hkept
  rcases hkept.ended with ⟨init, final, heq, hfinal, -⟩
  have hmem : final ∈ kept := by
    rw [heq]
    exact List.mem_append_right init (List.mem_singleton_self final)
  have hcount := h.counter_of_last (hsub.subset hmem) hfinal
  have hcount' := hkept.counter_of_last hmem hfinal
  omega

theorem not_whole_of_duplicate
    {before after : List StreamKeySlot} (hmem : slot ∈ before ++ after) :
    ¬ Whole (before ++ slot :: after) := by
  intro h
  have hnodup := h.nodup
  rw [(List.perm_middle.map _).nodup_iff, List.map_cons, List.nodup_cons] at hnodup
  exact hnodup.1 (List.mem_map_of_mem hmem)

theorem Whole.not_whole_of_swap
    {before between after : List StreamKeySlot} {x y : StreamKeySlot}
    (h : Whole (before ++ x :: (between ++ y :: after))) :
    ¬ Whole (before ++ y :: (between ++ x :: after)) := by
  intro hswapped
  have hsame : x.counter.toNat = y.counter.toNat := by
    have hcounters := h.counters
    have hcounters' := hswapped.counters
    simp only [List.map_append, List.map_cons, List.length_append, List.length_cons]
      at hcounters hcounters'
    have heq := hcounters.trans hcounters'.symm
    exact (List.cons.inj (List.append_cancel_left heq)).1
  have hnodup := h.nodup
  rw [List.map_append, List.nodup_append, List.map_cons, List.nodup_cons, hsame] at hnodup
  exact hnodup.2.1.1 (List.mem_map.mpr ⟨y, List.mem_append_right between List.mem_cons_self, rfl⟩)

section Tampering

variable {dagSha : Sha256} {entries : List SlotEntry}
variable (hlength : forall epoch, (epochSlots epoch entries).length < 2 ^ 32)
variable (haccepted : checkStreamEpochStructure dagSha entries = .ok ())

include hlength haccepted

theorem whole_of_accepted
    {epoch : UInt64} (hne : epochSlots epoch entries ≠ []) :
    Whole (epochSlots epoch entries) :=
  (checkStreamEpochStructure_iff fun epoch => Nat.le_of_lt (hlength epoch)).mp haccepted epoch hne

theorem refuses_deletion
    {kept : List SlotEntry} {epoch : UInt64} (hsub : kept.Sublist entries)
    (hkept : epochSlots epoch kept ≠ [])
    (hless : (epochSlots epoch kept).length < (epochSlots epoch entries).length) :
    checkStreamEpochStructure dagSha kept ≠ .ok () := by
  intro hok
  have hslots : forall epoch, (epochSlots epoch kept).Sublist (epochSlots epoch entries) :=
    fun epoch => (hsub.filter _).map _
  have hbound : forall epoch, (epochSlots epoch kept).length ≤ 2 ^ 32 :=
    fun epoch => (hslots epoch).length_le.trans (Nat.le_of_lt (hlength epoch))
  have hne : epochSlots epoch entries ≠ [] := by
    apply List.ne_nil_of_length_pos
    omega
  have hwhole := whole_of_accepted hlength haccepted hne
  apply hwhole.not_whole_of_sublist (hslots epoch) hless
  exact (checkStreamEpochStructure_iff hbound).mp hok epoch hkept

theorem refuses_duplicate
    {before after : List SlotEntry} {entry : SlotEntry} (heq : entries = before ++ after)
    (hmem : entry ∈ entries) :
    checkStreamEpochStructure dagSha (before ++ entry :: after) ≠ .ok () := by
  intro hok
  subst heq
  have hbound : forall epoch, (epochSlots epoch (before ++ entry :: after)).length ≤ 2 ^ 32 := by
    intro epoch
    have hadded := length_epochSlots_insert_le epoch before after entry
    exact hadded.trans (hlength epoch)
  have hslots := (checkStreamEpochStructure_iff hbound).mp hok entry.2.1
  have hin := mem_epochSlots hmem
  rw [epochSlots_append, epochSlots_cons_self] at hslots
  rw [epochSlots_append] at hin
  exact not_whole_of_duplicate hin (hslots (by simp))

theorem refuses_swap
    {before between after : List SlotEntry} {x y : SlotEntry}
    (heq : entries = before ++ x :: (between ++ y :: after)) (hepoch : x.2.1 = y.2.1) :
    checkStreamEpochStructure dagSha (before ++ y :: (between ++ x :: after)) ≠ .ok () := by
  intro hok
  subst heq
  have hperm : (before ++ y :: (between ++ x :: after)).Perm
      (before ++ x :: (between ++ y :: after)) := by
    apply List.Perm.append_left
    have hfront := @List.perm_middle _ x (y :: between) after
    exact hfront.trans (List.perm_middle.symm.cons x)
  have hbound : forall epoch,
      (epochSlots epoch (before ++ y :: (between ++ x :: after))).length ≤ 2 ^ 32 := by
    intro epoch
    rw [epochSlots, ((hperm.filter _).map _).length_eq]
    exact Nat.le_of_lt (hlength epoch)
  have hslots := (checkStreamEpochStructure_iff hbound).mp hok y.2.1
  have hwhole : epochSlots y.2.1 (before ++ x :: (between ++ y :: after)) ≠ [] -> _ :=
    whole_of_accepted hlength haccepted
  rw [epochSlots_append, epochSlots_cons, if_pos hepoch, epochSlots_append, epochSlots_cons_self]
    at hwhole
  rw [epochSlots_append, epochSlots_cons_self, epochSlots_append, epochSlots_cons, if_pos hepoch]
    at hslots
  exact (hwhole (by simp)).not_whole_of_swap (hslots (by simp))

end Tampering

/-- The check accepts exactly the whole streams, so what leaves an epoch not whole is refused. -/
theorem stream_structure_refuses_tampering
    (dagSha : Sha256) (entries : List SlotEntry)
    (hlength : forall epoch, (epochSlots epoch entries).length < 2 ^ 32) :
    (checkStreamEpochStructure dagSha entries = .ok () <->
      forall epoch, epochSlots epoch entries ≠ [] -> Whole (epochSlots epoch entries)) ∧
    (checkStreamEpochStructure dagSha entries = .ok () ->
      (forall kept epoch, kept.Sublist entries -> epochSlots epoch kept ≠ [] ->
        (epochSlots epoch kept).length < (epochSlots epoch entries).length ->
        checkStreamEpochStructure dagSha kept ≠ .ok ()) ∧
      (forall before after entry, entries = before ++ after -> entry ∈ entries ->
        checkStreamEpochStructure dagSha (before ++ entry :: after) ≠ .ok ()) ∧
      (forall before between after x y, entries = before ++ x :: (between ++ y :: after) ->
        x.2.1 = y.2.1 ->
        checkStreamEpochStructure dagSha (before ++ y :: (between ++ x :: after)) ≠ .ok ())) := by
  constructor
  · exact checkStreamEpochStructure_iff fun epoch => Nat.le_of_lt (hlength epoch)
  · intro haccepted
    refine ⟨?_, ?_, ?_⟩
    · intro kept epoch hsub hkept hless
      exact refuses_deletion hlength haccepted hsub hkept hless
    · intro before after entry heq hmem
      exact refuses_duplicate hlength haccepted heq hmem
    · intro before between after x y heq hepoch
      exact refuses_swap hlength haccepted heq hepoch

theorem stream_structure_refuses_swapped_pair :
    checkStreamEpochStructure Sha256.zero [(0, 7, ⟨1, true⟩), (1, 7, ⟨0, false⟩)] ≠ .ok () := by
  have htampering := stream_structure_refuses_tampering Sha256.zero
    [(1, 7, ⟨0, false⟩), (0, 7, ⟨1, true⟩)] (fun epoch =>
      (length_epochSlots_le epoch _).trans_lt (by decide))
  have haccepted : checkStreamEpochStructure Sha256.zero
      [(1, 7, ⟨0, false⟩), (0, 7, ⟨1, true⟩)] = .ok () := by
    rfl
  exact (htampering.2 haccepted).2.2 [] [] [] _ _ rfl rfl

end Stream
end CirisPersist.Federation
