import CirisPersist.Federation.Blobs.Manifest
import CirisPersist.Library.Slicing

/-!
# Reading a byte range of a chunk DAG

A range of the plaintext becomes a set of chunk windows by adding up the declared
sizes, and at two levels a set of children first.  The two loops are written apart and
differ in where they skip and stop; each finds the windows of `Slicing.covering`.
Opening a chunk is another matter: the opened chunks are an argument here.
-/

namespace CirisPersist.Federation

open Slicing

/-!
## The loops
-/

structure ChunkSlice where
  index : Nat
  localStart : UInt64
  localEndInclusive : UInt64
deriving DecidableEq

namespace ChunkManifest

def localEnd (last chunkStart chunkEnd chunkLen : UInt64) : Except BlobError UInt64 :=
  if last ≥ chunkEnd then Checked.sub chunkLen 1 else Checked.sub last chunkStart

def sliceLoop (start last : UInt64) :
    Nat -> UInt64 -> List ChunkRef -> Except BlobError (List ChunkSlice)
  | _, _, [] => .ok []
  | index, chunkStart, cref :: rest =>
      let chunkLen := cref.size.toUInt64
      if chunkLen = 0 then
        sliceLoop start last (index + 1) chunkStart rest
      else do
        let past ← Checked.add chunkStart chunkLen
        let chunkEnd ← Checked.sub past 1
        if chunkEnd < start then do
          let next ← Checked.add chunkEnd 1
          sliceLoop start last (index + 1) next rest
        else if chunkStart > last then
          .ok []
        else do
          let localStart := Checked.saturatingSub start chunkStart
          let localEndInclusive ← localEnd last chunkStart chunkEnd chunkLen
          let next ← Checked.add chunkEnd 1
          let slices ← sliceLoop start last (index + 1) next rest
          .ok (⟨index, localStart, localEndInclusive⟩ :: slices)

def slicesForRange (m : ChunkManifest) (start last : UInt64) : Except BlobError (List ChunkSlice) :=
  if start > last then .ok [] else sliceLoop start last 0 0 m.chunks

end ChunkManifest

namespace NestedManifest

def pickChild (start last : UInt64) (i : Nat) (childStart childEnd : UInt64) :
    Except BlobError (List (Nat × UInt64 × UInt64)) :=
  if childEnd ≥ start ∧ childStart ≤ last then do
    let ls := Checked.saturatingSub start childStart
    let le ← Checked.sub (min last childEnd) childStart
    .ok [(i, ls, le)]
  else
    .ok []

def childLoop (start last : UInt64) :
    Nat -> UInt64 -> List ManifestChildRef -> Except BlobError (List (Nat × UInt64 × UInt64))
  | _, _, [] => .ok []
  | i, childStart, c :: rest =>
      if c.size = 0 then
        childLoop start last (i + 1) childStart rest
      else do
        let past ← Checked.add childStart c.size
        let childEnd ← Checked.sub past 1
        let found ← pickChild start last i childStart childEnd
        if childStart > last then
          .ok found
        else do
          let next ← Checked.add childEnd 1
          let others ← childLoop start last (i + 1) next rest
          .ok (found ++ others)

/-- The children of the inclusive range, each with its own inclusive range. -/
def childrenForRange (m : NestedManifest) (start last : UInt64) :
    Except BlobError (List (Nat × UInt64 × UInt64)) :=
  if start > last then .ok [] else childLoop start last 0 0 m.children

end NestedManifest

/-!
## The windows they find
-/

def ChunkSlice.window (s : ChunkSlice) : Window :=
  ⟨s.index, s.localStart.toNat, s.localEndInclusive.toNat + 1⟩

def childWindow (pick : Nat × UInt64 × UInt64) : Window :=
  ⟨pick.1, pick.2.1.toNat, pick.2.2.toNat + 1⟩

theorem exists_span
    (pieceStart size : UInt64) (hpos : 0 < size.toNat)
    (hfits : pieceStart.toNat + size.toNat < 2 ^ 64) :
    exists past pieceEnd next, Checked.add pieceStart size = .ok past ∧
      Checked.sub past 1 = .ok pieceEnd ∧ Checked.add pieceEnd 1 = .ok next ∧
      pieceEnd.toNat + 1 = pieceStart.toNat + size.toNat ∧
      next.toNat = pieceStart.toNat + size.toNat := by
  have hone : (1 : UInt64).toNat = 1 := rfl
  rcases Checked.exists_add_eq_ok (a := pieceStart) (b := size) hfits with ⟨past, hpast, hpastNat⟩
  rcases Checked.exists_sub_eq_ok (a := past) (b := 1) (by omega) with ⟨pieceEnd, hend, hendNat⟩
  rcases Checked.exists_add_eq_ok (a := pieceEnd) (b := 1) (by omega) with ⟨next, hnext, hnextNat⟩
  exact ⟨past, pieceEnd, next, hpast, hend, hnext, by omega, by omega⟩

theorem exists_localEnd
    (last chunkStart chunkEnd chunkLen : UInt64) (hstart : chunkStart.toNat ≤ last.toNat)
    (hlen : 0 < chunkLen.toNat) (hend : chunkEnd.toNat + 1 = chunkStart.toNat + chunkLen.toNat) :
    exists localEnd, ChunkManifest.localEnd last chunkStart chunkEnd chunkLen = .ok localEnd ∧
      localEnd.toNat + 1 = min (last.toNat + 1 - chunkStart.toNat) chunkLen.toNat := by
  have hone : (1 : UInt64).toNat = 1 := rfl
  unfold ChunkManifest.localEnd
  by_cases hwhole : last ≥ chunkEnd
  · have hwhole' := UInt64.le_iff_toNat_le.mp hwhole
    rcases Checked.exists_sub_eq_ok (a := chunkLen) (b := 1) (by omega) with ⟨e, hsub, hnat⟩
    exact ⟨e, by rw [if_pos hwhole, hsub], by omega⟩
  · have hpart := UInt64.lt_iff_toNat_lt.mp (UInt64.not_le.mp hwhole)
    rcases Checked.exists_sub_eq_ok (a := last) (b := chunkStart) (by omega) with ⟨e, hsub, hnat⟩
    exact ⟨e, by rw [if_neg hwhole, hsub], by omega⟩

variable {last start : UInt64}

theorem sliceLoop_eq_covering
    (hrange : start ≤ last) (chunks : List ChunkRef) (index : Nat) (chunkStart : UInt64)
    (hfits : chunkStart.toNat + ChunkManifest.content chunks < 2 ^ 64) :
    exists slices, ChunkManifest.sliceLoop start last index chunkStart chunks = .ok slices ∧
      slices.map ChunkSlice.window = covering start.toNat (last.toNat + 1) index chunkStart.toNat
        (chunks.map fun c => c.size.toNat) := by
  have hrange' := UInt64.le_iff_toNat_le.mp hrange
  induction chunks generalizing index chunkStart with
  | nil => exact ⟨[], rfl, rfl⟩
  | cons c rest ih =>
      have hcontent : ChunkManifest.content (c :: rest) =
          c.size.toNat + ChunkManifest.content rest := by
        simp [ChunkManifest.content]
      have hlen : c.size.toUInt64.toNat = c.size.toNat := UInt32.toNat_toUInt64 _
      rw [hcontent] at hfits
      simp only [ChunkManifest.sliceLoop, List.map_cons, covering]
      by_cases hzero : c.size.toUInt64 = 0
      · have hzero' : c.size.toNat = 0 := by
          rw [← hlen, hzero]
          rfl
        rw [if_pos hzero, hzero', if_neg (by omega)]
        exact ih (index + 1) chunkStart (by omega)
      · have hpos : 0 < c.size.toNat := by
          rw [← hlen]
          exact Nat.pos_of_ne_zero fun h => hzero (UInt64.toNat_inj.mp h)
        rw [if_neg hzero]
        rcases exists_span chunkStart c.size.toUInt64 (by omega) (by omega)
          with ⟨past, chunkEnd, next, hpast, hend, hnext, hendNat, hnextNat⟩
        rw [hlen] at hendNat hnextNat
        rcases ih (index + 1) next (by omega) with ⟨slices, hslices, hwindows⟩
        rw [hnextNat] at hwindows
        simp only [hpast, hend, hnext, hslices, bind, Except.bind, UInt64.lt_iff_toNat_lt, gt_iff_lt]
        by_cases hbefore : chunkEnd.toNat < start.toNat
        · rw [if_pos hbefore, if_neg (by omega)]
          exact ⟨slices, rfl, hwindows⟩
        · rw [if_neg hbefore]
          by_cases hafter : last.toNat < chunkStart.toNat
          · rw [if_pos hafter, if_neg (by omega), covering_eq_nil _ _ _ (by omega)]
            exact ⟨[], rfl, rfl⟩
          · have hwindow : start.toNat - chunkStart.toNat <
                min (last.toNat + 1 - chunkStart.toNat) c.size.toNat := by
              omega
            rw [if_neg hafter, if_pos hwindow]
            rcases exists_localEnd last chunkStart chunkEnd c.size.toUInt64 (by omega) (by omega)
              (by omega) with ⟨localEnd, hlocalEnd, hlocalNat⟩
            rw [hlocalEnd]
            refine ⟨_, rfl, ?_⟩
            rw [List.map_cons, hwindows, ChunkSlice.window, Checked.toNat_saturatingSub, hlocalNat, hlen]

theorem exists_pickChild
    (hrange : start.toNat ≤ last.toNat) (i : Nat) (childStart childEnd : UInt64) {n : Nat}
    (hn : 0 < n) (hend : childEnd.toNat + 1 = childStart.toNat + n) :
    exists found, NestedManifest.pickChild start last i childStart childEnd = .ok found ∧
      found.map childWindow =
        if start.toNat - childStart.toNat < min (last.toNat + 1 - childStart.toNat) n then
          [⟨i, start.toNat - childStart.toNat, min (last.toNat + 1 - childStart.toNat) n⟩]
        else
          [] := by
  unfold NestedManifest.pickChild
  by_cases htouch : childEnd ≥ start ∧ childStart ≤ last
  · have hend' := UInt64.le_iff_toNat_le.mp htouch.1
    have hstart' := UInt64.le_iff_toNat_le.mp htouch.2
    have hmin : (min last childEnd).toNat = min last.toNat childEnd.toNat := by
      show (if last ≤ childEnd then last else childEnd).toNat = _
      split
      · rename_i hle
        rw [Nat.min_eq_left (UInt64.le_iff_toNat_le.mp hle)]
      · rename_i hlt
        have hlt' := UInt64.lt_iff_toNat_lt.mp (UInt64.not_le.mp hlt)
        rw [Nat.min_eq_right (by omega)]
    rcases Checked.exists_sub_eq_ok (a := min last childEnd) (b := childStart) (by omega) with
      ⟨le, hsub, hnat⟩
    have hle : le.toNat + 1 = min (last.toNat + 1 - childStart.toNat) n := by
      omega
    rw [if_pos htouch, if_pos (by omega), hsub]
    refine ⟨_, rfl, ?_⟩
    rw [List.map_singleton, childWindow, Checked.toNat_saturatingSub, hle]
  · have hmiss : Not (start.toNat ≤ childEnd.toNat ∧ childStart.toNat ≤ last.toNat) := by
      simpa only [ge_iff_le, UInt64.le_iff_toNat_le] using htouch
    rw [if_neg htouch, if_neg (by omega)]
    exact ⟨[], rfl, rfl⟩

theorem childLoop_eq_covering
    (hrange : start ≤ last) (children : List ManifestChildRef) (i : Nat) (childStart : UInt64)
    (hfits : childStart.toNat + (children.map fun c => c.size.toNat).sum < 2 ^ 64) :
    exists picks, NestedManifest.childLoop start last i childStart children = .ok picks ∧
      picks.map childWindow = covering start.toNat (last.toNat + 1) i childStart.toNat
        (children.map fun c => c.size.toNat) := by
  have hrange' := UInt64.le_iff_toNat_le.mp hrange
  induction children generalizing i childStart with
  | nil => exact ⟨[], rfl, rfl⟩
  | cons c rest ih =>
      rw [List.map_cons, List.sum_cons] at hfits
      simp only [NestedManifest.childLoop, List.map_cons, covering]
      by_cases hzero : c.size = 0
      · have hzero' : c.size.toNat = 0 := by
          rw [hzero]
          rfl
        rw [if_pos hzero, hzero', if_neg (by omega)]
        exact ih (i + 1) childStart (by omega)
      · have hpos : 0 < c.size.toNat :=
          Nat.pos_of_ne_zero fun h => hzero (UInt64.toNat_inj.mp h)
        rcases exists_span childStart c.size hpos (by omega) with
          ⟨past, childEnd, next, hpast, hend, hnext, hendNat, hnextNat⟩
        rcases exists_pickChild hrange' i childStart childEnd hpos hendNat with
          ⟨found, hfound, hfoundWindows⟩
        rcases ih (i + 1) next (by omega) with ⟨picks, hpicks, hwindows⟩
        rw [hnextNat] at hwindows
        simp only [hpast, hend, hnext, hfound, hpicks, bind, Except.bind, UInt64.lt_iff_toNat_lt,
          gt_iff_lt, if_neg hzero]
        by_cases hafter : last.toNat < childStart.toNat
        · rw [if_neg (by omega)] at hfoundWindows
          rw [if_pos hafter, if_neg (by omega), covering_eq_nil _ _ _ (by omega)]
          exact ⟨found, rfl, hfoundWindows⟩
        · rw [if_neg hafter]
          refine ⟨found ++ picks, rfl, ?_⟩
          rw [List.map_append, hfoundWindows, hwindows]
          split
          · rfl
          · rfl

/-!
## Reading the windows
-/

def readSlice (m : ChunkManifest) (opened : List (List UInt8)) (slice : ChunkSlice) :
    Except BlobError (List UInt8) :=
  match m.chunks[slice.index]?, opened[slice.index]? with
  | some cref, some plain =>
      if plain.length ≠ cref.size.toNat then
        .error (.backend ("chunk_dag chunk " ++ cref.sha.hex ++ " opened to " ++
          plain.length.repr ++ " bytes but the manifest says " ++ cref.size.toNat.repr))
      else
        .ok (cut plain slice.localStart.toNat (slice.localEndInclusive.toNat + 1))
  | _, _ => .error .overflowPanic

def readFlatChunks (m : ChunkManifest) (opened : List (List UInt8)) (start last : UInt64) :
    Except BlobError (List UInt8) := do
  let slices ← m.slicesForRange start last
  let parts ← Checks.readAll (readSlice m opened) slices
  .ok parts.flatten

def readChildRange (children : List ChunkManifest) (opened : List (List (List UInt8)))
    (pick : Nat × UInt64 × UInt64) : Except BlobError (List UInt8) :=
  match children[pick.1]?, opened[pick.1]? with
  | some child, some contents => readFlatChunks child contents pick.2.1 pick.2.2
  | _, _ => .error .overflowPanic

def readNestedChunks (root : NestedManifest) (children : List ChunkManifest)
    (opened : List (List (List UInt8))) (start last : UInt64) : Except BlobError (List UInt8) := do
  let picks ← root.childrenForRange start last
  let parts ← Checks.readAll (readChildRange children opened) picks
  .ok parts.flatten

def OpenedAs (m : ChunkManifest) (opened : List (List UInt8)) : Prop :=
  opened.map List.length = m.chunks.map fun c => c.size.toNat

variable {m : ChunkManifest}

theorem slicesForRange_eq_covering
    (htotal : ChunkManifest.content m.chunks = m.totalSize.toNat) (hrange : start ≤ last) :
    exists slices, m.slicesForRange start last = .ok slices ∧
      slices.map ChunkSlice.window = covering start.toNat (last.toNat + 1) 0 0
        (m.chunks.map fun c => c.size.toNat) := by
  have hfits : (0 : UInt64).toNat + ChunkManifest.content m.chunks < 2 ^ 64 := by
    rw [htotal, UInt64.toNat_zero, Nat.zero_add]
    exact m.totalSize.toNat_lt
  rcases sliceLoop_eq_covering hrange m.chunks 0 0 hfits with ⟨slices, hslices, hwindows⟩
  refine ⟨slices, ?_, hwindows⟩
  rw [ChunkManifest.slicesForRange, if_neg (UInt64.not_lt.mpr hrange), hslices]

theorem readSlice_eq_ok
    {opened : List (List UInt8)} (hopened : OpenedAs m opened) {slice : ChunkSlice} (lo hi : Nat)
    (hmem : slice.window ∈ covering lo hi 0 0 (m.chunks.map fun c => c.size.toNat)) :
    readSlice m opened slice =
      .ok (cut ((opened[slice.index]?).getD []) slice.window.lo slice.window.hi) := by
  rcases mem_covering _ hmem with ⟨-, -, n, hn, -⟩
  have hindex : slice.window.index - 0 = slice.index := rfl
  rw [hindex] at hn
  have hlength : (opened.map List.length)[slice.index]? = some n := by
    rw [hopened]
    exact hn
  rw [List.getElem?_map, Option.map_eq_some_iff] at hn hlength
  rcases hn with ⟨cref, hcref, hsize⟩
  rcases hlength with ⟨plain, hplain, hlen⟩
  rw [readSlice, hcref, hplain]
  simp only [hlen, hsize, ne_eq, not_true_eq_false, if_false, Option.getD_some]
  rfl

theorem readFlatChunks_eq_cut
    {opened : List (List UInt8)} (hopened : OpenedAs m opened)
    (htotal : ChunkManifest.content m.chunks = m.totalSize.toNat) (hrange : start ≤ last) :
    readFlatChunks m opened start last = .ok (cut opened.flatten start.toNat (last.toNat + 1)) := by
  rcases slicesForRange_eq_covering htotal hrange with ⟨slices, hslices, hwindows⟩
  have hparts : Checks.readAll (readSlice m opened) slices = .ok (slices.map fun s =>
      cut ((opened[s.index]?).getD []) s.window.lo s.window.hi) := by
    rw [Checks.readAll_eq_ok_iff, List.forall₂_map_right_iff, List.forall₂_same]
    intro slice hslice
    refine readSlice_eq_ok hopened start.toNat (last.toNat + 1) ?_
    rw [← hwindows]
    exact List.mem_map_of_mem hslice
  have hcut := flatMap_covering start.toNat (last.toNat + 1) opened 0 0
  rw [hopened, ← hwindows] at hcut
  simp only [List.flatMap_map] at hcut
  rw [readFlatChunks, hslices]
  show (Checks.readAll (readSlice m opened) slices >>= fun parts => .ok parts.flatten) = _
  rw [hparts]
  show Except.ok _ = _
  rw [← List.flatMap_def]
  congr 1

/-!
## Two levels
-/

/-- The opened children of a root, each checked against its entry. -/
structure ChildrenOf (root : NestedManifest) (children : List ChunkManifest) : Prop where
  length : children.length = root.children.length
  checked : forall i child, children[i]? = some child -> root.checkChild i child = .ok ()

variable {children : List ChunkManifest} {root : NestedManifest}

theorem content_children
    (h : ChildrenOf root children) :
    (children.map fun child => ChunkManifest.content child.chunks) =
      root.children.map fun c => c.size.toNat := by
  refine List.ext_getElem? fun i => ?_
  rw [List.getElem?_map, List.getElem?_map]
  cases hchild : children[i]? with
  | none =>
      have hlength : children.length ≤ i := List.getElem?_eq_none_iff.mp hchild
      rw [List.getElem?_eq_none_iff.mpr (by rw [← h.length]; exact hlength)]
      rfl
  | some child =>
      rcases (root.checkChild_iff i child).mp (h.checked i child hchild) with ⟨entry, hentry, hmatch⟩
      rw [hentry, Option.map_some, Option.map_some, hmatch.total, hmatch.size]

theorem length_flatten_opened
    {opened : List (List UInt8)} (h : OpenedAs m opened) :
    opened.flatten.length = ChunkManifest.content m.chunks := by
  rw [List.length_flatten, h, ChunkManifest.content]

variable {opened : List (List (List UInt8))}

theorem lengths_opened
    (h : List.Forall₂ OpenedAs children opened) :
    (opened.map List.flatten).map List.length =
      children.map fun child => ChunkManifest.content child.chunks := by
  induction h with
  | nil => rfl
  | cons hchild _ ih =>
      rw [List.map_cons, List.map_cons, List.map_cons, ih, length_flatten_opened hchild]

theorem openedAs_flatten
    (h : List.Forall₂ OpenedAs children opened)
    (hm : m.chunks = children.flatMap ChunkManifest.chunks) :
    OpenedAs m opened.flatten := by
  unfold OpenedAs
  rw [hm]
  clear hm
  induction h with
  | nil => rfl
  | cons hchild _ ih =>
      rw [List.flatten_cons, List.flatMap_cons, List.map_append, List.map_append, ih, hchild]

theorem readChildRange_eq_ok
    (hchildren : ChildrenOf root children) (hopened : List.Forall₂ OpenedAs children opened)
    {pick : Nat × UInt64 × UInt64} (lo hi : Nat)
    (hmem : childWindow pick ∈ covering lo hi 0 0 (root.children.map fun c => c.size.toNat)) :
    readChildRange children opened pick =
      .ok (cut (((opened.map List.flatten)[pick.1]?).getD []) (childWindow pick).lo
        (childWindow pick).hi) := by
  rcases mem_covering _ hmem with ⟨-, hlt, n, hn, -⟩
  have hindex : (childWindow pick).index - 0 = pick.1 := rfl
  rw [hindex, ← content_children hchildren, List.getElem?_map, Option.map_eq_some_iff] at hn
  rcases hn with ⟨child, hchild, -⟩
  have hbound : pick.1 < opened.length := by
    rw [← hopened.length_eq]
    exact (List.getElem?_eq_some_iff.mp hchild).1
  have hcontents : opened[pick.1]? = some (opened.get ⟨pick.1, hbound⟩) :=
    List.getElem?_eq_getElem hbound
  have hpair : OpenedAs child (opened.get ⟨pick.1, hbound⟩) := by
    rcases List.getElem?_eq_some_iff.mp hchild with ⟨hlength, rfl⟩
    exact (List.forall₂_iff_get.mp hopened).2 pick.1 hlength hbound
  rcases (root.checkChild_iff _ child).mp (hchildren.checked _ child hchild) with
    ⟨entry, -, hmatch⟩
  have hrange : pick.2.1 ≤ pick.2.2 := UInt64.le_iff_toNat_le.mpr (Nat.lt_succ_iff.mp hlt)
  rw [readChildRange, hchild, hcontents, List.getElem?_map, hcontents]
  exact readFlatChunks_eq_cut hpair hmatch.total hrange

theorem readNestedChunks_eq_cut
    (hvalid : root.validate = .ok ()) (hchildren : ChildrenOf root children)
    (hopened : List.Forall₂ OpenedAs children opened) (hrange : start ≤ last) :
    readNestedChunks root children opened start last =
      .ok (cut opened.flatten.flatten start.toNat (last.toNat + 1)) := by
  have htotal := ((root.validate_iff).mp hvalid).2.2
  have hfits : (0 : UInt64).toNat + (root.children.map fun c => c.size.toNat).sum < 2 ^ 64 := by
    rw [htotal, UInt64.toNat_zero, Nat.zero_add]
    exact root.totalSize.toNat_lt
  rcases childLoop_eq_covering hrange root.children 0 0 hfits with ⟨picks, hpicks, hwindows⟩
  rw [UInt64.toNat_zero] at hwindows
  have hparts : Checks.readAll (readChildRange children opened) picks = .ok (picks.map fun p =>
      cut (((opened.map List.flatten)[p.1]?).getD []) (childWindow p).lo (childWindow p).hi) := by
    rw [Checks.readAll_eq_ok_iff, List.forall₂_map_right_iff, List.forall₂_same]
    intro pick hpick
    refine readChildRange_eq_ok hchildren hopened start.toNat (last.toNat + 1) ?_
    rw [← hwindows]
    exact List.mem_map_of_mem hpick
  have hcut := flatMap_covering start.toNat (last.toNat + 1) (opened.map List.flatten) 0 0
  have hlengths : (opened.map List.flatten).map List.length =
      root.children.map fun c => c.size.toNat :=
    (lengths_opened hopened).trans (content_children hchildren)
  rw [hlengths, ← hwindows] at hcut
  simp only [List.flatMap_map] at hcut
  have hroot : root.childrenForRange start last = .ok picks := by
    rw [NestedManifest.childrenForRange, if_neg (UInt64.not_lt.mpr hrange), hpicks]
  rw [readNestedChunks, hroot]
  show (Checks.readAll (readChildRange children opened) picks >>= fun parts => .ok parts.flatten) = _
  rw [hparts]
  show Except.ok _ = _
  rw [← List.flatMap_def, List.flatten_flatten]
  congr 1

/-- Where a window lies: in order, inside a chunk that has bytes. -/
def InBounds (m : ChunkManifest) (slices : List ChunkSlice) : Prop :=
  (slices.Pairwise fun a b => a.index < b.index) ∧
    forall s, s ∈ slices -> exists c, m.chunks[s.index]? = some c ∧ 0 < c.size.toNat ∧
      s.localStart ≤ s.localEndInclusive ∧ s.localEndInclusive.toNat < c.size.toNat

theorem inBounds_of_windows
    {slices : List ChunkSlice} {lo hi : Nat}
    (h : slices.map ChunkSlice.window = covering lo hi 0 0 (m.chunks.map fun c => c.size.toNat)) :
    InBounds m slices := by
  constructor
  · have hpairs := pairwise_covering lo hi (m.chunks.map fun c => c.size.toNat) 0 0
    rw [← h, List.pairwise_map] at hpairs
    exact hpairs
  · intro s hs
    have hmem : s.window ∈ covering lo hi 0 0 (m.chunks.map fun c => c.size.toNat) := by
      rw [← h]
      exact List.mem_map_of_mem hs
    rcases mem_covering _ hmem with ⟨-, hlt, n, hn, hle⟩
    have hindex : s.window.index - 0 = s.index := rfl
    rw [hindex, List.getElem?_map, Option.map_eq_some_iff] at hn
    rcases hn with ⟨c, hc, rfl⟩
    have hlt' : s.localStart.toNat < s.localEndInclusive.toNat + 1 := hlt
    have hle' : s.localEndInclusive.toNat + 1 ≤ c.size.toNat := hle
    exact ⟨c, hc, by omega, UInt64.le_iff_toNat_le.mpr (by omega), by omega⟩

/-- Range reads are exact slices.  Over a flat manifest the windows give the bytes of the
range; over a nested one, reading the children and their windows gives the same bytes as
the flat manifest of all their chunks.  No step overflows. -/
theorem range_reads_are_slices :
    (forall (m : ChunkManifest) (opened : List (List UInt8)) (start last : UInt64),
      OpenedAs m opened -> ChunkManifest.content m.chunks = m.totalSize.toNat ->
      start ≤ last -> last < m.totalSize ->
      (exists slices, m.slicesForRange start last = .ok slices ∧ InBounds m slices) ∧
        readFlatChunks m opened start last =
          .ok ((opened.flatten.drop start.toNat).take (last.toNat - start.toNat + 1))) ∧
    forall (root : NestedManifest) (children : List ChunkManifest)
      (opened : List (List (List UInt8))) (flat : ChunkManifest) (start last : UInt64),
      root.validate = .ok () -> ChildrenOf root children ->
      List.Forall₂ OpenedAs children opened ->
      flat.chunks = children.flatMap ChunkManifest.chunks -> flat.totalSize = root.totalSize ->
      start ≤ last -> last < root.totalSize ->
      exists bytes, readNestedChunks root children opened start last = .ok bytes ∧
        readFlatChunks flat opened.flatten start last = .ok bytes := by
  constructor
  · intro m opened start last hopened htotal hrange _
    rcases slicesForRange_eq_covering htotal hrange with ⟨slices, hslices, hwindows⟩
    refine ⟨⟨slices, hslices, inBounds_of_windows hwindows⟩, ?_⟩
    have hrange' := UInt64.le_iff_toNat_le.mp hrange
    rw [readFlatChunks_eq_cut hopened htotal hrange, cut, List.drop_take, Nat.succ_sub hrange']
  · intro root children opened flat start last hvalid hchildren hopened hflat htotal hrange _
    have hcontent : ChunkManifest.content flat.chunks = flat.totalSize.toNat := by
      rw [hflat, ChunkManifest.content_flatMap, content_children hchildren, htotal]
      exact ((root.validate_iff).mp hvalid).2.2
    exact ⟨_, readNestedChunks_eq_cut hvalid hchildren hopened hrange,
      readFlatChunks_eq_cut (openedAs_flatten hopened hflat) hcontent hrange⟩

def firstChild : ChunkManifest where
  v := 2
  totalSize := 2
  chunks := [⟨.zero, 2, some 0, none⟩]
  chunkTier := some .communityDek
  streamId := some "camera"

def secondChild : ChunkManifest :=
  { firstChild with
    totalSize := 3
    chunks := [⟨.zero, 0, some 1, none⟩, ⟨.zero, 3, some 2, none⟩] }

def wholeManifest : ChunkManifest :=
  { firstChild with
    totalSize := 5
    chunks := [⟨.zero, 2, some 0, none⟩, ⟨.zero, 0, some 1, none⟩, ⟨.zero, 3, some 2, none⟩] }

def childRoot : NestedManifest where
  totalSize := 5
  chunkTier := .communityDek
  streamId := "camera"
  children := [⟨1, 0, 0, .zero, 2⟩, ⟨2, 1, 2, .zero, 3⟩]

theorem wholeManifest_read_across :
    readFlatChunks wholeManifest [[1, 2], [], [3, 4, 5]] 1 3 = .ok [2, 3, 4] ∧
      exists bytes, readNestedChunks childRoot [firstChild, secondChild]
          [[[1, 2]], [[], [3, 4, 5]]] 1 3 = .ok bytes ∧
        readFlatChunks wholeManifest [[1, 2], [], [3, 4, 5]] 1 3 = .ok bytes := by
  have hchildren : ChildrenOf childRoot [firstChild, secondChild] := by
    refine ⟨rfl, ?_⟩
    intro i child hchild
    rcases i with _ | _ | i
    · cases hchild
      rfl
    · cases hchild
      rfl
    · cases hchild
  have hopened : List.Forall₂ OpenedAs [firstChild, secondChild] [[[1, 2]], [[], [3, 4, 5]]] :=
    .cons rfl (.cons rfl .nil)
  constructor
  · exact (range_reads_are_slices.1 wholeManifest [[1, 2], [], [3, 4, 5]] 1 3 rfl rfl (by decide)
      (by decide)).2
  · exact range_reads_are_slices.2 childRoot [firstChild, secondChild] [[[1, 2]], [[], [3, 4, 5]]]
      wholeManifest 1 3 rfl hchildren hopened rfl rfl (by decide) (by decide)

end CirisPersist.Federation
