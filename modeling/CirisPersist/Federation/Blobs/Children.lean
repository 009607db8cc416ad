import CirisPersist.Federation.Blobs.Codec
import CirisPersist.Federation.Blobs.Sealing

/-!
# Cutting a manifest into children

A sealed manifest whose envelope would not fit the inline cap is cut, in order and
greedily, into children that do.  The plan works on an estimate: the length of an empty
manifest with a total of twenty digits, and the formatted length of each entry.  The
estimate is never below the length that is written.
-/

namespace CirisPersist.Federation

/-!
## The plan
-/

def atRestEnvelopeMagicLen : Nat := 8

def nonceLen : Nat := 12

def aesGcmTagLen : Nat := 16

def atRestEnvelopeOverhead : Nat :=
  atRestEnvelopeMagicLen + nonceLen + aesGcmTagLen

def u64Max : UInt64 := 18446744073709551615

namespace ChunkManifest

/-- The formatted length of one entry; a position that is missing counts as 0. -/
def entryLen (c : ChunkRef) : Nat :=
  (match c.epoch with
    | some epoch => ("\"epoch\":" ++ epoch.toNat.repr ++ ",").utf8ByteSize
    | none => 0) +
  ("\x7b\"seq\":" ++ (c.seq.getD 0).toNat.repr ++ ",\"sha\":\"" ++ c.sha.hex ++ "\",\"size\":" ++
    c.size.toNat.repr ++ "\x7d").utf8ByteSize

def wrapperLen [SerdeJson] (m : ChunkManifest) : Nat :=
  { m with totalSize := u64Max, chunks := [] : ChunkManifest }.toJcsBytes.size

def closeRun (m : ChunkManifest) (run : List ChunkRef) : Except BlobError ChunkManifest := do
  let totalSize ← Checked.sum (sizes run)
  .ok { m with totalSize, chunks := run }

/-- The greedy loop, with the run that is open and its estimated length. -/
def planLoop (m : ChunkManifest) (cap : UInt64) (wrapper budget : Nat) :
    List ChunkRef -> Nat -> List ChunkRef -> Except BlobError (List ChunkManifest)
  | run, _, [] =>
      if run.isEmpty then
        .ok []
      else do
        let child ← m.closeRun run
        .ok [child]
  | run, runLen, c :: rest =>
      let add := entryLen c + if run.isEmpty then 0 else 1
      let tooSmall : Except BlobError (List ChunkManifest) :=
        .error (.invalidArgument ("seal_stream_scoped: the inline cap (" ++ cap.toNat.repr ++
          " bytes) cannot hold a manifest child of even one chunk (CIRISPersist#954)"))
      if !run.isEmpty && runLen + add > budget then do
        let child ← m.closeRun run
        if wrapper + entryLen c > budget then
          tooSmall
        else do
          let others ← planLoop m cap wrapper budget [c] (wrapper + entryLen c) rest
          .ok (child :: others)
      else if runLen + add > budget then
        tooSmall
      else
        planLoop m cap wrapper budget (run ++ [c]) (runLen + add) rest

/-- The children a manifest needs, or `none` when it fits as it is. -/
def planChildren [SerdeJson] (m : ChunkManifest) (cap : UInt64) :
    Except BlobError (Option (List ChunkManifest)) :=
  if m.chunkTier.isNone then
    .ok none
  else
    let budget := cap.toNat - atRestEnvelopeOverhead
    let flatLen := m.wrapperLen + (m.chunks.map entryLen).sum + (m.chunks.length - 1)
    if flatLen ≤ budget then
      .ok none
    else do
      let children ← m.planLoop cap m.wrapperLen budget [] m.wrapperLen m.chunks
      .ok (some children)

end ChunkManifest

/-!
## The estimate is an upper bound
-/

theorem utf8ByteSize_commas
    (pieces : List String) :
    (Json.commas pieces).utf8ByteSize =
      (pieces.map String.utf8ByteSize).sum + (pieces.length - 1) := by
  induction pieces with
  | nil => rfl
  | cons piece rest ih =>
      cases rest with
      | nil => simp [Json.commas]
      | cons next rest =>
          have hcomma : ",".utf8ByteSize = 1 := rfl
          have hsum : ((piece :: next :: rest).map String.utf8ByteSize).sum =
              piece.utf8ByteSize + ((next :: rest).map String.utf8ByteSize).sum := by
            rw [List.map_cons, List.sum_cons]
          have hlength : (piece :: next :: rest).length = (next :: rest).length + 1 := rfl
          have hpos : 0 < (next :: rest).length := Nat.succ_pos _
          rw [Json.commas, String.utf8ByteSize_append, String.utf8ByteSize_append, ih, hcomma, hsum,
            hlength]
          omega

theorem utf8ByteSize_repr
    (n : Nat) :
    n.repr.utf8ByteSize = n.repr.length := by
  have hdigits : forall cs : List Char, (forall c, c ∈ cs -> c.isDigit = true) ->
      (String.ofList cs).utf8ByteSize = cs.length := by
    intro cs
    induction cs with
    | nil =>
        intro _
        rfl
    | cons c rest ih =>
        intro hall
        have hsize : c.utf8Size = 1 := by
          have hdigit := Char.isDigit_iff_toNat.mp (hall c List.mem_cons_self)
          rw [Char.utf8Size_eq_one_iff, UInt32.le_iff_toNat_le]
          exact le_trans hdigit.2 (by decide)
        have hrest := ih fun d hd => hall d (List.mem_cons_of_mem _ hd)
        have hcons : String.ofList (c :: rest) = String.ofList [c] ++ String.ofList rest := by
          rw [← String.ofList_append]
          rfl
        have hone : (String.ofList [c]).utf8ByteSize = 1 := by
          simp [hsize]
        rw [hcons, String.utf8ByteSize_append, hone, hrest, List.length_cons]
        omega
  have htext : n.repr = String.ofList n.repr.toList := String.ofList_toList.symm
  have hall : forall c, c ∈ n.repr.toList -> c.isDigit = true :=
    fun c hc => Text.isDigit_of_mem_repr hc
  calc n.repr.utf8ByteSize = (String.ofList n.repr.toList).utf8ByteSize := by rw [← htext]
    _ = n.repr.toList.length := hdigits _ hall
    _ = n.repr.length := String.length_toList

theorem utf8ByteSize_u64_le
    (n : UInt64) :
    n.toNat.repr.utf8ByteSize ≤ u64Max.toNat.repr.utf8ByteSize := by
  have hmax : u64Max.toNat.repr.utf8ByteSize = 20 := by
    decide
  have hlt := n.toNat_lt
  rw [hmax, utf8ByteSize_repr, Nat.length_repr_le_iff (by decide)]
  omega

namespace ChunkManifest

theorem entryLen_eq
    {c : ChunkRef} (hseq : c.seq.isSome = true) :
    entryLen c = c.jcsText.utf8ByteSize := by
  rcases Option.isSome_iff_exists.mp hseq with ⟨seq, hseq⟩
  have hopen : "\x7b\"seq\":".utf8ByteSize = "\x7b".utf8ByteSize + "\"seq\":".utf8ByteSize := rfl
  have hsha : ",\"sha\":\"".utf8ByteSize = ",".utf8ByteSize + "\"sha\":\"".utf8ByteSize := rfl
  unfold entryLen ChunkRef.jcsText
  rw [hseq]
  cases c.epoch with
  | none =>
      simp only [String.utf8ByteSize_append, Option.getD_some, hopen, hsha,
        String.utf8ByteSize_empty]
      omega
  | some epoch =>
      simp only [String.utf8ByteSize_append, Option.getD_some, hopen, hsha]
      omega

def estimate (wrapper : Nat) (run : List ChunkRef) : Nat :=
  wrapper + (run.map entryLen).sum + (run.length - 1)

theorem size_le_estimate [SerdeJson]
    (m : ChunkManifest) (totalSize : UInt64) (run : List ChunkRef)
    (hseqs : forall c, c ∈ run -> c.seq.isSome = true) :
    { m with totalSize, chunks := run : ChunkManifest }.toJcsBytes.size ≤
      estimate m.wrapperLen run := by
  have hentries : (run.map entryLen).sum =
      ((run.map ChunkRef.jcsText).map String.utf8ByteSize).sum := by
    rw [List.map_map]
    congr 1
    exact List.map_congr_left fun c hc => entryLen_eq (hseqs c hc)
  have hdigits := utf8ByteSize_u64_le totalSize
  have hcommas := utf8ByteSize_commas (run.map ChunkRef.jcsText)
  rw [List.length_map, ← hentries] at hcommas
  have hempty : (Json.commas (([] : List ChunkRef).map ChunkRef.jcsText)).utf8ByteSize = 0 := rfl
  unfold estimate wrapperLen toJcsBytes
  show (jcsText _).utf8ByteSize ≤ (jcsText _).utf8ByteSize + _ + _
  -- the equation of the long text is slow to prove, its body is at hand
  delta jcsText
  simp only [String.utf8ByteSize_append, hcommas, hempty]
  omega

/-!
## What the plan gives
-/

theorem estimate_concat
    (wrapper : Nat) (run : List ChunkRef) (c : ChunkRef) :
    estimate wrapper (run ++ [c]) =
      estimate wrapper run + (entryLen c + if run.isEmpty then 0 else 1) := by
  unfold estimate
  cases run with
  | nil => simp
  | cons d rest =>
      simp only [List.map_append, List.sum_append, List.map_singleton, List.sum_singleton,
        List.length_append, List.length_cons, List.length_nil, List.isEmpty_cons,
        Bool.false_eq_true, if_false]
      omega

theorem closeRun_eq_ok_iff
    (m : ChunkManifest) (run : List ChunkRef) (child : ChunkManifest) :
    m.closeRun run = .ok child <->
      child = { m with totalSize := child.totalSize, chunks := run } ∧
        content run = child.totalSize.toNat := by
  simp only [closeRun, Checks.bind_eq_ok_iff, Checked.sum_eq_ok_iff, sum_sizes]
  constructor
  · rintro ⟨totalSize, htotal, hchild⟩
    cases hchild
    exact ⟨rfl, htotal⟩
  · rintro ⟨hchild, htotal⟩
    exact ⟨child.totalSize, htotal, by rw [← hchild]⟩

structure Planned (m : ChunkManifest) (wrapper budget : Nat) (child : ChunkManifest) : Prop where
  nonempty : child.chunks ≠ []
  fits : estimate wrapper child.chunks ≤ budget
  closed : m.closeRun child.chunks = .ok child

theorem planned_of_closeRun
    {m child : ChunkManifest} {wrapper budget : Nat} {run : List ChunkRef}
    (hclose : m.closeRun run = .ok child) (hrun : run ≠ [])
    (hfits : estimate wrapper run ≤ budget) :
    child.chunks = run ∧ Planned m wrapper budget child := by
  have hchunks : child.chunks = run := by
    rw [((closeRun_eq_ok_iff m run child).mp hclose).1]
  exact ⟨hchunks, by rw [hchunks]; exact hrun, by rw [hchunks]; exact hfits,
    by rw [hchunks]; exact hclose⟩

theorem planLoop_eq_ok
    {m : ChunkManifest} {cap : UInt64} {wrapper budget : Nat} (rest run : List ChunkRef)
    (children : List ChunkManifest) (hfits : run ≠ [] -> estimate wrapper run ≤ budget)
    (h : m.planLoop cap wrapper budget run (estimate wrapper run) rest = .ok children) :
    children.flatMap ChunkManifest.chunks = run ++ rest ∧
      forall child, child ∈ children -> Planned m wrapper budget child := by
  induction rest generalizing run children with
  | nil =>
      rw [planLoop] at h
      split at h
      · rename_i hempty
        cases h
        rw [List.isEmpty_iff.mp hempty]
        exact ⟨rfl, nofun⟩
      · rename_i hopen
        rw [List.isEmpty_iff] at hopen
        rcases Checks.bind_eq_ok_iff.mp h with ⟨child, hclose, hchildren⟩
        cases hchildren
        rcases planned_of_closeRun hclose hopen (hfits hopen) with ⟨hchunks, hplanned⟩
        refine ⟨by simp [hchunks], ?_⟩
        intro other hother
        rw [List.mem_singleton.mp hother]
        exact hplanned
  | cons c rest ih =>
      rw [planLoop, ← estimate_concat] at h
      split at h
      · -- the run is closed and the chunk opens the next one
        rename_i hfull
        have hopen : run ≠ [] := by
          rintro rfl
          simp at hfull
        rcases Checks.bind_eq_ok_iff.mp h with ⟨child, hclose, hrest⟩
        split at hrest
        · cases hrest
        · rename_i hroom
          have hsingle : estimate wrapper [c] = wrapper + entryLen c := by
            simp [estimate]
          rw [← hsingle] at hrest hroom
          rcases Checks.bind_eq_ok_iff.mp hrest with ⟨others, hothers, hchildren⟩
          cases hchildren
          rcases ih [c] others (fun _ => by omega) hothers with ⟨hflat, hall⟩
          rcases planned_of_closeRun hclose hopen (hfits hopen) with ⟨hchunks, hplanned⟩
          refine ⟨by rw [List.flatMap_cons, hchunks, hflat, List.singleton_append], ?_⟩
          intro other hother
          rcases List.mem_cons.mp hother with rfl | hother
          · exact hplanned
          · exact hall other hother
      · split at h
        · cases h
        · rename_i hroom
          rcases ih (run ++ [c]) children (fun _ => by omega) h with ⟨hflat, hall⟩
          exact ⟨by rw [hflat, List.append_assoc, List.singleton_append], hall⟩

theorem planChildren_eq_some
    [SerdeJson] {m : ChunkManifest} {cap : UInt64} {children : List ChunkManifest}
    (h : m.planChildren cap = .ok (some children)) :
    children.flatMap ChunkManifest.chunks = m.chunks ∧
      forall child, child ∈ children ->
        Planned m m.wrapperLen (cap.toNat - atRestEnvelopeOverhead) child := by
  unfold planChildren at h
  split at h
  · cases h
  · simp only at h
    split at h
    · cases h
    · rcases Checks.bind_eq_ok_iff.mp h with ⟨planned, hloop, hplanned⟩
      cases hplanned
      have hempty : estimate m.wrapperLen [] = m.wrapperLen := by
        simp [estimate]
      have hloop' : m.planLoop cap m.wrapperLen (cap.toNat - atRestEnvelopeOverhead) []
          (estimate m.wrapperLen []) m.chunks = .ok children := by
        rw [hempty, hloop]
      simpa using planLoop_eq_ok m.chunks [] children (fun hne => absurd rfl hne) hloop'

end ChunkManifest

/-!
## Sealing the children

Each child is sealed under its own key, bound to its index in the stream, and the root
lists what was sealed.  The sealing itself is another crate's.
-/

structure ManifestChildRow where
  index : UInt64
  sha256 : Sha256
  body : ByteArray

section Sealing

variable [SerdeJson] [Sha256Hash] [AtRestSeal]

structure SealedChild where
  entry : ManifestChildRef
  row : ManifestChildRow
  item : Sha256 × Dek

def sealChild (streamId : String) (callerAad : Option (List UInt8))
    (dekFor : UInt64 -> Except BlobError Dek) (i : Nat) (child : ChunkManifest) :
    Except BlobError SealedChild := do
  let index := UInt64.ofNat i
  let dek ← dekFor index
  let body ← AtRestSeal.sealBytes dek child.toJcsBytes (manifestChildAad callerAad streamId index)
  let sha := Sha256Hash.digest body
  match child.chunks.head?.bind ChunkRef.seq, child.chunks.getLast?.bind ChunkRef.seq with
  | some firstSeq, some lastSeq =>
      .ok
        { entry :=
            { chunkCount := UInt64.ofNat child.chunks.length, firstSeq, lastSeq, sha,
              size := child.totalSize }
          row := { index, sha256 := sha, body }
          item := (sha, dek) }
  | _, _ =>
      .error (.backend "seal_stream_scoped: a planned child lists no positioned chunk")

def sealLoop (streamId : String) (callerAad : Option (List UInt8))
    (dekFor : UInt64 -> Except BlobError Dek) :
    Nat -> List ChunkManifest -> Except BlobError (List SealedChild)
  | _, [] => .ok []
  | i, child :: rest => do
      let first ← sealChild streamId callerAad dekFor i child
      let others ← sealLoop streamId callerAad dekFor (i + 1) rest
      .ok (first :: others)

def sealChildren (children : List ChunkManifest) (streamId : String) (tier : CryptoTier)
    (callerAad : Option (List UInt8)) (dekFor : UInt64 -> Except BlobError Dek) :
    Except BlobError (ByteArray × List ManifestChildRow × List (Sha256 × Dek)) := do
  let sealedChildren ← sealLoop streamId callerAad dekFor 0 children
  let entries := sealedChildren.map SealedChild.entry
  let totalSize ← Checked.sum (entries.map ManifestChildRef.size)
  let root : NestedManifest := { totalSize, chunkTier := tier, streamId, children := entries }
  root.validate
  .ok (root.toJcsBytes, sealedChildren.map SealedChild.row, sealedChildren.map SealedChild.item)

structure Describes (entry : ManifestChildRef) (child : ChunkManifest) : Prop where
  count : UInt64.ofNat child.chunks.length = entry.chunkCount
  first : child.chunks.head?.bind ChunkRef.seq = some entry.firstSeq
  last : child.chunks.getLast?.bind ChunkRef.seq = some entry.lastSeq
  size : child.totalSize = entry.size

def Seals (streamId : String) (callerAad : Option (List UInt8))
    (dekFor : UInt64 -> Except BlobError Dek) (i : Nat) (child : ChunkManifest) : Prop :=
  exists dek body, dekFor (UInt64.ofNat i) = .ok dek ∧
    AtRestSeal.sealBytes dek child.toJcsBytes
      (manifestChildAad callerAad streamId (UInt64.ofNat i)) = .ok body

theorem exists_sealChild
    {streamId : String} {callerAad : Option (List UInt8)}
    {dekFor : UInt64 -> Except BlobError Dek} {i : Nat} {child : ChunkManifest}
    (hseals : Seals streamId callerAad dekFor i child) {firstSeq lastSeq : UInt64}
    (hfirst : child.chunks.head?.bind ChunkRef.seq = some firstSeq)
    (hlast : child.chunks.getLast?.bind ChunkRef.seq = some lastSeq) :
    exists out, sealChild streamId callerAad dekFor i child = .ok out ∧
      Describes out.entry child := by
  rcases hseals with ⟨dek, body, hdek, hbody⟩
  simp only [sealChild, hdek, hbody, hfirst, hlast, bind, Except.bind]
  exact ⟨_, rfl, rfl, hfirst, hlast, rfl⟩

theorem exists_sealLoop
    {streamId : String} {callerAad : Option (List UInt8)}
    {dekFor : UInt64 -> Except BlobError Dek} (children : List ChunkManifest)
    (hchildren : forall child, child ∈ children ->
      exists firstSeq lastSeq, child.chunks.head?.bind ChunkRef.seq = some firstSeq ∧
        child.chunks.getLast?.bind ChunkRef.seq = some lastSeq) :
    forall i, (forall k child, children[k]? = some child ->
        Seals streamId callerAad dekFor (i + k) child) ->
      exists out, sealLoop streamId callerAad dekFor i children = .ok out ∧
        List.Forall₂ Describes (out.map SealedChild.entry) children := by
  induction children with
  | nil =>
      intro i _
      exact ⟨[], rfl, .nil⟩
  | cons child rest ih =>
      intro i hseals
      rcases hchildren child List.mem_cons_self with ⟨firstSeq, lastSeq, hfirst, hlast⟩
      rcases exists_sealChild (hseals 0 child rfl) hfirst hlast with ⟨first, hok, hdescribes⟩
      have hrest : forall k other, rest[k]? = some other ->
          Seals streamId callerAad dekFor (i + 1 + k) other := by
        intro k other hother
        rw [Nat.add_assoc, Nat.add_comm 1 k]
        exact hseals (k + 1) other (by rw [List.getElem?_cons_succ, hother])
      rcases ih (fun x hx => hchildren x (List.mem_cons_of_mem _ hx)) (i + 1) hrest with
        ⟨others, hothers, hall⟩
      refine ⟨first :: others, ?_, .cons hdescribes hall⟩
      rw [Nat.add_zero] at hok
      rw [sealLoop, hok, hothers]
      rfl

end Sealing

/-!
## The positions of the children
-/

def SeqLt (c d : ChunkRef) : Prop :=
  exists a b, c.seq = some a ∧ d.seq = some b ∧ a < b

theorem Positioned.pairwise
    {chunks : List ChunkRef} (h : Positioned chunks) :
    chunks.Pairwise SeqLt := by
  rcases h with ⟨positions, hseqs, hpairs⟩
  have hmap : (chunks.map ChunkRef.seq).Pairwise fun x y =>
      exists a b, x = some a ∧ y = some b ∧ a < b := by
    rw [hseqs, List.pairwise_map]
    exact hpairs.imp fun {a b} hlt => ⟨a, b, rfl, rfl, hlt⟩
  rw [List.pairwise_map] at hmap
  exact hmap

theorem Positioned.isSome_seq
    {chunks : List ChunkRef} (h : Positioned chunks) {c : ChunkRef} (hc : c ∈ chunks) :
    c.seq.isSome = true := by
  rcases h with ⟨positions, hseqs, -⟩
  have hmem : c.seq ∈ positions.map some := by
    rw [← hseqs]
    exact List.mem_map_of_mem hc
  rcases List.mem_map.mp hmem with ⟨position, -, hposition⟩
  rw [← hposition]
  rfl

theorem first_le_last
    {chunks : List ChunkRef} (hpairs : chunks.Pairwise SeqLt) {first last : UInt64}
    (hfirst : chunks.head?.bind ChunkRef.seq = some first)
    (hlast : chunks.getLast?.bind ChunkRef.seq = some last) :
    first ≤ last := by
  cases chunks with
  | nil => cases hfirst
  | cons c rest =>
      rw [List.head?_cons, Option.bind_some] at hfirst
      cases hrest : rest.getLast? with
      | none =>
          rw [List.getLast?_eq_none_iff] at hrest
          subst hrest
          rw [List.getLast?_singleton, Option.bind_some, hfirst] at hlast
          cases hlast
          exact UInt64.le_refl first
      | some d =>
          rw [List.getLast?_cons, hrest, Option.getD_some, Option.bind_some] at hlast
          rcases (List.pairwise_cons.mp hpairs).1 d (List.mem_of_getLast? hrest) with
            ⟨a, b, ha, hb, hlt⟩
          rw [hfirst] at ha
          rw [hlast] at hb
          cases ha
          cases hb
          exact UInt64.le_of_lt hlt

variable {children : List ChunkManifest}

theorem runs_of_describes
    {entries : List ManifestChildRef} (hdescribe : List.Forall₂ Describes entries children)
    (hinner : forall child, child ∈ children -> child.chunks.Pairwise SeqLt)
    (houter : children.Pairwise fun a b =>
      forall c, c ∈ a.chunks -> forall d, d ∈ b.chunks -> SeqLt c d)
    (hcount : forall child, child ∈ children -> UInt64.ofNat child.chunks.length ≠ 0) :
    NestedManifest.Runs entries := by
  induction hdescribe with
  | nil => exact ⟨nofun, List.Pairwise.nil⟩
  | @cons entry child entries children hentry hrest ih =>
      rw [List.pairwise_cons] at houter
      rcases ih (fun x hx => hinner x (List.mem_cons_of_mem _ hx)) houter.2
        (fun x hx => hcount x (List.mem_cons_of_mem _ hx)) with ⟨hshape, hpairs⟩
      constructor
      · intro e he
        rcases List.mem_cons.mp he with rfl | he
        · refine ⟨?_, first_le_last (hinner child List.mem_cons_self) hentry.first hentry.last⟩
          rw [← hentry.count]
          exact hcount child List.mem_cons_self
        · exact hshape e he
      · refine List.pairwise_cons.mpr ⟨?_, hpairs⟩
        intro e he
        rcases List.mem_iff_getElem?.mp he with ⟨i, hi⟩
        rcases List.getElem?_eq_some_iff.mp hi with ⟨hlt, hget⟩
        have hlt' : i < children.length := by
          rw [← hrest.length_eq]
          exact hlt
        have hnext : Describes e (children.get ⟨i, hlt'⟩) := by
          rw [← hget]
          exact (List.forall₂_iff_get.mp hrest).2 i hlt hlt'
        have hafter := houter.1 (children.get ⟨i, hlt'⟩) (List.get_mem _ _)
        rcases Option.bind_eq_some_iff.mp hentry.last with ⟨c, hc, hcseq⟩
        rcases Option.bind_eq_some_iff.mp hnext.first with ⟨d, hd, hdseq⟩
        rcases hafter c (List.mem_of_getLast? hc) d (List.mem_of_head? hd) with ⟨a, b, ha, hb, hab⟩
        rw [hcseq] at ha
        rw [hdseq] at hb
        cases ha
        cases hb
        exact hab

/-!
## The plan loses nothing
-/

namespace ChunkManifest

theorem one_le_entryLen
    (c : ChunkRef) :
    1 ≤ entryLen c := by
  have hopen : "\x7b\"seq\":".utf8ByteSize = 7 := rfl
  unfold entryLen
  simp only [String.utf8ByteSize_append, hopen]
  omega

theorem length_le_estimate
    (wrapper : Nat) (run : List ChunkRef) :
    run.length ≤ estimate wrapper run := by
  have hsum : run.length ≤ (run.map entryLen).sum := by
    induction run with
    | nil => exact Nat.le_refl 0
    | cons c rest ih =>
        have hentry := one_le_entryLen c
        rw [List.length_cons, List.map_cons, List.sum_cons]
        omega
  unfold estimate
  omega

theorem size_le_cap [SerdeJson]
    {m : ChunkManifest} {cap : UInt64} (totalSize : UInt64) {run : List ChunkRef} (hrun : run ≠ [])
    (hseqs : forall c, c ∈ run -> c.seq.isSome = true)
    (hfits : estimate m.wrapperLen run ≤ cap.toNat - atRestEnvelopeOverhead) :
    { m with totalSize, chunks := run : ChunkManifest }.toJcsBytes.size + atRestEnvelopeOverhead ≤
      cap.toNat := by
  have hsize := m.size_le_estimate totalSize run hseqs
  have hlength := length_le_estimate m.wrapperLen run
  have hpos := List.length_pos_of_ne_nil hrun
  omega

theorem size_le_cap_of_planChildren_eq_none [SerdeJson]
    {m : ChunkManifest} {cap : UInt64} (h : m.planChildren cap = .ok none)
    (htier : m.chunkTier.isSome = true) (hchunks : m.chunks ≠ [])
    (hseqs : forall c, c ∈ m.chunks -> c.seq.isSome = true) :
    m.toJcsBytes.size + atRestEnvelopeOverhead ≤ cap.toNat := by
  unfold planChildren at h
  rw [if_neg (by simpa using Option.isSome_iff_ne_none.mp htier)] at h
  simp only at h
  split at h
  · rename_i hfits
    exact size_le_cap (m := m) m.totalSize hchunks hseqs hfits
  · rcases Checks.bind_eq_ok_iff.mp h with ⟨children, -, hnone⟩
    cases hnone

end ChunkManifest

theorem exists_ends
    {chunks : List ChunkRef} (hne : chunks ≠ [])
    (hseqs : forall c, c ∈ chunks -> c.seq.isSome = true) :
    exists firstSeq lastSeq, chunks.head?.bind ChunkRef.seq = some firstSeq ∧
      chunks.getLast?.bind ChunkRef.seq = some lastSeq := by
  rcases Option.isSome_iff_exists.mp (hseqs _ (List.head_mem hne)) with ⟨firstSeq, hfirst⟩
  rcases Option.isSome_iff_exists.mp (hseqs _ (List.getLast_mem hne)) with ⟨lastSeq, hlast⟩
  refine ⟨firstSeq, lastSeq, ?_, ?_⟩
  · rw [List.head?_eq_some_head hne, Option.bind_some, hfirst]
  · rw [List.getLast?_eq_some_getLast hne, Option.bind_some, hlast]

variable {m : ChunkManifest} {cap : UInt64}

theorem ChunkManifest.Planned.count_ne_zero
    {child : ChunkManifest} {wrapper : Nat}
    (h : m.Planned wrapper (cap.toNat - atRestEnvelopeOverhead) child) :
    UInt64.ofNat child.chunks.length ≠ 0 := by
  intro hzero
  have hfits := h.fits
  have hlength := length_le_estimate wrapper child.chunks
  have hpos := List.length_pos_of_ne_nil h.nonempty
  have hcap := cap.toNat_lt
  have hnat : (UInt64.ofNat child.chunks.length).toNat = 0 := by
    rw [hzero]
    rfl
  rw [UInt64.toNat_ofNat', Nat.mod_eq_of_lt (by omega)] at hnat
  omega

theorem sum_sizes_of_describes
    {entries : List ManifestChildRef} (hdescribe : List.Forall₂ Describes entries children) :
    (entries.map fun e => e.size.toNat) = children.map fun child => child.totalSize.toNat := by
  induction hdescribe with
  | nil => rfl
  | cons hentry _ ih => rw [List.map_cons, List.map_cons, ih, hentry.size]

theorem checkChild_of_describes
    {root : NestedManifest} {wrapper budget : Nat}
    (hdescribe : List.Forall₂ Describes root.children children)
    (hversion : m.v = chunkManifestVersionSealed ∨ m.v = chunkManifestVersionStream)
    (htier : m.chunkTier = some root.chunkTier) (hstream : m.streamId = some root.streamId)
    (hplanned : forall child, child ∈ children -> m.Planned wrapper budget child) {i : Nat}
    {child : ChunkManifest} (hchild : children[i]? = some child) :
    root.checkChild i child = .ok () := by
  rcases List.getElem?_eq_some_iff.mp hchild with ⟨hlt, hget⟩
  have hlt' : i < root.children.length := by
    rw [hdescribe.length_eq]
    exact hlt
  have hentry : Describes (root.children.get ⟨i, hlt'⟩) child := by
    rw [← hget]
    exact (List.forall₂_iff_get.mp hdescribe).2 i hlt' hlt
  rcases (ChunkManifest.closeRun_eq_ok_iff m _ child).mp
    (hplanned child (List.mem_of_getElem? hchild)).closed with ⟨heq, htotal⟩
  rw [NestedManifest.checkChild_iff]
  refine ⟨root.children.get ⟨i, hlt'⟩, List.getElem?_eq_getElem hlt', ?_, ?_, ?_, hentry.count,
    hentry.first, hentry.last, hentry.size, htotal⟩
  · rw [heq]
    exact hversion
  · rw [heq]
    exact htier
  · rw [heq]
    exact hstream

section Roots

variable [SerdeJson]

theorem sum_totals
    (hplan : m.planChildren cap = .ok (some children)) :
    (children.map fun child => child.totalSize.toNat).sum = ChunkManifest.content m.chunks := by
  rcases ChunkManifest.planChildren_eq_some hplan with ⟨hflat, hplanned⟩
  rw [← hflat, ChunkManifest.content_flatMap]
  congr 1
  apply List.map_congr_left
  intro child hchild
  exact ((ChunkManifest.closeRun_eq_ok_iff m _ child).mp (hplanned child hchild).closed).2.symm

variable [Sha256Hash] [AtRestSeal]

theorem exists_sealChildren
    (tier : CryptoTier) {streamId : String} (hplan : m.planChildren cap = .ok (some children))
    (hchunks : m.chunks ≠ []) (hseqs : Positioned m.chunks)
    (htotal : ChunkManifest.content m.chunks = m.totalSize.toNat) {callerAad : Option (List UInt8)}
    {dekFor : UInt64 -> Except BlobError Dek}
    (hseals : forall i child, children[i]? = some child -> Seals streamId callerAad dekFor i child) :
    exists root rows items,
      sealChildren children streamId tier callerAad dekFor =
        .ok (NestedManifest.toJcsBytes root, rows, items) ∧
      root.validate = .ok () ∧ root.chunkTier = tier ∧ root.streamId = streamId ∧
      List.Forall₂ Describes root.children children := by
  rcases ChunkManifest.planChildren_eq_some hplan with ⟨hflat, hplanned⟩
  have hmem : forall child, child ∈ children -> forall c, c ∈ child.chunks -> c ∈ m.chunks := by
    intro child hchild c hc
    rw [← hflat]
    exact List.mem_flatMap.mpr ⟨child, hchild, hc⟩
  have hpairs := hseqs.pairwise
  rw [← hflat, List.flatMap, List.pairwise_flatten, List.forall_mem_map, List.pairwise_map] at hpairs
  rcases hpairs with ⟨hinner, houter⟩
  have hends : forall child, child ∈ children ->
      exists firstSeq lastSeq, child.chunks.head?.bind ChunkRef.seq = some firstSeq ∧
        child.chunks.getLast?.bind ChunkRef.seq = some lastSeq := fun child hchild =>
    exists_ends (hplanned child hchild).nonempty
      fun c hc => hseqs.isSome_seq (hmem child hchild c hc)
  rcases exists_sealLoop children hends 0 (fun k child hk => by
    rw [Nat.zero_add]
    exact hseals k child hk) with ⟨out, hloop, hdescribe⟩
  have hsum : ((out.map SealedChild.entry).map fun e => e.size.toNat).sum = m.totalSize.toNat := by
    rw [sum_sizes_of_describes hdescribe, sum_totals hplan, htotal]
  have hchecked : Checked.sum ((out.map SealedChild.entry).map ManifestChildRef.size) =
      .ok m.totalSize := by
    rw [Checked.sum_eq_ok_iff, List.map_map]
    exact hsum
  have hentries : out.map SealedChild.entry ≠ [] := by
    intro hnil
    rw [hnil] at hdescribe
    cases hdescribe
    exact hchunks hflat.symm
  have hvalid : NestedManifest.validate
      { totalSize := m.totalSize, chunkTier := tier, streamId,
        children := out.map SealedChild.entry } = .ok () := by
    rw [NestedManifest.validate_iff]
    exact ⟨hentries, runs_of_describes hdescribe hinner houter
      fun child hchild => (hplanned child hchild).count_ne_zero, hsum⟩
  refine ⟨_, out.map SealedChild.row, out.map SealedChild.item, ?_, hvalid, rfl, rfl, hdescribe⟩
  simp only [sealChildren, hloop, hchecked, hvalid, bind, Except.bind]

/-- Cutting a manifest into children loses nothing: the children hold its chunks, each
fits the cap, and the root sealed over them validates and checks every one of them.  A
manifest that is not cut fits as it is. -/
theorem planned_children_validate
    (m : ChunkManifest) (cap : UInt64) (tier : CryptoTier) (streamId : String)
    (hversion : m.v = chunkManifestVersionSealed ∨ m.v = chunkManifestVersionStream)
    (htier : m.chunkTier = some tier) (hstream : m.streamId = some streamId)
    (hchunks : m.chunks ≠ []) (hseqs : Positioned m.chunks)
    (htotal : ChunkManifest.content m.chunks = m.totalSize.toNat) :
    (forall children, m.planChildren cap = .ok (some children) ->
      children.flatMap ChunkManifest.chunks = m.chunks ∧
      (forall child, child ∈ children -> child.chunks ≠ [] ∧
        child.toJcsBytes.size + atRestEnvelopeOverhead ≤ cap.toNat) ∧
      (children.map fun child => child.totalSize.toNat).sum = m.totalSize.toNat ∧
      forall callerAad dekFor,
        (forall i child, children[i]? = some child -> Seals streamId callerAad dekFor i child) ->
        exists root rows items,
          sealChildren children streamId tier callerAad dekFor =
            .ok (NestedManifest.toJcsBytes root, rows, items) ∧
          root.validate = .ok () ∧
          forall i child, children[i]? = some child -> root.checkChild i child = .ok ()) ∧
    (m.planChildren cap = .ok none ->
      m.toJcsBytes.size + atRestEnvelopeOverhead ≤ cap.toNat) := by
  constructor
  · intro children hplan
    rcases ChunkManifest.planChildren_eq_some hplan with ⟨hflat, hplanned⟩
    refine ⟨hflat, ?_, by rw [sum_totals hplan, htotal], ?_⟩
    · intro child hchild
      have hplannedChild := hplanned child hchild
      refine ⟨hplannedChild.nonempty, ?_⟩
      rw [((ChunkManifest.closeRun_eq_ok_iff m _ child).mp hplannedChild.closed).1]
      apply ChunkManifest.size_le_cap _ hplannedChild.nonempty _ hplannedChild.fits
      intro c hc
      apply hseqs.isSome_seq
      rw [← hflat]
      exact List.mem_flatMap.mpr ⟨child, hchild, hc⟩
    · intro callerAad dekFor hseals
      rcases exists_sealChildren tier hplan hchunks hseqs htotal hseals with
        ⟨root, rows, items, hroot, hvalid, rfl, rfl, hdescribe⟩
      exact ⟨root, rows, items, hroot, hvalid, fun i child hchild =>
        checkChild_of_describes hdescribe hversion htier hstream hplanned hchild⟩
  · intro hplan
    exact ChunkManifest.size_le_cap_of_planChildren_eq_none hplan (by rw [htier]; rfl) hchunks
      fun c hc => hseqs.isSome_seq hc

end Roots

def cutManifest : ChunkManifest where
  v := 2
  totalSize := 5
  chunks := [⟨.zero, 2, some 7, none⟩, ⟨.zero, 3, some 9, none⟩]
  chunkTier := some .communityDek
  streamId := some "s"

def cutChildren : List ChunkManifest :=
  [{ cutManifest with totalSize := 2, chunks := [⟨.zero, 2, some 7, none⟩] },
    { cutManifest with totalSize := 3, chunks := [⟨.zero, 3, some 9, none⟩] }]

open Reference in
theorem cutManifest_in_two :
    cutManifest.planChildren 300 = .ok (some cutChildren) ∧
      (forall child, child ∈ cutChildren -> child.chunks ≠ [] ∧
        child.toJcsBytes.size + atRestEnvelopeOverhead ≤ 300) ∧
      exists root rows items,
        sealChildren cutChildren "s" .communityDek none (fun _ => .ok Dek.zero) =
          .ok (NestedManifest.toJcsBytes root, rows, items) ∧
        root.validate = .ok () ∧
        forall i child, cutChildren[i]? = some child -> root.checkChild i child = .ok () := by
  have hplan : cutManifest.planChildren 300 = .ok (some cutChildren) := by
    decide +kernel
  rcases (planned_children_validate cutManifest 300 .communityDek "s" (.inl rfl) rfl rfl nofun
    ⟨[7, 9], rfl, by decide⟩ rfl).1 cutChildren hplan with ⟨-, hfits, -, hroot⟩
  exact ⟨hplan, hfits, hroot none (fun _ => .ok Dek.zero) fun _ child _ =>
    ⟨Dek.zero, child.toJcsBytes, rfl, rfl⟩⟩

end CirisPersist.Federation
