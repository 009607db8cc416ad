import CirisPersist.Base.Hex
import CirisPersist.Base.Serde
import CirisPersist.Library.Checks

/-!
# Chunk DAG manifests

A blob above the inline cap is stored as chunks and a manifest over them.  A flat
manifest lists its chunks: version 1 for a plaintext DAG, version 2 for a sealed one,
version 4 for one sealed under a key per stream epoch.  A sealed manifest that would
not fit the cap is cut into children, and version 3 is the root that lists them.

Sizes and positions have the source's widths.  The release profile checks arithmetic,
so an overflow is a panic; the model has it as an error no function of the source
returns, and a result that says `ok` says that no step overflowed.
-/

namespace CirisPersist.Federation

inductive CryptoTier where
  | invisibleEncrypted
  | communityDek
  | plaintext
deriving DecidableEq

def CryptoTier.asStr : CryptoTier -> String
  | plaintext => "plaintext"
  | invisibleEncrypted => "invisible_encrypted"
  | communityDek => "community_dek"

def CryptoTier.parseStr (s : String) : Option CryptoTier :=
  if s = "plaintext" then some plaintext
  else if s = "invisible_encrypted" then some invisibleEncrypted
  else if s = "community_dek" then some communityDek
  else none

@[simp]
theorem CryptoTier.parseStr_asStr
    (tier : CryptoTier) :
    parseStr tier.asStr = some tier := by
  cases tier <;> rfl

inductive StreamRotationReason where
  | removal
  | cap
deriving DecidableEq

inductive BlobError where
  | invalidArgument (message : String)
  | backend (message : String)
  | inlineSizeExceeded (size cap : Nat)
  | hashMismatch (expectedHex gotHex : String)
  | purged (sha256Hex noticeId : String)
  | epochNotCurrent (communityKeyId : String) (epoch : UInt64)
  | streamEpochDekMissing (streamId : String) (epoch : UInt64)
  | streamEpochRotationRequired (streamId : String) (epoch : UInt64)
      (reason : StreamRotationReason) (removedKeyId : Option String)
  | streamEpochDekExists (streamId : String) (epoch : UInt64)
  | streamNotAuthored (streamId : String)
  /-- Arithmetic overflow: a panic, never an answer of the source. -/
  | overflowPanic
deriving DecidableEq

/-!
## Checked arithmetic
-/

namespace Checked

def add (a b : UInt64) : Except BlobError UInt64 :=
  if a.toNat + b.toNat < 2 ^ 64 then .ok (a + b) else .error .overflowPanic

def sub (a b : UInt64) : Except BlobError UInt64 :=
  if b ≤ a then .ok (a - b) else .error .overflowPanic

def sumFrom : UInt64 -> List UInt64 -> Except BlobError UInt64
  | acc, [] => .ok acc
  | acc, n :: rest => do
      let next ← add acc n
      sumFrom next rest

def sum (values : List UInt64) : Except BlobError UInt64 :=
  sumFrom 0 values

variable {a b : UInt64}

theorem add_eq_ok_iff
    {c : UInt64} :
    add a b = .ok c <-> a.toNat + b.toNat = c.toNat := by
  unfold add
  have hc := c.toNat_lt
  constructor
  · intro h
    split at h
    · cases h
      rename_i hlt
      rw [UInt64.toNat_add, Nat.mod_eq_of_lt hlt]
    · cases h
  · intro h
    have hlt : a.toNat + b.toNat < 2 ^ 64 := by omega
    rw [if_pos hlt]
    congr 1
    rw [← UInt64.toNat_inj, UInt64.toNat_add, Nat.mod_eq_of_lt hlt, h]

theorem exists_add_eq_ok
    (h : a.toNat + b.toNat < 2 ^ 64) :
    exists c, add a b = .ok c ∧ c.toNat = a.toNat + b.toNat := by
  refine ⟨a + b, if_pos h, ?_⟩
  rw [UInt64.toNat_add, Nat.mod_eq_of_lt h]

theorem exists_sub_eq_ok
    (h : b.toNat ≤ a.toNat) :
    exists c, sub a b = .ok c ∧ c.toNat = a.toNat - b.toNat := by
  have hle : b ≤ a := UInt64.le_iff_toNat_le.mpr h
  exact ⟨a - b, if_pos hle, UInt64.toNat_sub_of_le _ _ hle⟩

def saturatingSub (a b : UInt64) : UInt64 :=
  if b ≤ a then a - b else 0

theorem toNat_saturatingSub
    (a b : UInt64) :
    (saturatingSub a b).toNat = a.toNat - b.toNat := by
  unfold saturatingSub
  split
  · rename_i hle
    exact UInt64.toNat_sub_of_le _ _ hle
  · rename_i hlt
    have hlt' := UInt64.lt_iff_toNat_lt.mp (UInt64.not_le.mp hlt)
    rw [UInt64.toNat_zero]
    omega

theorem sumFrom_eq_ok_iff
    (values : List UInt64) {acc total : UInt64} :
    sumFrom acc values = .ok total <-> acc.toNat + (values.map UInt64.toNat).sum = total.toNat := by
  induction values generalizing acc total with
  | nil => simp [sumFrom, UInt64.toNat_inj]
  | cons n rest ih =>
      rw [sumFrom, List.map_cons, List.sum_cons]
      have htotal := total.toNat_lt
      simp only [Checks.bind_eq_ok_iff, add_eq_ok_iff, ih]
      constructor
      · rintro ⟨next, hnext, hrest⟩
        omega
      · intro h
        rcases exists_add_eq_ok (a := acc) (b := n) (by omega) with ⟨next, -, hnext⟩
        exact ⟨next, hnext.symm, by omega⟩

theorem sum_eq_ok_iff
    {values : List UInt64} {total : UInt64} :
    sum values = .ok total <-> (values.map UInt64.toNat).sum = total.toNat := by
  rw [sum, sumFrom_eq_ok_iff]
  simp

end Checked

/-!
## Flat manifests
-/

structure ChunkRef where
  sha : Sha256
  size : UInt32
  seq : Option UInt64
  epoch : Option UInt64
deriving DecidableEq

structure ChunkManifest where
  v : UInt32
  totalSize : UInt64
  chunks : List ChunkRef
  chunkTier : Option CryptoTier
  streamId : Option String
deriving DecidableEq

def chunkManifestVersion : UInt32 := 1

def chunkManifestVersionSealed : UInt32 := 2

def chunkManifestVersionNested : UInt32 := 3

def chunkManifestVersionStream : UInt32 := 4

def chunkKeysStreamEpoch : String := "stream_epoch"

def ChunkRef.jcsText (c : ChunkRef) : String :=
  "\x7b" ++
    (match c.epoch with
      | some epoch => "\"epoch\":" ++ epoch.toNat.repr ++ ","
      | none => "") ++
    (match c.seq with
      | some seq => "\"seq\":" ++ seq.toNat.repr ++ ","
      | none => "") ++
    "\"sha\":\"" ++ c.sha.hex ++ "\",\"size\":" ++ c.size.toNat.repr ++ "\x7d"

namespace ChunkManifest

def jcsText [SerdeJson] (m : ChunkManifest) : String :=
  "\x7b" ++
    (if m.v = chunkManifestVersionStream then
      "\"chunk_keys\":\"" ++ chunkKeysStreamEpoch ++ "\","
    else
      "") ++
    (match m.chunkTier with
      | some tier => "\"chunk_tier\":\"" ++ tier.asStr ++ "\","
      | none => "") ++
    "\"chunks\":[" ++ Json.commas (m.chunks.map ChunkRef.jcsText) ++ "]" ++
    (match m.streamId with
      | some streamId => ",\"stream_id\":" ++ SerdeJson.quote streamId
      | none => "") ++
    ",\"total_size\":" ++ m.totalSize.toNat.repr ++ ",\"v\":" ++ m.v.toNat.repr ++ "\x7d"

def toJcsBytes [SerdeJson] (m : ChunkManifest) : ByteArray :=
  m.jcsText.toUTF8

def sizes (chunks : List ChunkRef) : List UInt64 :=
  chunks.map fun c => c.size.toUInt64

def validateTotalSize (m : ChunkManifest) : Except BlobError Unit := do
  let sum ← Checked.sum (sizes m.chunks)
  if sum ≠ m.totalSize then
    .error (.invalidArgument ("chunk_dag manifest total_size " ++ m.totalSize.toNat.repr ++
      " != sum of chunk sizes " ++ sum.toNat.repr))
  else
    .ok ()

def content (chunks : List ChunkRef) : Nat :=
  (chunks.map fun c => c.size.toNat).sum

theorem sum_sizes
    (chunks : List ChunkRef) :
    ((sizes chunks).map UInt64.toNat).sum = content chunks := by
  simp [sizes, content, Function.comp_def]

theorem content_flatMap
    (children : List ChunkManifest) :
    content (children.flatMap chunks) = (children.map fun child => content child.chunks).sum := by
  induction children with
  | nil => rfl
  | cons child rest ih =>
      rw [List.flatMap_cons, List.map_cons, List.sum_cons, ← ih]
      simp [content]

theorem validateTotalSize_iff
    (m : ChunkManifest) :
    m.validateTotalSize = .ok () <-> content m.chunks = m.totalSize.toNat := by
  rw [← sum_sizes, ← Checked.sum_eq_ok_iff, validateTotalSize]
  cases hsum : Checked.sum (sizes m.chunks) with
  | error e => simp [bind, Except.bind]
  | ok sum =>
      by_cases heq : sum = m.totalSize
      · simp [bind, Except.bind, heq]
      · simp [bind, Except.bind, heq]

end ChunkManifest

/-!
## Nested manifests
-/

structure ManifestChildRef where
  chunkCount : UInt64
  firstSeq : UInt64
  lastSeq : UInt64
  sha : Sha256
  size : UInt64
deriving DecidableEq

structure NestedManifest where
  totalSize : UInt64
  chunkTier : CryptoTier
  streamId : String
  children : List ManifestChildRef
deriving DecidableEq

def ManifestChildRef.jcsText (c : ManifestChildRef) : String :=
  "\x7b\"chunk_count\":" ++ c.chunkCount.toNat.repr ++ ",\"first_seq\":" ++ c.firstSeq.toNat.repr ++
    ",\"last_seq\":" ++ c.lastSeq.toNat.repr ++ ",\"sha\":\"" ++ c.sha.hex ++ "\",\"size\":" ++
    c.size.toNat.repr ++ "\x7d"

namespace NestedManifest

def jcsText [SerdeJson] (m : NestedManifest) : String :=
  "\x7b\"children\":[" ++ Json.commas (m.children.map ManifestChildRef.jcsText) ++
    "],\"chunk_tier\":\"" ++ m.chunkTier.asStr ++ "\",\"stream_id\":" ++ SerdeJson.quote m.streamId ++
    ",\"total_size\":" ++ m.totalSize.toNat.repr ++ ",\"v\":3\x7d"

def toJcsBytes [SerdeJson] (m : NestedManifest) : ByteArray :=
  m.jcsText.toUTF8

/-- The loop over the children: the sum so far and the last position so far. -/
def validateChildren : Nat -> UInt64 -> Option UInt64 -> List ManifestChildRef ->
    Except BlobError UInt64
  | _, sum, _, [] => .ok sum
  | i, sum, prevLast, c :: rest =>
      if c.chunkCount = 0 ∨ c.lastSeq < c.firstSeq then
        .error (.backend ("chunk_dag manifest v3 child [" ++ i.repr ++
          "] is empty or reversed (chunk_count " ++ c.chunkCount.toNat.repr ++ ", seq " ++
          c.firstSeq.toNat.repr ++ "..=" ++ c.lastSeq.toNat.repr ++ ")"))
      else if prevLast.any fun p => c.firstSeq ≤ p then
        .error (.backend ("chunk_dag manifest v3 child [" ++ i.repr ++ "] starts at seq " ++
          c.firstSeq.toNat.repr ++ " but the previous child ends at " ++
          (prevLast.getD 0).toNat.repr ++ "; children cover strictly increasing runs"))
      else
        match Checked.add sum c.size with
        | .error _ => .error (.backend "chunk_dag manifest v3 child sizes overflow u64")
        | .ok next => validateChildren (i + 1) next (some c.lastSeq) rest

def validate (m : NestedManifest) : Except BlobError Unit :=
  if m.children.isEmpty then
    .error (.backend "chunk_dag manifest v3 lists no children")
  else do
    let sum ← validateChildren 0 0 none m.children
    if sum ≠ m.totalSize then
      .error (.backend ("chunk_dag manifest v3 total_size " ++ m.totalSize.toNat.repr ++
        " != sum of child sizes " ++ sum.toNat.repr))
    else
      .ok ()

def debugSeq : Option UInt64 -> String
  | some seq => "Some(" ++ seq.toNat.repr ++ ")"
  | none => "None"

def checkChild (m : NestedManifest) (index : Nat) (child : ChunkManifest) : Except BlobError Unit :=
  match m.children[index]? with
  | none =>
      .error (.invalidArgument ("child index " ++ index.repr ++ " is outside the root's " ++
        m.children.length.repr ++ " children"))
  | some entry =>
      let bad (why : String) : Except BlobError Unit :=
        .error (.backend ("chunk_dag manifest v3 child [" ++ index.repr ++ "] " ++ why))
      let first := child.chunks.head?.bind ChunkRef.seq
      let last := child.chunks.getLast?.bind ChunkRef.seq
      if child.v ≠ chunkManifestVersionSealed ∧ child.v ≠ chunkManifestVersionStream then
        bad ("is v" ++ child.v.toNat.repr ++ ", not a v2 / v4 manifest (depth is 2)")
      else if child.chunkTier ≠ some m.chunkTier ∨ child.streamId ≠ some m.streamId then
        bad "names another stream or tier than its root"
      else if UInt64.ofNat child.chunks.length ≠ entry.chunkCount then
        bad ("lists " ++ child.chunks.length.repr ++ " chunks but the root says " ++
          entry.chunkCount.toNat.repr)
      else if first ≠ some entry.firstSeq ∨ last ≠ some entry.lastSeq then
        bad ("covers seq " ++ debugSeq first ++ "..=" ++ debugSeq last ++ " but the root says " ++
          entry.firstSeq.toNat.repr ++ "..=" ++ entry.lastSeq.toNat.repr)
      else if child.totalSize ≠ entry.size then
        bad ("totals " ++ child.totalSize.toNat.repr ++ " but the root says " ++
          entry.size.toNat.repr)
      else
        child.validateTotalSize

structure Matches (m : NestedManifest) (entry : ManifestChildRef) (child : ChunkManifest) : Prop where
  version : child.v = chunkManifestVersionSealed ∨ child.v = chunkManifestVersionStream
  tier : child.chunkTier = some m.chunkTier
  stream : child.streamId = some m.streamId
  count : UInt64.ofNat child.chunks.length = entry.chunkCount
  first : child.chunks.head?.bind ChunkRef.seq = some entry.firstSeq
  last : child.chunks.getLast?.bind ChunkRef.seq = some entry.lastSeq
  size : child.totalSize = entry.size
  total : ChunkManifest.content child.chunks = child.totalSize.toNat

theorem checkChild_iff
    (m : NestedManifest) (index : Nat) (child : ChunkManifest) :
    m.checkChild index child = .ok () <->
      exists entry, m.children[index]? = some entry ∧ m.Matches entry child := by
  unfold checkChild
  cases hentry : m.children[index]? with
  | none => simp
  | some entry =>
      simp only [Option.some.injEq, exists_eq_left']
      constructor
      · intro h
        split at h
        · cases h
        · split at h
          · cases h
          · split at h
            · cases h
            · split at h
              · cases h
              · split at h
                · cases h
                · rename_i hversion htier hcount hseqs hsize
                  rw [not_or, not_not, not_not] at htier hseqs
                  rw [not_not] at hcount hsize
                  refine ⟨?_, htier.1, htier.2, hcount, hseqs.1, hseqs.2, hsize,
                    (ChunkManifest.validateTotalSize_iff child).mp h⟩
                  by_contra hnot
                  exact hversion (not_or.mp hnot)
      · intro h
        have hversion : Not (child.v ≠ chunkManifestVersionSealed ∧
            child.v ≠ chunkManifestVersionStream) := fun hnot => not_or.mpr hnot h.version
        rw [if_neg hversion, if_neg (by simp [h.tier, h.stream]), if_neg (by simp [h.count]),
          if_neg (by simp [h.first, h.last]), if_neg (by simp [h.size])]
        exact (ChunkManifest.validateTotalSize_iff child).mpr h.total

/-- Each child covers a run of positions, and the runs follow each other. -/
def Runs (children : List ManifestChildRef) : Prop :=
  (forall c, c ∈ children -> c.chunkCount ≠ 0 ∧ c.firstSeq ≤ c.lastSeq) ∧
    children.Pairwise fun c d => c.lastSeq < d.firstSeq

theorem validateChildren_eq_ok_iff
    (children : List ManifestChildRef) (i : Nat) (sum total : UInt64) (prevLast : Option UInt64) :
    validateChildren i sum prevLast children = .ok total <->
      Runs children ∧ (forall p c, prevLast = some p -> c ∈ children -> p < c.firstSeq) ∧
        sum.toNat + (children.map fun c => c.size.toNat).sum = total.toNat := by
  induction children generalizing i sum total prevLast with
  | nil => simp [validateChildren, Runs, UInt64.toNat_inj]
  | cons c rest ih =>
      rw [validateChildren]
      by_cases hshape : c.chunkCount = 0 ∨ c.lastSeq < c.firstSeq
      · rw [if_pos hshape]
        refine iff_of_false nofun ?_
        rintro ⟨⟨hruns, -⟩, -, -⟩
        rcases hruns c List.mem_cons_self with ⟨hcount, hle⟩
        rcases hshape with hzero | hlt
        · exact hcount hzero
        · exact absurd hle (UInt64.not_le.mpr hlt)
      · rw [if_neg hshape]
        rw [not_or, UInt64.not_lt] at hshape
        by_cases hprev : (prevLast.any fun p => c.firstSeq ≤ p) = true
        · rw [if_pos hprev]
          refine iff_of_false nofun ?_
          rintro ⟨-, hafter, -⟩
          rcases (Option.any_eq_true _ _).mp hprev with ⟨p, hp, hle⟩
          exact absurd (of_decide_eq_true hle)
            (UInt64.not_le.mpr (hafter p c hp List.mem_cons_self))
        · rw [if_neg hprev]
          have hhead : forall p, prevLast = some p -> p < c.firstSeq := by
            rintro p rfl
            simpa using hprev
          cases hadd : Checked.add sum c.size with
          | error e =>
              refine iff_of_false nofun ?_
              rintro ⟨-, -, hsum⟩
              rw [List.map_cons, List.sum_cons] at hsum
              have htotal := total.toNat_lt
              rcases Checked.exists_add_eq_ok (a := sum) (b := c.size) (by omega) with
                ⟨next, hnext, -⟩
              rw [hadd] at hnext
              cases hnext
          | ok next =>
              have hnext := Checked.add_eq_ok_iff.mp hadd
              simp only [ih (i + 1) next total (some c.lastSeq), Runs, List.forall_mem_cons,
                List.pairwise_cons, List.map_cons, List.sum_cons, Option.some.injEq]
              constructor
              · rintro ⟨⟨hruns, hpairs⟩, hafter, hsum⟩
                have hrest : forall d, d ∈ rest -> c.lastSeq < d.firstSeq :=
                  fun d hd => hafter c.lastSeq d rfl hd
                refine ⟨⟨⟨hshape, hruns⟩, hrest, hpairs⟩, ?_, by omega⟩
                intro p d hp hd
                rcases List.mem_cons.mp hd with rfl | hd
                · exact hhead p hp
                · exact UInt64.lt_of_lt_of_le (hhead p hp)
                    (UInt64.le_trans hshape.2 (UInt64.le_of_lt (hrest d hd)))
              · rintro ⟨⟨⟨-, hruns⟩, hrest, hpairs⟩, -, hsum⟩
                refine ⟨⟨hruns, hpairs⟩, ?_, by omega⟩
                rintro p d rfl hd
                exact hrest d hd

theorem validate_iff
    (m : NestedManifest) :
    m.validate = .ok () <-> m.children ≠ [] ∧ Runs m.children ∧
      (m.children.map fun c => c.size.toNat).sum = m.totalSize.toNat := by
  unfold validate
  by_cases hempty : m.children = []
  · simp [hempty]
  · rw [if_neg (by simpa using hempty)]
    have hloop := validateChildren_eq_ok_iff m.children 0 0 m.totalSize none
    cases hsum : validateChildren 0 0 none m.children with
    | error e =>
        rw [hsum] at hloop
        simp only [bind, Except.bind]
        refine iff_of_false nofun ?_
        rintro ⟨-, hruns, htotal⟩
        exact absurd (hloop.mpr ⟨hruns, nofun, by simpa using htotal⟩) nofun
    | ok sum =>
        rw [hsum] at hloop
        simp only [bind, Except.bind]
        by_cases heq : sum = m.totalSize
        · rw [if_neg (by simpa using heq)]
          refine iff_of_true rfl ?_
          rcases hloop.mp (by rw [heq]) with ⟨hruns, -, htotal⟩
          exact ⟨hempty, hruns, by simpa using htotal⟩
        · rw [if_pos heq]
          refine iff_of_false nofun ?_
          rintro ⟨-, hruns, htotal⟩
          have hok := hloop.mpr ⟨hruns, nofun, by simpa using htotal⟩
          cases hok
          exact heq rfl

end NestedManifest

inductive ParsedManifest where
  | flat (m : ChunkManifest)
  | nested (m : NestedManifest)
deriving DecidableEq

end CirisPersist.Federation
