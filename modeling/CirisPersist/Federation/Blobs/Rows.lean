import CirisPersist.Federation.Blobs.Codec

/-!
# Storing a chunk DAG

The one-shot door takes a manifest and a body for each of its chunks, checks them
against each other and prepares the rows of one transaction, the manifest row last.
It checks the sizes, the addresses and, on a version 1 manifest, that no chunk has a
position.  It does not ask whether the reader will take the manifest.
-/

namespace CirisPersist.Federation

structure ExternalRef where
  uri : String
  sizeBytes : UInt64
deriving DecidableEq

inductive BlobBody where
  | inline (bytes : ByteArray)
  | external (e : ExternalRef)
  | chunkDag (m : ChunkManifest)

inductive StorageKind where
  | inline
  | s3
  | externalUrl
  | chunkDag
deriving DecidableEq

def BlobBody.storageKind : BlobBody -> StorageKind
  | inline _ => .inline
  | external e => if Text.startsWith "s3://" e.uri then .s3 else .externalUrl
  | chunkDag _ => .chunkDag

structure PreparedBlobRow where
  sha256 : Sha256
  storageKind : StorageKind
  bytesInline : Option ByteArray
  externalRef : Option String
  sizeBytes : Int

/-!
## The checks of the door
-/

def toI64 (n : UInt64) (message : String) : Except BlobError Int :=
  if n.toNat < 2 ^ 63 then .ok n.toNat else .error (.invalidArgument message)

def checkExternalChunkSize (idx : Nat) (e : ExternalRef) (mref : ChunkRef) :
    Except BlobError Unit :=
  if e.sizeBytes ≠ mref.size.toUInt64 then
    .error (.invalidArgument ("put_blob_chunks: chunk[" ++ idx.repr ++ "] external size is " ++
      e.sizeBytes.toNat.repr ++ " bytes but manifest size is " ++ mref.size.toNat.repr))
  else
    .ok ()

def prepareDagChunkRow [Sha256Hash] (idx : Nat) (body : BlobBody) (mref : ChunkRef)
    (inlineBytesCap : Nat) : Except BlobError PreparedBlobRow := do
  let (bytesInline, externalRef, size) ← (match body with
    | .inline bytes =>
        if bytes.size > inlineBytesCap then
          .error (.inlineSizeExceeded bytes.size inlineBytesCap)
        else if Sha256Hash.digest bytes ≠ mref.sha then
          .error (.hashMismatch mref.sha.hex (Sha256Hash.digest bytes).hex)
        else if bytes.size ≠ mref.size.toNat then
          .error (.invalidArgument ("put_blob_chunks: chunk[" ++ idx.repr ++ "] is " ++
            bytes.size.repr ++ " bytes but manifest size is " ++ mref.size.toNat.repr))
        else
          .ok (some bytes, none, mref.size.toUInt64)
    | .external e => do
        checkExternalChunkSize idx e mref
        .ok (none, some e.uri, e.sizeBytes)
    | .chunkDag _ =>
        .error (.invalidArgument ("put_blob_chunks: chunk[" ++ idx.repr ++
          "] is itself a ChunkDag — one-level DAG only (no nesting)"))
    : Except BlobError (Option ByteArray × Option String × UInt64))
  let sizeBytes ← toI64 size "put_blob_chunks: chunk size_bytes exceeds i64"
  .ok { sha256 := mref.sha, storageKind := body.storageKind, bytesInline, externalRef, sizeBytes }

/-- The manifest row: the canonical bytes inline, under their own address. -/
def prepareManifestRow [SerdeJson] [Sha256Hash] (manifest : ChunkManifest) (inlineBytesCap : Nat) :
    Except BlobError PreparedBlobRow :=
  if manifest.toJcsBytes.size > inlineBytesCap then
    .error (.inlineSizeExceeded manifest.toJcsBytes.size inlineBytesCap)
  else do
    let sizeBytes ← toI64 manifest.totalSize "put_blob_chunks: total_size exceeds i64"
    .ok
      { sha256 := Sha256Hash.digest manifest.toJcsBytes
        storageKind := .chunkDag
        bytesInline := some manifest.toJcsBytes
        externalRef := none
        sizeBytes }

def refusePositionedPlaintextChunks (manifest : ChunkManifest) : Except BlobError Unit :=
  if manifest.v ≠ chunkManifestVersion then
    .ok ()
  else
    match manifest.chunks.zipIdx.find? fun p => p.1.seq.isSome || p.1.epoch.isSome with
    | some (c, idx) =>
        .error (.invalidArgument ("put_blob_chunks: chunk[" ++ idx.repr ++ "] " ++ c.sha.hex ++
          " of a plaintext (version " ++ chunkManifestVersion.toNat.repr ++
          ") manifest carries a seq or an epoch; those position a sealed DAG's chunks"))
    | none => .ok ()

def prepareBodies [Sha256Hash] (inlineBytesCap : Nat) :
    Nat -> List ((Sha256 × BlobBody) × ChunkRef) -> Except BlobError (List PreparedBlobRow)
  | _, [] => .ok []
  | idx, ((chunkSha, body), mref) :: rest =>
      if chunkSha ≠ mref.sha then
        .error (.invalidArgument ("put_blob_chunks: chunk[" ++ idx.repr ++ "] sha " ++
          chunkSha.hex ++ " does not match manifest entry " ++ mref.sha.hex))
      else do
        let row ← prepareDagChunkRow idx body mref inlineBytesCap
        let rows ← prepareBodies inlineBytesCap (idx + 1) rest
        .ok (row :: rows)

def prepareChunkRows [SerdeJson] [Sha256Hash] (manifest : ChunkManifest)
    (chunks : List (Sha256 × BlobBody)) (inlineBytesCap : Nat) :
    Except BlobError (List PreparedBlobRow) := do
  manifest.validateTotalSize
  refusePositionedPlaintextChunks manifest
  if chunks.length ≠ manifest.chunks.length then
    .error (.invalidArgument ("put_blob_chunks: " ++ chunks.length.repr ++
      " chunk bodies supplied but manifest names " ++ manifest.chunks.length.repr ++ " chunks"))
  else do
    let rows ← prepareBodies inlineBytesCap 0 (chunks.zip manifest.chunks)
    let row ← prepareManifestRow manifest inlineBytesCap
    .ok (rows ++ [row])

/-!
## What was stored
-/

section Stored

variable [SerdeJson] [Sha256Hash]

theorem bytesInline_of_prepareManifestRow
    {m : ChunkManifest} {cap : Nat} {row : PreparedBlobRow}
    (h : prepareManifestRow m cap = .ok row) :
    row.bytesInline = some m.toJcsBytes := by
  unfold prepareManifestRow at h
  split at h
  · cases h
  · rcases Checks.bind_eq_ok_iff.mp h with ⟨sizeBytes, -, hrow⟩
    cases hrow
    rfl

theorem getLast_of_prepareChunkRows
    {m : ChunkManifest} {chunks : List (Sha256 × BlobBody)} {cap : Nat}
    {rows : List PreparedBlobRow} (h : prepareChunkRows m chunks cap = .ok rows) :
    rows.getLast?.bind PreparedBlobRow.bytesInline = some m.toJcsBytes := by
  simp only [prepareChunkRows, Checks.bind_eq_ok_iff] at h
  rcases h with ⟨_, -, _, -, h⟩
  split at h
  · cases h
  · simp only [Checks.bind_eq_ok_iff] at h
    rcases h with ⟨bodies, -, row, hrow, hrows⟩
    cases hrows
    rw [List.getLast?_concat, Option.bind_some, bytesInline_of_prepareManifestRow hrow]

/-- A stored manifest reads back exactly when it is well formed for its version. -/
theorem stored_manifest_reads_back_iff [LawfulSerdeJson]
    {m : ChunkManifest} {chunks : List (Sha256 × BlobBody)} {cap : Nat}
    {rows : List PreparedBlobRow} (h : prepareChunkRows m chunks cap = .ok rows) :
    exists bytes, rows.getLast?.bind PreparedBlobRow.bytesInline = some bytes ∧
      (ChunkManifest.fromManifestBytes bytes = .ok m <-> m.WellFormed) := by
  refine ⟨m.toJcsBytes, getLast_of_prepareChunkRows h, ?_⟩
  constructor
  · exact ChunkManifest.wellFormed_of_read
  · exact ChunkManifest.read_toJcsBytes

end Stored

/-!
## What the door takes

Over external bodies of the declared sizes the door asks nothing but the total and,
at version 1, that the chunks have no position.
-/

def externalBodies (uri : String) (chunks : List ChunkRef) : List (Sha256 × BlobBody) :=
  chunks.map fun c => (c.sha, .external ⟨uri, c.size.toUInt64⟩)

theorem exists_prepareBodies_external [Sha256Hash]
    (uri : String) (cap : Nat) (chunks : List ChunkRef) :
    forall idx, exists rows,
      prepareBodies cap idx ((externalBodies uri chunks).zip chunks) = .ok rows := by
  induction chunks with
  | nil =>
      intro idx
      exact ⟨[], rfl⟩
  | cons c rest ih =>
      intro idx
      rcases ih (idx + 1) with ⟨rows, hrows⟩
      have hsize : c.size.toUInt64.toNat < 2 ^ 63 := by
        have hlt := c.size.toNat_lt
        rw [UInt32.toNat_toUInt64]
        omega
      have hrow : exists row, prepareDagChunkRow idx (.external ⟨uri, c.size.toUInt64⟩) c cap =
          .ok row := by
        simp only [prepareDagChunkRow, checkExternalChunkSize, ne_eq, not_true_eq_false, if_false,
          bind, Except.bind, toI64, if_pos hsize]
        exact ⟨_, rfl⟩
      rcases hrow with ⟨row, hrow⟩
      refine ⟨row :: rows, ?_⟩
      show prepareBodies cap idx (((c.sha, .external ⟨uri, c.size.toUInt64⟩), c) ::
        (externalBodies uri rest).zip rest) = _
      rw [prepareBodies, if_neg (by simp), hrow, hrows]
      rfl

theorem exists_prepareChunkRows_external
    [SerdeJson] [Sha256Hash] {m : ChunkManifest} (uri : String)
    (htotal : m.validateTotalSize = .ok ()) (hplain : refusePositionedPlaintextChunks m = .ok ())
    (hsize : m.totalSize.toNat < 2 ^ 63) :
    exists rows, prepareChunkRows m (externalBodies uri m.chunks) m.toJcsBytes.size = .ok rows := by
  rcases exists_prepareBodies_external uri m.toJcsBytes.size m.chunks 0 with ⟨bodies, hbodies⟩
  have hrow : exists row, prepareManifestRow m m.toJcsBytes.size = .ok row := by
    rw [prepareManifestRow, if_neg (Nat.lt_irrefl _), toI64, if_pos hsize]
    exact ⟨_, rfl⟩
  rcases hrow with ⟨row, hrow⟩
  refine ⟨bodies ++ [row], ?_⟩
  rw [prepareChunkRows, htotal, hplain]
  show (if (externalBodies uri m.chunks).length ≠ m.chunks.length then _ else _) = _
  rw [if_neg (by simp [externalBodies]), hbodies, hrow]
  rfl

def plainManifest : ChunkManifest where
  v := 1
  totalSize := 3
  chunks := [⟨.zero, 3, none, none⟩]
  chunkTier := none
  streamId := none

open Reference in
theorem plainManifest_reads_back :
    exists rows bytes, prepareChunkRows plainManifest
        (externalBodies "s3://bucket/key" plainManifest.chunks) plainManifest.toJcsBytes.size =
          .ok rows ∧
      rows.getLast?.bind PreparedBlobRow.bytesInline = some bytes ∧
      ChunkManifest.fromManifestBytes bytes = .ok plainManifest := by
  rcases exists_prepareChunkRows_external (m := plainManifest) "s3://bucket/key" rfl rfl (by decide)
    with ⟨rows, hrows⟩
  rcases stored_manifest_reads_back_iff hrows with ⟨bytes, hbytes, hread⟩
  refine ⟨rows, bytes, hrows, hbytes, hread.mpr (.plaintext rfl rfl rfl ?_)⟩
  decide

def tieredManifest : ChunkManifest :=
  { plainManifest with chunkTier := some .plaintext }

open Reference in
theorem tieredManifest_unreadable :
    exists rows bytes, prepareChunkRows tieredManifest
        (externalBodies "s3://bucket/key" tieredManifest.chunks) tieredManifest.toJcsBytes.size =
          .ok rows ∧
      rows.getLast?.bind PreparedBlobRow.bytesInline = some bytes ∧
      ChunkManifest.fromManifestBytes bytes =
        .error (.backend "chunk_dag manifest v1 carries a chunk_tier field") := by
  rcases exists_prepareChunkRows_external (m := tieredManifest) "s3://bucket/key" rfl rfl
    (by decide) with ⟨rows, hrows⟩
  refine ⟨rows, _, hrows, getLast_of_prepareChunkRows hrows, ?_⟩
  rw [ChunkManifest.fromManifestBytes, ChunkManifest.fromSlice_toJcsBytes, Option.bind_some,
    read_version, if_neg (by decide), Option.bind_some, read_manifest]
  rfl

end CirisPersist.Federation
