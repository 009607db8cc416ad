import CirisPersist.Federation.Blobs.Manifest

/-!
# Reading a manifest

Manifest bytes are read into a wire type and then checked across members: the version,
the tier, the stream, the positions of the chunks and the keys that sealed them must
agree.  Each check has one lemma that says when it passes; what a manifest that was
read looks like is put together from them.
-/

namespace CirisPersist.Federation

def debugToken : Option String -> String
  | some s => "Some(" ++ Text.debugStr s ++ ")"
  | none => "None"

/-!
## Flat manifests
-/

structure ChunkRefWire where
  sha : String
  size : UInt32
  seq : Option UInt64
  epoch : Option UInt64
deriving DecidableEq

structure ManifestWire where
  v : UInt32
  totalSize : UInt64
  chunks : List ChunkRefWire
  chunkTier : Option String
  streamId : Option String
  chunkKeys : Option String
deriving DecidableEq

def ChunkRefWire.read (j : Json) : Option ChunkRefWire :=
  match Serde.members ["sha", "size", "seq", "epoch"] false j with
  | some [sha, size, seq, epoch] => do
      let sha ← Serde.required Json.asStr sha
      let size ← Serde.required Serde.readU32 size
      let seq ← Serde.optional Serde.readU64 seq
      let epoch ← Serde.optional Serde.readU64 epoch
      some { sha, size, seq, epoch }
  | _ => none

def readVersion (j : Json) : Option UInt32 :=
  match Serde.members ["v"] false j with
  | some [v] => Serde.required Serde.readU32 v
  | _ => none

namespace ManifestWire

def read (j : Json) : Option ManifestWire :=
  match Serde.members ["v", "total_size", "chunks", "chunk_tier", "stream_id", "chunk_keys"]
      false j with
  | some [v, totalSize, chunks, chunkTier, streamId, chunkKeys] => do
      let v ← Serde.required Serde.readU32 v
      let totalSize ← Serde.required Serde.readU64 totalSize
      let chunks ← Serde.required (Serde.readVec ChunkRefWire.read) chunks
      let chunkTier ← Serde.optional Json.asStr chunkTier
      let streamId ← Serde.optional Json.asStr streamId
      let chunkKeys ← Serde.optional Json.asStr chunkKeys
      some { v, totalSize, chunks, chunkTier, streamId, chunkKeys }
  | _ => none

def streamKeyed (w : ManifestWire) : Bool :=
  w.v == chunkManifestVersionStream

def isSealed (w : ManifestWire) : Bool :=
  w.v == chunkManifestVersionSealed || w.streamKeyed

/-- `chunk_keys` is required at version 4 and refused at every other. -/
def checkKeys (w : ManifestWire) : Except BlobError Unit :=
  if w.streamKeyed then
    if w.chunkKeys = some chunkKeysStreamEpoch then
      .ok ()
    else
      .error (.backend ("chunk_dag manifest v4 carries chunk_keys " ++ debugToken w.chunkKeys ++
        "; only " ++ Text.debugStr chunkKeysStreamEpoch ++ " is defined (CIRISPersist#969)"))
  else
    match w.chunkKeys with
    | none => .ok ()
    | some _ =>
        .error (.backend ("chunk_dag manifest v" ++ w.v.toNat.repr ++
          " carries a chunk_keys member; only a v4 manifest does"))

def checkPosition (w : ManifestWire) : Except BlobError Unit :=
  if w.isSealed && !w.streamId.isSome then
    .error (.backend ("chunk_dag manifest v2 carries no stream_id: sealed before #838 (v44.0.0) — " ++
      "re-seal the stream (BLOB_ENCRYPTION_AT_REST.md §12.10)"))
  else if !w.isSealed && w.streamId.isSome then
    .error (.backend "chunk_dag manifest v1 carries a stream_id field")
  else
    .ok ()

def checkEpochs (w : ManifestWire) : Except BlobError Unit :=
  match w.chunks.find? fun c => c.epoch.isSome != w.streamKeyed with
  | some c =>
      .error (.backend ("chunk_dag manifest v" ++ w.v.toNat.repr ++ " chunk " ++ c.sha ++ " " ++
        (if w.streamKeyed then "lacks" else "carries") ++
        " an epoch; exactly the v4 chunks carry one (CIRISPersist#969)"))
  | none => .ok ()

def checkSeqs (isSealed : Bool) : Option UInt64 -> List ChunkRefWire -> Except BlobError Unit
  | _, [] => .ok ()
  | lastSeq, c :: rest =>
      match isSealed, c.seq with
      | true, some seq =>
          if lastSeq.any fun prev => seq ≤ prev then
            .error (.backend ("chunk_dag manifest v2 chunk seq " ++ seq.toNat.repr ++
              " is not above the previous chunk's; positions must be strictly increasing (§12.10)"))
          else
            checkSeqs isSealed (some seq) rest
      | true, none => .error (.backend "chunk_dag manifest v2 chunk carries no seq (§12.10)")
      | false, some _ => .error (.backend "chunk_dag manifest v1 chunk carries a seq field")
      | false, none => checkSeqs isSealed lastSeq rest

/-- The version and the tier must agree, and no other version is flat. -/
def readTier (w : ManifestWire) : Except BlobError (Option CryptoTier) :=
  if w.v = chunkManifestVersion then
    match w.chunkTier with
    | none => .ok none
    | some _ => .error (.backend "chunk_dag manifest v1 carries a chunk_tier field")
  else if w.v = chunkManifestVersionSealed ∨ w.v = chunkManifestVersionStream then
    match w.chunkTier with
    | some t =>
        match CryptoTier.parseStr t with
        | some tier => .ok (some tier)
        | none =>
            .error (.backend ("chunk_dag manifest v2 unknown chunk_tier " ++ Text.debugStr t))
    | none =>
        .error (.backend ("chunk_dag manifest v" ++ w.v.toNat.repr ++ " carries no chunk_tier field"))
  else
    .error (.backend ("chunk_dag manifest schema version " ++ w.v.toNat.repr ++
      " is not a flat manifest (1 = plaintext DAG, 2 = sealed DAG, 4 = stream-keyed sealed DAG; " ++
      "3 = a nested root, read through ParsedManifest)"))

def readChunk (c : ChunkRefWire) : Except BlobError ChunkRef :=
  match Hex.decode c.sha with
  | .error e => .error (.backend ("chunk_dag manifest chunk sha hex: " ++ e.text))
  | .ok raw =>
      match Sha256.ofBytes raw with
      | some sha => .ok { sha, size := c.size, seq := c.seq, epoch := c.epoch }
      | none =>
          .error (.backend ("chunk_dag manifest chunk sha is " ++ raw.length.repr ++
            " bytes, expected 32"))

def toManifest (w : ManifestWire) : Except BlobError ChunkManifest := do
  w.checkKeys
  w.checkPosition
  w.checkEpochs
  checkSeqs w.isSealed none w.chunks
  let chunkTier ← w.readTier
  let chunks ← Checks.readAll readChunk w.chunks
  .ok { v := w.v, totalSize := w.totalSize, chunks, chunkTier, streamId := w.streamId }

end ManifestWire

def ChunkManifest.fromManifestBytes [SerdeJson] (bytes : ByteArray) :
    Except BlobError ChunkManifest :=
  if (SerdeJson.fromSlice bytes).bind readVersion = some chunkManifestVersionNested then
    .error (.backend ("chunk_dag manifest v3 is a nested root, not a flat manifest; read it through " ++
      "ParsedManifest (CIRISPersist#954)"))
  else
    match (SerdeJson.fromSlice bytes).bind ManifestWire.read with
    | none =>
        .error (.backend ("chunk_dag manifest JSON parse: " ++
          SerdeJson.errorText "ManifestWire" bytes))
    | some w => w.toManifest

/-!
## Nested manifests
-/

structure ChildWire where
  chunkCount : UInt64
  firstSeq : UInt64
  lastSeq : UInt64
  sha : String
  size : UInt64
deriving DecidableEq

structure RootWire where
  v : UInt32
  totalSize : UInt64
  children : List ChildWire
  chunkTier : String
  streamId : String
deriving DecidableEq

def ChildWire.read (j : Json) : Option ChildWire :=
  match Serde.members ["chunk_count", "first_seq", "last_seq", "sha", "size"] true j with
  | some [chunkCount, firstSeq, lastSeq, sha, size] => do
      let chunkCount ← Serde.required Serde.readU64 chunkCount
      let firstSeq ← Serde.required Serde.readU64 firstSeq
      let lastSeq ← Serde.required Serde.readU64 lastSeq
      let sha ← Serde.required Json.asStr sha
      let size ← Serde.required Serde.readU64 size
      some { chunkCount, firstSeq, lastSeq, sha, size }
  | _ => none

namespace RootWire

def read (j : Json) : Option RootWire :=
  match Serde.members ["v", "total_size", "children", "chunk_tier", "stream_id"] true j with
  | some [v, totalSize, children, chunkTier, streamId] => do
      let v ← Serde.required Serde.readU32 v
      let totalSize ← Serde.required Serde.readU64 totalSize
      let children ← Serde.required (Serde.readVec ChildWire.read) children
      let chunkTier ← Serde.required Json.asStr chunkTier
      let streamId ← Serde.required Json.asStr streamId
      some { v, totalSize, children, chunkTier, streamId }
  | _ => none

def readChild (c : ChildWire) : Except BlobError ManifestChildRef :=
  match Hex.decodeToSlice 32 c.sha with
  | .error e => .error (.backend ("chunk_dag manifest v3 child sha hex: " ++ e.text))
  | .ok raw =>
      match Sha256.ofBytes raw with
      | some sha =>
          .ok { chunkCount := c.chunkCount, firstSeq := c.firstSeq, lastSeq := c.lastSeq, sha,
                size := c.size }
      | none =>
          .error (.backend ("chunk_dag manifest v3 child sha hex: " ++
            Hex.HexError.invalidStringLength.text))

def readTier (w : RootWire) : Except BlobError CryptoTier :=
  match (CryptoTier.parseStr w.chunkTier).filter fun t => t ≠ .plaintext with
  | some tier => .ok tier
  | none =>
      .error (.backend ("chunk_dag manifest v3 chunk_tier " ++ Text.debugStr w.chunkTier ++
        " is not a sealed tier"))

def toManifest (w : RootWire) : Except BlobError NestedManifest :=
  if w.v ≠ chunkManifestVersionNested then
    .error (.backend ("chunk_dag manifest v" ++ w.v.toNat.repr ++ " parsed as a v3 root"))
  else do
    let chunkTier ← w.readTier
    if w.streamId.isEmpty then
      .error (.backend "chunk_dag manifest v3 carries an empty stream_id")
    else do
      let children ← Checks.readAll readChild w.children
      let m : NestedManifest :=
        { totalSize := w.totalSize, chunkTier, streamId := w.streamId, children }
      m.validate
      .ok m

end RootWire

def NestedManifest.fromManifestBytes [SerdeJson] (bytes : ByteArray) :
    Except BlobError NestedManifest :=
  match (SerdeJson.fromSlice bytes).bind RootWire.read with
  | none =>
      .error (.backend ("chunk_dag manifest v3 JSON parse: " ++ SerdeJson.errorText "RootWire" bytes))
  | some w => w.toManifest

def ParsedManifest.parse [SerdeJson] (bytes : ByteArray) : Except BlobError ParsedManifest :=
  match (SerdeJson.fromSlice bytes).bind readVersion with
  | none =>
      .error (.backend ("chunk_dag manifest JSON parse: " ++ SerdeJson.errorText "V" bytes))
  | some v =>
      if v = chunkManifestVersionNested then
        (NestedManifest.fromManifestBytes bytes).map .nested
      else
        (ChunkManifest.fromManifestBytes bytes).map .flat

/-!
## What each check asks
-/

namespace ManifestWire

variable (w : ManifestWire)

theorem checkKeys_iff :
    w.checkKeys = .ok () <->
      w.chunkKeys = if w.streamKeyed then some chunkKeysStreamEpoch else none := by
  unfold checkKeys
  cases w.streamKeyed with
  | true => by_cases hkeys : w.chunkKeys = some chunkKeysStreamEpoch <;> simp [hkeys]
  | false => cases hkeys : w.chunkKeys <;> simp

theorem checkPosition_iff :
    w.checkPosition = .ok () <-> w.streamId.isSome = w.isSealed := by
  unfold checkPosition
  cases w.isSealed <;> cases w.streamId.isSome <;> simp

theorem checkEpochs_iff :
    w.checkEpochs = .ok () <-> forall c, c ∈ w.chunks -> c.epoch.isSome = w.streamKeyed := by
  unfold checkEpochs
  cases hfind : w.chunks.find? fun c => c.epoch.isSome != w.streamKeyed with
  | none => simpa using List.find?_eq_none.mp hfind
  | some c =>
      refine iff_of_false nofun ?_
      intro hall
      have hbad := List.find?_some hfind
      rw [hall c (List.mem_of_find?_eq_some hfind)] at hbad
      simp at hbad

def Increasing (prev : Option UInt64) (seqs : List (Option UInt64)) : Prop :=
  exists positions : List UInt64, seqs = positions.map some ∧
    (prev.toList ++ positions).Pairwise (fun a b => a < b)

theorem not_increasing_none
    {prev : Option UInt64} {rest : List (Option UInt64)} :
    Not (Increasing prev (none :: rest)) := by
  rintro ⟨positions, heq, -⟩
  cases positions <;> simp at heq

theorem increasing_cons_iff
    {prev : Option UInt64} {seq : UInt64} {rest : List (Option UInt64)} :
    Increasing prev (some seq :: rest) <->
      (forall p, prev = some p -> p < seq) ∧ Increasing (some seq) rest := by
  constructor
  · rintro ⟨positions, heq, hpairs⟩
    cases positions with
    | nil => simp at heq
    | cons position positions =>
        simp only [List.map_cons, List.cons.injEq, Option.some.injEq] at heq
        rcases heq with ⟨rfl, heq⟩
        refine ⟨?_, positions, heq, (List.pairwise_append.mp hpairs).2.1⟩
        rintro p rfl
        exact (List.pairwise_cons.mp hpairs).1 seq List.mem_cons_self
  · rintro ⟨hhead, positions, heq, hpairs⟩
    refine ⟨seq :: positions, by rw [heq, List.map_cons], ?_⟩
    cases prev with
    | none => exact hpairs
    | some p =>
        have hp := hhead p rfl
        refine List.pairwise_cons.mpr ⟨?_, hpairs⟩
        intro q hq
        rcases List.mem_cons.mp hq with rfl | hq
        · exact hp
        · exact UInt64.lt_trans hp ((List.pairwise_cons.mp hpairs).1 q hq)

theorem checkSeqs_sealed_iff
    (chunks : List ChunkRefWire) (prev : Option UInt64) :
    checkSeqs true prev chunks = .ok () <-> Increasing prev (chunks.map ChunkRefWire.seq) := by
  induction chunks generalizing prev with
  | nil =>
      refine iff_of_true rfl ⟨[], rfl, ?_⟩
      cases prev <;> simp
  | cons c rest ih =>
      rw [List.map_cons]
      cases hseq : c.seq with
      | none =>
          simp only [checkSeqs, hseq]
          exact iff_of_false nofun not_increasing_none
      | some seq =>
          simp only [checkSeqs, hseq]
          rw [increasing_cons_iff]
          by_cases hprev : (prev.any fun p => seq ≤ p) = true
          · rw [if_pos hprev]
            refine iff_of_false nofun ?_
            rintro ⟨hhead, -⟩
            rcases (Option.any_eq_true _ _).mp hprev with ⟨p, hp, hle⟩
            exact absurd (of_decide_eq_true hle) (UInt64.not_le.mpr (hhead p hp))
          · rw [if_neg hprev, ih (some seq)]
            refine (and_iff_right ?_).symm
            rintro p rfl
            simpa using hprev

theorem checkSeqs_plain_iff
    (chunks : List ChunkRefWire) (prev : Option UInt64) :
    checkSeqs false prev chunks = .ok () <-> forall c, c ∈ chunks -> c.seq = none := by
  induction chunks generalizing prev with
  | nil => simp [checkSeqs]
  | cons c rest ih =>
      cases hseq : c.seq with
      | none => simp [checkSeqs, ih prev, hseq]
      | some seq => simp [checkSeqs, hseq]

theorem readTier_eq_ok_iff
    (tier : Option CryptoTier) :
    w.readTier = .ok tier <->
      (w.v = chunkManifestVersion ∧ w.chunkTier = none ∧ tier = none) ∨
        (w.isSealed = true ∧ exists t, w.chunkTier.bind CryptoTier.parseStr = some t ∧
          tier = some t) := by
  unfold readTier
  by_cases hplain : w.v = chunkManifestVersion
  · have hsealed : w.isSealed = false := by
      rw [isSealed, streamKeyed, hplain]
      rfl
    rw [if_pos hplain, hsealed]
    cases w.chunkTier with
    | none => simp [hplain, eq_comm]
    | some t => simp
  · rw [if_neg hplain]
    by_cases hsealed : w.v = chunkManifestVersionSealed ∨ w.v = chunkManifestVersionStream
    · have hsealed' : w.isSealed = true := by
        simpa [isSealed, streamKeyed] using hsealed
      rw [if_pos hsealed, hsealed']
      cases w.chunkTier with
      | none => simp [hplain]
      | some token =>
          cases htoken : CryptoTier.parseStr token with
          | none => simp [hplain, htoken]
          | some t => simp [hplain, htoken, eq_comm]
    · have hsealed' : w.isSealed = false := by
        simpa [isSealed, streamKeyed] using hsealed
      rw [if_neg hsealed, hsealed']
      simp [hplain]

theorem readChunk_eq_ok
    {c : ChunkRefWire} {chunk : ChunkRef} (h : readChunk c = .ok chunk) :
    chunk.size = c.size ∧ chunk.seq = c.seq ∧ chunk.epoch = c.epoch := by
  unfold readChunk at h
  split at h
  · cases h
  · split at h
    · cases h
      exact ⟨rfl, rfl, rfl⟩
    · cases h

theorem readChunks_eq_ok
    {wires : List ChunkRefWire} {chunks : List ChunkRef}
    (h : Checks.readAll readChunk wires = .ok chunks) :
    chunks.map ChunkRef.seq = wires.map ChunkRefWire.seq ∧
      chunks.map ChunkRef.epoch = wires.map ChunkRefWire.epoch := by
  have hpairs := Checks.readAll_eq_ok_iff.mp h
  clear h
  induction hpairs with
  | nil => exact ⟨rfl, rfl⟩
  | cons hchunk _ ih =>
      rcases readChunk_eq_ok hchunk with ⟨-, hseq, hepoch⟩
      exact ⟨by simp [hseq, ih.1], by simp [hepoch, ih.2]⟩

end ManifestWire

end CirisPersist.Federation
