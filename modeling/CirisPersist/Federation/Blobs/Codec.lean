import CirisPersist.Federation.Blobs.Parse

/-!
# The manifest format is a codec

What is well formed for its version is written and read back as it was, and nothing
else is read.  The writer's text is the canonical text of a value, the value reads back
into the wire type, and the wire type passes the checks exactly when the manifest is
well formed.
-/

namespace CirisPersist.Federation

/-!
## Well-formed manifests
-/

/-- Every chunk has a position, and the positions strictly increase. -/
def Positioned (chunks : List ChunkRef) : Prop :=
  exists positions : List UInt64, chunks.map ChunkRef.seq = positions.map some ∧
    positions.Pairwise fun a b => a < b

inductive ChunkManifest.WellFormed (m : ChunkManifest) : Prop where
  | plaintext (hv : m.v = chunkManifestVersion) (htier : m.chunkTier = none)
      (hstream : m.streamId = none)
      (hchunks : forall c, c ∈ m.chunks -> c.seq = none ∧ c.epoch = none)
  | perChunk (hv : m.v = chunkManifestVersionSealed) (htier : m.chunkTier.isSome = true)
      (hstream : m.streamId.isSome = true) (hseqs : Positioned m.chunks)
      (hepochs : forall c, c ∈ m.chunks -> c.epoch = none)
  | perEpoch (hv : m.v = chunkManifestVersionStream) (htier : m.chunkTier.isSome = true)
      (hstream : m.streamId.isSome = true) (hseqs : Positioned m.chunks)
      (hepochs : forall c, c ∈ m.chunks -> c.epoch.isSome = true)

def NestedManifest.WellFormed (m : NestedManifest) : Prop :=
  m.chunkTier ≠ .plaintext ∧ m.streamId ≠ "" ∧ m.validate = .ok ()

def ParsedManifest.WellFormed : ParsedManifest -> Prop
  | .flat m => m.WellFormed
  | .nested m => m.WellFormed

def ParsedManifest.toJcsBytes [SerdeJson] : ParsedManifest -> ByteArray
  | .flat m => m.toJcsBytes
  | .nested m => m.toJcsBytes

/-!
## The checks on the wire type
-/

def ChunkRef.wire (c : ChunkRef) : ChunkRefWire where
  sha := c.sha.hex
  size := c.size
  seq := c.seq
  epoch := c.epoch

def ChunkManifest.wire (m : ChunkManifest) : ManifestWire where
  v := m.v
  totalSize := m.totalSize
  chunks := m.chunks.map ChunkRef.wire
  chunkTier := m.chunkTier.map CryptoTier.asStr
  streamId := m.streamId
  chunkKeys := if m.v = chunkManifestVersionStream then some chunkKeysStreamEpoch else none

namespace ManifestWire

variable {m : ChunkManifest}

theorem wellFormed_of_toManifest
    {w : ManifestWire} (h : w.toManifest = .ok m) :
    m.WellFormed := by
  simp only [toManifest, Checks.bind_eq_ok_iff] at h
  rcases h with
    ⟨_, -, _, hposition, _, hepochs, _, hseqs, tier, htier, chunks, hchunks, hm⟩
  cases hm
  rw [checkPosition_iff] at hposition
  rw [checkEpochs_iff] at hepochs
  rcases readChunks_eq_ok hchunks with ⟨hseqMap, hepochMap⟩
  have hepochs' : forall c, c ∈ chunks -> c.epoch.isSome = w.streamKeyed := by
    intro c hc
    have hmem : c.epoch ∈ w.chunks.map ChunkRefWire.epoch := by
      rw [← hepochMap]
      exact List.mem_map_of_mem hc
    rcases List.mem_map.mp hmem with ⟨wire, hwire, heq⟩
    rw [← heq, hepochs wire hwire]
  rcases (readTier_eq_ok_iff w tier).mp htier with ⟨hv, -, rfl⟩ | ⟨hsealed, t, -, rfl⟩
  · have hkeyed : w.streamKeyed = false := by
      rw [streamKeyed, hv]
      rfl
    have hplain : w.isSealed = false := by
      rw [isSealed, streamKeyed, hv]
      rfl
    rw [hplain] at hposition hseqs
    rw [hkeyed] at hepochs'
    refine .plaintext hv rfl (by simpa using hposition) ?_
    intro c hc
    have hmem : c.seq ∈ w.chunks.map ChunkRefWire.seq := by
      rw [← hseqMap]
      exact List.mem_map_of_mem hc
    rcases List.mem_map.mp hmem with ⟨wire, hwire, heq⟩
    exact ⟨by rw [← heq, (checkSeqs_plain_iff w.chunks none).mp hseqs wire hwire],
      by simpa using hepochs' c hc⟩
  · rw [hsealed] at hposition hseqs
    have hpositioned : Positioned chunks := by
      rcases (checkSeqs_sealed_iff w.chunks none).mp hseqs with ⟨positions, heq, hpairs⟩
      exact ⟨positions, by rw [hseqMap, heq], hpairs⟩
    cases hkeyed : w.streamKeyed with
    | true =>
        rw [hkeyed] at hepochs'
        exact .perEpoch (by simpa [streamKeyed] using hkeyed) rfl hposition hpositioned hepochs'
    | false =>
        rw [hkeyed] at hepochs'
        refine .perChunk ?_ rfl hposition hpositioned ?_
        · simpa [isSealed, hkeyed] using hsealed
        · intro c hc
          simpa using hepochs' c hc

theorem readChunks_wire
    (chunks : List ChunkRef) :
    Checks.readAll readChunk (chunks.map ChunkRef.wire) = .ok chunks := by
  rw [Checks.readAll_eq_ok_iff, List.forall₂_map_left_iff, List.forall₂_same]
  intro c _
  simp [readChunk, ChunkRef.wire, Sha256.hex, Hex.decode_encode]

theorem toManifest_wire_of
    {keyed positioned : Bool} (hkeyed : m.wire.streamKeyed = keyed)
    (hsealed : m.wire.isSealed = positioned) (hstream : m.streamId.isSome = positioned)
    (hepochs : forall c, c ∈ m.chunks -> c.epoch.isSome = keyed)
    (hseqs : checkSeqs positioned none m.wire.chunks = .ok ())
    (htier : m.wire.readTier = .ok m.chunkTier) :
    m.wire.toManifest = .ok m := by
  have hkeys : m.wire.checkKeys = .ok () := by
    rw [checkKeys_iff]
    simp [ChunkManifest.wire, streamKeyed]
  have hposition : m.wire.checkPosition = .ok () := by
    rw [checkPosition_iff, hsealed]
    exact hstream
  have hepochs' : m.wire.checkEpochs = .ok () := by
    rw [checkEpochs_iff, hkeyed]
    intro wire hwire
    rcases List.mem_map.mp hwire with ⟨c, hc, rfl⟩
    exact hepochs c hc
  have hchunks : Checks.readAll readChunk m.wire.chunks = .ok m.chunks := readChunks_wire m.chunks
  simp only [toManifest, Checks.bind_eq_ok_iff]
  rw [hsealed]
  exact ⟨_, hkeys, _, hposition, _, hepochs', _, hseqs, _, htier, _, hchunks, rfl⟩

theorem checkSeqs_wire
    (h : Positioned m.chunks) :
    checkSeqs true none m.wire.chunks = .ok () := by
  rcases h with ⟨positions, heq, hpairs⟩
  rw [checkSeqs_sealed_iff]
  refine ⟨positions, ?_, hpairs⟩
  rw [← heq]
  simp [ChunkManifest.wire, ChunkRef.wire, Function.comp_def]

theorem readTier_wire
    (hsealed : m.wire.isSealed = true) (htier : m.chunkTier.isSome = true) :
    m.wire.readTier = .ok m.chunkTier := by
  rcases Option.isSome_iff_exists.mp htier with ⟨tier, htier⟩
  refine (readTier_eq_ok_iff _ _).mpr (Or.inr ⟨hsealed, tier, ?_, htier⟩)
  simp [ChunkManifest.wire, htier]

theorem streamKeyed_wire
    {version : UInt32} (hv : m.v = version) (hother : version ≠ chunkManifestVersionStream) :
    m.wire.streamKeyed = false := by
  simp [streamKeyed, ChunkManifest.wire, hv, hother]

theorem toManifest_wire
    (h : m.WellFormed) :
    m.wire.toManifest = .ok m := by
  cases h with
  | plaintext hv htier hstream hchunks =>
      have hkeyed := streamKeyed_wire hv (by decide)
      have hsealed : m.wire.isSealed = false := by
        rw [isSealed, hkeyed]
        show (m.v == chunkManifestVersionSealed || false) = false
        rw [hv]
        rfl
      refine toManifest_wire_of hkeyed hsealed (by rw [hstream]; rfl) ?_ ?_ ?_
      · intro c hc
        rw [(hchunks c hc).2]
        rfl
      · rw [checkSeqs_plain_iff]
        intro wire hwire
        rcases List.mem_map.mp hwire with ⟨c, hc, rfl⟩
        exact (hchunks c hc).1
      · refine (readTier_eq_ok_iff _ _).mpr (Or.inl ⟨hv, ?_, htier⟩)
        simp [ChunkManifest.wire, htier]
  | perChunk hv htier hstream hseqs hepochs =>
      have hkeyed := streamKeyed_wire hv (by decide)
      have hsealed : m.wire.isSealed = true := by
        simp [isSealed, ChunkManifest.wire, hv]
      refine toManifest_wire_of hkeyed hsealed hstream ?_ (checkSeqs_wire hseqs)
        (readTier_wire hsealed htier)
      intro c hc
      rw [hepochs c hc]
      rfl
  | perEpoch hv htier hstream hseqs hepochs =>
      have hkeyed : m.wire.streamKeyed = true := by
        simp [streamKeyed, ChunkManifest.wire, hv]
      have hsealed : m.wire.isSealed = true := by
        rw [isSealed, hkeyed, Bool.or_true]
      exact toManifest_wire_of hkeyed hsealed hstream hepochs (checkSeqs_wire hseqs)
        (readTier_wire hsealed htier)

end ManifestWire

def ManifestChildRef.wire (c : ManifestChildRef) : ChildWire where
  chunkCount := c.chunkCount
  firstSeq := c.firstSeq
  lastSeq := c.lastSeq
  sha := c.sha.hex
  size := c.size

def NestedManifest.wire (m : NestedManifest) : RootWire where
  v := chunkManifestVersionNested
  totalSize := m.totalSize
  children := m.children.map ManifestChildRef.wire
  chunkTier := m.chunkTier.asStr
  streamId := m.streamId

namespace RootWire

theorem readTier_eq_ok_iff
    (w : RootWire) (tier : CryptoTier) :
    w.readTier = .ok tier <-> CryptoTier.parseStr w.chunkTier = some tier ∧ tier ≠ .plaintext := by
  unfold readTier
  cases hfilter : (CryptoTier.parseStr w.chunkTier).filter fun t => t ≠ .plaintext with
  | none =>
      refine iff_of_false nofun ?_
      rintro ⟨hparse, htier⟩
      rw [hparse, Option.filter_some, if_pos (by simpa using htier)] at hfilter
      cases hfilter
  | some t =>
      have hfilter' : CryptoTier.parseStr w.chunkTier = some t ∧ t ≠ .plaintext := by
        simpa [Option.filter_eq_some_iff] using hfilter
      constructor
      · intro h
        cases h
        exact hfilter'
      · rintro ⟨hparse, -⟩
        rw [hfilter'.1] at hparse
        cases hparse
        rfl

theorem toManifest_eq_ok_iff
    (w : RootWire) (m : NestedManifest) :
    w.toManifest = .ok m <-> w.v = chunkManifestVersionNested ∧ w.readTier = .ok m.chunkTier ∧
      w.streamId ≠ "" ∧ Checks.readAll readChild w.children = .ok m.children ∧
      m.totalSize = w.totalSize ∧ m.streamId = w.streamId ∧ m.validate = .ok () := by
  unfold toManifest
  by_cases hv : w.v = chunkManifestVersionNested
  · rw [if_neg (by simpa using hv), Checks.bind_eq_ok_iff]
    by_cases hstream : w.streamId = ""
    · simp [hstream]
    · have hempty : w.streamId.isEmpty = false := by
        simpa using hstream
      simp only [hempty, Bool.false_eq_true, if_false, Checks.bind_eq_ok_iff]
      constructor
      · rintro ⟨tier, htier, children, hchildren, _, hvalidate, hm⟩
        cases hm
        exact ⟨hv, htier, hstream, hchildren, rfl, rfl, hvalidate⟩
      · rintro ⟨-, htier, -, hchildren, htotal, hstream', hvalidate⟩
        rw [← htotal, ← hstream']
        exact ⟨_, htier, _, hchildren, (), hvalidate, rfl⟩
  · rw [if_pos hv]
    exact iff_of_false nofun fun h => hv h.1

theorem wellFormed_of_toManifest
    {w : RootWire} {m : NestedManifest} (h : w.toManifest = .ok m) :
    m.WellFormed := by
  rcases (toManifest_eq_ok_iff w m).mp h with ⟨-, htier, hstream, -, -, hstream', hvalidate⟩
  exact ⟨((readTier_eq_ok_iff w _).mp htier).2, by rw [hstream']; exact hstream, hvalidate⟩

theorem readChild_wire
    (c : ManifestChildRef) :
    readChild c.wire = .ok c := by
  have hdecode : Hex.decodeToSlice 32 (Hex.encode c.sha.bytes) = .ok c.sha.bytes := by
    rw [← c.sha.length_bytes]
    exact Hex.decodeToSlice_encode c.sha.bytes
  simp [readChild, ManifestChildRef.wire, Sha256.hex, hdecode]

theorem toManifest_wire
    {m : NestedManifest} (h : m.WellFormed) :
    m.wire.toManifest = .ok m := by
  rcases h with ⟨htier, hstream, hvalidate⟩
  have hreadTier : m.wire.readTier = .ok m.chunkTier :=
    (readTier_eq_ok_iff _ _).mpr ⟨CryptoTier.parseStr_asStr _, htier⟩
  have hchildren : Checks.readAll readChild m.wire.children = .ok m.children := by
    rw [NestedManifest.wire, Checks.readAll_eq_ok_iff, List.forall₂_map_left_iff, List.forall₂_same]
    intro c _
    exact readChild_wire c
  exact (toManifest_eq_ok_iff _ _).mpr ⟨rfl, hreadTier, hstream, hchildren, rfl, rfl, hvalidate⟩

end RootWire

/-!
## The value that is written
-/

def ChunkRef.value (c : ChunkRef) : Json :=
  .obj (
    (match c.epoch with
      | some epoch => [("epoch", Json.nat epoch.toNat)]
      | none => []) ++
    (match c.seq with
      | some seq => [("seq", Json.nat seq.toNat)]
      | none => []) ++
    [("sha", .str c.sha.hex), ("size", Json.nat c.size.toNat)])

def ChunkManifest.value (m : ChunkManifest) : Json :=
  .obj (
    (if m.v = chunkManifestVersionStream then
      [("chunk_keys", .str chunkKeysStreamEpoch)]
    else
      []) ++
    (match m.chunkTier with
      | some tier => [("chunk_tier", .str tier.asStr)]
      | none => []) ++
    [("chunks", .arr (m.chunks.map ChunkRef.value))] ++
    (match m.streamId with
      | some streamId => [("stream_id", .str streamId)]
      | none => []) ++
    [("total_size", Json.nat m.totalSize.toNat), ("v", Json.nat m.v.toNat)])

def ManifestChildRef.value (c : ManifestChildRef) : Json :=
  .obj [("chunk_count", Json.nat c.chunkCount.toNat), ("first_seq", Json.nat c.firstSeq.toNat),
    ("last_seq", Json.nat c.lastSeq.toNat), ("sha", .str c.sha.hex),
    ("size", Json.nat c.size.toNat)]

def NestedManifest.value (m : NestedManifest) : Json :=
  .obj [("children", .arr (m.children.map ManifestChildRef.value)),
    ("chunk_tier", .str m.chunkTier.asStr), ("stream_id", .str m.streamId),
    ("total_size", Json.nat m.totalSize.toNat), ("v", Json.nat 3)]

section Text

variable [SerdeJson] [LawfulSerdeJson]

variable {key : String}

theorem quote_key
    (hkey : (key.toList.all fun c => c.isAlphanum || c == '_') = true) :
    SerdeJson.quote key = "\"" ++ key ++ "\"" :=
  LawfulSerdeJson.quote_plain key (by simpa using hkey)

theorem spell_key
    {before text : String} (hkey : (key.toList.all fun c => c.isAlphanum || c == '_') = true)
    (htext : before ++ ("\"" ++ key ++ "\"" ++ ":") = text) :
    before ++ (SerdeJson.quote key ++ ":") = text := by
  rw [quote_key hkey]
  exact htext

theorem spell_key_open
    {before after text : String} (hkey : (key.toList.all fun c => c.isAlphanum || c == '_') = true)
    (htext : before ++ ("\"" ++ key ++ "\"" ++ ":") ++ after = text) :
    before ++ (SerdeJson.quote key ++ ":") ++ after = text := by
  rw [quote_key hkey]
  exact htext

theorem quote_hex
    (sha : Sha256) :
    SerdeJson.quote sha.hex = "\"" ++ sha.hex ++ "\"" := by
  refine LawfulSerdeJson.quote_plain _ fun c hc => ?_
  rw [Hex.isAlphanum_of_mem_encode hc, Bool.true_or]

theorem quote_tier
    (tier : CryptoTier) :
    SerdeJson.quote tier.asStr = "\"" ++ tier.asStr ++ "\"" := by
  cases tier <;> exact quote_key (by decide)

theorem ChunkRef.jcsText_eq_text
    (c : ChunkRef) :
    c.jcsText = c.value.text := by
  have hepoch : SerdeJson.quote "epoch" ++ ":" = "\"epoch\":" := by
    rw [quote_key (by decide)]
    rfl
  have hseq : SerdeJson.quote "seq" ++ ":" = "\"seq\":" := by
    rw [quote_key (by decide)]
    rfl
  have hsha : SerdeJson.quote "sha" ++ ":" ++ "\"" = "\"sha\":\"" := by
    rw [quote_key (by decide)]
    rfl
  have hsize : "\"" ++ "," ++ (SerdeJson.quote "size" ++ ":") = "\",\"size\":" :=
    spell_key (by decide) rfl
  unfold jcsText value
  rw [← hsha, ← hsize, ← hepoch, ← hseq]
  cases c.epoch <;> cases c.seq <;>
    simp only [Json.text, Json.fieldTexts, Json.commas, quote_hex, Json.text_nat, String.append_assoc,
      List.nil_append, List.cons_append, List.append_nil, String.empty_append]

theorem ChunkManifest.jcsText_eq_text
    (m : ChunkManifest) :
    m.jcsText = m.value.text := by
  have hkeys : SerdeJson.quote "chunk_keys" ++ ":" ++ "\"" = "\"chunk_keys\":\"" := by
    rw [quote_key (by decide)]
    rfl
  have htier : SerdeJson.quote "chunk_tier" ++ ":" ++ "\"" = "\"chunk_tier\":\"" := by
    rw [quote_key (by decide)]
    rfl
  have hclose : "\"" ++ "," = "\"," := rfl
  have hchunks : SerdeJson.quote "chunks" ++ ":" ++ "[" = "\"chunks\":[" := by
    rw [quote_key (by decide)]
    rfl
  have hstream : "," ++ (SerdeJson.quote "stream_id" ++ ":") = ",\"stream_id\":" :=
    spell_key (by decide) rfl
  have htotal : "," ++ (SerdeJson.quote "total_size" ++ ":") = ",\"total_size\":" :=
    spell_key (by decide) rfl
  have hv : "," ++ (SerdeJson.quote "v" ++ ":") = ",\"v\":" := spell_key (by decide) rfl
  have hepoch : SerdeJson.quote chunkKeysStreamEpoch = "\"" ++ chunkKeysStreamEpoch ++ "\"" :=
    quote_key (by decide)
  have hlist : m.chunks.map ChunkRef.jcsText = Json.itemTexts (m.chunks.map ChunkRef.value) := by
    rw [Json.itemTexts_eq_map, List.map_map]
    exact List.map_congr_left fun c _ => c.jcsText_eq_text
  unfold jcsText value
  rw [hlist, ← hkeys, ← htier, ← hclose, ← hchunks, ← hstream, ← htotal, ← hv]
  by_cases hstreamKeyed : m.v = chunkManifestVersionStream <;> cases m.chunkTier <;>
    cases m.streamId <;>
    simp only [hstreamKeyed, if_true, if_false, Json.text, Json.fieldTexts, Json.commas, quote_tier,
      hepoch, Json.text_nat, String.append_assoc, List.nil_append, List.cons_append,
      List.append_nil, String.empty_append]

theorem ManifestChildRef.jcsText_eq_text
    (c : ManifestChildRef) :
    c.jcsText = c.value.text := by
  have hcount : "\x7b" ++ (SerdeJson.quote "chunk_count" ++ ":") = "\x7b\"chunk_count\":" :=
    spell_key (by decide) rfl
  have hfirst : "," ++ (SerdeJson.quote "first_seq" ++ ":") = ",\"first_seq\":" :=
    spell_key (by decide) rfl
  have hlast : "," ++ (SerdeJson.quote "last_seq" ++ ":") = ",\"last_seq\":" :=
    spell_key (by decide) rfl
  have hsha : "," ++ (SerdeJson.quote "sha" ++ ":") ++ "\"" = ",\"sha\":\"" :=
    spell_key_open (by decide) rfl
  have hsize : "\"" ++ "," ++ (SerdeJson.quote "size" ++ ":") = "\",\"size\":" :=
    spell_key (by decide) rfl
  unfold jcsText value
  rw [← hcount, ← hfirst, ← hlast, ← hsha, ← hsize]
  simp only [Json.text, Json.fieldTexts, Json.commas, quote_hex, Json.text_nat, String.append_assoc]

theorem NestedManifest.jcsText_eq_text
    (m : NestedManifest) :
    m.jcsText = m.value.text := by
  have hchildren : "\x7b" ++ (SerdeJson.quote "children" ++ ":") ++ "[" = "\x7b\"children\":[" :=
    spell_key_open (by decide) rfl
  have htier : "]" ++ "," ++ (SerdeJson.quote "chunk_tier" ++ ":") ++ "\"" =
      "],\"chunk_tier\":\"" :=
    spell_key_open (by decide) rfl
  have hstream : "\"" ++ "," ++ (SerdeJson.quote "stream_id" ++ ":") = "\",\"stream_id\":" :=
    spell_key (by decide) rfl
  have htotal : "," ++ (SerdeJson.quote "total_size" ++ ":") = ",\"total_size\":" :=
    spell_key (by decide) rfl
  have hv : "," ++ (SerdeJson.quote "v" ++ ":") ++ Nat.repr 3 ++ "\x7d" = ",\"v\":3\x7d" := by
    rw [quote_key (by decide)]
    rfl
  have hlist : m.children.map ManifestChildRef.jcsText =
      Json.itemTexts (m.children.map ManifestChildRef.value) := by
    rw [Json.itemTexts_eq_map, List.map_map]
    exact List.map_congr_left fun c _ => c.jcsText_eq_text
  unfold jcsText value
  rw [hlist, ← hchildren, ← htier, ← hstream, ← htotal, ← hv]
  simp only [Json.text, Json.fieldTexts, Json.commas, quote_tier, Json.text_nat, String.append_assoc]

end Text

/-!
## The value reads back
-/

variable (d : Nat)

theorem plain_u64
    (n : UInt64) :
    Json.plain d (Json.nat n.toNat) = true := by
  simpa using n.toNat_lt

theorem plain_u32
    (n : UInt32) :
    Json.plain d (Json.nat n.toNat) = true := by
  have hlt := n.toNat_lt
  simp only [Json.plain_nat, decide_eq_true_eq]
  omega

theorem plain_str
    (s : String) :
    Json.plain d (.str s) = true := by
  cases d <;> simp [Json.plain]

theorem plain_chunk
    (c : ChunkRef) :
    c.value.plain (d + 1) = true := by
  unfold ChunkRef.value
  rw [Json.plain, Json.plainFields_append, Json.plainFields_append]
  cases c.epoch <;> cases c.seq <;>
    simp only [Json.plainFields, plain_u64, plain_u32, plain_str, Bool.and_self]

theorem plain_manifest
    (m : ChunkManifest) :
    m.value.plain (d + 3) = true := by
  have hchunks : Json.plainItems (d + 1) (m.chunks.map ChunkRef.value) = true := by
    rw [Json.plainItems_iff]
    intro v hv
    rcases List.mem_map.mp hv with ⟨c, -, rfl⟩
    exact plain_chunk d c
  have hlist : Json.plain (d + 2) (.arr (m.chunks.map ChunkRef.value)) = true := by
    rw [Json.plain, hchunks]
  unfold ChunkManifest.value
  rw [Json.plain, Json.plainFields_append, Json.plainFields_append, Json.plainFields_append,
    Json.plainFields_append]
  split <;> cases m.chunkTier <;> cases m.streamId <;>
    simp only [Json.plainFields, plain_u64, plain_u32, plain_str, hlist, Bool.and_self]

theorem plain_nested
    (m : NestedManifest) :
    m.value.plain (d + 3) = true := by
  have hchildren : Json.plainItems (d + 1) (m.children.map ManifestChildRef.value) = true := by
    rw [Json.plainItems_iff]
    intro v hv
    rcases List.mem_map.mp hv with ⟨c, -, rfl⟩
    rw [ManifestChildRef.value, Json.plain]
    simp only [Json.plainFields, plain_u64, plain_str, Bool.and_self]
  have hlist : Json.plain (d + 2) (.arr (m.children.map ManifestChildRef.value)) = true := by
    rw [Json.plain, hchildren]
  have hv : Json.plain (d + 2) (Json.nat 3) = true := by
    rw [Json.plain_nat]
    decide
  rw [NestedManifest.value, Json.plain]
  simp only [Json.plainFields, plain_u64, plain_str, hlist, hv, Bool.and_self]

theorem read_chunk
    (c : ChunkRef) :
    ChunkRefWire.read c.value = some c.wire := by
  unfold ChunkRef.value ChunkRefWire.read
  cases hepoch : c.epoch <;> cases hseq : c.seq <;>
    simp [Serde.members, Serde.single, Json.asStr, ChunkRef.wire, hepoch, hseq]

theorem read_manifest
    (m : ChunkManifest) :
    ManifestWire.read m.value = some m.wire := by
  have hchunks : Serde.readVec ChunkRefWire.read (.arr (m.chunks.map ChunkRef.value)) =
      some (m.chunks.map ChunkRef.wire) :=
    Serde.readVec_map m.chunks fun c _ => read_chunk c
  unfold ChunkManifest.value ManifestWire.read
  by_cases hkeyed : m.v = chunkManifestVersionStream <;> cases htier : m.chunkTier <;>
    cases hstream : m.streamId <;>
    simp [Serde.members, Serde.single, hchunks, ChunkManifest.wire, htier, hstream, hkeyed]

theorem read_version
    (m : ChunkManifest) :
    readVersion m.value = some m.v := by
  unfold ChunkManifest.value readVersion
  by_cases hkeyed : m.v = chunkManifestVersionStream <;> cases m.chunkTier <;>
    cases m.streamId <;> simp [Serde.members, Serde.single, hkeyed]

theorem read_child
    (c : ManifestChildRef) :
    ChildWire.read c.value = some c.wire := by
  simp [ChildWire.read, ManifestChildRef.value, Serde.members, Serde.single, Json.asStr,
    ManifestChildRef.wire]

theorem readU32_three :
    Serde.readU32 (Json.nat 3) = some chunkManifestVersionNested := by
  have hread := Serde.readU32_nat 3
  exact hread

theorem read_root
    (m : NestedManifest) :
    RootWire.read m.value = some m.wire := by
  have hchildren : Serde.readVec ChildWire.read (.arr (m.children.map ManifestChildRef.value)) =
      some (m.children.map ManifestChildRef.wire) :=
    Serde.readVec_map m.children fun c _ => read_child c
  simp [RootWire.read, NestedManifest.value, Serde.members, Serde.single, Json.asStr, hchildren,
    readU32_three, NestedManifest.wire]

theorem read_nested_version
    (m : NestedManifest) :
    readVersion m.value = some chunkManifestVersionNested := by
  simp [readVersion, NestedManifest.value, Serde.members, Serde.single, readU32_three]

/-!
## Round trips
-/

theorem ChunkManifest.WellFormed.v_ne_nested
    {m : ChunkManifest} (h : m.WellFormed) :
    m.v ≠ chunkManifestVersionNested := by
  cases h with
  | plaintext hv _ _ _ => rw [hv]; decide
  | perChunk hv _ _ _ _ => rw [hv]; decide
  | perEpoch hv _ _ _ _ => rw [hv]; decide

section Codec

variable [SerdeJson]

variable {bytes : ByteArray}

theorem ChunkManifest.wellFormed_of_read
    {m : ChunkManifest} (h : fromManifestBytes bytes = .ok m) :
    m.WellFormed := by
  unfold fromManifestBytes at h
  split at h
  · cases h
  · split at h
    · cases h
    · exact ManifestWire.wellFormed_of_toManifest h

theorem NestedManifest.wellFormed_of_read
    {m : NestedManifest} (h : fromManifestBytes bytes = .ok m) :
    m.WellFormed := by
  unfold fromManifestBytes at h
  split at h
  · cases h
  · exact RootWire.wellFormed_of_toManifest h

theorem ParsedManifest.wellFormed_of_parse
    {m : ParsedManifest} (h : parse bytes = .ok m) :
    m.WellFormed := by
  unfold parse at h
  split at h
  · cases h
  · split at h
    · rcases Checks.map_eq_ok_iff.mp h with ⟨n, hread, rfl⟩
      exact NestedManifest.wellFormed_of_read hread
    · rcases Checks.map_eq_ok_iff.mp h with ⟨n, hread, rfl⟩
      exact ChunkManifest.wellFormed_of_read hread

variable [LawfulSerdeJson]

theorem ChunkManifest.fromSlice_toJcsBytes
    (m : ChunkManifest) :
    SerdeJson.fromSlice m.toJcsBytes = some m.value := by
  rw [toJcsBytes, m.jcsText_eq_text]
  exact LawfulSerdeJson.fromSlice_text _ (plain_manifest 124 m)

theorem NestedManifest.fromSlice_toJcsBytes
    (m : NestedManifest) :
    SerdeJson.fromSlice m.toJcsBytes = some m.value := by
  rw [toJcsBytes, m.jcsText_eq_text]
  exact LawfulSerdeJson.fromSlice_text _ (plain_nested 124 m)

theorem ChunkManifest.read_toJcsBytes
    {m : ChunkManifest} (h : m.WellFormed) :
    fromManifestBytes m.toJcsBytes = .ok m := by
  have hversion : ¬ some m.v = some chunkManifestVersionNested := by
    simpa using h.v_ne_nested
  rw [fromManifestBytes, m.fromSlice_toJcsBytes, Option.bind_some, read_version,
    if_neg hversion, Option.bind_some, read_manifest]
  exact ManifestWire.toManifest_wire h

theorem NestedManifest.read_toJcsBytes
    {m : NestedManifest} (h : m.WellFormed) :
    fromManifestBytes m.toJcsBytes = .ok m := by
  rw [fromManifestBytes, m.fromSlice_toJcsBytes, Option.bind_some, read_root]
  exact RootWire.toManifest_wire h

theorem ParsedManifest.parse_toJcsBytes
    {m : ParsedManifest} (h : m.WellFormed) :
    parse m.toJcsBytes = .ok m := by
  cases m with
  | flat m =>
      have hversion : m.v ≠ chunkManifestVersionNested := ChunkManifest.WellFormed.v_ne_nested h
      rw [ParsedManifest.toJcsBytes, parse, m.fromSlice_toJcsBytes, Option.bind_some, read_version]
      simp only [if_neg hversion, ChunkManifest.read_toJcsBytes h, Except.map]
  | nested m =>
      rw [ParsedManifest.toJcsBytes, parse, m.fromSlice_toJcsBytes, Option.bind_some,
        read_nested_version]
      simp only [if_true, NestedManifest.read_toJcsBytes h, Except.map]

end Codec

theorem read_versions_eq
    {j : Json} {w : ManifestWire} {r : RootWire}
    (hw : ManifestWire.read j = some w) (hr : RootWire.read j = some r) :
    w.v = r.v := by
  unfold ManifestWire.read at hw
  unfold RootWire.read at hr
  split at hw
  · rename_i v _ _ _ _ _ hmembers
    split at hr
    · rename_i v' _ _ _ _ hmembers'
      cases Serde.members_head_eq hmembers hmembers'
      have hv : Serde.required Serde.readU32 v = some w.v := by
        simp only [Option.bind_eq_bind, Option.bind_eq_some_iff, Option.some.injEq] at hw
        rcases hw with ⟨v, hv, _, _, _, _, _, _, _, _, _, _, rfl⟩
        exact hv
      have hr' : Serde.required Serde.readU32 v = some r.v := by
        simp only [Option.bind_eq_bind, Option.bind_eq_some_iff, Option.some.injEq] at hr
        rcases hr with ⟨v, hv, _, _, _, _, _, _, _, _, rfl⟩
        exact hv
      rw [hv] at hr'
      exact Option.some.inj hr'
    · cases hr
  · cases hw

theorem not_flat_and_nested [SerdeJson]
    {bytes : ByteArray} {m : ChunkManifest} {n : NestedManifest}
    (hm : ChunkManifest.fromManifestBytes bytes = .ok m)
    (hn : NestedManifest.fromManifestBytes bytes = .ok n) :
    False := by
  have hwell := ChunkManifest.wellFormed_of_read hm
  unfold ChunkManifest.fromManifestBytes at hm
  unfold NestedManifest.fromManifestBytes at hn
  split at hm
  · cases hm
  · split at hm
    · cases hm
    · rename_i w hw
      split at hn
      · cases hn
      · rename_i r hr
        rcases Option.bind_eq_some_iff.mp hw with ⟨j, hj, hw⟩
        rw [hj, Option.bind_some] at hr
        have hnested := ((RootWire.toManifest_eq_ok_iff r n).mp hn).1
        have hv : m.v = w.v := by
          simp only [ManifestWire.toManifest, Checks.bind_eq_ok_iff] at hm
          rcases hm with ⟨_, _, _, _, _, _, _, _, _, _, _, _, hm⟩
          cases hm
          rfl
        exact hwell.v_ne_nested (by rw [hv, read_versions_eq hw hr, hnested])

/-- The manifest format is a codec: what is well formed reads back as it was written, only
what is well formed is read, different manifests have different bytes, and no bytes are
read as two kinds of manifest. -/
theorem manifest_codec [SerdeJson] [LawfulSerdeJson] :
    (forall m : ParsedManifest, m.WellFormed -> ParsedManifest.parse m.toJcsBytes = .ok m) ∧
    (forall bytes m, ParsedManifest.parse bytes = .ok m -> m.WellFormed) ∧
    (forall m m' : ParsedManifest, m.WellFormed -> m'.WellFormed ->
      m.toJcsBytes = m'.toJcsBytes -> m = m') ∧
    forall bytes m n, ChunkManifest.fromManifestBytes bytes = .ok m ->
      Not (NestedManifest.fromManifestBytes bytes = .ok n) := by
  refine ⟨fun m h => m.parse_toJcsBytes h, fun bytes m h => ParsedManifest.wellFormed_of_parse h, ?_,
    fun bytes m n hm hn => not_flat_and_nested hm hn⟩
  intro m m' h h' hbytes
  have hread := m.parse_toJcsBytes h
  rw [hbytes, m'.parse_toJcsBytes h'] at hread
  cases hread
  rfl

def streamManifest : ChunkManifest where
  v := 4
  totalSize := 5
  chunks := [⟨.zero, 2, some 7, some 1⟩, ⟨.zero, 3, some 9, some 2⟩]
  chunkTier := some .communityDek
  streamId := some "camera \"front\""

def streamRoot : NestedManifest where
  totalSize := 5
  chunkTier := .communityDek
  streamId := "camera \"front\""
  children := [⟨1, 7, 7, .zero, 2⟩, ⟨1, 9, 9, .zero, 3⟩]

open Reference in
theorem streamManifest_round_trip :
    ParsedManifest.parse streamManifest.toJcsBytes = .ok (.flat streamManifest) ∧
      ParsedManifest.parse streamRoot.toJcsBytes = .ok (.nested streamRoot) := by
  have hflat : streamManifest.WellFormed := by
    refine .perEpoch rfl rfl rfl ⟨[7, 9], rfl, by decide⟩ ?_
    decide
  have hnested : streamRoot.WellFormed := by
    refine ⟨by decide, by decide, ?_⟩
    rfl
  exact ⟨manifest_codec.1 (.flat streamManifest) hflat,
    manifest_codec.1 (.nested streamRoot) hnested⟩

end CirisPersist.Federation
