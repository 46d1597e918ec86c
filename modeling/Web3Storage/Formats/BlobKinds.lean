import Web3Storage.Formats.Manifests

/-!
# Directories and manifests as blobs

The header of a blob does not hold the kind of node, so the bodies decide. A directory begins like a
manifest whose MIME type has as many bytes as the directory has children. What follows would be the size of
a file and the number of its chunks, which directories with a first name that is long and has no zero byte
do not spell: `kinds_disjoint` says when a blob is of one kind only, and `crafted_directory` is of both.
-/

set_option autoImplicit false
set_option relaxedAutoImplicit false

namespace Web3Storage.Formats

open Foundations Primitives

/-- A reader accepts some bytes as a directory. -/
def AcceptedAsDirectory (bytes : Bytes) : Prop :=
  ∃ node, DirectoryNode.fromBlob bytes = .ok node ∧ node.validate = .ok ()

/-- A reader accepts some bytes as a file manifest. -/
def AcceptedAsManifest (bytes : Bytes) : Prop :=
  ∃ manifest, FileManifest.fromBlob bytes = .ok manifest ∧ manifest.validate = .ok ()

/-- What follows the MIME type of a manifest. -/
structure ManifestRest where
  totalSize : Word 8
  chunks : BoundedVec FileChunk maxFileChunks
  encryptionParams : BoundedVec UInt8 maxEncryptionParamsLength
  userMetadata : BoundedVec MetadataEntry maxMetadataEntries

namespace ManifestRest

variable (rest : ManifestRest)

/-- The manifest with some bucket and MIME type. -/
def manifest (bucketId : Word 8) (mimeType : BoundedVec UInt8 maxMimeTypeLength) : FileManifest :=
  ⟨bucketId, mimeType, rest.totalSize, rest.chunks, rest.encryptionParams, rest.userMetadata⟩

theorem maxFileChunks_lt : maxFileChunks < 256 ^ 4 := by
  decide

theorem maxEncryptionParamsLength_lt : maxEncryptionParamsLength < 256 ^ 4 := by
  decide

theorem maxMetadataEntries_lt : maxMetadataEntries < 256 ^ 4 := by
  decide

def encode : Bytes :=
  (Scale.uint 8).encode rest.totalSize ++
    ((Scale.vec maxFileChunks fileChunkCodec maxFileChunks_lt).encode rest.chunks ++
      ((Scale.vec maxEncryptionParamsLength Scale.u8 maxEncryptionParamsLength_lt).encode
          rest.encryptionParams ++
        (Scale.vec maxMetadataEntries metadataEntryCodec maxMetadataEntries_lt).encode rest.userMetadata))

/-- The manifests with this rest are valid. -/
def Valid : Prop :=
  (rest.userMetadata.1.IsChain fun first second ↦ first.key.1 < second.key.1) ∧
    rest.chunks.1.length = (rest.totalSize.1 + chunkSize - 1) / chunkSize ∧
      ∀ entry ∈ rest.chunks.1.zipIdx, entry.1.sequence.1 = entry.2

/-- Validation looks at neither the bucket nor the MIME type. -/
theorem validate_manifest (bucketId : Word 8) (mimeType : BoundedVec UInt8 maxMimeTypeLength) :
    (rest.manifest bucketId mimeType).validate = .ok () ↔ rest.Valid := by
  unfold FileManifest.validate Valid manifest
  constructor
  · intro h
    split_ifs at h with hchain hcount hsequence
    exact ⟨hchain, not_not.mp hcount, hsequence⟩
  · rintro ⟨hchain, hcount, hsequence⟩
    rw [if_neg (not_not.mpr hchain), if_neg (not_not.mpr hcount), if_neg (not_not.mpr hsequence)]

end ManifestRest

namespace DirectoryNode

variable (node : DirectoryNode)

/-- The entries and the empty metadata, as they follow the number of entries. -/
def entryBytes : Bytes := node.children.1.flatMap directoryEntryCodec.encode ++ [0]

/-- The directory has so many children that their bytes, from that place on, are what follows the MIME
type in a valid manifest. -/
def ReadsAsManifest : Prop :=
  node.children.1.length ≤ maxMimeTypeLength ∧
    ∃ rest : ManifestRest, rest.Valid ∧ node.entryBytes.drop node.children.1.length = rest.encode

theorem encode_codec (hmetadata : node.metadata.1 = []) : codec.encode node =
    littleEndian 8 node.bucketId.1 ++ (Scale.encodeCompact node.children.1.length ++ node.entryBytes) := by
  obtain ⟨bucketId, children, metadata, hlength⟩ := node
  simp only at hmetadata
  subst hmetadata
  have hempty : (Scale.vec maxMetadataEntries metadataEntryCodec).encode ⟨[], hlength⟩ = [0] := by
    change Scale.encodeCompact 0 ++ [] = [0]
    decide
  change littleEndian 8 bucketId.1 ++ ((Scale.encodeCompact children.1.length ++
    children.1.flatMap directoryEntryCodec.encode) ++
      (Scale.vec maxMetadataEntries metadataEntryCodec).encode ⟨[], hlength⟩) = _
  rw [hempty, List.append_assoc]
  rfl

end DirectoryNode

theorem FileManifest.encode_codec (manifest : FileManifest) : codec.encode manifest =
    littleEndian 8 manifest.bucketId.1 ++ (Scale.encodeCompact manifest.mimeType.1.length ++
      (manifest.mimeType.1.flatMap Scale.u8.encode ++ ManifestRest.encode
        ⟨manifest.totalSize, manifest.chunks, manifest.encryptionParams, manifest.userMetadata⟩)) := by
  rw [← List.append_assoc (Scale.encodeCompact _)]
  rfl

/-- A list of single bytes is its own encoding. -/
theorem flatMap_encode_u8 (bytes : Bytes) : bytes.flatMap Scale.u8.encode = bytes := by
  induction bytes with
  | nil => rfl
  | cons byte rest ih =>
    have hbyte : Scale.u8.encode byte = [byte] := by
      change littleEndian 1 byte.toNat = [byte]
      rw [littleEndian_succ, UInt8.ofNat_toNat]
      rfl
    rw [List.flatMap_cons, hbyte, ih]
    rfl

theorem encodeCompact_append_inj {n n' : ℕ} (hn : n < 256 ^ 4) (hn' : n' < 256 ^ 4)
    {rest rest' : Bytes} (h : Scale.encodeCompact n ++ rest = Scale.encodeCompact n' ++ rest') :
    n = n' ∧ rest = rest' := by
  have hread := Scale.decodeCompact_encodeCompact hn rest
  rw [h, Scale.decodeCompact_encodeCompact hn'] at hread
  cases hread
  exact ⟨rfl, rfl⟩

/-- A valid directory has no metadata. -/
theorem DirectoryNode.metadata_of_validate {node : DirectoryNode} (h : node.validate = .ok ()) :
    node.metadata.1 = [] := by
  by_contra hmetadata
  unfold DirectoryNode.validate at h
  rw [if_pos hmetadata] at h
  cases h

/-- An entry has at least one byte. -/
theorem one_le_length_encode (entry : DirectoryEntry) :
    1 ≤ (directoryEntryCodec.encode entry).length := by
  change 1 ≤ (((Scale.vec maxEntryNameLength Scale.u8).encode entry.name) ++
    (entryTypeCodec.encode entry.entryType ++ (entry.cid.bytes ++
      (littleEndian 8 entry.size.1 ++ littleEndian 8 entry.mtime.1)))).length
  simp only [List.length_append, entry.cid.length_bytes]
  omega

theorem DirectoryNode.length_children_le (node : DirectoryNode) :
    node.children.1.length ≤ node.entryBytes.length := by
  have hsum (entries : List DirectoryEntry) :
      entries.length ≤ (entries.flatMap directoryEntryCodec.encode).length := by
    induction entries with
    | nil => exact Nat.zero_le _
    | cons entry rest ih =>
      have hone := one_le_length_encode entry
      rw [List.flatMap_cons, List.length_append, List.length_cons]
      omega
  unfold DirectoryNode.entryBytes
  rw [List.length_append]
  exact (hsum _).trans (Nat.le_add_right _ _)

/-- A valid directory is a manifest, byte for byte, exactly if it reads as one. -/
theorem DirectoryNode.readsAsManifest_iff {node : DirectoryNode} (hvalid : node.validate = .ok ()) :
    AcceptedAsManifest node.toBlob ↔ node.ReadsAsManifest := by
  have hbody := node.encode_codec (DirectoryNode.metadata_of_validate hvalid)
  have hcount := node.length_children_le
  constructor
  · rintro ⟨manifest, hread, hmanifest⟩
    have hblob : node.toBlob = manifest.toBlob := (fromBlob_eq_ok _).1 hread
    have hsame : DirectoryNode.codec.encode node = FileManifest.codec.encode manifest :=
      List.append_cancel_left hblob
    rw [hbody, manifest.encode_codec, flatMap_encode_u8] at hsame
    obtain ⟨-, hsame⟩ := littleEndian_append_inj node.bucketId.2 manifest.bucketId.2 hsame
    obtain ⟨hlength, hsame⟩ := encodeCompact_append_inj
      (Nat.lt_of_le_of_lt node.children.2 (by decide))
      (Nat.lt_of_le_of_lt manifest.mimeType.2 (by decide)) hsame
    refine ⟨hlength ▸ manifest.mimeType.2, ⟨manifest.totalSize, manifest.chunks,
      manifest.encryptionParams, manifest.userMetadata⟩,
      (ManifestRest.validate_manifest _ _ _).mp hmanifest, ?_⟩
    rw [hsame, hlength, List.drop_left]
  · rintro ⟨hlength, rest, hrest, htail⟩
    have hmime : (node.entryBytes.take node.children.1.length).length = node.children.1.length :=
      List.length_take_of_le hcount
    have hbound : (node.entryBytes.take node.children.1.length).length ≤ maxMimeTypeLength :=
      hmime.trans_le hlength
    refine ⟨rest.manifest node.bucketId ⟨_, hbound⟩, (fromBlob_eq_ok _).2 ?_,
      (rest.validate_manifest _ _).mpr hrest⟩
    have hsame : DirectoryNode.codec.encode node =
        FileManifest.codec.encode (rest.manifest node.bucketId ⟨_, hbound⟩) := by
      rw [hbody, FileManifest.encode_codec, flatMap_encode_u8]
      simp only [ManifestRest.manifest, hmime]
      change _ = _ ++ (_ ++ (_ ++ rest.encode))
      rw [← htail, List.take_append_drop]
    exact congrArg (formatMagic ++ [formatVersion] ++ ·) hsame

/-- The kinds of a blob are disjoint off the directories that read as a manifest. -/
theorem not_accepted_iff (bytes : Bytes) :
    ¬ (AcceptedAsDirectory bytes ∧ AcceptedAsManifest bytes) ↔
      ∀ node, DirectoryNode.fromBlob bytes = .ok node → node.validate = .ok () →
        ¬ node.ReadsAsManifest := by
  constructor
  · intro hdisjoint node hread hvalid hambiguous
    have hbytes : bytes = node.toBlob := (fromBlob_eq_ok _).1 hread
    refine hdisjoint ⟨⟨node, hread, hvalid⟩, ?_⟩
    rw [hbytes]
    exact (DirectoryNode.readsAsManifest_iff hvalid).2 hambiguous
  · rintro hnone ⟨⟨node, hread, hvalid⟩, hmanifest⟩
    have hbytes : bytes = node.toBlob := (fromBlob_eq_ok _).1 hread
    rw [hbytes] at hmanifest
    exact hnone node hread hvalid ((DirectoryNode.readsAsManifest_iff hvalid).1 hmanifest)

/-! ### Bytes of a file -/

/-- The number of chunks of a file. -/
def chunkCount (size : ℕ) : ℕ := (size + chunkSize - 1) / chunkSize

/-- Some bytes begin with the size of a file and the number of its chunks. -/
def SpellsSize (bytes : Bytes) : Prop :=
  ∃ size rest, size < 256 ^ 8 ∧ chunkCount size ≤ maxFileChunks ∧
    bytes = littleEndian 8 size ++ (Scale.encodeCompact (chunkCount size) ++ rest)

/-- Some bytes after their number. -/
def counted (bytes : Bytes) : Bytes := Scale.encodeCompact bytes.length ++ bytes

/-- Some bytes are the size of a file, its chunks by number, encryption parameters and metadata sorted by
unique keys, each list after its length. -/
def SpellsFile (bytes : Bytes) : Prop :=
  ∃ (size : ℕ) (cids : List Cid) (params : Bytes) (pairs : List MetadataEntry),
    (size < 256 ^ 8 ∧ cids.length = chunkCount size ∧ cids.length ≤ maxFileChunks ∧
      params.length ≤ maxEncryptionParamsLength ∧ pairs.length ≤ maxMetadataEntries ∧
        pairs.IsChain fun first second ↦ first.key.1 < second.key.1) ∧
    bytes = littleEndian 8 size ++
      (Scale.encodeCompact cids.length ++
          cids.zipIdx.flatMap (fun (cid, sequence) ↦ cid.bytes ++ littleEndian 4 sequence) ++
        (counted params ++ (Scale.encodeCompact pairs.length ++
          pairs.flatMap fun pair ↦ counted pair.key.1 ++ counted pair.value.1)))

theorem SpellsFile.spellsSize {bytes : Bytes} (h : SpellsFile bytes) : SpellsSize bytes := by
  obtain ⟨size, cids, params, pairs, ⟨hsize, hcount, hbound, -⟩, rfl⟩ := h
  rw [hcount] at hbound ⊢
  exact ⟨size, _, hsize, hbound, by rw [List.append_assoc]⟩

/-- The size of a file has at most 35 bits, so that the last three bytes of it are zero. -/
theorem SpellsSize.getElem?_eq_zero {bytes : Bytes} (h : SpellsSize bytes) {place : ℕ}
    (hlow : 5 ≤ place) (hhigh : place < 8) : bytes[place]? = some 0 := by
  obtain ⟨size, rest, -, hbound, rfl⟩ := h
  have hsmall : size < 256 ^ 5 := by
    unfold chunkCount chunkSize defaultChunkSize maxFileChunks at hbound
    omega
  have hzero : size / 256 ^ place = 0 :=
    Nat.div_eq_of_lt (hsmall.trans_le (Nat.pow_le_pow_right (by decide) hlow))
  rw [List.getElem?_append_left (by rwa [length_littleEndian])]
  unfold littleEndian
  rw [List.getElem?_map, List.getElem?_range hhigh, Option.map_some, hzero]
  rfl

/-- Chunks that are numbered by their places, as bytes. -/
theorem flatMap_encode_chunks {chunks : List FileChunk} {first : ℕ}
    (h : ∀ entry ∈ chunks.zipIdx first, entry.1.sequence.1 = entry.2) :
    chunks.flatMap fileChunkCodec.encode = ((chunks.map FileChunk.cid).zipIdx first).flatMap
      fun (cid, sequence) ↦ cid.bytes ++ littleEndian 4 sequence := by
  induction chunks generalizing first with
  | nil => rfl
  | cons chunk rest ih =>
    rw [List.zipIdx_cons, List.forall_mem_cons] at h
    obtain ⟨hnumber, hrest⟩ := h
    dsimp only at hnumber
    subst hnumber
    have hchunk : fileChunkCodec.encode chunk = chunk.cid.bytes ++ littleEndian 4 chunk.sequence.1 := rfl
    rw [List.flatMap_cons, List.map_cons, List.zipIdx_cons, List.flatMap_cons, ih hrest, hchunk]

theorem encode_vec_u8 {bound : ℕ} (hbound : bound < 256 ^ 4) (bytes : BoundedVec UInt8 bound) :
    (Scale.vec bound Scale.u8 hbound).encode bytes = counted bytes.1 := by
  change Scale.encodeCompact bytes.1.length ++ bytes.1.flatMap Scale.u8.encode = _
  rw [flatMap_encode_u8]
  rfl

theorem encode_metadataEntry (pair : MetadataEntry) :
    metadataEntryCodec.encode pair = counted pair.key.1 ++ counted pair.value.1 := by
  change (Scale.vec maxMetadataKeyLength Scale.u8).encode pair.key ++
    (Scale.vec maxMetadataValueLength Scale.u8).encode pair.value = _
  rw [encode_vec_u8, encode_vec_u8]

/-- The encoding of a valid rest, in its parts. -/
theorem ManifestRest.encode_eq {rest : ManifestRest} (hvalid : rest.Valid) :
    rest.encode = littleEndian 8 rest.totalSize.1 ++
      (Scale.encodeCompact (rest.chunks.1.map FileChunk.cid).length ++
          (rest.chunks.1.map FileChunk.cid).zipIdx.flatMap
            (fun (cid, sequence) ↦ cid.bytes ++ littleEndian 4 sequence) ++
        (counted rest.encryptionParams.1 ++ (Scale.encodeCompact rest.userMetadata.1.length ++
          rest.userMetadata.1.flatMap fun pair ↦ counted pair.key.1 ++ counted pair.value.1))) := by
  rw [← flatMap_encode_chunks hvalid.2.2, List.length_map, ← encode_vec_u8 maxEncryptionParamsLength_lt]
  simp only [← encode_metadataEntry]
  rfl

/-- A directory reads as a manifest exactly if it spells a file after its first bytes, as many as it has
children. -/
theorem DirectoryNode.readsAsManifest_iff_spells (node : DirectoryNode) :
    node.ReadsAsManifest ↔ node.children.1.length ≤ maxMimeTypeLength ∧
      SpellsFile (node.entryBytes.drop node.children.1.length) := by
  refine and_congr_right fun _ ↦ ⟨?_, ?_⟩
  · rintro ⟨rest, hvalid, htail⟩
    refine ⟨rest.totalSize.1, rest.chunks.1.map FileChunk.cid, rest.encryptionParams.1,
      rest.userMetadata.1, ⟨rest.totalSize.2, ?_, ?_, rest.encryptionParams.2, rest.userMetadata.2,
        hvalid.1⟩, ?_⟩
    · rw [List.length_map]
      exact hvalid.2.1
    · rw [List.length_map]
      exact rest.chunks.2
    · rw [htail, ManifestRest.encode_eq hvalid]
  · rintro ⟨size, cids, params, pairs, ⟨hsize, hcount, hbound, hparams, hpairs, hchain⟩, htail⟩
    have hlength := length_numberedChunks cids
    have hvalid : ManifestRest.Valid ⟨⟨size, hsize⟩, ⟨_, hlength.trans_le hbound⟩, ⟨params, hparams⟩,
        ⟨pairs, hpairs⟩⟩ := ⟨hchain, hlength.trans hcount, sequence_numberedChunks hbound⟩
    refine ⟨_, hvalid, ?_⟩
    rw [htail, ManifestRest.encode_eq hvalid]
    simp only [map_cid_numberedChunks]

/-- The bytes from a place in a long first name on do not begin with the size of a file if the name has
no zero byte. -/
theorem DirectoryNode.not_spellsSize {node : DirectoryNode} {first : DirectoryEntry}
    (hfirst : node.children.1.head? = some first)
    (hlong : node.children.1.length + 6 ≤ first.name.1.length) (hzero : 0 ∉ first.name.1) :
    ¬ SpellsSize (node.entryBytes.drop node.children.1.length) := by
  intro hspells
  have hbyte := hspells.getElem?_eq_zero le_rfl (by decide)
  rw [List.getElem?_drop] at hbyte
  obtain ⟨rest, hrest⟩ := List.head?_eq_some_iff.mp hfirst
  -- the entries begin with the length of the name, in one or two bytes, and the name
  have hentries : ∃ more, node.entryBytes =
      Scale.encodeCompact first.name.1.length ++ (first.name.1 ++ more) := by
    unfold DirectoryNode.entryBytes
    rw [hrest, List.flatMap_cons]
    change ∃ more, (((Scale.vec maxEntryNameLength Scale.u8).encode first.name) ++ _) ++ _ ++ _ = _
    rw [encode_vec_u8]
    simp only [counted, List.append_assoc, List.append_cancel_left_eq, exists_eq']
  obtain ⟨more, hmore⟩ := hentries
  have hshort : (Scale.encodeCompact first.name.1.length).length ≤ 2 :=
    (Scale.length_encodeCompact_le first.name.2).trans (by decide)
  rw [hmore, List.getElem?_append_right (by omega), List.getElem?_append_left (by omega)] at hbyte
  exact hzero (List.mem_of_getElem? hbyte)

/-- **The kinds of blobs are disjoint off the directories that spell a file.** A valid directory is no
manifest if its first name, as long as there is one, has no zero byte and at least six bytes more than the
directory has children. More generally it is none if it has more than 128 children or does not spell the
size of a file and the number of its chunks after its first bytes, as many as it has children; and exactly
if it has more than 128 children or does not spell a file there. -/
theorem kinds_disjoint (bytes : Bytes) :
    ((∀ node, DirectoryNode.fromBlob bytes = .ok node → node.validate = .ok () →
        ∀ first ∈ node.children.1.head?,
          node.children.1.length + 6 ≤ first.name.1.length ∧ 0 ∉ first.name.1) →
      ¬ (AcceptedAsDirectory bytes ∧ AcceptedAsManifest bytes)) ∧
    ((∀ node, DirectoryNode.fromBlob bytes = .ok node → node.validate = .ok () →
        maxMimeTypeLength < node.children.1.length ∨
          ¬ SpellsSize (node.entryBytes.drop node.children.1.length)) →
      ¬ (AcceptedAsDirectory bytes ∧ AcceptedAsManifest bytes)) ∧
    (¬ (AcceptedAsDirectory bytes ∧ AcceptedAsManifest bytes) ↔
      ∀ node, DirectoryNode.fromBlob bytes = .ok node → node.validate = .ok () →
        maxMimeTypeLength < node.children.1.length ∨
          ¬ SpellsFile (node.entryBytes.drop node.children.1.length)) := by
  have hexact : ¬ (AcceptedAsDirectory bytes ∧ AcceptedAsManifest bytes) ↔
      ∀ node, DirectoryNode.fromBlob bytes = .ok node → node.validate = .ok () →
        maxMimeTypeLength < node.children.1.length ∨
          ¬ SpellsFile (node.entryBytes.drop node.children.1.length) := by
    rw [not_accepted_iff]
    refine forall₃_congr fun node _ _ ↦ ?_
    rw [node.readsAsManifest_iff_spells, not_and_or, not_le]
  refine ⟨fun hnames ↦ hexact.mpr fun node hread hvalid ↦ .inr fun hspells ↦ ?_,
    fun hsizes ↦ hexact.mpr fun node hread hvalid ↦
      (hsizes node hread hvalid).imp_right fun hnot hspells ↦ hnot hspells.spellsSize, hexact⟩
  cases hfirst : node.children.1.head? with
  | none =>
    -- an empty directory has one byte
    have hempty : node.children.1 = [] := List.head?_eq_none_iff.mp hfirst
    have hbyte := hspells.spellsSize.getElem?_eq_zero le_rfl (by decide)
    rw [DirectoryNode.entryBytes, hempty] at hbyte
    cases hbyte
  | some first =>
    obtain ⟨hlong, hzero⟩ := hnames node hread hvalid first hfirst
    exact DirectoryNode.not_spellsSize hfirst hlong hzero hspells.spellsSize

/-- A directory with one empty file `aaaaaaa`. -/
def plainDirectory : DirectoryNode where
  bucketId := Word.ofNat 8 0
  children := ⟨[⟨⟨List.replicate 7 0x61, by decide⟩, .file, H256.zero, Word.ofNat 8 0, Word.ofNat 8 0⟩],
    by decide⟩
  metadata := ⟨[], by decide⟩

theorem kinds_disjoint_plain :
    ¬ (AcceptedAsDirectory plainDirectory.toBlob ∧ AcceptedAsManifest plainDirectory.toBlob) := by
  refine (kinds_disjoint plainDirectory.toBlob).1 fun node hread _ first hfirst ↦ ?_
  have hblob : plainDirectory.toBlob = node.toBlob := (fromBlob_eq_ok _).1 hread
  have hsame : DirectoryNode.fromBlob node.toBlob = .ok plainDirectory := (fromBlob_eq_ok _).2 hblob.symm
  rw [← hblob, hread] at hsame
  cases hsame
  cases hfirst
  decide

/-! ### A crafted directory -/

/-- Nine zero bytes and one character of two bytes. -/
def craftedName : Bytes := List.replicate 9 0 ++ [0xc8, 0x80]

/-- A directory with one empty file of that name. -/
def craftedDirectory : DirectoryNode where
  bucketId := Word.ofNat 8 0
  children := ⟨[⟨⟨craftedName, by decide⟩, .file, H256.zero, Word.ofNat 8 0, Word.ofNat 8 0⟩],
    by decide⟩
  metadata := ⟨[], by decide⟩

/-- The manifest of an empty file with encryption parameters. -/
def craftedManifest : FileManifest where
  bucketId := Word.ofNat 8 0
  mimeType := ⟨[0x2c], by decide⟩
  totalSize := Word.ofNat 8 0
  chunks := ⟨[], by decide⟩
  encryptionParams := ⟨0x80 :: List.replicate 49 0, by decide⟩
  userMetadata := ⟨[], by decide⟩

/-- One blob is accepted as a directory and as a manifest. -/
theorem crafted_directory : AcceptedAsDirectory craftedDirectory.toBlob ∧
    AcceptedAsManifest craftedDirectory.toBlob := by
  have hdirectory : craftedDirectory.validate = .ok () := by decide +kernel
  have hmanifest : craftedManifest.validate = .ok () := by decide +kernel
  have hsame : craftedDirectory.toBlob = craftedManifest.toBlob := by decide +kernel
  refine ⟨⟨craftedDirectory, (fromBlob_eq_ok _).2 rfl, hdirectory⟩, ?_⟩
  rw [hsame]
  exact ⟨craftedManifest, (fromBlob_eq_ok _).2 rfl, hmanifest⟩

end Web3Storage.Formats
