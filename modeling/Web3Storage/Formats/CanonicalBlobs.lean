import Web3Storage.Formats.Format
import Web3Storage.Foundations.SortedKeys

/-!
# One blob for each node

What is written for a directory or a manifest is read back, within the largest length of its kind, and
nothing else is read as it: a reader that accepts some bytes accepts exactly those that are written for
its result, with nothing after them. Validation fixes the order of entries, chunks and metadata, so
that nodes with the same fields and the same entries in any order are the same, and so are their blobs.
`blobs_canonical` says this of both kinds. The fields count: a listing of children alone does not fix
the blob (`listing_not_enough`).
-/

set_option autoImplicit false
set_option relaxedAutoImplicit false

namespace Web3Storage.Formats

open Foundations Primitives

/-! ### Largest blobs -/

def MetadataEntry.maxEncodedLen : ℕ :=
  Scale.vecMaxEncodedLen maxMetadataKeyLength 1 + Scale.vecMaxEncodedLen maxMetadataValueLength 1

def EntryType.maxEncodedLen : ℕ := 1

def DirectoryEntry.maxEncodedLen : ℕ :=
  Scale.vecMaxEncodedLen maxEntryNameLength 1 + (EntryType.maxEncodedLen + (32 + (8 + 8)))

def FileChunk.maxEncodedLen : ℕ := 32 + 4

namespace DirectoryNode

def maxEncodedLen : ℕ :=
  8 + (Scale.vecMaxEncodedLen maxDirectoryChildren DirectoryEntry.maxEncodedLen +
    Scale.vecMaxEncodedLen maxMetadataEntries MetadataEntry.maxEncodedLen)

/-- The largest blob of a directory. -/
def maxBlobLen : ℕ := headerLen + maxEncodedLen

end DirectoryNode

namespace FileManifest

def maxEncodedLen : ℕ :=
  8 + (Scale.vecMaxEncodedLen maxMimeTypeLength 1 + (8 +
    (Scale.vecMaxEncodedLen maxFileChunks FileChunk.maxEncodedLen +
      (Scale.vecMaxEncodedLen maxEncryptionParamsLength 1 +
        Scale.vecMaxEncodedLen maxMetadataEntries MetadataEntry.maxEncodedLen))))

/-- The largest blob of a manifest. -/
def maxBlobLen : ℕ := headerLen + maxEncodedLen

end FileManifest

theorem atMost_metadataEntry : metadataEntryCodec.AtMost MetadataEntry.maxEncodedLen :=
  ((Scale.atMost_vec Scale.atMost_u8).pair (Scale.atMost_vec Scale.atMost_u8)).map _

theorem atMost_entryType : entryTypeCodec.AtMost EntryType.maxEncodedLen :=
  fun _ ↦ Scale.atMost_u8 _

theorem atMost_directoryEntry : directoryEntryCodec.AtMost DirectoryEntry.maxEncodedLen :=
  ((Scale.atMost_vec Scale.atMost_u8).pair (atMost_entryType.pair (Scale.atMost_h256.pair
    ((Scale.atMost_uint 8).pair (Scale.atMost_uint 8))))).map _

theorem atMost_fileChunk : fileChunkCodec.AtMost FileChunk.maxEncodedLen :=
  (Scale.atMost_h256.pair (Scale.atMost_uint 4)).map _

theorem DirectoryNode.atMost_codec : codec.AtMost maxEncodedLen :=
  ((Scale.atMost_uint 8).pair ((Scale.atMost_vec atMost_directoryEntry).pair
    (Scale.atMost_vec atMost_metadataEntry))).map _

theorem FileManifest.atMost_codec : codec.AtMost maxEncodedLen :=
  ((Scale.atMost_uint 8).pair ((Scale.atMost_vec Scale.atMost_u8).pair ((Scale.atMost_uint 8).pair
    ((Scale.atMost_vec atMost_fileChunk).pair ((Scale.atMost_vec Scale.atMost_u8).pair
      (Scale.atMost_vec atMost_metadataEntry)))))).map _

/-! ### Accepted nodes are sorted -/

/-- The names of the children increase, so that no two are the same. -/
def DirectoryNode.StrictlySorted (node : DirectoryNode) : Prop :=
  node.children.1.Pairwise fun first second ↦ first.name.1 < second.name.1

/-- The keys of the metadata and the numbers of the chunks increase. -/
def FileManifest.StrictlySorted (manifest : FileManifest) : Prop :=
  (manifest.userMetadata.1.Pairwise fun first second ↦ first.key.1 < second.key.1) ∧
    manifest.chunks.1.Pairwise fun first second ↦ first.sequence.1 < second.sequence.1

theorem DirectoryNode.sorted_of_validate {node : DirectoryNode} (h : node.validate = .ok ()) :
    node.metadata.1 = [] ∧ node.StrictlySorted := by
  unfold DirectoryNode.validate at h
  by_cases hmetadata : node.metadata.1 = []
  · rw [if_neg (not_not.mpr hmetadata), bind_eq_ok] at h
    obtain ⟨done, -, hsorted⟩ := h
    split_ifs at hsorted with hchain
    have htrans : IsTrans DirectoryEntry fun first second ↦ first.name.1 < second.name.1 :=
      ⟨fun first second third hlt hlt' ↦ List.lt_trans hlt hlt'⟩
    exact ⟨hmetadata, List.isChain_iff_pairwise.mp hchain⟩
  · rw [if_pos hmetadata] at h
    cases h

theorem FileManifest.sorted_of_validate {manifest : FileManifest} (h : manifest.validate = .ok ()) :
    manifest.StrictlySorted := by
  unfold FileManifest.validate at h
  split_ifs at h with hchain hcount hsequence
  constructor
  · have htrans : IsTrans MetadataEntry fun first second ↦ first.key.1 < second.key.1 :=
      ⟨fun first second third hlt hlt' ↦ List.lt_trans hlt hlt'⟩
    exact List.isChain_iff_pairwise.mp hchain
  · -- a chunk is numbered by its place
    rw [List.pairwise_iff_getElem]
    intro i j hi hj hlt
    have hplace (place : ℕ) (hbound : place < manifest.chunks.1.length) :
        (manifest.chunks.1[place]).sequence.1 = place := by
      refine hsequence (manifest.chunks.1[place], place) ?_
      rw [List.mem_zipIdx_iff_getElem?]
      exact List.getElem?_eq_getElem hbound
    rw [hplace i hi, hplace j hj]
    exact hlt

/-! ### Canonical blobs -/

/-- The same bucket and the same children. -/
def DirectoryNode.SameContent (node node' : DirectoryNode) : Prop :=
  node.bucketId = node'.bucketId ∧ ∀ entry, entry ∈ node.children.1 ↔ entry ∈ node'.children.1

/-- The same bucket, texts and size, the same chunks and the same metadata. -/
def FileManifest.SameContent (manifest manifest' : FileManifest) : Prop :=
  manifest.bucketId = manifest'.bucketId ∧ manifest.mimeType = manifest'.mimeType ∧
    manifest.totalSize = manifest'.totalSize ∧
    manifest.encryptionParams = manifest'.encryptionParams ∧
    (∀ chunk, chunk ∈ manifest.chunks.1 ↔ chunk ∈ manifest'.chunks.1) ∧
    ∀ entry, entry ∈ manifest.userMetadata.1 ↔ entry ∈ manifest'.userMetadata.1

theorem DirectoryNode.eq_of_sameContent {node node' : DirectoryNode} (h : node.validate = .ok ())
    (h' : node'.validate = .ok ()) (hsame : node.SameContent node') : node = node' := by
  obtain ⟨hmetadata, hsorted⟩ := DirectoryNode.sorted_of_validate h
  obtain ⟨hmetadata', hsorted'⟩ := DirectoryNode.sorted_of_validate h'
  obtain ⟨hbucket, hchildren⟩ := hsame
  have hentries := eq_of_keys_sorted (fun entry : DirectoryEntry ↦ entry.name.1) (· < ·) hsorted
    hsorted' hchildren
  obtain ⟨bucketId, children, metadata⟩ := node
  obtain ⟨bucketId', children', metadata'⟩ := node'
  rw [DirectoryNode.mk.injEq]
  exact ⟨hbucket, Subtype.ext hentries, Subtype.ext (hmetadata.trans hmetadata'.symm)⟩

theorem FileManifest.eq_of_sameContent {manifest manifest' : FileManifest}
    (h : manifest.validate = .ok ()) (h' : manifest'.validate = .ok ())
    (hsame : manifest.SameContent manifest') : manifest = manifest' := by
  obtain ⟨hmetadata, hchunks⟩ := FileManifest.sorted_of_validate h
  obtain ⟨hmetadata', hchunks'⟩ := FileManifest.sorted_of_validate h'
  obtain ⟨hbucket, hmime, hsize, hparams, hsameChunks, hsameMetadata⟩ := hsame
  have hchunkList := eq_of_keys_sorted (fun chunk : FileChunk ↦ chunk.sequence.1) (· < ·) hchunks
    hchunks' hsameChunks
  have hmetadataList := eq_of_keys_sorted (fun entry : MetadataEntry ↦ entry.key.1) (· < ·) hmetadata
    hmetadata' hsameMetadata
  obtain ⟨bucketId, mimeType, totalSize, chunks, encryptionParams, userMetadata⟩ := manifest
  obtain ⟨bucketId', mimeType', totalSize', chunks', encryptionParams', userMetadata'⟩ := manifest'
  rw [FileManifest.mk.injEq]
  exact ⟨hbucket, hmime, hsize, Subtype.ext hchunkList, hparams, Subtype.ext hmetadataList⟩

section Canonical

variable {T : Type} (codec : Codec T) (validate : T → Except FileSystemError Unit)

/-- A reader accepts some bytes as a value. -/
def Accepted (bytes : Bytes) (value : T) : Prop :=
  fromBlob codec bytes = .ok value ∧ validate value = .ok ()

/-- The blobs of a kind of node are canonical: valid values are read back and fit, only what is written
is read, no blob goes on after another, accepted entries are strictly sorted, and values of the same
content have one blob. -/
structure CanonicalBlobs (maxBlobLen : ℕ) (strictlySorted : T → Prop) (sameContent : T → T → Prop) :
    Prop where
  read_written : ∀ value, validate value = .ok () →
    Accepted codec validate (toBlob codec value) value ∧
      (toBlob codec value).length ≤ maxBlobLen
  written_read : ∀ bytes value, Accepted codec validate bytes value → toBlob codec value = bytes
  no_trailing : ∀ bytes value rest value', Accepted codec validate bytes value → rest ≠ [] →
    fromBlob codec (bytes ++ rest) ≠ .ok value'
  sorted : ∀ bytes value, Accepted codec validate bytes value → strictlySorted value
  one_blob : ∀ bytes bytes' value value', Accepted codec validate bytes value →
    Accepted codec validate bytes' value' → sameContent value value' → bytes = bytes'

variable {codec validate}

theorem CanonicalBlobs.of_codec {length : ℕ} {strictlySorted : T → Prop}
    {sameContent : T → T → Prop} (hlength : codec.AtMost length)
    (hsorted : ∀ value, validate value = .ok () → strictlySorted value)
    (hsame : ∀ value value', validate value = .ok () → validate value' = .ok () →
      sameContent value value' → value = value') :
    CanonicalBlobs codec validate (headerLen + length) strictlySorted sameContent where
  read_written value hvalid := by
    refine ⟨⟨(fromBlob_eq_ok codec).mpr rfl, hvalid⟩, ?_⟩
    have hheader : (formatMagic ++ [formatVersion]).length = headerLen := rfl
    rw [toBlob, List.length_append, hheader]
    exact Nat.add_le_add_left (hlength value) headerLen
  written_read bytes value h := ((fromBlob_eq_ok codec).mp h.1).symm
  no_trailing bytes value rest value' h hrest hread := by
    have hbytes := (fromBlob_eq_ok codec).mp h.1
    have hlonger := (fromBlob_eq_ok codec).mp hread
    rw [hbytes, toBlob, toBlob, List.append_assoc, List.append_cancel_left_eq] at hlonger
    rw [← List.append_nil (codec.encode value')] at hlonger
    exact hrest (codec.encode_append_inj hlonger).2
  sorted _ value h := hsorted value h.2
  one_blob bytes bytes' value value' h h' hcontent := by
    rw [(fromBlob_eq_ok codec).mp h.1, (fromBlob_eq_ok codec).mp h'.1,
      hsame value value' h.2 h'.2 hcontent]

end Canonical

/-- The blobs of directories and of manifests are canonical. -/
theorem blobs_canonical :
    CanonicalBlobs DirectoryNode.codec DirectoryNode.validate DirectoryNode.maxBlobLen
        DirectoryNode.StrictlySorted DirectoryNode.SameContent ∧
      CanonicalBlobs FileManifest.codec FileManifest.validate FileManifest.maxBlobLen
        FileManifest.StrictlySorted FileManifest.SameContent :=
  ⟨.of_codec DirectoryNode.atMost_codec (fun _ h ↦ (DirectoryNode.sorted_of_validate h).2)
      fun _ _ ↦ DirectoryNode.eq_of_sameContent,
    .of_codec FileManifest.atMost_codec (fun _ ↦ FileManifest.sorted_of_validate)
      fun _ _ ↦ FileManifest.eq_of_sameContent⟩

/-- Two directories without children, in two buckets, have two blobs. -/
theorem listing_not_enough :
    ¬ ∀ (bytes bytes' : Bytes) (node node' : DirectoryNode),
      Accepted DirectoryNode.codec DirectoryNode.validate bytes node →
      Accepted DirectoryNode.codec DirectoryNode.validate bytes' node' →
      node.children = node'.children → bytes = bytes' := by
  intro h
  have haccepted (bucketId : Word 8) : Accepted DirectoryNode.codec DirectoryNode.validate
      (DirectoryNode.newEmpty bucketId).toBlob (DirectoryNode.newEmpty bucketId) :=
    ⟨(fromBlob_eq_ok _).mpr rfl, rfl⟩
  have hsame := h _ _ _ _ (haccepted (Word.ofNat 8 0)) (haccepted (Word.ofNat 8 1)) rfl
  revert hsame
  decide +kernel

end Web3Storage.Formats
