import Web3Storage.Formats.Roots
import Web3Storage.Foundations.SortedKeys

/-!
# Manifests of content

A manifest lists the hashes of the chunks of a file, numbered in order, with the size, the MIME type and
the metadata sorted by key. `forContent_cases` says what it is built from and which of the bounds is
broken when it is not; `manifest_describes_content` says that it passes validation, has the root of the
content, and does not depend on the order of the metadata.
-/

set_option autoImplicit false
set_option relaxedAutoImplicit false

namespace Web3Storage.Formats

open Foundations Primitives

/-! ### Building a manifest -/

/-- The chunks with some hashes, numbered in order. -/
def numberedChunks (hashes : List Cid) : List FileChunk :=
  hashes.zipIdx.map fun entry ↦ ⟨entry.1, Word.ofNat 4 entry.2⟩

/-- Metadata in the order of its keys. -/
def sortedByKey (userMetadata : List MetadataEntry) : List MetadataEntry :=
  userMetadata.mergeSort fun first second ↦ decide (first.key.1 ≤ second.key.1)

namespace FileManifest

variable (blake2256 : Bytes → H256)

/-- The manifest of some content. -/
def forContent (bucketId : Word 8) (content mimeType : Bytes) (userMetadata : List MetadataEntry) :
    Except FileSystemError FileManifest := do
  let userMetadata := sortedByKey userMetadata
  ensure (userMetadata.IsChain fun first second ↦ first.key ≠ second.key) .duplicateMetadataKey
  let chunks := numberedChunks (chunkHashes blake2256 content)
  let mimeType := if mimeType = [] then defaultMimeType else mimeType
  let mimeType ← require (BoundedVec.tryFrom mimeType) .metadataTooLarge
  let totalSize := Word.ofNat 8 content.length
  let chunks ← require (BoundedVec.tryFrom chunks) .contentTooLarge
  let userMetadata ← require (BoundedVec.tryFrom userMetadata) .metadataTooLarge
  return {
    bucketId := bucketId
    mimeType := mimeType
    totalSize := totalSize
    chunks := chunks
    encryptionParams := ⟨[], Nat.zero_le _⟩
    userMetadata := userMetadata }

/-- The data root of the content. -/
def contentRoot (manifest : FileManifest) : Cid :=
  merkleRoot blake2256 (manifest.chunks.1.map FileChunk.cid)

end FileManifest

/-! ### Bounds -/

/-- The bounds that content, MIME type and metadata may break, with the error for each. -/
inductive BreaksBound (content mimeType : Bytes) (userMetadata : List MetadataEntry) :
    FileSystemError → Prop
  | key (h : ¬ (userMetadata.map MetadataEntry.key).Nodup) :
    BreaksBound content mimeType userMetadata .duplicateMetadataKey
  | mimeType (h : maxMimeTypeLength < mimeType.length) :
    BreaksBound content mimeType userMetadata .metadataTooLarge
  | chunks (h : maxFileChunks < (chunksOf chunkSize content).length) :
    BreaksBound content mimeType userMetadata .contentTooLarge
  | entries (h : maxMetadataEntries < userMetadata.length) :
    BreaksBound content mimeType userMetadata .metadataTooLarge

/-- A manifest of some content. -/
structure FileManifest.Describes (manifest : FileManifest) (blake2256 : Bytes → H256)
    (bucketId : Word 8) (content mimeType : Bytes) (userMetadata : List MetadataEntry) : Prop where
  bucketId : manifest.bucketId = bucketId
  mimeType : manifest.mimeType.1 = if mimeType = [] then defaultMimeType else mimeType
  totalSize : manifest.totalSize.1 = content.length
  chunks : manifest.chunks.1.map FileChunk.cid = chunkHashes blake2256 content
  contentRoot : manifest.contentRoot blake2256 = computeCid blake2256 content
  encryptionParams : manifest.encryptionParams.1 = []
  userMetadata : manifest.userMetadata.1.Perm userMetadata
  valid : manifest.validate = .ok ()

section Rules

variable {blake2256 : Bytes → H256} {bucketId : Word 8} {content mimeType : Bytes}
  {userMetadata : List MetadataEntry}

/-- The default MIME type is within its bound. -/
theorem length_defaultMimeType : defaultMimeType.length ≤ maxMimeTypeLength := by
  decide +kernel

theorem length_numberedChunks (hashes : List Cid) : (numberedChunks hashes).length = hashes.length := by
  unfold numberedChunks
  rw [List.length_map, List.length_zipIdx]

theorem map_cid_numberedChunks (hashes : List Cid) :
    (numberedChunks hashes).map FileChunk.cid = hashes := by
  unfold numberedChunks
  rw [List.map_map]
  exact List.zipIdx_map_fst 0 hashes

/-- Up to the largest number of chunks, each has its index as its number. -/
theorem sequence_numberedChunks {hashes : List Cid} (h : hashes.length ≤ maxFileChunks) :
    ∀ entry ∈ (numberedChunks hashes).zipIdx, entry.1.sequence.1 = entry.2 := by
  rintro ⟨chunk, i⟩ hentry
  rw [List.mem_zipIdx_iff_getElem?] at hentry
  unfold numberedChunks at hentry
  rw [List.getElem?_map, List.getElem?_zipIdx, Option.map_map, Option.map_eq_some_iff] at hentry
  obtain ⟨hash, hhash, hchunk⟩ := hentry
  obtain ⟨hi, -⟩ := List.getElem?_eq_some_iff.mp hhash
  have hfits : maxFileChunks < 256 ^ 4 := by decide
  dsimp only at hchunk hi ⊢
  rw [← hchunk]
  change (0 + i) % 256 ^ 4 = i
  rw [Nat.zero_add, Nat.mod_eq_of_lt (by omega)]

theorem sortedByKey_perm : (sortedByKey userMetadata).Perm userMetadata :=
  List.mergeSort_perm userMetadata _

theorem nodup_sortedByKey : ((sortedByKey userMetadata).map MetadataEntry.key).Nodup ↔
    (userMetadata.map MetadataEntry.key).Nodup :=
  (sortedByKey_perm.map _).nodup_iff

/-- Neighbours with different keys are in strict order. -/
theorem sortedByKey_strict
    (h : (sortedByKey userMetadata).IsChain fun first second ↦ first.key ≠ second.key) :
    (sortedByKey userMetadata).Pairwise fun first second ↦ first.key.1 < second.key.1 := by
  apply pairwise_lt_of_neighbours (pairwise_mergeSort_key userMetadata)
  exact h.imp fun first second hne hsame ↦ hne (Subtype.ext hsame)

/-- Sorting finds a key that occurs twice among neighbours. -/
theorem isChain_sortedByKey :
    ((sortedByKey userMetadata).IsChain fun first second ↦ first.key ≠ second.key) ↔
      (userMetadata.map MetadataEntry.key).Nodup := by
  rw [← nodup_sortedByKey]
  constructor
  · intro h
    rw [List.nodup_iff_pairwise_ne, List.pairwise_map]
    refine (sortedByKey_strict h).imp fun hlt hsame ↦ ?_
    exact hlt.ne (congrArg Subtype.val hsame)
  · intro h
    rw [List.nodup_iff_pairwise_ne, List.pairwise_map] at h
    exact h.isChain

/-- The sorted metadata depends on which entries there are only. -/
theorem sortedByKey_congr {userMetadata' : List MetadataEntry} (h : userMetadata.Perm userMetadata')
    (hnodup : (userMetadata.map MetadataEntry.key).Nodup) :
    sortedByKey userMetadata = sortedByKey userMetadata' := by
  have hnodup' := (h.map MetadataEntry.key).nodup_iff.mp hnodup
  apply eq_of_keys_sorted (fun entry : MetadataEntry ↦ entry.key.1) (· < ·)
  · exact sortedByKey_strict (isChain_sortedByKey.mpr hnodup)
  · exact sortedByKey_strict (isChain_sortedByKey.mpr hnodup')
  · intro entry
    rw [sortedByKey_perm.mem_iff, sortedByKey_perm.mem_iff, h.mem_iff]

/-- The stored MIME type fits when the given one does. -/
theorem length_storedMimeType : (if mimeType = [] then defaultMimeType else mimeType).length ≤
    maxMimeTypeLength ↔ mimeType.length ≤ maxMimeTypeLength := by
  split_ifs with hempty
  · rw [hempty]
    exact iff_of_true length_defaultMimeType (Nat.zero_le _)
  · rfl

theorem length_chunkHashes :
    (chunkHashes blake2256 content).length = (chunksOf chunkSize content).length :=
  List.length_map _

/-- As many chunks as a manifest holds have a size in its field. -/
theorem length_lt_of_chunks (h : (chunksOf chunkSize content).length ≤ maxFileChunks) :
    content.length < 256 ^ 8 := by
  rw [length_chunksOf chunkSize_pos] at h
  have hcount : maxFileChunks = 65536 := rfl
  have hsize : chunkSize = 262144 := by decide
  rw [hsize, hcount] at h
  omega

namespace FileManifest

variable {manifest : FileManifest} {error : FileSystemError}

/-- A manifest that is built is within all bounds. -/
theorem not_breaksBound_of_ok
    (h : forContent blake2256 bucketId content mimeType userMetadata = .ok manifest) :
    ¬ BreaksBound content mimeType userMetadata error := by
  simp only [forContent, bind_eq_ok, ensure_eq_ok, require_eq_ok, pure_eq_ok, decide_eq_true_iff,
    BoundedVec.tryFrom_eq_some, isChain_sortedByKey] at h
  obtain ⟨done, hnodup, mime, hmime, chunks, hchunks, metadata, hmetadata, -⟩ := h
  have hlength := mime.2
  have hcount := chunks.2
  have hentries := metadata.2
  rw [← hmime, length_storedMimeType] at hlength
  rw [← hchunks, length_numberedChunks, length_chunkHashes] at hcount
  rw [← hmetadata, sortedByKey_perm.length_eq] at hentries
  intro hbreaks
  cases hbreaks with
  | key hdouble => exact hdouble hnodup
  | mimeType hlong => exact absurd hlength (not_le.mpr hlong)
  | chunks hmany => exact absurd hcount (not_le.mpr hmany)
  | entries hmany => exact absurd hentries (not_le.mpr hmany)

/-- The error names a bound that is broken. -/
theorem breaksBound_of_error
    (h : forContent blake2256 bucketId content mimeType userMetadata = .error error) :
    BreaksBound content mimeType userMetadata error := by
  simp only [forContent, bind_eq_error, ensure_eq_error, require_eq_error, decide_eq_false_iff_not,
    BoundedVec.tryFrom_eq_none, isChain_sortedByKey] at h
  rcases h with ⟨hdouble, rfl⟩ | ⟨_, -, ⟨hlong, rfl⟩ | ⟨_, -, ⟨hmany, rfl⟩ | ⟨_, -, hentries⟩⟩⟩
  · exact .key hdouble
  · rw [← not_le, length_storedMimeType, not_le] at hlong
    exact .mimeType hlong
  · rw [length_numberedChunks, length_chunkHashes] at hmany
    exact .chunks hmany
  · rcases hentries with ⟨hmany, rfl⟩ | ⟨_, -, hdone⟩
    · rw [sortedByKey_perm.length_eq] at hmany
      exact .entries hmany
    · cases hdone

/-- A manifest that is built describes its content. -/
theorem describes_of_ok
    (h : forContent blake2256 bucketId content mimeType userMetadata = .ok manifest) :
    manifest.Describes blake2256 bucketId content mimeType userMetadata := by
  simp only [forContent, bind_eq_ok, ensure_eq_ok, require_eq_ok, pure_eq_ok, decide_eq_true_iff,
    BoundedVec.tryFrom_eq_some] at h
  obtain ⟨done, hchain, mime, hmime, chunks, hchunks, metadata, hmetadata, rfl⟩ := h
  have hcids : chunks.1.map FileChunk.cid = chunkHashes blake2256 content := by
    rw [← hchunks, map_cid_numberedChunks]
  have hcount := chunks.2
  rw [← hchunks, length_numberedChunks, length_chunkHashes] at hcount
  have hsize : (Word.ofNat 8 content.length).1 = content.length :=
    Nat.mod_eq_of_lt (length_lt_of_chunks hcount)
  exact {
    bucketId := rfl
    mimeType := hmime.symm
    totalSize := hsize
    chunks := hcids
    contentRoot := by
      unfold contentRoot computeCid
      rw [hcids]
    encryptionParams := rfl
    userMetadata := by
      rw [← hmetadata]
      exact sortedByKey_perm
    valid := by
      have hsorted := sortedByKey_strict hchain
      rw [hmetadata] at hsorted
      have hlength : chunks.1.length = (content.length + chunkSize - 1) / chunkSize := by
        rw [← hchunks, length_numberedChunks, length_chunkHashes, length_chunksOf chunkSize_pos]
      have hsequence : ∀ entry ∈ chunks.1.zipIdx, entry.1.sequence.1 = entry.2 := by
        rw [← hchunks]
        apply sequence_numberedChunks
        rw [length_chunkHashes]
        exact hcount
      unfold validate
      dsimp only
      rw [if_neg (not_not.mpr hsorted.isChain), hsize, if_neg (not_not.mpr hlength),
        if_neg (not_not.mpr hsequence)] }

/-- The order of the metadata does not matter. -/
theorem forContent_perm {userMetadata' : List MetadataEntry} (h : userMetadata.Perm userMetadata') :
    forContent blake2256 bucketId content mimeType userMetadata =
      forContent blake2256 bucketId content mimeType userMetadata' := by
  by_cases hnodup : (userMetadata.map MetadataEntry.key).Nodup
  · unfold forContent
    rw [sortedByKey_congr h hnodup]
  · have hnodup' := fun hother ↦ hnodup ((h.map MetadataEntry.key).nodup_iff.mpr hother)
    unfold forContent
    dsimp only
    rw [decide_eq_false fun hchain ↦ hnodup (isChain_sortedByKey.mp hchain),
      decide_eq_false fun hchain ↦ hnodup' (isChain_sortedByKey.mp hchain)]
    rfl

end FileManifest

end Rules

/-- **A manifest describes its content.** For every bucket, content, MIME type and metadata, either no
manifest is built and the error is that of a bound the input breaks, or all bounds are kept and the
manifest passes validation, has the data root and the size of the content, lists the hashes of its chunks,
and holds the given metadata; in any order of the metadata it is the same. -/
theorem manifest_describes_content (blake2256 : Bytes → H256) (bucketId : Word 8)
    (content mimeType : Bytes) (userMetadata : List MetadataEntry) :
    ((∃ error, FileManifest.forContent blake2256 bucketId content mimeType userMetadata = .error error ∧
        BreaksBound content mimeType userMetadata error) ∨
      ∃ manifest, FileManifest.forContent blake2256 bucketId content mimeType userMetadata =
          .ok manifest ∧ (∀ error, ¬ BreaksBound content mimeType userMetadata error) ∧
        manifest.Describes blake2256 bucketId content mimeType userMetadata) ∧
    ∀ userMetadata', userMetadata.Perm userMetadata' →
      FileManifest.forContent blake2256 bucketId content mimeType userMetadata' =
        FileManifest.forContent blake2256 bucketId content mimeType userMetadata := by
  constructor
  · cases hbuilt : FileManifest.forContent blake2256 bucketId content mimeType userMetadata with
    | error error => exact .inl ⟨error, rfl, FileManifest.breaksBound_of_error hbuilt⟩
    | ok manifest =>
      right
      refine ⟨manifest, rfl, fun error ↦ ?_, FileManifest.describes_of_ok hbuilt⟩
      exact FileManifest.not_breaksBound_of_ok hbuilt
  · intro userMetadata' hperm
    exact (FileManifest.forContent_perm hperm).symm

/-- A pair of single bytes. -/
def smallPair (key value : UInt8) : MetadataEntry where
  key := ⟨[key], by simp [maxMetadataKeyLength]⟩
  value := ⟨[value], by simp [maxMetadataValueLength]⟩

/-- Two pairs in both orders. -/
theorem manifest_describes_content_swapped :
    FileManifest.forContent blake2b256 (Word.ofNat 8 7) [7] [] [smallPair 2 0, smallPair 1 0] =
      FileManifest.forContent blake2b256 (Word.ofNat 8 7) [7] [] [smallPair 1 0, smallPair 2 0] :=
  (manifest_describes_content blake2b256 (Word.ofNat 8 7) [7] []
    [smallPair 1 0, smallPair 2 0]).2 _ (.swap _ _ [])

end Web3Storage.Formats
