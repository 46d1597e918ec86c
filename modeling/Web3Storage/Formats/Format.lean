import Web3Storage.Foundations.SortedKeys
import Web3Storage.Primitives.Merkle
import Web3Storage.Primitives.Scale

/-!
# Blobs of the file system

Directories and file manifests are stored as blobs: a header of magic and version, then the SCALE
encoding. A reader decodes a blob and validates what decoding does not check. Texts are the bytes of
their UTF-8 encoding.
-/

set_option autoImplicit false
set_option relaxedAutoImplicit false

namespace Web3Storage.Formats

open Foundations Primitives

/-- The content identifier of a blob: the root of its chunk tree. -/
abbrev Cid := H256

/-- The bytes of a text. -/
def text (s : String) : Bytes := s.toUTF8.toList

/-- `/`. -/
def slash : UInt8 := 0x2f

def defaultMimeType : Bytes := text "application/octet-stream"

def chunkSize : ℕ := defaultChunkSize

inductive EntryType where
  | file
  | directory
  deriving DecidableEq

def maxEntryNameLength : ℕ := 256

def maxDirectoryChildren : ℕ := 1024

def maxMetadataEntries : ℕ := 64

def maxMetadataKeyLength : ℕ := 64

def maxMetadataValueLength : ℕ := 256

def maxFileChunks : ℕ := 65536

def maxMimeTypeLength : ℕ := 128

def maxEncryptionParamsLength : ℕ := 512

/-- Why a node or manifest is not built or not accepted. -/
inductive FileSystemError where
  | invalidEntryName
  | invalidDirectory
  | invalidManifest
  | directoryFull
  | contentTooLarge
  | metadataTooLarge
  | duplicateMetadataKey
  | notAFormatBlob
  | unsupportedVersion (version : UInt8)
  deriving DecidableEq

/-! ### Entries -/

/-- One entry of a directory. The content identifier is that of a manifest or of a directory. -/
structure DirectoryEntry where
  name : BoundedVec UInt8 maxEntryNameLength
  entryType : EntryType
  cid : Cid
  size : Word 8
  mtime : Word 8
  deriving DecidableEq

/-- Check an entry name: 1 to 256 bytes of UTF-8 without `/`, and not `.` or `..`. -/
def validateEntryName (name : Bytes) : Except FileSystemError Unit :=
  if name ≠ [] ∧ name.length ≤ maxEntryNameLength ∧ ByteArray.validateUTF8 ⟨name.toArray⟩ = true ∧
      0x2f ∉ name ∧ name ≠ [0x2e] ∧ name ≠ [0x2e, 0x2e] then .ok ()
  else .error .invalidEntryName

namespace DirectoryEntry

def tryNew (name : Bytes) (entryType : EntryType) (cid : Cid) (size mtime : Word 8) :
    Except FileSystemError DirectoryEntry := do
  validateEntryName name
  if hlength : name.length ≤ maxEntryNameLength then
    return ⟨⟨name, hlength⟩, entryType, cid, size, mtime⟩
  else .error .invalidEntryName

variable (entry : DirectoryEntry)

/-- The name as a text; entries of validated nodes have names in UTF-8. -/
def nameStr : Bytes := entry.name.1

def isDirectory : Bool := entry.entryType = .directory

def isFile : Bool := entry.entryType = .file

end DirectoryEntry

/-- A pair of metadata. -/
structure MetadataEntry where
  key : BoundedVec UInt8 maxMetadataKeyLength
  value : BoundedVec UInt8 maxMetadataValueLength
  deriving DecidableEq

def MetadataEntry.tryNew (key value : Bytes) : Except FileSystemError MetadataEntry :=
  if hkey : key.length ≤ maxMetadataKeyLength then
    if hvalue : value.length ≤ maxMetadataValueLength then .ok ⟨⟨key, hkey⟩, ⟨value, hvalue⟩⟩
    else .error .metadataTooLarge
  else .error .metadataTooLarge

/-! ### Headers -/

/-- `W3FS`. -/
def formatMagic : Bytes := [0x57, 0x33, 0x46, 0x53]

def formatVersion : UInt8 := 1

def headerLen : ℕ := 5

section Blobs

variable {α : Type} (codec : Codec α)

/-- The blob of a value: the header, then its encoding. -/
def toBlob (value : α) : Bytes := formatMagic ++ [formatVersion] ++ codec.encode value

/-- Read a blob: exactly a header of this version and the encoding of a value. -/
def fromBlob (bytes : Bytes) : Except FileSystemError α :=
  if bytes.length < headerLen then .error .notAFormatBlob
  else
    let header := bytes.take headerLen
    if header.take 4 ≠ formatMagic then .error .notAFormatBlob
    else if header.drop 4 ≠ [formatVersion] then .error (.unsupportedVersion (header.drop 4).headI)
    else match codec.decodeAll (bytes.drop headerLen) with
      | some value => .ok value
      | none => .error .notAFormatBlob

/-- What is read from a blob is exactly what was written. -/
theorem fromBlob_eq_ok {bytes : Bytes} {value : α} :
    fromBlob codec bytes = .ok value ↔ bytes = toBlob codec value := by
  unfold fromBlob toBlob
  constructor
  · intro h
    dsimp only at h
    split_ifs at h with hlength hmagic hversion
    split at h
    · rename_i found hfound
      cases h
      rw [Codec.decodeAll_eq_some] at hfound
      rw [not_not] at hmagic hversion
      have hheader : bytes.take headerLen = formatMagic ++ [formatVersion] := by
        rw [← hmagic, ← hversion, List.take_append_drop]
      rw [← hfound, ← hheader, List.take_append_drop]
    · cases h
  · rintro rfl
    have hlength : (formatMagic ++ [formatVersion]).length = headerLen := rfl
    have htake : (formatMagic ++ [formatVersion] ++ codec.encode value).take headerLen =
        formatMagic ++ [formatVersion] := by rw [← hlength, List.take_left]
    have hdrop : (formatMagic ++ [formatVersion] ++ codec.encode value).drop headerLen =
        codec.encode value := by rw [← hlength, List.drop_left]
    have hlong : ¬ (formatMagic ++ [formatVersion] ++ codec.encode value).length < headerLen := by
      rw [List.length_append, hlength]
      omega
    have hbody : codec.decodeAll (codec.encode value) = some value := codec.decodeAll_eq_some.2 rfl
    simp only [if_neg hlong, htake, hdrop, hbody]
    rfl

end Blobs

/-! ### Codecs of the parts -/

/-- The names of a sum type are single bytes. -/
def entryTypeCodec : Codec EntryType :=
  Scale.u8.refine
    (fun byte ↦ if byte = 0 then some .file else if byte = 1 then some .directory else none)
    (fun entryType ↦ match entryType with
      | .file => 0
      | .directory => 1)
    (fun entryType ↦ by cases entryType <;> rfl)
    (fun {byte entryType} h ↦ by
      split_ifs at h with hfile hdirectory
      · cases h
        exact hfile.symm
      · cases h
        exact hdirectory.symm)

def directoryEntryCodec : Codec DirectoryEntry :=
  ((Scale.vec maxEntryNameLength Scale.u8).pair (entryTypeCodec.pair
    (Scale.h256.pair ((Scale.uint 8).pair (Scale.uint 8))))).map
    { toFun := fun (name, entryType, cid, size, mtime) ↦ ⟨name, entryType, cid, size, mtime⟩
      invFun := fun entry ↦ (entry.name, entry.entryType, entry.cid, entry.size, entry.mtime)
      left_inv := fun _ ↦ rfl
      right_inv := fun _ ↦ rfl }

def metadataEntryCodec : Codec MetadataEntry :=
  ((Scale.vec maxMetadataKeyLength Scale.u8).pair (Scale.vec maxMetadataValueLength Scale.u8)).map
    { toFun := fun (key, value) ↦ ⟨key, value⟩
      invFun := fun entry ↦ (entry.key, entry.value)
      left_inv := fun _ ↦ rfl
      right_inv := fun _ ↦ rfl }

/-! ### Directories -/

/-- A directory with its entries. The metadata is reserved. -/
structure DirectoryNode where
  bucketId : Word 8
  children : BoundedVec DirectoryEntry maxDirectoryChildren
  metadata : BoundedVec MetadataEntry maxMetadataEntries
  deriving DecidableEq

namespace DirectoryNode

def codec : Codec DirectoryNode :=
  ((Scale.uint 8).pair ((Scale.vec maxDirectoryChildren directoryEntryCodec).pair
    (Scale.vec maxMetadataEntries metadataEntryCodec))).map
    { toFun := fun (bucketId, children, metadata) ↦ ⟨bucketId, children, metadata⟩
      invFun := fun node ↦ (node.bucketId, node.children, node.metadata)
      left_inv := fun _ ↦ rfl
      right_inv := fun _ ↦ rfl }

def newEmpty (bucketId : Word 8) : DirectoryNode :=
  ⟨bucketId, ⟨[], Nat.zero_le _⟩, ⟨[], Nat.zero_le _⟩⟩

variable (node : DirectoryNode)

/-- Check what decoding does not: valid, sorted and unique names, size 0 of directories, and no
metadata. -/
def validate : Except FileSystemError Unit :=
  if node.metadata.1 ≠ [] then .error .invalidDirectory
  else do
    node.children.1.forM fun entry ↦ do
      validateEntryName entry.name.1
      if entry.isDirectory && entry.size.1 ≠ 0 then .error .invalidDirectory else .ok ()
    if node.children.1.IsChain fun first second ↦ first.name.1 < second.name.1 then .ok ()
    else .error .invalidDirectory

def toBlob : Bytes := Formats.toBlob codec node

def fromBlob (bytes : Bytes) : Except FileSystemError DirectoryNode := Formats.fromBlob codec bytes

end DirectoryNode

/-! ### File manifests -/

/-- A chunk of a file. -/
structure FileChunk where
  cid : Cid
  sequence : Word 4
  deriving DecidableEq

def fileChunkCodec : Codec FileChunk :=
  (Scale.h256.pair (Scale.uint 4)).map
    { toFun := fun (cid, sequence) ↦ ⟨cid, sequence⟩
      invFun := fun chunk ↦ (chunk.cid, chunk.sequence)
      left_inv := fun _ ↦ rfl
      right_inv := fun _ ↦ rfl }

/-- How a file is put together from its chunks. -/
structure FileManifest where
  bucketId : Word 8
  mimeType : BoundedVec UInt8 maxMimeTypeLength
  totalSize : Word 8
  chunks : BoundedVec FileChunk maxFileChunks
  encryptionParams : BoundedVec UInt8 maxEncryptionParamsLength
  userMetadata : BoundedVec MetadataEntry maxMetadataEntries
  deriving DecidableEq

namespace FileManifest

def codec : Codec FileManifest :=
  ((Scale.uint 8).pair ((Scale.vec maxMimeTypeLength Scale.u8).pair ((Scale.uint 8).pair
    ((Scale.vec maxFileChunks fileChunkCodec).pair
      ((Scale.vec maxEncryptionParamsLength Scale.u8).pair
        (Scale.vec maxMetadataEntries metadataEntryCodec)))))).map
    { toFun := fun (bucketId, mimeType, totalSize, chunks, encryptionParams, userMetadata) ↦
        ⟨bucketId, mimeType, totalSize, chunks, encryptionParams, userMetadata⟩
      invFun := fun manifest ↦ (manifest.bucketId, manifest.mimeType, manifest.totalSize,
        manifest.chunks, manifest.encryptionParams, manifest.userMetadata)
      left_inv := fun _ ↦ rfl
      right_inv := fun _ ↦ rfl }

variable (manifest : FileManifest)

/-- Check what decoding does not: metadata sorted by unique keys, one chunk for each part of the size,
and chunks numbered by their index. -/
def validate : Except FileSystemError Unit :=
  if ¬ manifest.userMetadata.1.IsChain fun first second ↦ first.key.1 < second.key.1 then
    .error .invalidManifest
  else if manifest.chunks.1.length ≠ (manifest.totalSize.1 + chunkSize - 1) / chunkSize then
    .error .invalidManifest
  else if ¬ ∀ entry ∈ manifest.chunks.1.zipIdx, entry.1.sequence.1 = entry.2 then
    .error .invalidManifest
  else .ok ()

def toBlob : Bytes := Formats.toBlob codec manifest

def fromBlob (bytes : Bytes) : Except FileSystemError FileManifest := Formats.fromBlob codec bytes

end FileManifest

end Web3Storage.Formats
