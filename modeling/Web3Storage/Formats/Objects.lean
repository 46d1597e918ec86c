import Web3Storage.Formats.FileWrites
import Web3Storage.Formats.ObjectListing

/-!
# The objects of a bucket

An object is a file of the tree, and its key is the path without the first `/`. The operations on objects
check the key and the metadata, use the tree, and turn its errors into those of objects: for a read the
object is not there, for a write its key is in the way of another one.

Texts are given as the bytes of their UTF-8 encoding. Lower case is a parameter, and so is the order of the
pairs of a map of metadata, which is given as a list.
-/

set_option autoImplicit false
set_option relaxedAutoImplicit false

namespace Web3Storage.Formats

open Foundations Primitives

/-- What is wrong with user metadata: too many entries, a key or value over its bound, or two keys that are
equal after lowercasing. -/
inductive MetadataFault where
  | tooManyEntries (count : ℕ)
  | tooLarge (key : Bytes)
  | equalKeys
  deriving DecidableEq

/-- Errors of the object operations. -/
inductive ObjectError where
  | objectNotFound (bucketId : Word 8) (key : Bytes)
  | invalidObjectKey (key : Bytes)
  | keyConflict (key : Bytes)
  | invalidMetadata (fault : MetadataFault)
  | fileSystem (error : TreeError)
  deriving DecidableEq

structure PutObjectOptions where
  contentType : Option Bytes
  metadata : List (Bytes × Bytes)

structure PutObjectResponse where
  etag : String
  cid : Cid
  size : Word 8
  deriving DecidableEq

structure GetObjectResponse where
  data : Bytes
  contentType : String
  etag : String
  size : Word 8
  lastModified : Word 8
  metadata : List (String × String)
  deriving DecidableEq

structure HeadObjectResponse where
  contentType : String
  etag : String
  size : Word 8
  lastModified : Word 8
  cid : Cid
  metadata : List (String × String)
  deriving DecidableEq

/-- `0x` and the hex of a content root. -/
def etag (contentRoot : Cid) : String :=
  "0x" ++ String.ofList (contentRoot.bytes.flatMap fun byte ↦
    [Nat.digitChar (byte.toNat / 16), Nat.digitChar (byte.toNat % 16)])

/-- The file path of a key. -/
def objectPath (key : Bytes) : Except ObjectError Bytes :=
  (keyToPath key).mapError fun _ ↦ .invalidObjectKey key

/-- The error of a tree read for a key. -/
def objectError (bucketId : Word 8) (key : Bytes) : TreeError → ObjectError
  | .read (.pathNotFound _) => .objectNotFound bucketId key
  | .read (.notADirectory _) => .objectNotFound bucketId key
  | .notAFile _ => .objectNotFound bucketId key
  | error => .fileSystem error

/-- The error of a write for a key. -/
def putError (key : Bytes) : TreeError → ObjectError
  | .read (.notADirectory _) => .keyConflict key
  | .notAFile _ => .keyConflict key
  | .format _ .duplicateMetadataKey => .invalidMetadata .equalKeys
  | error => .fileSystem error

/-- A deletion of a key without an object succeeds: the path is missing, passes through a file, or is a
directory. -/
def deleteError : TreeError → Except ObjectError Unit
  | .read (.pathNotFound _) => .ok ()
  | .read (.notADirectory _) => .ok ()
  | .notAFile _ => .ok ()
  | error => .error (.fileSystem error)

def deleteResult {α : Type} : Except TreeError α → Except ObjectError Unit
  | .ok _ => .ok ()
  | .error error => deleteError error

/-- Lowercase the keys, and check the bounds. -/
def toMetadataEntries (toLowercase : Bytes → Bytes) (metadata : List (Bytes × Bytes)) :
    Except ObjectError (List MetadataEntry) := do
  let lowered := metadata.map fun pair ↦ (toLowercase pair.1, pair.2)
  ensure (lowered.length ≤ maxMetadataEntries) (.invalidMetadata (.tooManyEntries lowered.length))
  lowered.mapM fun pair ↦
    (MetadataEntry.tryNew pair.1 pair.2).mapError fun _ ↦ .invalidMetadata (.tooLarge pair.1)

section Objects

variable (blake2256 : Bytes → H256) (mmr : MmrLibrary)

/-- The response for a file that was modified at a time. -/
def headResponse (lastModified : Word 8) (manifest : FileManifest) : HeadObjectResponse where
  contentType := fromUtf8Lossy manifest.mimeType.1
  etag := etag (manifest.contentRoot blake2256)
  size := manifest.totalSize
  lastModified := lastModified
  cid := manifest.contentRoot blake2256
  metadata := manifest.userMetadata.1.map fun entry ↦
    (fromUtf8Lossy entry.key.1, fromUtf8Lossy entry.value.1)

def FileStat.toHead (stat : FileStat) : HeadObjectResponse :=
  headResponse blake2256 stat.entry.mtime stat.manifest

/-- The response for a file that was put. -/
def putResponse (manifest : FileManifest) : PutObjectResponse where
  etag := etag (manifest.contentRoot blake2256)
  cid := manifest.contentRoot blake2256
  size := manifest.totalSize

/-- The response with the content of a file. -/
def HeadObjectResponse.withData (head : HeadObjectResponse) (data : Bytes) : GetObjectResponse where
  data := data
  contentType := head.contentType
  etag := head.etag
  size := head.size
  lastModified := head.lastModified
  metadata := head.metadata

/-- The objects of one bucket, stored in its file tree. -/
structure Objects (σ : Type) where
  tree : StoredTree σ

namespace Objects

variable {σ : Type} (objects : Objects σ)

/-- Upload an object. An existing object with the same key is replaced. -/
def putObject (toLowercase : Bytes → Bytes) (key data : Bytes) (options : PutObjectOptions)
    (entryTime dirTime : Word 8) (s : σ) : Except ObjectError PutObjectResponse × σ :=
  let checked : Except ObjectError (Bytes × List MetadataEntry) := do
    let path ← objectPath key
    let metadata ← toMetadataEntries toLowercase options.metadata
    return (path, metadata)
  match checked with
  | .error error => (.error error, s)
  | .ok (path, metadata) =>
    let contentType := options.contentType.getD defaultMimeType
    (objects.tree.putFile blake2256 mmr path data contentType metadata entryTime dirTime s).map
      (fun result ↦ (result.mapError (putError key)).map fun done ↦
        putResponse blake2256 done.2.manifest) id

/-- Read an object by its key. -/
def getObject (s : σ) (key : Bytes) : Except ObjectError GetObjectResponse := do
  let path ← objectPath key
  let file ← (objects.tree.getFile blake2256 mmr s path).mapError (objectError objects.tree.bucketId key)
  return (file.1.toHead blake2256).withData file.2

/-- Read the metadata of an object. -/
def headObject (s : σ) (key : Bytes) : Except ObjectError HeadObjectResponse := do
  let path ← objectPath key
  let stat ← (objects.tree.stat blake2256 mmr s path).mapError (objectError objects.tree.bucketId key)
  return stat.toHead blake2256

/-- Delete an object, and the directories that it leaves empty. -/
def deleteObject (key : Bytes) (now : Word 8) (s : σ) : Except ObjectError Unit × σ :=
  match objectPath key with
  | .error error => (.error error, s)
  | .ok path => (objects.tree.delete blake2256 mmr path .remove now s).map deleteResult id

/-- A write of objects with its arguments and the readings of the clock. -/
inductive Op where
  | putObject (key data : Bytes) (options : PutObjectOptions) (entryTime dirTime : Word 8)
  | deleteObject (key : Bytes) (now : Word 8)

/-- A write of objects: its result, with a response if an object was put, and the store after it. -/
def apply (toLowercase : Bytes → Bytes) (op : Op) (s : σ) :
    Except ObjectError (Option PutObjectResponse) × σ :=
  match op with
  | .putObject key data options entryTime dirTime =>
    (objects.putObject blake2256 mmr toLowercase key data options entryTime dirTime s).map
      (Except.map some) id
  | .deleteObject key now =>
    (objects.deleteObject blake2256 mmr key now s).map (Except.map fun _ ↦ none) id

/-- A sequence of writes: their results and the store after them. -/
def applyAll (toLowercase : Bytes → Bytes) :
    List Op → σ → List (Except ObjectError (Option PutObjectResponse)) × σ
  | [], s => ([], s)
  | op :: ops, s =>
    let (result, s) := objects.apply blake2256 mmr toLowercase op s
    let (results, s) := applyAll toLowercase ops s
    (result :: results, s)

end Objects

end Objects

end Web3Storage.Formats
