import Web3Storage.Formats.FileTree
import Web3Storage.Formats.Manifests

/-!
# Reads and writes of the file tree

The tree is read and written through the Layer 0 store of its bucket. A write reads the directories along
its path, changes one of them and encodes it and every directory above it again, with the new identifier
of each in the entry of its parent. The new blobs are uploaded and committed together, the root last.

A write is a `Change`, computed from what is read, and its upload. The clock is read up to twice in a
write: the readings are parameters.
-/

set_option autoImplicit false
set_option relaxedAutoImplicit false

namespace Web3Storage.Formats

open Foundations Primitives

/-! ### The store -/

/-- The length of a blob to read. -/
inductive BlobLength where
  | exactly (size : ℕ)
  | atMost (max : ℕ)

/-- The Layer 0 operations the tree uses, on the states of a store. A call that fails says why. -/
structure BlobStore (σ : Type) where
  /-- Upload some data to the bucket and return its data root. -/
  putBlob : Word 8 → Bytes → σ → Except String Cid × σ
  /-- Read the blob with a data root. -/
  getBlob : σ → Word 8 → Cid → BlobLength → Except String Bytes
  /-- Append data roots to the mountain range of the bucket, in order. -/
  commit : Word 8 → List Cid → σ → Except String Unit × σ
  /-- The commitment of the bucket, if it has one. -/
  commitment : σ → Word 8 → Except String (Option Commitment)
  /-- A leaf of the bucket and its proof. -/
  mmrProof : σ → Word 8 → ℕ → Except String MmrProof

/-- Errors of the tree: those of reading directories, and those of the other operations. -/
inductive TreeError where
  | read (error : FsClientError)
  | entryExists (path : Bytes)
  | notAFile (path : Bytes)
  | directoryNotEmpty (path : Bytes)
  | format (path : Bytes) (rule : FileSystemError)
  | invalidMmrProof (bucketId : ℕ)
  deriving DecidableEq

/-- The error of a failed call of the store. -/
def storeError (message : String) : TreeError := .read (.store message)

/-- The file tree of a bucket in a store. -/
structure StoredTree (σ : Type) where
  store : BlobStore σ
  bucketId : Word 8

/-- The entry of a file in its directory, and its manifest. -/
structure FileStat where
  entry : DirectoryEntry
  manifest : FileManifest
  deriving DecidableEq

/-- How a deletion treats directories. -/
inductive EmptyParents where
  /-- Delete a file or an empty directory, and keep the directories that become empty. -/
  | keep
  /-- Delete only files, and remove the directories that become empty. -/
  | remove
  deriving DecidableEq

/-- What a write uploads: blobs and the root after them, with the result of the write. -/
structure Change (α : Type) where
  blobs : List Bytes
  root : Bytes
  result : α

/-- A change with another result. -/
def Change.map {α β : Type} (f : α → β) (change : Change α) : Change β :=
  ⟨change.blobs, change.root, f change.result⟩

/-- Put an entry into a directory on the way to a path. -/
def DirectoryNode.upserted (node : DirectoryNode) (entry : DirectoryEntry) (path : Bytes) :
    Except TreeError DirectoryNode :=
  match node.upsertChild entry with
  | (.ok (), node) => .ok node
  | (.error rule, _) => .error (.format path rule)

section Trees

variable (blake2256 : Bytes → H256) (mmr : MmrLibrary)

/-! ### Encoding changed directories -/

/-- Put the identifier of an encoded directory into the entry of its name. -/
def DirectoryNode.putDirectory (dir : DirectoryNode) (name bytes path : Bytes) (now : Word 8) :
    Except TreeError DirectoryNode := do
  let entry ← (DirectoryEntry.tryNew name .directory (computeCid blake2256 bytes) (Word.ofNat 8 0)
    now).mapError (.format path)
  dir.upserted entry path

/-- Encode the directories along some names below one, the last first, and put the new identifier of each
into the entry of its parent. -/
def rewriteFrom (path : Bytes) (now : Word 8) :
    DirectoryNode → List Bytes → List DirectoryNode → Except TreeError (DirectoryNode × List Bytes)
  | dir, name :: names, next :: below => do
    let (next, encoded) ← rewriteFrom path now next names below
    let bytes := next.toBlob
    let dir ← dir.putDirectory blake2256 name bytes path now
    return (dir, encoded ++ [bytes])
  | dir, _, _ => .ok (dir, [])

/-- Encode the directories of a chain deeper than some depth and remove them from it. -/
def rewriteBelow (chain : List DirectoryNode) (names : List Bytes) (depth : ℕ) (path : Bytes)
    (now : Word 8) : Except TreeError (List DirectoryNode × List Bytes) :=
  match chain.drop depth with
  | [] => .ok (chain, [])
  | dir :: below => do
    let (dir, encoded) ← rewriteFrom blake2256 path now dir (names.drop depth) below
    return (chain.take depth ++ [dir], encoded)

/-- Encode a chain, and its root last. -/
def rewrite (chain : List DirectoryNode) (names : List Bytes) (path : Bytes) (now : Word 8) :
    Except TreeError (List Bytes × Bytes) :=
  match chain with
  | [] => .ok ([], [])
  | dir :: below => do
    let (root, belowRoot) ← rewriteFrom blake2256 path now dir names below
    return (belowRoot, root.toBlob)

/-- Each identifier at its first place, without those seen before. -/
def firstPlaces : List Cid → List Cid → List Cid
  | _, [] => []
  | seen, cid :: rest =>
    if cid ∈ seen then firstPlaces seen rest else cid :: firstPlaces (cid :: seen) rest

/-- The order in which identifiers are committed: each once, the last one last. -/
def commitOrder (cids : List Cid) : List Cid :=
  match cids.getLast? with
  | none => []
  | some root => firstPlaces [root] cids.dropLast ++ [root]

namespace StoredTree

variable {σ : Type} (tree : StoredTree σ)

/-! ### Reading -/

section Reads

variable (s : σ)

/-- One read of the last leaf of the bucket. -/
def readLastLeaf : Except TreeError (Option Cid) := do
  match ← (tree.store.commitment s tree.bucketId).mapError storeError with
  | none => return none
  | some commitment =>
    if commitment.leafCount = 0 then return none
    else do
      let leafIndex := commitment.leafCount - 1
      let proof ← (tree.store.mmrProof s tree.bucketId leafIndex).mapError storeError
      ensure (verifyMmrProof blake2256 mmr proof leafIndex commitment) (.invalidMmrProof tree.bucketId.1)
      return some proof.leaf.dataRoot

/-- The data root of the last leaf of the bucket. An invalid proof is read once more. -/
def lastLeaf : Except TreeError (Option Cid) :=
  match tree.readLastLeaf blake2256 mmr s with
  | .error (.invalidMmrProof _) => tree.readLastLeaf blake2256 mmr s
  | result => result

/-- The directories of the tree as they are read, from a root. -/
def view (leaf : Option Cid) : Tree where
  bucketId := tree.bucketId
  getBlob cid max := (tree.store.getBlob s tree.bucketId cid (.atMost max)).mapError .store
  lastLeaf := .ok leaf

/-- Read the current root. -/
def loadRoot : Except TreeError DirectoryNode := do
  let leaf ← tree.lastLeaf blake2256 mmr s
  ((tree.view s leaf).loadRoot blake2256).mapError .read

def readDir (path : Bytes) (cid : Cid) : Except TreeError DirectoryNode :=
  ((tree.view s none).readDir blake2256 path cid).mapError .read

/-- The directories along some names below one that was reached along others. -/
def extendFrom (createMissing : Bool) :
    List Bytes → DirectoryNode → List Bytes → Except TreeError (List DirectoryNode)
  | _, _, [] => .ok []
  | passed, dir, name :: rest => do
    let path := joinNames (passed ++ [name])
    let next ← match dir.findChild name with
      | some entry =>
        if entry.isDirectory then tree.readDir blake2256 s path entry.cid
        else .error (.read (.notADirectory path))
      | none =>
        if createMissing then .ok (.newEmpty tree.bucketId) else .error (.read (.pathNotFound path))
    let below ← extendFrom createMissing (passed ++ [name]) next rest
    return next :: below

/-- Extend a chain, the directories along the first names, to the directories along all names. -/
def extendChain (chain : List DirectoryNode) (names : List Bytes) (createMissing : Bool) :
    Except TreeError (List DirectoryNode) :=
  match chain.getLast? with
  | none => .ok chain
  | some dir => do
    let depth := chain.length - 1
    let below ← tree.extendFrom blake2256 s createMissing (names.take depth) dir (names.drop depth)
    return chain ++ below

/-- The directories along some names, starting with the root. -/
def dirChain (root : DirectoryNode) (names : List Bytes) (createMissing : Bool) :
    Except TreeError (List DirectoryNode) :=
  tree.extendChain blake2256 s [root] names createMissing

/-- Read the blob of the entry at a path, and check its length and its identifier. -/
def readBlob (path : Bytes) (cid : Cid) (length : BlobLength) : Except TreeError Bytes := do
  let bytes ← (tree.store.getBlob s tree.bucketId cid length).mapError storeError
  let len := bytes.length
  match length with
  | .exactly size => ensure (len = size) (.read (.invalidBlob path s!"{len} bytes, expected Exact({size})"))
  | .atMost max => ensure (len ≤ max) (.read (.invalidBlob path s!"{len} bytes, expected AtMost({max})"))
  (checkCid blake2256 cid bytes).mapError .read
  return bytes

def readManifest (path : Bytes) (cid : Cid) : Except TreeError FileManifest := do
  let bytes ← tree.readBlob blake2256 s path cid (.atMost FileManifest.maxBlobLen)
  let manifest ← (FileManifest.fromBlob bytes).mapError fun rule ↦ .read (invalidBlob path rule)
  manifest.validate.mapError fun rule ↦ .read (invalidBlob path rule)
  return manifest

/-- The entries of the directory at a path. -/
def list (path : Bytes) : Except TreeError (List DirectoryEntry) := do
  let names ← (parsePath path).mapError .read
  let root ← tree.loadRoot blake2256 mmr s
  let chain ← tree.dirChain blake2256 s root names false
  return (chain.getLast?.map fun dir ↦ dir.children.1).getD []

/-- The entry and the manifest of the file at a path. -/
def stat (path : Bytes) : Except TreeError FileStat := do
  let names ← (parsePath path).mapError .read
  let name ← require names.getLast? (.notAFile path)
  let root ← tree.loadRoot blake2256 mmr s
  let chain ← tree.dirChain blake2256 s root names.dropLast false
  let entry ← require (chain.getLast?.bind fun dir ↦ dir.findChild name) (.read (.pathNotFound path))
  ensure entry.isFile (.notAFile path)
  let manifest ← tree.readManifest blake2256 s path entry.cid
  return ⟨entry, manifest⟩

/-- Read the file at a path. -/
def getFile (path : Bytes) : Except TreeError (FileStat × Bytes) := do
  let stat ← tree.stat blake2256 mmr s path
  if stat.manifest.totalSize.1 = 0 then return (stat, [])
  else do
    let data ← tree.readBlob blake2256 s path (stat.manifest.contentRoot blake2256)
      (.exactly stat.manifest.totalSize.1)
    return (stat, data)

/-- The directories among some entries of the directory at a path, each read and with its path. -/
def readSubdirectories (dir : Bytes) :
    List DirectoryEntry → Except TreeError (List (Bytes × DirectoryNode))
  | [] => .ok []
  | entry :: rest =>
    let path := dir ++ entry.nameStr
    if entry.isDirectory then do
      let child ← tree.readDir blake2256 s path entry.cid
      let others ← readSubdirectories dir rest
      return (path ++ [slash], child) :: others
    else readSubdirectories dir rest

/-- Take directories off a stack and list the entries of each with their paths. The directories among them
go on the stack, the last one on top; `none` if the steps do not suffice. -/
def collectEntries : ℕ → List (Bytes × DirectoryNode) →
    Option (Except TreeError (List (Bytes × DirectoryEntry)))
  | _, [] => some (.ok [])
  | 0, _ :: _ => none
  | steps + 1, (dir, node) :: pending =>
    match tree.readSubdirectories blake2256 s dir node.children.1 with
    | .error error => some (.error error)
    | .ok found => (collectEntries steps (found.reverse ++ pending)).map fun later ↦
      later.map (node.children.1.map (fun entry ↦ (dir ++ entry.nameStr, entry)) ++ ·)

/-- The directory at a path. -/
def startDir (path : Bytes) : Except TreeError DirectoryNode := do
  let names ← (parsePath path).mapError .read
  let root ← tree.loadRoot blake2256 mmr s
  let chain ← tree.dirChain blake2256 s root names false
  require chain.getLast? (.read (.pathNotFound path))

/-- Every entry below the directory at a path, each with its path relative to it. -/
def entriesUnder (steps : ℕ) (path : Bytes) : Option (Except TreeError (List (Bytes × DirectoryEntry))) :=
  match tree.startDir blake2256 mmr s path with
  | .error error => some (.error error)
  | .ok start => tree.collectEntries blake2256 s steps [([], start)]

/-! ### Changes -/

/-- What `putFile` writes. -/
def putChange (path data contentType : Bytes) (userMetadata : List MetadataEntry)
    (entryTime dirTime : Word 8) : Except TreeError (Change FileStat) := do
  let names ← (parsePath path).mapError .read
  let name ← require names.getLast? (.notAFile path)
  let parents := names.dropLast
  let manifest ← (FileManifest.forContent blake2256 tree.bucketId data contentType
    userMetadata).mapError (.format path)
  let root ← tree.loadRoot blake2256 mmr s
  let chain ← tree.dirChain blake2256 s root parents true
  let parent := chain.getLastD root
  ensure (!(parent.findChild name).any DirectoryEntry.isDirectory) (.notAFile path)
  let manifestBytes := manifest.toBlob
  let entry ← (DirectoryEntry.tryNew name .file (computeCid blake2256 manifestBytes)
    (Word.ofNat 8 data.length) entryTime).mapError (.format path)
  let parent ← parent.upserted entry path
  let (dirs, root) ← rewrite blake2256 (chain.dropLast ++ [parent]) parents path dirTime
  return ⟨(if data = [] then [] else [data]) ++ manifestBytes :: dirs, root, ⟨entry, manifest⟩⟩

/-- What `mkdir` writes. -/
def mkdirChange (path : Bytes) (now : Word 8) : Except TreeError (Change Unit) := do
  let names ← (parsePath path).mapError .read
  let name ← require names.getLast? (.entryExists path)
  let root ← tree.loadRoot blake2256 mmr s
  let chain ← tree.dirChain blake2256 s root names.dropLast true
  ensure (chain.getLast?.bind fun parent ↦ parent.findChild name).isNone (.entryExists path)
  let (dirs, root) ← rewrite blake2256 (chain ++ [.newEmpty tree.bucketId]) names path now
  return ⟨dirs, root, ()⟩

/-- Take the directories that are empty off the end of a chain, and their entries out of their parents. The
root stays. -/
def popEmpty : DirectoryNode → List Bytes → List DirectoryNode → List DirectoryNode × List Bytes
  | dir, name :: names, next :: below =>
    match popEmpty next names below with
    | ([last], _) =>
      if last.children.1 = [] then ([(dir.removeChild name).2], []) else ([dir, last], [name])
    | (chain, kept) => (dir :: chain, name :: kept)
  | dir, _, _ => ([dir], [])

/-- The directories that a deletion keeps of a chain. -/
def keptChain (emptyParents : EmptyParents) (chain : List DirectoryNode) (parents : List Bytes) :
    List DirectoryNode × List Bytes :=
  match emptyParents, chain with
  | .remove, root :: below => popEmpty root parents below
  | _, _ => (chain, parents)

/-- What `delete` writes. -/
def deleteChange (path : Bytes) (emptyParents : EmptyParents) (now : Word 8) :
    Except TreeError (Change Unit) := do
  let names ← (parsePath path).mapError .read
  let name ← require names.getLast? (.read (.invalidPath path))
  let parents := names.dropLast
  let root ← tree.loadRoot blake2256 mmr s
  let chain ← tree.dirChain blake2256 s root parents false
  let (found, parent) := (chain.getLastD root).removeChild name
  let entry ← require found (.read (.pathNotFound path))
  ensure (!(entry.isDirectory && emptyParents = .remove)) (.notAFile path)
  if entry.isDirectory then do
    let node ← tree.readDir blake2256 s path entry.cid
    ensure (node.children.1 = []) (.directoryNotEmpty path)
  let (chain, parents) := keptChain emptyParents (chain.dropLast ++ [parent]) parents
  let (dirs, root) ← rewrite blake2256 chain parents path now
  return ⟨dirs, root, ()⟩

/-- How many names two paths have in common. -/
def commonNames (first second : List Bytes) : ℕ :=
  ((first.zip second).takeWhile fun names ↦ names.1 = names.2).length

/-- What `rename` writes. -/
def renameChange (source target : Bytes) (sourceTime targetTime : Word 8) :
    Except TreeError (Change Unit) := do
  let sourceNames ← (parsePath source).mapError .read
  let targetNames ← (parsePath target).mapError .read
  let sourceName ← require sourceNames.getLast? (.read (.invalidPath [slash]))
  let targetName ← require targetNames.getLast? (.read (.invalidPath [slash]))
  ensure (!sourceNames.isPrefixOf targetNames) (.read (.invalidPath target))
  let sourceParents := sourceNames.dropLast
  let targetParents := targetNames.dropLast
  let common := commonNames sourceParents targetParents
  let root ← tree.loadRoot blake2256 mmr s
  let chain ← tree.dirChain blake2256 s root sourceParents false
  let (found, parent) := (chain.getLastD root).removeChild sourceName
  let entry ← require found (.read (.pathNotFound source))
  let (chain, dirs) ← rewriteBelow blake2256 (chain.dropLast ++ [parent]) sourceParents common source
    sourceTime
  let chain ← tree.extendChain blake2256 s chain targetParents true
  let parent := chain.getLastD root
  ensure (parent.findChild targetName).isNone (.entryExists target)
  let moved ← (DirectoryEntry.tryNew targetName entry.entryType entry.cid entry.size
    entry.mtime).mapError (.format target)
  let parent ← parent.upserted moved target
  let (targetDirs, root) ← rewrite blake2256 (chain.dropLast ++ [parent]) targetParents target targetTime
  return ⟨dirs ++ targetDirs, root, ()⟩

end Reads

/-! ### Writing -/

/-- Upload blobs, each identifier once. -/
def uploadEach : List Cid → List Bytes → σ → Except TreeError Unit × σ
  | _, [], s => (.ok (), s)
  | uploaded, blob :: rest, s =>
    let expected := computeCid blake2256 blob
    if expected ∈ uploaded then uploadEach uploaded rest s
    else match tree.store.putBlob tree.bucketId blob s with
      | (.error message, s) => (.error (storeError message), s)
      | (.ok got, s) =>
        if got ≠ expected then (.error (.read (.cidMismatch expected got)), s)
        else uploadEach (expected :: uploaded) rest s

/-- Upload blobs, then a root, and commit their identifiers, the root last. -/
def write (blobs : List Bytes) (root : Bytes) (s : σ) : Except TreeError Cid × σ :=
  let rootCid := computeCid blake2256 root
  let cids := blobs.map (computeCid blake2256) ++ [rootCid]
  match tree.uploadEach blake2256 [] (blobs ++ [root]) s with
  | (.error error, s) => (.error error, s)
  | (.ok (), s) => match tree.store.commit tree.bucketId (commitOrder cids) s with
    | (.error message, s) => (.error (storeError message), s)
    | (.ok (), s) => (.ok rootCid, s)

/-- Write a change, unless it failed. -/
def writeChange {α : Type} (change : Except TreeError (Change α)) (s : σ) :
    Except TreeError (Cid × α) × σ :=
  match change with
  | .error error => (.error error, s)
  | .ok change => match tree.write blake2256 change.blobs change.root s with
    | (.error error, s) => (.error error, s)
    | (.ok rootCid, s) => (.ok (rootCid, change.result), s)

/-- Write data as the file at a path. Missing parents are created and a file is replaced. -/
def putFile (path data contentType : Bytes) (userMetadata : List MetadataEntry)
    (entryTime dirTime : Word 8) (s : σ) : Except TreeError (Cid × FileStat) × σ :=
  tree.writeChange blake2256
    (tree.putChange blake2256 mmr s path data contentType userMetadata entryTime dirTime) s

/-- Create an empty directory at a path, and missing parents. -/
def mkdir (path : Bytes) (now : Word 8) (s : σ) : Except TreeError (Cid × Unit) × σ :=
  tree.writeChange blake2256 (tree.mkdirChange blake2256 mmr s path now) s

/-- Delete the file or the empty directory at a path. -/
def delete (path : Bytes) (emptyParents : EmptyParents) (now : Word 8) (s : σ) :
    Except TreeError (Cid × Unit) × σ :=
  tree.writeChange blake2256 (tree.deleteChange blake2256 mmr s path emptyParents now) s

/-- Move the file or directory at a path to another one, in one commit. -/
def rename (source target : Bytes) (sourceTime targetTime : Word 8) (s : σ) :
    Except TreeError (Cid × Unit) × σ :=
  tree.writeChange blake2256 (tree.renameChange blake2256 mmr s source target sourceTime targetTime) s

/-! ### Operations -/

/-- A write with its arguments and the readings of the clock. -/
inductive FsOp where
  | putFile (path data contentType : Bytes) (userMetadata : List MetadataEntry)
    (entryTime dirTime : Word 8)
  | mkdir (path : Bytes) (now : Word 8)
  | delete (path : Bytes) (emptyParents : EmptyParents) (now : Word 8)
  | rename (source target : Bytes) (sourceTime targetTime : Word 8)

/-- What a write is to upload, with the file that it puts. -/
def changeOf (op : FsOp) (s : σ) : Except TreeError (Change (Option FileStat)) :=
  match op with
  | .putFile path data contentType userMetadata entryTime dirTime => do
    let change ← tree.putChange blake2256 mmr s path data contentType userMetadata entryTime dirTime
    return change.map some
  | .mkdir path now => do
    let change ← tree.mkdirChange blake2256 mmr s path now
    return change.map fun _ ↦ none
  | .delete path emptyParents now => do
    let change ← tree.deleteChange blake2256 mmr s path emptyParents now
    return change.map fun _ ↦ none
  | .rename source target sourceTime targetTime => do
    let change ← tree.renameChange blake2256 mmr s source target sourceTime targetTime
    return change.map fun _ ↦ none

/-- A write: its result, the new root with the file that was put, and the store after it. -/
def apply (op : FsOp) (s : σ) : Except TreeError (Cid × Option FileStat) × σ :=
  tree.writeChange blake2256 (tree.changeOf blake2256 mmr op s) s

/-- A sequence of writes: their results and the store after them. -/
def applyAll : List FsOp → σ → List (Except TreeError (Cid × Option FileStat)) × σ
  | [], s => ([], s)
  | op :: ops, s =>
    let (result, s) := tree.apply blake2256 mmr op s
    let (results, s) := applyAll ops s
    (result :: results, s)

end StoredTree

end Trees

end Web3Storage.Formats
