import Web3Storage.Formats.FileWrites
import Web3Storage.Foundations.PathMap

/-!
# What the file tree is for

A file system is the tree of its files and directories: what stands at each path. The writes of the tree
are described on it as they are meant, without blobs and identifiers: a file is put at a path, an entry is
removed or moved, and every directory on the way gets the time of the write. Paths are walked in order, so
that the first directory that is missing or is a file decides the error.
-/

set_option autoImplicit false
set_option relaxedAutoImplicit false

namespace Web3Storage.Formats

open Foundations Primitives

/-- What stands at a path: a file with its time, manifest and content, or a directory with its time. -/
inductive FsNode where
  | file (mtime : Word 8) (manifest : FileManifest) (data : Bytes)
  | directory (mtime : Word 8)
  deriving DecidableEq

def FsNode.isDirectory : FsNode → Bool
  | .file .. => false
  | .directory _ => true

/-- The files and directories below a root by their paths. -/
abbrev FileSystem := PathMap Bytes FsNode

namespace FileSystem

variable (fs : FileSystem)

/-- Go along some names behind a path: all of them must be directories, or may be missing. -/
def walk (createMissing : Bool) : List Bytes → List Bytes → Except TreeError Unit
  | _, [] => .ok ()
  | passed, name :: rest =>
    match fs (passed ++ [name]) with
    | some (.directory _) => walk createMissing (passed ++ [name]) rest
    | some (.file ..) => .error (.read (.notADirectory (joinNames (passed ++ [name]))))
    | none =>
      if createMissing then walk createMissing (passed ++ [name]) rest
      else .error (.read (.pathNotFound (joinNames (passed ++ [name]))))

/-- The names in the directory at a path. -/
def namesIn (dir : List Bytes) : Set Bytes := {name | fs (dir ++ [name]) ≠ none}

/-- Every directory on the way has the next name or room for it. -/
def HasRoomAlong (names : List Bytes) : Prop :=
  ∀ dir name rest, names = dir ++ name :: rest →
    name ∈ fs.namesIn dir ∨ (fs.namesIn dir).ncard < maxDirectoryChildren

/-- Something stands below a path that is not on the way to another one. -/
def HasOther (path names : List Bytes) : Prop :=
  ∃ other, path <+: other ∧ ¬ other <+: names ∧ fs other ≠ none

open Classical in
/-- Remove what stands at a path and the directories on the way to it that have nothing else below. -/
noncomputable def prune (names : List Bytes) (now : Word 8) : FileSystem := fun path ↦
  if path <+: names then
    if fs.HasOther path names then some (.directory now) else none
  else fs path

/-- Remove what stands at a path, and the directories that become empty or none. -/
noncomputable def remove (emptyParents : EmptyParents) (names : List Bytes) (now : Word 8) : FileSystem :=
  match emptyParents with
  | .keep => (fs.graft names .empty).stamp names.dropLast (.directory now)
  | .remove => fs.prune names now

section Changes

variable (blake2256 : Bytes → H256) (bucketId : Word 8)

omit fs in
open Classical in
/-- A write: its result and the file system after it. -/
noncomputable def change (fs : FileSystem) : StoredTree.FsOp → Except TreeError (Option FileStat × FileSystem)
  | .putFile path data contentType userMetadata entryTime dirTime => do
    let names ← (parsePath path).mapError .read
    let name ← require names.getLast? (.notAFile path)
    let manifest ← (FileManifest.forContent blake2256 bucketId data contentType
      userMetadata).mapError (.format path)
    fs.walk true [] names.dropLast
    ensure (!(fs names).any FsNode.isDirectory) (.notAFile path)
    let entry ← (DirectoryEntry.tryNew name .file (computeCid blake2256 manifest.toBlob)
      (Word.ofNat 8 data.length) entryTime).mapError (.format path)
    ensure (fs.HasRoomAlong names) (.format path .directoryFull)
    return (some ⟨entry, manifest⟩,
      (fs.graft names (.single (.file entryTime manifest data))).stamp names.dropLast (.directory dirTime))
  | .mkdir path now => do
    let names ← (parsePath path).mapError .read
    let _ ← require names.getLast? (.entryExists path)
    fs.walk true [] names.dropLast
    ensure (fs names).isNone (.entryExists path)
    ensure (fs.HasRoomAlong names) (.format path .directoryFull)
    return (none, fs.stamp names (.directory now))
  | .delete path emptyParents now => do
    let names ← (parsePath path).mapError .read
    let _ ← require names.getLast? (.read (.invalidPath path))
    fs.walk false [] names.dropLast
    let node ← require (fs names) (.read (.pathNotFound path))
    ensure (!(node.isDirectory && emptyParents = .remove)) (.notAFile path)
    ensure (!node.isDirectory || fs.namesIn names = ∅) (.directoryNotEmpty path)
    return (none, fs.remove emptyParents names now)
  | .rename source target sourceTime targetTime => do
    let sourceNames ← (parsePath source).mapError .read
    let targetNames ← (parsePath target).mapError .read
    let _ ← require sourceNames.getLast? (.read (.invalidPath [slash]))
    let _ ← require targetNames.getLast? (.read (.invalidPath [slash]))
    ensure (!sourceNames.isPrefixOf targetNames) (.read (.invalidPath target))
    fs.walk false [] sourceNames.dropLast
    let _ ← require (fs sourceNames) (.read (.pathNotFound source))
    let taken : FileSystem := (fs.graft sourceNames .empty).stamp sourceNames.dropLast (.directory sourceTime)
    taken.walk true [] targetNames.dropLast
    ensure (taken targetNames).isNone (.entryExists target)
    ensure (taken.HasRoomAlong targetNames) (.format target .directoryFull)
    return (none, (taken.graft targetNames (fs.below sourceNames)).stamp targetNames.dropLast
      (.directory targetTime))

end Changes

/-! ### Reading -/

/-- The entry and the manifest of the file at a path, with its content. -/
def readFile (blake2256 : Bytes → H256) (path : Bytes) : Except TreeError (FileStat × Bytes) := do
  let names ← (parsePath path).mapError .read
  let name ← require names.getLast? (.notAFile path)
  fs.walk false [] names.dropLast
  match fs names with
  | none => .error (.read (.pathNotFound path))
  | some (.directory _) => .error (.notAFile path)
  | some (.file mtime manifest data) => do
    let entry ← (DirectoryEntry.tryNew name .file (computeCid blake2256 manifest.toBlob)
      (Word.ofNat 8 data.length) mtime).mapError (.format path)
    return (⟨entry, manifest⟩, data)

end FileSystem

end Web3Storage.Formats
