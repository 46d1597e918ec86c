import Web3Storage.Formats.CanonicalBlobs
import Web3Storage.Formats.DirectoryNodes
import Web3Storage.Formats.Roots

/-!
# The file tree of a bucket

Directories are read from blobs by their identifiers, each one checked and validated, starting from
the root that the last leaf of the bucket names. `FilesIn` lists the files below some entries with
their paths, where every directory on the way is read; the order in which the entries of a directory
are taken is a parameter, and the files are the same in every order (`FilesIn.reorder`).

A listing may start further down: `FilesIn.descend` says for a name that the files behind it are those
of the directory of that name, and `Tree.list_spec` the same for a path.
-/

set_option autoImplicit false
set_option relaxedAutoImplicit false

namespace Web3Storage.Formats

open Foundations Primitives

/-- Errors of the tree operations. -/
inductive FsClientError where
  | invalidPath (path : Bytes)
  | pathNotFound (path : Bytes)
  | notADirectory (path : Bytes)
  | notAFileSystemBucket (bucketId : ℕ) (reason : String)
  | unsupportedFormatVersion (version : UInt8)
  | invalidBlob (path : Bytes) (reason : String)
  | cidMismatch (expected got : Cid)
  /-- The store failed. -/
  | store (message : String)
  deriving DecidableEq

def FileSystemError.text : FileSystemError → String
  | .invalidEntryName => "Invalid entry name"
  | .invalidDirectory => "Invalid directory node"
  | .invalidManifest => "Invalid file manifest"
  | .directoryFull => "Directory is full"
  | .contentTooLarge => "Content is too large"
  | .metadataTooLarge => "File metadata exceeds a size bound"
  | .duplicateMetadataKey => "Duplicate metadata key"
  | .notAFormatBlob => "Not a file-system blob of the expected kind"
  | .unsupportedVersion version => "Unsupported format version " ++ toString version

/-- The file tree of one bucket: its store, which reads a blob of at most some bytes, and the data root
of the last leaf of the bucket. -/
structure Tree where
  bucketId : Word 8
  getBlob : Cid → ℕ → Except FsClientError Bytes
  lastLeaf : Except FsClientError (Option Cid)

/-- The error for a blob at a path that breaks a rule of the format. -/
def invalidBlob (path : Bytes) : FileSystemError → FsClientError
  | .unsupportedVersion version => .unsupportedFormatVersion version
  | source => .invalidBlob path source.text

/-- Split an absolute path into its names. The root has none. -/
def parsePath (path : Bytes) : Except FsClientError (List Bytes) :=
  match path with
  | [] => .error (.invalidPath path)
  | first :: rest =>
    if first ≠ slash then .error (.invalidPath path)
    else if rest = [] then .ok []
    else (rest.splitOn slash).mapM fun name ↦
      ((validateEntryName name).map fun _ ↦ name).mapError fun _ ↦ .invalidPath path

/-- The absolute path of some names. -/
def joinNames (names : List Bytes) : Bytes := slash :: List.intercalate [slash] names

section Reads

variable (blake2256 : Bytes → H256)

/-- Fail unless some bytes have an identifier. -/
def checkCid (cid : Cid) (bytes : Bytes) : Except FsClientError Unit :=
  let got := computeCid blake2256 bytes
  ensure (got = cid) (.cidMismatch cid got)

namespace Tree

variable (tree : Tree)

/-- Read the directory at a path. -/
def readDir (path : Bytes) (cid : Cid) : Except FsClientError DirectoryNode := do
  let max := DirectoryNode.maxBlobLen
  let bytes ← tree.getBlob cid max
  let len := bytes.length
  ensure (len ≤ max) (.invalidBlob path s!"{len} bytes, expected AtMost({max})")
  checkCid blake2256 cid bytes
  let node ← (DirectoryNode.fromBlob bytes).mapError (invalidBlob path)
  node.validate.mapError (invalidBlob path)
  return node

/-- Read the current root. A bucket without leaves is an empty drive. -/
def loadRoot : Except FsClientError DirectoryNode := do
  match ← tree.lastLeaf with
  | none => return .newEmpty tree.bucketId
  | some cid => do
    let max := DirectoryNode.maxBlobLen
    let bucketId := tree.bucketId.1
    let bytes ← tree.getBlob cid max
    ensure (bytes.length ≤ max) (.notAFileSystemBucket bucketId
      s!"last leaf is larger than a directory node can be ({max} bytes)")
    checkCid blake2256 cid bytes
    let node ← (DirectoryNode.fromBlob bytes).mapError fun error ↦ match error with
      | .unsupportedVersion version => .unsupportedFormatVersion version
      | other => .notAFileSystemBucket bucketId
        ("last leaf is not a directory node: " ++ other.text)
    node.validate.mapError fun error ↦ .notAFileSystemBucket bucketId
      ("last leaf is not a valid directory node: " ++ error.text)
    let owner := node.bucketId.1
    ensure (node.bucketId = tree.bucketId) (.notAFileSystemBucket bucketId
      s!"root directory belongs to bucket {owner}")
    return node

/-- The directory along some names from one that was reached along others. -/
def dirChain : List Bytes → DirectoryNode → List Bytes → Except FsClientError DirectoryNode
  | _, node, [] => .ok node
  | passed, node, name :: rest =>
    let path := joinNames (passed ++ [name])
    match node.findChild name with
    | none => .error (.pathNotFound path)
    | some entry =>
      if entry.isDirectory then do
        let next ← tree.readDir blake2256 path entry.cid
        dirChain (passed ++ [name]) next rest
      else .error (.notADirectory path)

/-- List the entries of the directory at a path. -/
def list (path : Bytes) : Except FsClientError (List DirectoryEntry) := do
  let names ← parsePath path
  let root ← tree.loadRoot blake2256
  let dir ← tree.dirChain blake2256 [] root names
  return dir.children.1

/-- The files below some entries of the directory at a path, each with its path, when all directories
below are read and their entries taken in an order. -/
inductive FilesIn (order : List DirectoryEntry → List DirectoryEntry) :
    Bytes → List DirectoryEntry → List (Bytes × DirectoryEntry) → Prop
  | nil (dir : Bytes) : FilesIn order dir [] []
  | file (dir : Bytes) (entry : DirectoryEntry) (rest : List DirectoryEntry)
      (files : List (Bytes × DirectoryEntry)) (hfile : entry.isFile = true)
      (hrest : FilesIn order dir rest files) :
      FilesIn order dir (entry :: rest) ((dir ++ entry.nameStr, entry) :: files)
  | directory (dir : Bytes) (entry : DirectoryEntry) (rest : List DirectoryEntry)
      (node : DirectoryNode) (below files : List (Bytes × DirectoryEntry))
      (hdirectory : entry.isFile = false)
      (hread : ∀ path, tree.readDir blake2256 path entry.cid = .ok node)
      (hbelow : FilesIn order (dir ++ entry.nameStr ++ [slash]) (order node.children.1) below)
      (hrest : FilesIn order dir rest files) :
      FilesIn order dir (entry :: rest) (below ++ files)

end Tree

end Reads

/-! ### What is read -/

/-- Entries as a directory has them: names that are valid and different. -/
structure ValidEntries (entries : List DirectoryEntry) : Prop where
  names : ∀ entry ∈ entries, validateEntryName entry.name.1 = .ok ()
  nodup : (entries.map fun entry ↦ entry.name.1).Nodup

section Rules

variable {blake2256 : Bytes → H256} {tree : Tree}

theorem slash_not_mem_of_valid {name : Bytes} (h : validateEntryName name = .ok ()) :
    slash ∉ name := by
  unfold validateEntryName at h
  split_ifs at h with hvalid
  exact hvalid.2.2.2.1

theorem ValidEntries.perm {entries entries' : List DirectoryEntry} (h : ValidEntries entries)
    (hperm : entries.Perm entries') : ValidEntries entries' :=
  ⟨fun entry hentry ↦ h.names entry (hperm.mem_iff.mpr hentry), (hperm.map _).nodup_iff.mp h.nodup⟩

theorem ValidEntries.nil : ValidEntries [] :=
  ⟨fun _ h ↦ absurd h List.not_mem_nil, List.nodup_nil⟩

theorem ValidEntries.tail {entry : DirectoryEntry} {rest : List DirectoryEntry}
    (h : ValidEntries (entry :: rest)) : ValidEntries rest :=
  ⟨fun other hother ↦ h.names other (List.mem_cons_of_mem _ hother),
    (List.nodup_cons.mp h.nodup).2⟩

theorem ValidEntries.name_ne {entry other : DirectoryEntry} {rest : List DirectoryEntry}
    (h : ValidEntries (entry :: rest)) (hother : other ∈ rest) : entry.name.1 ≠ other.name.1 := by
  intro hsame
  apply (List.nodup_cons.mp h.nodup).1
  exact List.mem_map.mpr ⟨other, hother, hsame.symm⟩

theorem DirectoryNode.Sound.validEntries {node : DirectoryNode} (h : node.Sound) :
    ValidEntries node.children.1 :=
  ⟨h.legal, h.unique⟩

/-- A directory is read from a blob with its identifier, whatever its path is. -/
theorem Tree.readDir_eq_ok {path : Bytes} {cid : Cid} {node : DirectoryNode} :
    tree.readDir blake2256 path cid = .ok node ↔
      ∃ bytes, tree.getBlob cid DirectoryNode.maxBlobLen = .ok bytes ∧
        bytes.length ≤ DirectoryNode.maxBlobLen ∧ computeCid blake2256 bytes = cid ∧
        DirectoryNode.fromBlob bytes = .ok node ∧ node.validate = .ok () := by
  simp only [Tree.readDir, checkCid, bind_eq_ok, mapError_eq_ok, pure_eq_ok, ensure_eq_ok,
    decide_eq_true_iff]
  constructor
  · rintro ⟨bytes, hbytes, done, hlength, done', hcid, node, hnode, done'', hvalid, rfl⟩
    exact ⟨bytes, hbytes, hlength, hcid, hnode, hvalid⟩
  · rintro ⟨bytes, hbytes, hlength, hcid, hnode, hvalid⟩
    exact ⟨bytes, hbytes, (), hlength, (), hcid, node, hnode, (), hvalid, rfl⟩

/-- A directory that is read is sound. -/
theorem Tree.sound_readDir {path : Bytes} {cid : Cid} {node : DirectoryNode}
    (h : tree.readDir blake2256 path cid = .ok node) : node.Sound := by
  obtain ⟨bytes, -, -, -, -, hvalid⟩ := Tree.readDir_eq_ok.mp h
  exact (DirectoryNode.validate_iff.mp hvalid).1

/-- The root is read from the blob of the last leaf. -/
theorem Tree.loadRoot_eq_ok {cid : Cid} {node : DirectoryNode} (hleaf : tree.lastLeaf = .ok (some cid)) :
    tree.loadRoot blake2256 = .ok node ↔
      ∃ bytes, tree.getBlob cid DirectoryNode.maxBlobLen = .ok bytes ∧
        bytes.length ≤ DirectoryNode.maxBlobLen ∧ computeCid blake2256 bytes = cid ∧
        DirectoryNode.fromBlob bytes = .ok node ∧ node.validate = .ok () ∧
        node.bucketId = tree.bucketId := by
  unfold Tree.loadRoot
  rw [hleaf, ok_bind]
  simp only [checkCid, bind_eq_ok, mapError_eq_ok, pure_eq_ok, ensure_eq_ok, decide_eq_true_iff]
  constructor
  · rintro ⟨bytes, hbytes, done, hlength, done', hcid, node, hnode, done'', hvalid, last, hbucket, rfl⟩
    exact ⟨bytes, hbytes, hlength, hcid, hnode, hvalid, hbucket⟩
  · rintro ⟨bytes, hbytes, hlength, hcid, hnode, hvalid, hbucket⟩
    exact ⟨bytes, hbytes, (), hlength, (), hcid, node, hnode, (), hvalid, (), hbucket, rfl⟩

theorem Tree.sound_loadRoot {node : DirectoryNode} (h : tree.loadRoot blake2256 = .ok node) :
    node.Sound := by
  rcases hleaf : tree.lastLeaf with error | leaf
  · unfold Tree.loadRoot at h
    rw [hleaf] at h
    cases h
  cases leaf with
  | none =>
    unfold Tree.loadRoot at h
    rw [hleaf, ok_bind, pure_eq_ok] at h
    rw [← h]
    exact DirectoryNode.sound_of_sorted .nil (fun _ hentry ↦ absurd hentry List.not_mem_nil) rfl
  | some cid =>
    obtain ⟨bytes, -, -, -, -, hvalid, -⟩ := (Tree.loadRoot_eq_ok hleaf).mp h
    exact (DirectoryNode.validate_iff.mp hvalid).1

/-! ### The files below a directory -/

/-- The key by which an entry is sorted: a directory stands where the keys below it do. -/
def sortKey (entry : DirectoryEntry) : Bytes :=
  if entry.isDirectory then entry.nameStr ++ [slash] else entry.nameStr

theorem sortKey_of_isFile {entry : DirectoryEntry} (h : entry.isFile = true) :
    sortKey entry = entry.nameStr := by
  unfold DirectoryEntry.isFile at h
  unfold sortKey DirectoryEntry.isDirectory
  rw [of_decide_eq_true h]
  rfl

theorem isDirectory_of_not_isFile {entry : DirectoryEntry} (h : entry.isFile = false) :
    entry.isDirectory = true := by
  unfold DirectoryEntry.isFile at h
  unfold DirectoryEntry.isDirectory
  cases htype : entry.entryType with
  | file =>
    rw [htype] at h
    exact absurd rfl (of_decide_eq_false h)
  | directory => rfl

theorem sortKey_of_not_isFile {entry : DirectoryEntry} (h : entry.isFile = false) :
    sortKey entry = entry.nameStr ++ [slash] := by
  unfold sortKey
  rw [isDirectory_of_not_isFile h, if_pos rfl]

namespace Tree.FilesIn

variable {order order' : List DirectoryEntry → List DirectoryEntry} {dir : Bytes}
  {entries : List DirectoryEntry} {files : List (Bytes × DirectoryEntry)}

/-- The path of a file starts with the sort key of an entry, and is no longer if the entry is the file. -/
theorem exists_entry (h : tree.FilesIn blake2256 order dir entries files)
    {file : Bytes × DirectoryEntry} (hfile : file ∈ files) :
    ∃ entry ∈ entries, ∃ rest, file.1 = dir ++ sortKey entry ++ rest ∧
      (entry.isFile = true → rest = []) := by
  induction h with
  | nil => cases hfile
  | file dir entry rest files hentry hrest ih =>
    rcases List.mem_cons.mp hfile with rfl | hfile
    · refine ⟨entry, List.mem_cons_self, [], ?_, fun _ ↦ rfl⟩
      rw [sortKey_of_isFile hentry, List.append_nil]
    · obtain ⟨other, hother, hkey⟩ := ih hfile
      exact ⟨other, List.mem_cons_of_mem _ hother, hkey⟩
  | directory dir entry rest node below files hentry hread hbelow hrest ihbelow ihrest =>
    rcases List.mem_append.mp hfile with hfile | hfile
    · obtain ⟨inner, -, past, hkey, -⟩ := ihbelow hfile
      refine ⟨entry, List.mem_cons_self, sortKey inner ++ past, ?_, fun hcontra ↦ ?_⟩
      · rw [hkey, sortKey_of_not_isFile hentry]
        simp only [List.append_assoc]
      · rw [hentry] at hcontra
        cases hcontra
    · obtain ⟨other, hother, hkey⟩ := ihrest hfile
      exact ⟨other, List.mem_cons_of_mem _ hother, hkey⟩

/-- The files below some entries have the path of the directory before them. -/
theorem isPrefix (h : tree.FilesIn blake2256 order dir entries files)
    {file : Bytes × DirectoryEntry} (hfile : file ∈ files) : dir <+: file.1 := by
  obtain ⟨entry, -, rest, hkey, -⟩ := h.exists_entry hfile
  rw [hkey, List.append_assoc]
  exact List.prefix_append _ _

theorem append_iff {left right : List DirectoryEntry} :
    tree.FilesIn blake2256 order dir (left ++ right) files ↔
      ∃ first second, tree.FilesIn blake2256 order dir left first ∧
        tree.FilesIn blake2256 order dir right second ∧ files = first ++ second := by
  constructor
  · intro h
    induction left generalizing files with
    | nil => exact ⟨[], files, .nil dir, h, rfl⟩
    | cons entry left ih =>
      cases h with
      | file _ _ _ files hentry hrest =>
        obtain ⟨first, second, hfirst, hsecond, rfl⟩ := ih hrest
        exact ⟨_, second, .file dir entry left first hentry hfirst, hsecond, rfl⟩
      | directory _ _ _ node below files hentry hread hbelow hrest =>
        obtain ⟨first, second, hfirst, hsecond, rfl⟩ := ih hrest
        exact ⟨_, second, .directory dir entry left node below first hentry hread hbelow hfirst,
          hsecond, (List.append_assoc _ _ _).symm⟩
  · rintro ⟨first, second, hfirst, hsecond, rfl⟩
    induction hfirst with
    | nil => exact hsecond
    | file dir entry rest files hentry hrest ih => exact .file dir entry _ _ hentry (ih hsecond)
    | directory dir entry rest node below files hentry hread hbelow hrest ihbelow ihrest =>
      rw [List.append_assoc]
      exact .directory dir entry _ node below _ hentry hread hbelow (ihrest hsecond)

theorem cons_iff {entry : DirectoryEntry} {rest : List DirectoryEntry} :
    tree.FilesIn blake2256 order dir (entry :: rest) files ↔
      ∃ first second, tree.FilesIn blake2256 order dir [entry] first ∧
        tree.FilesIn blake2256 order dir rest second ∧ files = first ++ second :=
  @append_iff _ _ _ _ _ [entry] rest

/-- Entries in another order have the same files. -/
theorem perm (h : tree.FilesIn blake2256 order dir entries files) {entries' : List DirectoryEntry}
    (hperm : entries.Perm entries') :
    ∃ files', tree.FilesIn blake2256 order dir entries' files' ∧ files.Perm files' := by
  induction hperm generalizing files with
  | nil => exact ⟨files, h, .refl _⟩
  | cons entry _ ih =>
    obtain ⟨first, second, hfirst, hsecond, rfl⟩ := cons_iff.mp h
    obtain ⟨second', hsecond', hsame⟩ := ih hsecond
    exact ⟨_, cons_iff.mpr ⟨first, second', hfirst, hsecond', rfl⟩, hsame.append_left first⟩
  | swap entry entry' rest =>
    obtain ⟨first, others, hfirst, hothers, rfl⟩ := cons_iff.mp h
    obtain ⟨second, third, hsecond, hthird, rfl⟩ := cons_iff.mp hothers
    have hswap := cons_iff.mpr ⟨first, third, hfirst, hthird, rfl⟩
    refine ⟨_, cons_iff.mpr ⟨second, _, hsecond, hswap, rfl⟩, ?_⟩
    rw [← List.append_assoc, ← List.append_assoc]
    exact List.perm_append_comm.append_right third
  | trans _ _ ih ih' =>
    obtain ⟨middle, hmiddle, hsame⟩ := ih h
    obtain ⟨last, hlast, hsame'⟩ := ih' hmiddle
    exact ⟨last, hlast, hsame.trans hsame'⟩

/-- The files below some entries are the same in every order. -/
theorem reorder (h : tree.FilesIn blake2256 order dir entries files)
    (horder : ∀ children, (order children).Perm (order' children)) :
    ∃ files', tree.FilesIn blake2256 order' dir entries files' ∧ files.Perm files' := by
  induction h with
  | nil dir => exact ⟨[], .nil dir, .refl _⟩
  | file dir entry rest files hentry hrest ih =>
    obtain ⟨files', hfiles, hsame⟩ := ih
    exact ⟨_, .file dir entry rest files' hentry hfiles, hsame.cons _⟩
  | directory dir entry rest node below files hentry hread hbelow hrest ihbelow ihrest =>
    obtain ⟨files', hfiles, hsame⟩ := ihrest
    obtain ⟨below', hbelow', hsame'⟩ := ihbelow
    obtain ⟨below'', hbelow'', hsame''⟩ := hbelow'.perm (horder node.children.1)
    exact ⟨_, .directory dir entry rest node below'' files' hentry hread hbelow'' hfiles,
      (hsame'.trans hsame'').append hsame⟩

end Tree.FilesIn

/-! ### The files of a path -/

/-- The files whose paths start with some bytes. -/
def under (start : Bytes) (files : List (Bytes × DirectoryEntry)) : List (Bytes × DirectoryEntry) :=
  files.filter fun file ↦ start.isPrefixOf file.1

theorem under_append (start : Bytes) (files files' : List (Bytes × DirectoryEntry)) :
    under start (files ++ files') = under start files ++ under start files' :=
  List.filter_append files files'

theorem under_eq_self {start : Bytes} {files : List (Bytes × DirectoryEntry)}
    (h : ∀ file ∈ files, start <+: file.1) : under start files = files :=
  List.filter_eq_self.mpr fun file hfile ↦ List.isPrefixOf_iff_prefix.mpr (h file hfile)

theorem under_eq_nil {start : Bytes} {files : List (Bytes × DirectoryEntry)}
    (h : ∀ file ∈ files, ¬ start <+: file.1) : under start files = [] := by
  refine List.filter_eq_nil_iff.mpr fun file hfile hpre ↦ ?_
  exact h file hfile (List.isPrefixOf_iff_prefix.mp hpre)

/-- The files of a longer path are among those of a shorter one. -/
theorem under_under {start longer : Bytes} (files : List (Bytes × DirectoryEntry))
    (h : start <+: longer) : under longer (under start files) = under longer files := by
  unfold under
  rw [List.filter_filter]
  refine List.filter_congr fun file _ ↦ ?_
  rw [Bool.and_eq_left_iff_imp, List.isPrefixOf_iff_prefix, List.isPrefixOf_iff_prefix]
  exact fun hlonger ↦ h.trans hlonger

/-- What stands before the first `/` of a path is determined by the path. -/
theorem eq_of_append_slash {first second rest rest' : Bytes} (hfirst : slash ∉ first)
    (hsecond : slash ∉ second) (h : first ++ slash :: rest = second ++ slash :: rest') :
    first = second := by
  have hsplit := congrArg (List.splitOn slash) h
  rw [List.splitOn_append_cons_self_of_not_mem hfirst,
    List.splitOn_append_cons_self_of_not_mem hsecond, List.cons.injEq] at hsplit
  exact hsplit.1

/-- A file in a directory of some name is below an entry that is a directory of this name. -/
theorem Tree.FilesIn.name_eq {dir name : Bytes} {entry : DirectoryEntry} {key rest : Bytes}
    (hvalid : validateEntryName entry.name.1 = .ok ()) (hname : slash ∉ name)
    (hkey : key = dir ++ sortKey entry ++ rest) (hrest : entry.isFile = true → rest = [])
    (hpre : dir ++ name ++ [slash] <+: key) : entry.isFile = false ∧ entry.name.1 = name := by
  obtain ⟨past, hpast⟩ := hpre
  rw [hkey, List.append_assoc, List.append_assoc, List.append_assoc, List.append_cancel_left_eq,
    List.singleton_append] at hpast
  by_cases hfile : entry.isFile = true
  · rw [hrest hfile, sortKey_of_isFile hfile, List.append_nil] at hpast
    have hmem : slash ∈ entry.nameStr := by
      rw [← hpast]
      exact List.mem_append_right _ List.mem_cons_self
    exact absurd hmem (slash_not_mem_of_valid hvalid)
  · rw [Bool.not_eq_true] at hfile
    rw [sortKey_of_not_isFile hfile, List.append_assoc, List.singleton_append] at hpast
    exact ⟨hfile, (eq_of_append_slash hname (slash_not_mem_of_valid hvalid) hpast).symm⟩

namespace Tree.FilesIn

variable {dir : Bytes} {entries : List DirectoryEntry} {files : List (Bytes × DirectoryEntry)}

/-- No file is in a directory that is not among the entries. -/
theorem under_eq_nil {order : List DirectoryEntry → List DirectoryEntry}
    (h : tree.FilesIn blake2256 order dir entries files)
    (hvalid : ∀ entry ∈ entries, validateEntryName entry.name.1 = .ok ()) {name : Bytes}
    (hname : slash ∉ name)
    (hnone : ∀ entry ∈ entries, entry.name.1 = name → entry.isFile = true) :
    under (dir ++ name ++ [slash]) files = [] := by
  refine Formats.under_eq_nil fun file hfile hpre ↦ ?_
  obtain ⟨entry, hentry, rest, hkey, hrest⟩ := h.exists_entry hfile
  obtain ⟨hdirectory, hsame⟩ := name_eq (hvalid entry hentry) hname hkey hrest hpre
  rw [hnone entry hentry hsame] at hdirectory
  cases hdirectory

/-- The files behind the name of a directory are those of the directory. -/
theorem descend (h : tree.FilesIn blake2256 id dir entries files) (hvalid : ValidEntries entries)
    {entry : DirectoryEntry} (hentry : entry ∈ entries) (hdirectory : entry.isFile = false) :
    ∃ node, (∀ path, tree.readDir blake2256 path entry.cid = .ok node) ∧
      tree.FilesIn blake2256 id (dir ++ entry.name.1 ++ [slash]) node.children.1
        (under (dir ++ entry.name.1 ++ [slash]) files) := by
  obtain ⟨before, after, rfl⟩ := List.append_of_mem hentry
  have hname := slash_not_mem_of_valid (hvalid.names entry hentry)
  have hfront : ValidEntries (entry :: (before ++ after)) := hvalid.perm List.perm_middle
  obtain ⟨first, others, hfirst, hothers, rfl⟩ := append_iff.mp h
  cases hothers with
  | file _ _ _ _ hfile _ =>
    rw [hdirectory] at hfile
    cases hfile
  | directory _ _ _ node below second _ hread hbelow hsecond =>
    refine ⟨node, hread, ?_⟩
    have hnone : ∀ other ∈ before ++ after, other.name.1 = entry.name.1 → other.isFile = true := by
      intro other hother hsame
      exact absurd hsame.symm (hfront.name_ne hother)
    have hnames := hfront.tail.names
    rw [List.forall_mem_append] at hnone hnames
    have hall : under (dir ++ entry.name.1 ++ [slash]) below = below :=
      under_eq_self fun file hfile ↦ hbelow.isPrefix hfile
    rw [under_append, under_append, hfirst.under_eq_nil hnames.1 hname hnone.1,
      hsecond.under_eq_nil hnames.2 hname hnone.2, List.nil_append, List.append_nil, hall]
    exact hbelow

end Tree.FilesIn

/-- The path below a directory along some names. -/
def pathBelow (names : List Bytes) : Bytes := names.flatMap fun name ↦ name ++ [slash]

/-- A directory that is reached along some names has the files behind them; if none is reached, there
are none. -/
theorem Tree.dirChain_spec {node : DirectoryNode} {dir : Bytes}
    {files : List (Bytes × DirectoryEntry)}
    (h : tree.FilesIn blake2256 id dir node.children.1 files)
    (hsound : node.Sound) (passed : List Bytes) {names : List Bytes}
    (hnames : ∀ name ∈ names, slash ∉ name) :
    (∃ last, tree.dirChain blake2256 passed node names = .ok last ∧
        ValidEntries last.children.1 ∧
        tree.FilesIn blake2256 id (dir ++ pathBelow names) last.children.1
          (under (dir ++ pathBelow names) files)) ∨
      (∃ path, tree.dirChain blake2256 passed node names = .error (.pathNotFound path) ∨
          tree.dirChain blake2256 passed node names = .error (.notADirectory path)) ∧
        under (dir ++ pathBelow names) files = [] := by
  induction names generalizing node dir files passed with
  | nil =>
    left
    refine ⟨node, rfl, hsound.validEntries, ?_⟩
    rw [pathBelow, List.flatMap_nil, List.append_nil, under_eq_self fun file hfile ↦ h.isPrefix hfile]
    exact h
  | cons name rest ih =>
    rw [List.forall_mem_cons] at hnames
    have hpath : dir ++ pathBelow (name :: rest) = dir ++ name ++ [slash] ++ pathBelow rest := by
      rw [pathBelow, List.flatMap_cons, ← pathBelow]
      simp only [List.append_assoc]
    have hpre : dir ++ name ++ [slash] <+: dir ++ pathBelow (name :: rest) := by
      rw [hpath]
      exact List.prefix_append _ _
    -- no directory of the name: no file has a path behind it
    have hnothing : (∀ entry ∈ node.children.1, entry.name.1 = name → entry.isFile = true) →
        under (dir ++ pathBelow (name :: rest)) files = [] := by
      intro hnone
      rw [← under_under files hpre, h.under_eq_nil hsound.legal hnames.1 hnone]
      rfl
    unfold dirChain
    rw [DirectoryNode.findChild_eq hsound]
    cases hfind : node.childMap.lookup name with
    | none =>
      right
      refine ⟨⟨_, .inl rfl⟩, hnothing fun entry hentry hsame ↦ ?_⟩
      exact absurd hsame ((DirectoryNode.lookup_childMap_eq_none hsound).mp hfind entry hentry)
    | some entry =>
      obtain ⟨hentry, hsame⟩ := (DirectoryNode.lookup_childMap hsound).mp hfind
      by_cases hfile : entry.isFile = true
      · right
        have hdirectory : ¬ entry.isDirectory = true := by
          unfold DirectoryEntry.isDirectory
          rw [of_decide_eq_true hfile]
          exact fun hcontra ↦ by cases of_decide_eq_true hcontra
        refine ⟨⟨joinNames (passed ++ [name]), .inr (if_neg hdirectory)⟩,
          hnothing fun other hother hother' ↦ ?_⟩
        have hequal := List.inj_on_of_nodup_map hsound.unique hother hentry (hother'.trans hsame.symm)
        rw [hequal]
        exact hfile
      · rw [Bool.not_eq_true] at hfile
        obtain ⟨next, hread, hbelow⟩ := h.descend hsound.validEntries hentry hfile
        rw [hsame] at hbelow
        have hlast := ih hbelow (sound_readDir (hread (joinNames (passed ++ [name]))))
          (passed ++ [name]) hnames.2
        rw [under_under files (List.prefix_append _ _), ← hpath] at hlast
        simp only [isDirectory_of_not_isFile hfile, if_true, hread, ok_bind]
        exact hlast

/-! ### Listing a directory -/

/-- The path below some names is their path and a `/`. -/
theorem pathBelow_splitOn (path : Bytes) : pathBelow (path.splitOn slash) = path ++ [slash] := by
  have hjoin : ∀ names : List Bytes, names ≠ [] →
      pathBelow names = List.intercalate [slash] names ++ [slash] := by
    intro names hnames
    induction names with
    | nil => exact absurd rfl hnames
    | cons name rest ih =>
      rw [pathBelow, List.flatMap_cons, ← pathBelow]
      by_cases hrest : rest = []
      · rw [hrest]
        simp [pathBelow, List.intercalate]
      · rw [ih hrest, List.intercalate_cons_of_ne_nil hrest]
        simp only [List.append_assoc]
  rw [hjoin _ (List.splitOn_ne_nil _ _), List.intercalate_splitOn]

/-- The names along which a directory is reached are valid. -/
theorem Tree.valid_of_dirChain {node last : DirectoryNode} {passed names : List Bytes}
    (h : tree.dirChain blake2256 passed node names = .ok last) (hsound : node.Sound) :
    ∀ name ∈ names, validateEntryName name = .ok () := by
  induction names generalizing node passed with
  | nil => exact fun name hname ↦ absurd hname List.not_mem_nil
  | cons name rest ih =>
    unfold dirChain at h
    rw [DirectoryNode.findChild_eq hsound] at h
    cases hfind : node.childMap.lookup name with
    | none =>
      rw [hfind] at h
      cases h
    | some entry =>
      obtain ⟨hentry, hsame⟩ := (DirectoryNode.lookup_childMap hsound).mp hfind
      have hname := hsound.legal entry hentry
      rw [hsame] at hname
      rw [hfind] at h
      dsimp only at h
      split_ifs at h with hdirectory
      obtain ⟨next, hread, hrest⟩ := (bind_eq_ok _ _ _).mp h
      exact List.forall_mem_cons.mpr ⟨hname, ih hrest (sound_readDir hread)⟩

theorem slash_not_mem_splitOn {path name : Bytes} (h : name ∈ path.splitOn slash) :
    slash ∉ name := by
  induction hlength : path.length using Nat.strong_induction_on generalizing path with
  | _ length ih =>
    by_cases hslash : slash ∈ path
    · obtain ⟨before, after, rfl, hbefore⟩ := List.eq_append_cons_of_mem hslash
      rw [List.splitOn_append_cons_self_of_not_mem hbefore] at h
      rcases List.mem_cons.mp h with rfl | h
      · exact hbefore
      · rw [List.length_append, List.length_cons] at hlength
        exact ih after.length (by omega) h rfl
    · rw [List.splitOn_eq_singleton hslash, List.mem_singleton] at h
      rwa [h]

/-- Files have paths of valid names. -/
theorem Tree.FilesIn.valid_of_under {node : DirectoryNode} {files : List (Bytes × DirectoryEntry)}
    (h : tree.FilesIn blake2256 id [] node.children.1 files)
    (hsound : node.Sound) {path : Bytes}
    (hpath : under (path ++ [slash]) files ≠ []) :
    ∀ name ∈ path.splitOn slash, validateEntryName name = .ok () := by
  have hslash : ∀ name ∈ path.splitOn slash, slash ∉ name := fun _ hname ↦ slash_not_mem_splitOn hname
  have hchain := Tree.dirChain_spec h hsound [] hslash
  rw [List.nil_append, pathBelow_splitOn] at hchain
  rcases hchain with ⟨last, hlast, -, -⟩ | ⟨-, hnone⟩
  · exact Tree.valid_of_dirChain hlast hsound
  · exact absurd hnone hpath

theorem parsePath_of_valid {path : Bytes} (hpath : path ≠ [])
    (hvalid : ∀ name ∈ path.splitOn slash, validateEntryName name = .ok ()) :
    parsePath (slash :: path) = .ok (path.splitOn slash) := by
  have hname : ∀ name ∈ path.splitOn slash,
      (((validateEntryName name).map fun _ ↦ name).mapError fun _ ↦
        FsClientError.invalidPath (slash :: path)) = .ok (id name) := by
    intro name hname
    rw [hvalid name hname]
    rfl
  have hmap := mapM_eq_ok_map hname
  rw [List.map_id] at hmap
  unfold parsePath
  dsimp only
  rw [if_neg (not_not.mpr rfl), if_neg hpath, hmap]

/-- Listing a path gives the entries whose files are those with the path before them; there are none
if the path is no directory. -/
theorem Tree.list_spec {root : DirectoryNode} {files : List (Bytes × DirectoryEntry)}
    (hroot : tree.loadRoot blake2256 = .ok root)
    (h : tree.FilesIn blake2256 id [] root.children.1 files) {path : Bytes} (hpath : path ≠ [])
    (hvalid : ∀ name ∈ path.splitOn slash, validateEntryName name = .ok ()) :
    (∃ entries, tree.list blake2256 (slash :: path) = .ok entries ∧ ValidEntries entries ∧
        tree.FilesIn blake2256 id (path ++ [slash]) entries (under (path ++ [slash]) files)) ∨
      (∃ missing, tree.list blake2256 (slash :: path) = .error (.pathNotFound missing) ∨
          tree.list blake2256 (slash :: path) = .error (.notADirectory missing)) ∧
        under (path ++ [slash]) files = [] := by
  have hchain := Tree.dirChain_spec h (Tree.sound_loadRoot hroot) []
    fun name hname ↦ slash_not_mem_of_valid (hvalid name hname)
  rw [List.nil_append, pathBelow_splitOn] at hchain
  unfold Tree.list
  rw [parsePath_of_valid hpath hvalid, hroot, ok_bind, ok_bind]
  rcases hchain with ⟨last, hlast, hentries, hfiles⟩ | ⟨⟨missing, herror⟩, hnone⟩
  · left
    refine ⟨last.children.1, ?_, hentries, hfiles⟩
    rw [hlast]
    rfl
  · right
    refine ⟨⟨missing, ?_⟩, hnone⟩
    rcases herror with herror | herror
    · left
      rw [herror]
      rfl
    · right
      rw [herror]
      rfl

/-- The root is listed by `/`. -/
theorem Tree.list_root {root : DirectoryNode} (hroot : tree.loadRoot blake2256 = .ok root) :
    tree.list blake2256 [slash] = .ok root.children.1 := by
  unfold Tree.list
  rw [hroot]
  rfl

end Rules

/-! ### Trees from directories -/

section Stores

variable {blake2256 : Bytes → H256} {bucketId : Word 8} {nodes : List DirectoryNode}

variable (blake2256 bucketId nodes) in
/-- A store with the blobs of some directories, of which the first is the root. -/
def Tree.ofNodes : Tree where
  bucketId := bucketId
  getBlob cid _ := match nodes.find? fun node ↦ computeCid blake2256 node.toBlob = cid with
    | some node => .ok node.toBlob
    | none => .error (.store "blob not found")
  lastLeaf := .ok (nodes.head?.map fun node ↦ computeCid blake2256 node.toBlob)

theorem Tree.getBlob_ofNodes
    (hcids : (nodes.map fun node ↦ computeCid blake2256 node.toBlob).Nodup) {node : DirectoryNode}
    (hnode : node ∈ nodes) (length : ℕ) :
    (ofNodes blake2256 bucketId nodes).getBlob (computeCid blake2256 node.toBlob) length =
      .ok node.toBlob := by
  unfold ofNodes
  dsimp only
  cases hfind : nodes.find? fun other ↦
      computeCid blake2256 other.toBlob = computeCid blake2256 node.toBlob with
  | none => exact absurd (decide_eq_true rfl) (List.find?_eq_none.mp hfind node hnode)
  | some other =>
    have hsame := List.find?_some hfind
    rw [List.inj_on_of_nodup_map hcids (List.mem_of_find?_eq_some hfind) hnode
      (of_decide_eq_true hsame)]

theorem DirectoryNode.length_toBlob_le (node : DirectoryNode) :
    node.toBlob.length ≤ DirectoryNode.maxBlobLen := by
  have hlength := DirectoryNode.atMost_codec node
  unfold toBlob Formats.toBlob maxBlobLen
  rw [List.length_append]
  exact Nat.add_le_add (le_refl headerLen) hlength

theorem Tree.readDir_ofNodes
    (hcids : (nodes.map fun node ↦ computeCid blake2256 node.toBlob).Nodup) {node : DirectoryNode}
    (hnode : node ∈ nodes) (hvalid : node.validate = .ok ()) (path : Bytes) :
    (ofNodes blake2256 bucketId nodes).readDir blake2256 path (computeCid blake2256 node.toBlob) =
      .ok node :=
  readDir_eq_ok.mpr ⟨_, getBlob_ofNodes hcids hnode _, node.length_toBlob_le, rfl,
    (fromBlob_eq_ok _).mpr rfl, hvalid⟩

theorem Tree.loadRoot_ofNodes {root : DirectoryNode}
    (hcids : ((root :: nodes).map fun node ↦ computeCid blake2256 node.toBlob).Nodup)
    (hvalid : root.validate = .ok ()) :
    (ofNodes blake2256 root.bucketId (root :: nodes)).loadRoot blake2256 = .ok root :=
  (loadRoot_eq_ok rfl).mpr ⟨_, getBlob_ofNodes hcids List.mem_cons_self _, root.length_toBlob_le, rfl,
    (fromBlob_eq_ok _).mpr rfl, hvalid, rfl⟩

end Stores

end Web3Storage.Formats
