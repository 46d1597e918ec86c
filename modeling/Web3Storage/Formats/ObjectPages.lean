import Web3Storage.Formats.DriveEntries
import Web3Storage.Formats.ObjectListing
import Web3Storage.Formats.ObjectMap

/-!
# Pages of a map of objects

A listing walks the directories of a drive. If they are read, the files in them are those of the file system
that the drive holds (`HoldsEntry.files`), so that the pages of a drive that holds the objects of a map are
the pages of the keys of that map: `objects_listed`, after any puts and deletes.
-/

set_option autoImplicit false
set_option relaxedAutoImplicit false

namespace Web3Storage.Formats

open Foundations Primitives

/-- An entry shows the file at the place that some names lead to. -/
def FileSystem.ShowsFile (fs : FileSystem) (blake2256 : Bytes → H256) (names : List Bytes)
    (entry : DirectoryEntry) : Prop :=
  names.getLast? = some entry.name.1 ∧ ∃ mtime manifest data,
    fs names = some (.file mtime manifest data) ∧ (FsNode.file mtime manifest data).Shown blake2256 entry

/-- All files below some entries of the directory at a path, with the names behind them. -/
def FileSystem.HasFiles (fs : FileSystem) (blake2256 : Bytes → H256) (dir : Bytes)
    (below : List Bytes → Prop) (files : List (Bytes × DirectoryEntry)) : Prop :=
  ∀ key entry, (key, entry) ∈ files ↔ ∃ names, below names ∧
    key = dir ++ List.intercalate [slash] names ∧ fs.ShowsFile blake2256 names entry

/-- The directories below one are read, and the files in them are those of a file system. -/
def ListsFiles (blake2256 : Bytes → H256) (tree : Tree) (node : DirectoryNode) (fs : FileSystem) : Prop :=
  ∀ dir, ∃ files, tree.FilesIn blake2256 id dir node.children.1 files ∧
    fs.HasFiles blake2256 dir (· ≠ []) files

/-- What an entry stands for is a file, or a directory that is read. -/
def EntryFiles (blake2256 : Bytes → H256) (tree : Tree) (found : Option DirectoryEntry)
    (fs : FileSystem) : Prop :=
  ∀ entry, found = some entry →
    (entry.isFile = true ∧ ∃ mtime manifest data, fs = .single (.file mtime manifest data) ∧
      (FsNode.file mtime manifest data).Shown blake2256 entry) ∨
    entry.isFile = false ∧ (∃ mtime, fs [] = some (.directory mtime)) ∧
      ∃ node, (∀ path, tree.readDir blake2256 path entry.cid = .ok node) ∧ ListsFiles blake2256 tree node fs

section Files

variable {blake2256 : Bytes → H256} {tree : Tree} {fs : FileSystem}

/-- A place is shown by one entry. -/
theorem FileSystem.ShowsFile.unique {names : List Bytes} {entry other : DirectoryEntry}
    (h : fs.ShowsFile blake2256 names entry) (h' : fs.ShowsFile blake2256 names other) : entry = other := by
  obtain ⟨hname, mtime, manifest, data, hfile, htype, hcid, hsize, hmtime⟩ := h
  obtain ⟨hname', mtime', manifest', data', hfile', htype', hcid', hsize', hmtime'⟩ := h'
  rw [hfile, Option.some.injEq, FsNode.file.injEq] at hfile'
  obtain ⟨rfl, rfl, rfl⟩ := hfile'
  rw [hname, Option.some.injEq] at hname'
  obtain ⟨name, entryType, cid, size, time⟩ := entry
  obtain ⟨name', entryType', cid', size', time'⟩ := other
  dsimp only at *
  rw [DirectoryEntry.mk.injEq]
  exact ⟨Subtype.ext hname', htype.trans htype'.symm, hcid.trans hcid'.symm, hsize.trans hsize'.symm,
    hmtime.trans hmtime'.symm⟩

/-- A file below a name. -/
theorem FileSystem.showsFile_cons {name : Bytes} {names : List Bytes} {entry : DirectoryEntry}
    (hne : names ≠ []) : fs.ShowsFile blake2256 (name :: names) entry ↔
      FileSystem.ShowsFile (fs.below [name]) blake2256 names entry := by
  unfold ShowsFile
  obtain ⟨first, rest, rfl⟩ := List.exists_cons_of_ne_nil hne
  rw [List.getLast?_cons_cons]
  rfl

theorem FileSystem.HasFiles.append {dir : Bytes} {below below' : List Bytes → Prop}
    {files files' : List (Bytes × DirectoryEntry)} (h : fs.HasFiles blake2256 dir below files)
    (h' : fs.HasFiles blake2256 dir below' files') :
    fs.HasFiles blake2256 dir (fun names ↦ below names ∨ below' names) (files ++ files') := by
  intro key entry
  rw [List.mem_append, h key entry, h' key entry, ← exists_or]
  exact exists_congr fun names ↦ or_and_right.symm

theorem FileSystem.HasFiles.congr {dir : Bytes} {below below' : List Bytes → Prop}
    {files : List (Bytes × DirectoryEntry)} (h : fs.HasFiles blake2256 dir below files)
    (hsame : ∀ names entry, fs.ShowsFile blake2256 names entry → (below names ↔ below' names)) :
    fs.HasFiles blake2256 dir below' files := by
  intro key entry
  rw [h key entry]
  refine exists_congr fun names ↦ ?_
  rw [and_left_comm, and_left_comm (a := below' names)]
  refine and_congr_right fun _ ↦ and_congr_left fun hshows ↦ hsame names entry hshows

/-- The only file behind the name of a file. -/
theorem hasFiles_file {first : DirectoryEntry} {mtime : Word 8} {manifest : FileManifest} {data : Bytes}
    (hsingle : fs.below [first.name.1] = .single (.file mtime manifest data))
    (hshown : (FsNode.file mtime manifest data).Shown blake2256 first) (dir : Bytes) :
    fs.HasFiles blake2256 dir (fun names ↦ ∃ rest, names = first.name.1 :: rest)
      [(dir ++ first.nameStr, first)] := by
  have hfirst : fs.ShowsFile blake2256 [first.name.1] first :=
    ⟨rfl, mtime, manifest, data, congrFun hsingle [], hshown⟩
  intro key entry
  rw [List.mem_singleton, Prod.mk.injEq]
  constructor
  · rintro ⟨rfl, rfl⟩
    refine ⟨_, ⟨[], rfl⟩, ?_, hfirst⟩
    rw [List.intercalate_singleton]
    rfl
  · rintro ⟨_, ⟨rest, rfl⟩, rfl, hshows⟩
    have hnil : rest = [] := by
      by_contra hne
      obtain ⟨-, mtime', manifest', data', hfile, -⟩ := (FileSystem.showsFile_cons hne).mp hshows
      obtain ⟨name, rest', rfl⟩ := List.exists_cons_of_ne_nil hne
      rw [hsingle] at hfile
      cases hfile
    subst hnil
    rw [List.intercalate_singleton]
    exact ⟨rfl, hshows.unique hfirst⟩

/-- The files behind the name of a directory are those below it. -/
theorem FileSystem.HasFiles.behind {name dir : Bytes} {files : List (Bytes × DirectoryEntry)}
    {mtime : Word 8} (hself : fs [name] = some (.directory mtime))
    (h : FileSystem.HasFiles (fs.below [name]) blake2256 (dir ++ name ++ [slash]) (· ≠ []) files) :
    fs.HasFiles blake2256 dir (fun names ↦ ∃ rest, names = name :: rest) files := by
  have hkey : ∀ rest : List Bytes, rest ≠ [] → dir ++ List.intercalate [slash] (name :: rest) =
      dir ++ name ++ [slash] ++ List.intercalate [slash] rest := by
    intro rest hne
    obtain ⟨first, rest', rfl⟩ := List.exists_cons_of_ne_nil hne
    rw [List.intercalate_cons_cons, List.append_assoc, List.append_assoc, List.append_assoc]
  intro key entry
  rw [h key entry]
  constructor
  · rintro ⟨rest, hne, rfl, hshows⟩
    exact ⟨_, ⟨rest, rfl⟩, (hkey rest hne).symm, (FileSystem.showsFile_cons hne).mpr hshows⟩
  · rintro ⟨_, ⟨rest, rfl⟩, rfl, hshows⟩
    have hne : rest ≠ [] := by
      rintro rfl
      obtain ⟨-, mtime', manifest', data', hfile, -⟩ := hshows
      rw [hself] at hfile
      cases hfile
    exact ⟨rest, hne, hkey rest hne, (FileSystem.showsFile_cons hne).mp hshows⟩

/-- The files below entries are those of the first and of the others. -/
theorem filesIn_entries {entries : List DirectoryEntry}
    (h : ∀ entry ∈ entries, EntryFiles blake2256 tree (some entry) (fs.below [entry.name.1]))
    (dir : Bytes) : ∃ files, tree.FilesIn blake2256 id dir entries files ∧
      fs.HasFiles blake2256 dir (fun names ↦ ∃ first ∈ entries, ∃ rest, names = first.name.1 :: rest)
        files := by
  induction entries with
  | nil =>
    refine ⟨[], .nil dir, fun key entry ↦ ⟨fun hmem ↦ (by cases hmem), ?_⟩⟩
    rintro ⟨names, ⟨first, hfirst, -⟩, -⟩
    cases hfirst
  | cons first entries ih =>
    rw [List.forall_mem_cons] at h
    obtain ⟨later, hlater, hfiles⟩ := ih h.2
    have hcons : ∀ names : List Bytes, ((∃ rest, names = first.name.1 :: rest) ∨
        ∃ first ∈ entries, ∃ rest, names = first.name.1 :: rest) ↔
          ∃ other ∈ first :: entries, ∃ rest, names = other.name.1 :: rest := by
      intro names
      rw [List.exists_mem_cons_iff]
    rcases h.1 first rfl with ⟨htype, mtime, manifest, data, hsingle, hshown⟩ |
      ⟨htype, ⟨mtime, hself⟩, node, hread, hbelow⟩
    · exact ⟨_, .file dir first entries later htype hlater,
        ((hasFiles_file hsingle hshown dir).append hfiles).congr fun names _ _ ↦ hcons names⟩
    · obtain ⟨below, hin, hbelowFiles⟩ := hbelow (dir ++ first.nameStr ++ [slash])
      exact ⟨_, .directory dir first entries node below later htype hread hin hlater,
        ((FileSystem.HasFiles.behind hself hbelowFiles).append hfiles).congr fun names _ _ ↦ hcons names⟩

/-- The files below a directory whose entries are files and directories that are read. -/
theorem listsFiles_of_entries {node : DirectoryNode} {bucketId : Word 8} {known : Set Bytes}
    (hvalid : node.validate = .ok ())
    (hholds : ∀ name, HoldsEntry blake2256 bucketId known (node.childMap.lookup name) (fs.below [name]))
    (hentries : ∀ name, EntryFiles blake2256 tree (node.childMap.lookup name) (fs.below [name])) :
    ListsFiles blake2256 tree node fs := by
  intro dir
  have hsound := DirectoryNode.sound_of_validate hvalid
  have hlookup : ∀ entry ∈ node.children.1,
      EntryFiles blake2256 tree (some entry) (fs.below [entry.name.1]) := by
    intro entry hentry
    rw [← (DirectoryNode.lookup_childMap hsound).mpr ⟨hentry, rfl⟩]
    exact hentries entry.name.1
  obtain ⟨files, hin, hfiles⟩ := filesIn_entries hlookup dir
  refine ⟨files, hin, hfiles.congr fun names entry hshows ↦ ⟨?_, fun hne ↦ ?_⟩⟩
  · rintro ⟨first, -, rest, rfl⟩
    exact List.cons_ne_nil _ _
  · obtain ⟨name, rest, rfl⟩ := List.exists_cons_of_ne_nil hne
    obtain ⟨-, mtime, manifest, data, hfile, -⟩ := hshows
    have hplace := hholds name
    cases hfound : node.childMap.lookup name with
    | none =>
      rw [hfound] at hplace
      have hbelow : (fs.below [name]) rest = some (.file mtime manifest data) := hfile
      generalize fs.below [name] = part at hplace hbelow
      cases hplace
      cases hbelow
    | some first =>
      obtain ⟨hmem, rfl⟩ := (DirectoryNode.lookup_childMap hsound).mp hfound
      exact ⟨first, hmem, rest, rfl⟩

/-- Every name at the top leads to one file. -/
theorem nodup_of_filesIn {dir : Bytes} {entries : List DirectoryEntry}
    {files : List (Bytes × DirectoryEntry)} (h : tree.FilesIn blake2256 id dir entries files)
    (hvalid : ValidEntries entries) :
    (files.map Prod.fst).Nodup := by
  have hsorted := (h.inOrder hvalid).2
  rw [((byKey_perm files).map Prod.fst).nodup_iff]
  exact List.pairwise_map.mpr (hsorted.imp fun hlt ↦ hlt.ne)

end Files

section Reads

variable {σ : Type} {blake2256 : Bytes → H256} {mmr : MmrLibrary} {tree : StoredTree σ}
  {blobs : σ → Set Bytes} {leaves : σ → List MmrLeaf} {s : σ}

/-- What a reliable store is asked for it answers. -/
theorem eq_ok_of_refines {α : Type} {result : Except TreeError α} {value : α}
    (h : Refines (StoreFails True) Eq result (.ok value)) : result = .ok value := by
  cases h with
  | failed _ hfails => exact absurd trivial hfails.1
  | ok hsame => rw [hsame]

variable (h : tree.Reads blake2256 mmr True blobs leaves)
  (hfree : CollisionFree blake2256 (blobs s))

include h hfree

/-- The directories of a file system are read, and have its files in them. -/
theorem HoldsEntry.files {bucketId : Word 8} {found : Option DirectoryEntry} {fs : FileSystem}
    (hholds : HoldsEntry blake2256 bucketId (blobs s) found fs) (leaf : Option Cid) :
    EntryFiles blake2256 (tree.view s leaf) found fs := by
  induction hholds with
  | missing =>
    intro entry hentry
    cases hentry
  | file entry manifest data htype hcid hsize =>
    rintro _ ⟨⟩
    exact .inl ⟨htype, entry.mtime, manifest, data, rfl, of_decide_eq_true htype, hcid, hsize, rfl⟩
  | directory entry node fs htype hsize hcid hnode hvalid hbucket hself hchildren ih =>
    rintro _ ⟨⟩
    refine .inr ⟨htype, ⟨_, hself⟩, node, fun path ↦ ?_, listsFiles_of_entries hvalid hchildren ih⟩
    have hread := eq_ok_of_refines (readDir_refines h hfree hnode hvalid path)
    rw [StoredTree.readDir, mapError_eq_ok, ← hcid] at hread
    exact hread

/-- The root of a drive is read, and the files below it are those of the file system that it holds. -/
theorem rootFiles (hcount : (leaves s).length ≤ maxRangeLeaves) {fs : FileSystem}
    (hdrive : Represents blake2256 tree.bucketId (blobs s) (leaves s) fs) :
    ∃ leaf root files, tree.lastLeaf blake2256 mmr s = .ok leaf ∧
      (tree.view s leaf).loadRoot blake2256 = .ok root ∧
      (tree.view s leaf).FilesIn blake2256 id [] root.children.1 files ∧
      fs.HasFiles blake2256 [] (· ≠ []) files := by
  obtain ⟨root, hholds, hload⟩ := loadRoot_refines h hcount hfree hdrive
  have hread := eq_ok_of_refines hload
  rw [StoredTree.loadRoot, bind_eq_ok] at hread
  obtain ⟨leaf, hleaf, hroot⟩ := hread
  rw [mapError_eq_ok] at hroot
  obtain ⟨files, hin, hfiles⟩ := listsFiles_of_entries hholds.valid hholds.children
    (fun name ↦ (hholds.children name).files h hfree leaf) []
  exact ⟨leaf, root, files, hleaf, hroot, hin, hfiles⟩

end Reads

/-- An entry shows the object with a key. -/
def ObjectMap.ShowsObject (map : ObjectMap) (blake2256 : Bytes → H256) (key : Bytes)
    (entry : DirectoryEntry) : Prop :=
  ∃ names object, map names = some object ∧ key = List.intercalate [slash] names ∧
    names.getLast? = some entry.name.1 ∧ entry.entryType = .file ∧
    entry.cid = computeCid blake2256 object.manifest.toBlob ∧
    entry.size = Word.ofNat 8 object.data.length ∧ entry.mtime = object.mtime

/-- The files of a drive that stores the objects of a map show these objects. -/
theorem FileSystem.Stores.showsObject_iff {fs : FileSystem} {map : ObjectMap} (h : fs.Stores map)
    {blake2256 : Bytes → H256} {files : List (Bytes × DirectoryEntry)}
    (hfiles : fs.HasFiles blake2256 [] (· ≠ []) files) (key : Bytes) (entry : DirectoryEntry) :
    (key, entry) ∈ files ↔ map.ShowsObject blake2256 key entry := by
  rw [hfiles key entry]
  constructor
  · rintro ⟨names, -, rfl, hname, mtime, manifest, data, hfile, htype, hcid, hsize, hmtime⟩
    refine ⟨names, ⟨mtime, manifest, data⟩, ?_, rfl, hname, htype, hcid, hsize, hmtime⟩
    rw [h.objects_apply, FileSystem.objects, hfile]
  · rintro ⟨names, object, hobject, rfl, hname, htype, hcid, hsize, hmtime⟩
    have hne : names ≠ [] := by
      rintro rfl
      cases hname
    refine ⟨names, hne, rfl, hname, object.mtime, object.manifest, object.data, ?_, htype, hcid, hsize,
      hmtime⟩
    rw [h.objects_apply, FileSystem.objects] at hobject
    cases hnode : fs names with
    | none =>
      rw [hnode] at hobject
      cases hobject
    | some node =>
      rw [hnode] at hobject
      cases node with
      | file mtime manifest data =>
        cases hobject
        rfl
      | directory mtime => cases hobject

namespace Objects

variable {σ : Type} {blake2256 : Bytes → H256} {mmr : MmrLibrary} {toLowercase : Bytes → Bytes}
  {objects : Objects σ} {blobs : σ → Set Bytes} {leaves : σ → List MmrLeaf} {s : σ} {map : ObjectMap}

/-- **Objects are listed as the map has them.** After any sequence of puts and deletes on a drive that holds
the objects of a map, in a store that does not fail, every listing ends with the page of the keys of the
map after it, for every prefix, delimiter, start and page size. A prefix in a directory whose path is longer
than a key can be has no keys. -/
theorem objects_listed
    (h : objects.tree.store.Serves blake2256 mmr objects.tree.bucketId True blobs leaves)
    (hmmr : mmr.IsStandard) (ops : List Op)
    (hdrive : HoldsObjects blake2256 objects.tree.bucketId (blobs s) (leaves s) map)
    (hfree : CollisionFree blake2256
      (blobs s ∪ {item | item ∈ objects.writtenAll blake2256 mmr toLowercase ops s}))
    (hcount : (leaves s).length + (objects.writtenAll blake2256 mmr toLowercase ops s).length ≤
      maxRangeLeaves) :
    ∃ results s' map' leaf files, objects.applyAll blake2256 mmr toLowercase ops s = (results, s') ∧
      AnswersAll (ObjectsFail True)
        (ObjectMap.change blake2256 toLowercase objects.tree.bucketId) map ops results map' ∧
      objects.tree.lastLeaf blake2256 mmr s' = .ok leaf ∧ (files.map Prod.fst).Nodup ∧
      (∀ key entry, (key, entry) ∈ files ↔ map'.ShowsObject blake2256 key entry) ∧
      ∀ params : ListObjectsParams, ∃ steps, ∀ more,
        (objects.tree.view s' leaf).listObjects blake2256 (more + steps) params =
          some (.ok (listReference (if params.dirKey.length ≤ maxObjectKeyLen then files else [])
            params)) := by
  obtain ⟨results, s', map', hall, hwrites, hanswers, fs, hholds, hstores⟩ :=
    applyAll_answers h hmmr hfree Set.subset_union_left (fun _ hitem ↦ .inr hitem) hcount hdrive
  obtain ⟨leaf, root, files, hleaf, hroot, hin, hfiles⟩ := rootFiles (h.reads hmmr)
    (hfree.mono hwrites.within) (hwrites.length_le.trans hcount) hholds
  have hvalid := (Tree.sound_loadRoot hroot).validEntries
  refine ⟨results, s', map', leaf, files, hall, hanswers, hleaf, nodup_of_filesIn hin hvalid,
    hstores.showsObject_iff hfiles, fun params ↦ ?_⟩
  by_cases hlength : params.dirKey.length ≤ maxObjectKeyLen
  · obtain ⟨base, hbase, hbaseValid, hbaseFiles⟩ := Tree.listBase_spec hroot hin hlength
    rw [if_pos hlength, ← listReference_under hin hvalid]
    exact Tree.listObjects_of_base hbase hbaseValid hbaseFiles
  · rw [if_neg hlength]
    exact Tree.listObjects_of_base (Tree.listBase_long (not_le.mp hlength)) .nil (.nil _)

end Objects

theorem objects_listed_small :
    ∃ results s' map' leaf files,
      Objects.applyAll blake2b256 standardMmr ⟨MemoryStore.tree⟩ asciiLowercase objectOps MemoryStore.new =
        (results, s') ∧
      MemoryStore.tree.lastLeaf blake2b256 standardMmr s' = .ok leaf ∧
      (∀ key entry, (key, entry) ∈ files ↔ ObjectMap.ShowsObject map' blake2b256 key entry) ∧
      ∃ steps, (MemoryStore.tree.view s' leaf).listObjects blake2b256 steps ⟨none, none, none, none⟩ =
        some (.ok (listReference files ⟨none, none, none, none⟩)) := by
  have hdrive : HoldsObjects blake2b256 MemoryStore.tree.bucketId {blob | blob ∈ MemoryStore.new.blobs}
      MemoryStore.new.leaves .empty := holdsObjects_empty _ _ _
  have hcount : MemoryStore.new.leaves.length + (Objects.writtenAll blake2b256 standardMmr asciiLowercase
      ⟨MemoryStore.tree⟩ objectOps MemoryStore.new).length ≤ maxRangeLeaves := by
    rw [writtenAll_objectOps.2]
    decide
  have hserves : (Objects.mk MemoryStore.tree).tree.store.Serves blake2b256 standardMmr
      (Objects.mk MemoryStore.tree).tree.bucketId True (fun s ↦ {blob | blob ∈ s.blobs})
      MemoryStore.leaves := MemoryStore.tree_serves
  obtain ⟨results, s', map', leaf, files, hall, -, hleaf, -, hfiles, hlist⟩ :=
    Objects.objects_listed hserves standardMmr_isStandard objectOps hdrive
      (collisionFree_of_nodup writtenAll_objectOps.1) hcount
  obtain ⟨steps, hsteps⟩ := hlist ⟨none, none, none, none⟩
  exact ⟨results, s', map', leaf, files, hall, hleaf, hfiles, 0 + steps, hsteps 0⟩

end Web3Storage.Formats
