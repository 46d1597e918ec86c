import Web3Storage.Formats.Drive

/-!
# What is put is read back

A file stays as it was put until a write touches it: a write at its own path, or a rename of it or of a
directory above it. No other write of the file system changes it (`fileAt_change`), and so the tree reads
it back after any run of other writes (`put_file_read_back`).
-/

set_option autoImplicit false
set_option relaxedAutoImplicit false

namespace Web3Storage.Formats

open Foundations Primitives

/-- A write that does not touch the file at a path. -/
def StoredTree.FsOp.Spares (names : List Bytes) : StoredTree.FsOp → Prop
  | .putFile path _ _ _ _ _ => parsePath path ≠ .ok names
  | .mkdir _ _ => True
  | .delete path _ _ => parsePath path ≠ .ok names
  | .rename source _ _ _ => ∀ sourceNames, parsePath source = .ok sourceNames → ¬ sourceNames <+: names

namespace FileSystem

variable {fs : FileSystem} {names : List Bytes} {file : FsNode}

/-- A file below directories. -/
structure FileAt (fs : FileSystem) (names : List Bytes) (file : FsNode) : Prop where
  isFile : file.isDirectory = false
  ne_nil : names ≠ []
  here : fs names = some file
  above : ∀ path, path ≠ [] → path <+: names → path ≠ names → ∃ mtime, fs path = some (.directory mtime)

theorem FileAt.ne_none (h : fs.FileAt names file) {path : List Bytes} (hne : path ≠ [])
    (hpath : path <+: names) : fs path ≠ none := by
  by_cases hsame : path = names
  · rw [hsame, h.here]
    exact Option.some_ne_none _
  · obtain ⟨mtime, hdir⟩ := h.above path hne hpath hsame
    rw [hdir]
    exact Option.some_ne_none _

/-- No file stands on the way of a walk that passed. -/
theorem not_file_of_walk {createMissing : Bool} {passed : List Bytes}
    (h : fs.walk createMissing passed names = .ok ()) {path : List Bytes} (hne : path ≠ [])
    (hpath : path <+: names) (hfile : file.isDirectory = false) : fs (passed ++ path) ≠ some file := by
  induction names generalizing passed path with
  | nil => exact absurd (List.prefix_nil.mp hpath) hne
  | cons name names ih =>
    obtain ⟨first, path, rfl⟩ := List.exists_cons_of_ne_nil hne
    obtain ⟨rfl, hrest⟩ := List.cons_prefix_cons.mp hpath
    have hstep : ∀ path, path ≠ [] → path <+: names →
        fs.walk createMissing (passed ++ [first]) names = .ok () →
        fs (passed ++ first :: path) ≠ some file := by
      intro path hne hpath hwalk
      have hbelow := ih hwalk hne hpath
      rwa [List.append_assoc] at hbelow
    rw [walk] at h
    split at h
    · rename_i mtime hdir
      by_cases hnil : path = []
      · rw [hnil, hdir]
        rintro hsame
        cases hsame
        cases hfile
      · exact hstep path hnil hrest h
    · cases h
    · rename_i hmissing
      by_cases hnil : path = []
      · rw [hnil, hmissing]
        exact (Option.some_ne_none _).symm
      · cases createMissing with
        | false => cases h
        | true => exact hstep path hnil hrest h

/-- A file does not stand on the way of a walk that passed. -/
theorem FileAt.not_isPrefix_of_walk (h : fs.FileAt names file) {dir : List Bytes} {createMissing : Bool}
    (hwalk : fs.walk createMissing [] dir = .ok ()) : ¬ names <+: dir := fun hpre ↦
  not_file_of_walk hwalk h.ne_nil hpre h.isFile h.here

/-- The way to a path is renewed that the file is not on. -/
theorem FileAt.stamp (h : fs.FileAt names file) {dir : List Bytes} (hbeside : ¬ names <+: dir)
    (mtime : Word 8) : FileSystem.FileAt (fs.stamp dir (.directory mtime)) names file := by
  refine ⟨h.isFile, h.ne_nil, ?_, fun path hne hpath hother ↦ ?_⟩
  · rw [PathMap.stamp_of_not_isPrefix hbeside, h.here]
  · by_cases hon : path <+: dir
    · exact ⟨mtime, PathMap.stamp_of_isPrefix hon⟩
    · rw [PathMap.stamp_of_not_isPrefix hon]
      exact h.above path hne hpath hother

/-- A part is put beside a file. -/
theorem FileAt.graft (h : fs.FileAt names file) {other : List Bytes} (hbeside : ¬ other <+: names)
    (part : FileSystem) : FileSystem.FileAt (fs.graft other part) names file := by
  have hkeeps : ∀ path, path <+: names → fs.graft other part path = fs path := fun path hpath ↦
    PathMap.graft_of_not_isPrefix fun hpre ↦ hbeside (hpre.trans hpath)
  refine ⟨h.isFile, h.ne_nil, ?_, fun path hne hpath hother ↦ ?_⟩
  · rw [hkeeps names (List.prefix_refl _), h.here]
  · rw [hkeeps path hpath]
    exact h.above path hne hpath hother

/-- The directories on the way to a path are removed that have nothing else below. -/
theorem FileAt.prune (h : fs.FileAt names file) {other : List Bytes} (hbeside : ¬ names <+: other)
    (mtime : Word 8) : FileSystem.FileAt (fs.prune other mtime) names file := by
  refine ⟨h.isFile, h.ne_nil, ?_, fun path hne hpath hother ↦ ?_⟩
  · rw [FileSystem.prune, if_neg hbeside, h.here]
  · unfold FileSystem.prune
    by_cases hon : path <+: other
    · rw [if_pos hon, if_pos ⟨names, hpath, hbeside, h.ne_none h.ne_nil (List.prefix_refl _)⟩]
      exact ⟨mtime, rfl⟩
    · rw [if_neg hon]
      exact h.above path hne hpath hother

/-- A path that has nothing at it, or a file other than this one, is not on the way to the file. -/
theorem FileAt.not_isPrefix (h : fs.FileAt names file) {other : List Bytes} (hne : other ≠ [])
    (hother : other ≠ names) (hempty : (fs other).any FsNode.isDirectory = false) : ¬ other <+: names := by
  intro hpre
  obtain ⟨mtime, hdir⟩ := h.above other hne hpre hother
  rw [hdir] at hempty
  cases hempty

theorem ne_nil_of_getLast? {names : List Bytes} {name : Bytes} (h : names.getLast? = some name) :
    names ≠ [] := by
  rintro rfl
  cases h

/-- A path to which a walk leads is not below the file. -/
theorem FileAt.eq_of_isPrefix (h : fs.FileAt names file) {other : List Bytes} {name : Bytes}
    {createMissing : Bool} (hname : other.getLast? = some name)
    (hwalk : fs.walk createMissing [] other.dropLast = .ok ()) (hpre : names <+: other) : other = names := by
  rw [← List.dropLast_append_getLast? name hname, List.prefix_concat_iff] at hpre
  rcases hpre with hsame | hpre
  · rw [hsame, List.dropLast_append_getLast? name hname]
  · exact absurd hpre (h.not_isPrefix_of_walk hwalk)

/-- A walk passes directories. -/
theorem walk_of_directories {createMissing : Bool} {passed dir : List Bytes}
    (h : ∀ path, path ≠ [] → path <+: dir → ∃ mtime, fs (passed ++ path) = some (.directory mtime)) :
    fs.walk createMissing passed dir = .ok () := by
  induction dir generalizing passed with
  | nil => rfl
  | cons name dir ih =>
    obtain ⟨mtime, hfirst⟩ := h [name] (List.cons_ne_nil _ _) (List.prefix_append [name] dir)
    rw [walk, hfirst]
    refine ih fun path _ hpath ↦ ?_
    rw [List.append_assoc]
    exact h (name :: path) (List.cons_ne_nil _ _) (List.cons_prefix_cons.mpr ⟨rfl, hpath⟩)

section Changes

variable {blake2256 : Bytes → H256} {bucketId : Word 8}

/-- A file stays through a write that spares it. -/
theorem fileAt_change {op : StoredTree.FsOp} (hspares : op.Spares names) {result : Option FileStat}
    {fs' : FileSystem} (hchange : fs.change blake2256 bucketId op = .ok (result, fs'))
    (h : fs.FileAt names file) : fs'.FileAt names file := by
  cases op with
  | putFile path data contentType userMetadata entryTime dirTime =>
    simp only [change, bind_eq_ok, mapError_eq_ok, require_eq_ok, ensure_eq_ok, pure_eq_ok,
      Prod.mk.injEq] at hchange
    obtain ⟨other, hother, name, hname, manifest, -, ⟨⟩, hwalk, -, hfile, entry, -, -, -, -, rfl⟩ := hchange
    have hbeside : other ≠ names := fun hsame ↦ hspares (hsame ▸ hother)
    refine (h.graft (h.not_isPrefix (ne_nil_of_getLast? hname) hbeside ?_) _).stamp
      (h.not_isPrefix_of_walk hwalk) _
    exact Bool.not_eq_true' _ ▸ hfile
  | mkdir path now =>
    simp only [change, bind_eq_ok, mapError_eq_ok, require_eq_ok, ensure_eq_ok, pure_eq_ok,
      Prod.mk.injEq] at hchange
    obtain ⟨other, hother, name, hname, ⟨⟩, hwalk, -, hmissing, -, -, -, rfl⟩ := hchange
    refine h.stamp (fun hpre ↦ ?_) _
    have hsame := h.eq_of_isPrefix hname hwalk hpre
    rw [hsame, h.here] at hmissing
    cases hmissing
  | delete path emptyParents now =>
    simp only [change, bind_eq_ok, mapError_eq_ok, require_eq_ok, ensure_eq_ok, pure_eq_ok,
      Prod.mk.injEq] at hchange
    obtain ⟨other, hother, name, hname, ⟨⟩, hwalk, node, hnode, -, -, -, hempty, -, rfl⟩ := hchange
    have hbeside : other ≠ names := fun hsame ↦ hspares (hsame ▸ hother)
    have hbelow : ¬ names <+: other := fun hpre ↦ hbeside (h.eq_of_isPrefix hname hwalk hpre)
    have habove : ¬ other <+: names := by
      intro hpre
      obtain ⟨mtime, hdir⟩ := h.above other (ne_nil_of_getLast? hname) hpre hbeside
      obtain ⟨rest, rfl⟩ := hpre
      rw [hnode, Option.some.injEq] at hdir
      rw [hdir, FsNode.isDirectory, Bool.not_true, Bool.false_or, decide_eq_true_iff] at hempty
      obtain ⟨first, rest, rfl⟩ := List.exists_cons_of_ne_nil fun hnil : rest = [] ↦
        hbeside (by rw [hnil, List.append_nil])
      refine (Set.eq_empty_iff_forall_notMem.mp hempty) first (h.ne_none (by simp) ?_)
      exact ⟨rest, (List.append_cons _ _ _).symm⟩
    cases emptyParents with
    | keep => exact (h.graft habove _).stamp (h.not_isPrefix_of_walk hwalk) _
    | remove => exact h.prune hbelow _
  | rename source target sourceTime targetTime =>
    simp only [change, bind_eq_ok, mapError_eq_ok, require_eq_ok, ensure_eq_ok, pure_eq_ok,
      Prod.mk.injEq] at hchange
    obtain ⟨other, hother, next, hnext, name, hname, nextName, hnextName, -, -, ⟨⟩, hwalk, node, -, ⟨⟩,
      hwalk', -, hmissing, -, -, -, rfl⟩ := hchange
    have htaken := (h.graft (hspares other hother) .empty).stamp (h.not_isPrefix_of_walk hwalk) sourceTime
    refine (htaken.graft (fun hpre ↦ ?_) _).stamp (htaken.not_isPrefix_of_walk hwalk') _
    rw [Option.isNone_iff_eq_none] at hmissing
    exact htaken.ne_none (ne_nil_of_getLast? hnextName) hpre hmissing

/-- A file stands where it was put, and it is read with what the write returned. -/
theorem fileAt_putFile {path data contentType : Bytes} {userMetadata : List MetadataEntry}
    {entryTime dirTime : Word 8} {result : Option FileStat} {fs' : FileSystem}
    (hchange : fs.change blake2256 bucketId (.putFile path data contentType userMetadata entryTime dirTime) =
      .ok (result, fs')) :
    ∃ names stat, parsePath path = .ok names ∧ result = some stat ∧
      fs'.FileAt names (.file entryTime stat.manifest data) ∧
      ∀ fs'' : FileSystem, fs''.FileAt names (.file entryTime stat.manifest data) →
        fs''.readFile blake2256 path = .ok (stat, data) := by
  simp only [change, bind_eq_ok, mapError_eq_ok, require_eq_ok, ensure_eq_ok, pure_eq_ok,
    Prod.mk.injEq] at hchange
  obtain ⟨names, hnames, name, hname, manifest, -, ⟨⟩, hwalk, -, hfile, entry, hentry, -, -, rfl, rfl⟩ :=
    hchange
  have hsplit := List.dropLast_append_getLast? name hname
  have hlength : names.dropLast.length < names.length := by
    rw [← hsplit, List.dropLast_concat, List.length_append]
    exact Nat.lt_succ_self _
  refine ⟨names, ⟨entry, manifest⟩, hnames, rfl, ⟨rfl, ne_nil_of_getLast? hname, ?_, ?_⟩, ?_⟩
  · rw [PathMap.stamp_of_not_isPrefix fun hpre ↦ absurd hpre.length_le (Nat.not_le.mpr hlength),
      PathMap.graft, if_pos (List.prefix_refl _), List.drop_length]
    rfl
  · intro other hne hpath hother
    rw [← hsplit, List.prefix_concat_iff, hsplit] at hpath
    exact ⟨dirTime, PathMap.stamp_of_isPrefix (hpath.resolve_left hother)⟩
  · intro fs'' h
    have hwalk'' : fs''.walk false [] names.dropLast = .ok () := by
      refine walk_of_directories fun path hne hpath ↦ ?_
      refine h.above path hne (hpath.trans (List.dropLast_prefix _)) ?_
      rintro rfl
      exact absurd hpath.length_le (Nat.not_le.mpr hlength)
    unfold readFile
    rw [hnames, Except.mapError, ok_bind, hname, require_some, ok_bind, hwalk'', ok_bind, h.here]
    dsimp only
    rw [hentry]
    rfl

end Changes

end FileSystem

/-! ### Reading back -/

section Runs

variable {blake2256 : Bytes → H256} {reliable : Prop}

/-- **What is put is read back.** After a file was put and any sequence of writes that spare it, its path is
read with the entry, the manifest and the content that were put, unless the store fails. -/
theorem put_file_read_back {σ : Type} {mmr : MmrLibrary} {tree : StoredTree σ} {blobs : σ → Set Bytes}
    {leaves : σ → List MmrLeaf}
    (h : tree.store.Serves blake2256 mmr tree.bucketId reliable blobs leaves) (hmmr : mmr.IsStandard)
    {path data contentType : Bytes} {userMetadata : List MetadataEntry} {entryTime dirTime : Word 8}
    {put : StoredTree.FsOp} (hput : put = .putFile path data contentType userMetadata entryTime dirTime)
    {ops : List StoredTree.FsOp}
    (hspares : ∀ names, parsePath path = .ok names → ∀ op ∈ ops, op.Spares names) {s s' : σ}
    {fs : FileSystem} (hdrive : Represents blake2256 tree.bucketId (blobs s) (leaves s) fs)
    (hfree : CollisionFree blake2256
      (blobs s ∪ {item | item ∈ tree.writtenAll blake2256 mmr (put :: ops) s}))
    (hcount : (leaves s).length + (tree.writtenAll blake2256 mmr (put :: ops) s).length ≤ maxRangeLeaves)
    {cid : Cid} {result : Option FileStat} {results : List (Except TreeError (Cid × Option FileStat))}
    (hrun : tree.applyAll blake2256 mmr (put :: ops) s = (.ok (cid, result) :: results, s')) :
    ∃ stat, result = some stat ∧
      (tree.getFile blake2256 mmr s' path = .ok (stat, data) ∨
        ∃ error, StoreFails reliable error ∧ tree.getFile blake2256 mmr s' path = .error error) := by
  obtain ⟨_, _, fs', hall, hwrites, hanswers, hdrive'⟩ :=
    applyAll_spec h hmmr hfree Set.subset_union_left (fun _ hitem ↦ .inr hitem) hcount hdrive
  rw [hrun, Prod.mk.injEq] at hall
  obtain ⟨rfl, rfl⟩ := hall
  subst hput
  cases hanswers with
  | cons hop hops =>
    cases hop with
    | done _ fs₁ hchange =>
      obtain ⟨names, stat, hnames, rfl, hat, hreads⟩ := FileSystem.fileAt_putFile hchange
      have hat' := hops.keeps (fun _ op hop _ _ hchange ↦
        FileSystem.fileAt_change (hspares names hnames op hop) hchange) hat
      have hcount' : (leaves s').length ≤ maxRangeLeaves := hwrites.length_le.trans hcount
      have hread := getFile_refines (h.reads hmmr) hcount' (hfree.mono hwrites.within) hdrive' path
      rw [hreads fs' hat'] at hread
      refine ⟨stat, rfl, ?_⟩
      generalize tree.getFile blake2256 mmr s' path = found at hread
      cases hread with
      | failed _ hfails => exact .inr ⟨_, hfails, rfl⟩
      | ok hsame => exact .inl (congrArg _ hsame)

/-- A file is read back after a directory was made beside it. -/
theorem put_file_read_back_small :
    ∃ stat, MemoryStore.tree.getFile blake2b256 standardMmr
      (MemoryStore.tree.applyAll blake2b256 standardMmr [putSmall, mkdirSmall] MemoryStore.new).2
        [slash, 0x61] = .ok (stat, [7]) := by
  obtain ⟨hdistinct, hlength, hok⟩ := writtenAll_small
  rcases hrun : MemoryStore.tree.applyAll blake2b256 standardMmr [putSmall, mkdirSmall] .new with
    ⟨results, s'⟩
  rw [hrun] at hok
  obtain ⟨first, results, rfl⟩ := List.exists_cons_of_ne_nil fun hnil : results = [] ↦ by
    rw [hnil] at hok
    cases hok
  cases first with
  | error error => cases hok
  | ok done =>
    have hspares : ∀ names, parsePath [slash, 0x61] = .ok names → ∀ op ∈ [mkdirSmall], op.Spares names := by
      intro names _ op hop
      rw [List.mem_singleton.mp hop]
      trivial
    have hfree := collisionFree_of_nodup hdistinct
    have hcount : MemoryStore.new.leaves.length + (MemoryStore.tree.writtenAll blake2b256 standardMmr
        [putSmall, mkdirSmall] .new).length ≤ maxRangeLeaves := by
      rw [hlength]
      decide
    have hdrive : Represents blake2b256 MemoryStore.tree.bucketId {blob | blob ∈ MemoryStore.new.blobs}
        MemoryStore.new.leaves .empty := represents_empty _ _
    have hput : putSmall = .putFile [slash, 0x61] [7] [] [] testTime testTime := rfl
    obtain ⟨stat, -, hread⟩ := put_file_read_back MemoryStore.tree_serves
      standardMmr_isStandard hput hspares hdrive hfree hcount hrun
    rcases hread with hread | ⟨error, ⟨hfails, -⟩, -⟩
    · exact ⟨stat, hread⟩
    · exact absurd trivial hfails

end Runs

end Web3Storage.Formats
