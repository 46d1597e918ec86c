import Web3Storage.Formats.DriveTree
import Web3Storage.Formats.CanonicalBlobs

/-!
# Reading a drive

What a store promises is `BlobStore.Serves`: it keeps the blobs it is given and the leaves that are
committed, and answers with them when it answers. A drive is a store whose last leaf is a directory that
holds a file system (`Represents`). Every read of the tree then goes as the file system says, or fails
because the store does.
-/

set_option autoImplicit false
set_option relaxedAutoImplicit false

namespace Web3Storage.Formats

open Foundations Primitives

/-- The most bytes a read asks for. -/
def BlobLength.limit : BlobLength → ℕ
  | .exactly size => size
  | .atMost max => max

section Stores

variable {σ : Type} (blake2256 : Bytes → H256) (mmr : MmrLibrary) (bucketId : Word 8) (reliable : Prop)

/-- Blobs without a collision of their identifiers. -/
def CollisionFree (blobs : Set Bytes) : Prop := blobs.InjOn (computeCid blake2256)

/-- What Layer 0 promises for a bucket: `blobs` are the blobs it was given and `leaves` the leaves of the
bucket. A call may fail if the store is not reliable; what it was to write may then be written or not. -/
structure BlobStore.Serves (store : BlobStore σ) (blobs : σ → Set Bytes)
    (leaves : σ → List MmrLeaf) : Prop where
  getBlob_spec : ∀ s, ∀ data ∈ blobs s, ∀ length : BlobLength, data.length ≤ length.limit →
    (∃ found ∈ blobs s, computeCid blake2256 found = computeCid blake2256 data ∧
      store.getBlob s bucketId (computeCid blake2256 data) length = .ok found) ∨
    ¬ reliable ∧ ∃ message,
      store.getBlob s bucketId (computeCid blake2256 data) length = .error message
  commitment_spec : ∀ s, (leaves s).length ≤ maxRangeLeaves →
    (leaves s = [] ∧ store.commitment s bucketId = .ok none) ∨
    (∃ root startSeq, mmrRoot blake2256 mmr (leaves s) = some root ∧
      store.commitment s bucketId = .ok (some ⟨root, startSeq, (leaves s).length⟩)) ∨
    ¬ reliable ∧ ∃ message, store.commitment s bucketId = .error message
  mmrProof_spec : ∀ s, (leaves s).length ≤ maxRangeLeaves → ∀ index < (leaves s).length,
    (∃ root proof, Primitives.mmrProof blake2256 mmr (leaves s) index = some (some (root, proof)) ∧
      store.mmrProof s bucketId index = .ok proof) ∨
    ¬ reliable ∧ ∃ message, store.mmrProof s bucketId index = .error message
  putBlob_spec : ∀ data s, leaves (store.putBlob bucketId data s).2 = leaves s ∧
    ((store.putBlob bucketId data s).1 = .ok (computeCid blake2256 data) ∧
        blobs (store.putBlob bucketId data s).2 = insert data (blobs s) ∨
      (¬ reliable ∧ ∃ message, (store.putBlob bucketId data s).1 = .error message) ∧
        (blobs (store.putBlob bucketId data s).2 = blobs s ∨
          blobs (store.putBlob bucketId data s).2 = insert data (blobs s)))
  commit_spec : ∀ cids s, (∀ cid ∈ cids, cid ∈ computeCid blake2256 '' blobs s) →
    blobs (store.commit bucketId cids s).2 = blobs s ∧
    ((store.commit bucketId cids s).1 = .ok () ∧
        (∃ added, leaves (store.commit bucketId cids s).2 = leaves s ++ added ∧
          added.map MmrLeaf.dataRoot = cids) ∨
      (¬ reliable ∧ ∃ message, (store.commit bucketId cids s).1 = .error message) ∧
        (leaves (store.commit bucketId cids s).2 = leaves s ∨
          ∃ added, leaves (store.commit bucketId cids s).2 = leaves s ++ added ∧
            added.map MmrLeaf.dataRoot = cids))

/-- An error of a store that is not reliable. -/
def StoreFails (error : TreeError) : Prop := ¬ reliable ∧ ∃ message, error = storeError message

/-- What a tree reads: the blobs that are stored, and the last of the leaves. -/
structure StoredTree.Reads (tree : StoredTree σ) (blobs : σ → Set Bytes)
    (leaves : σ → List MmrLeaf) : Prop where
  getBlob_spec : ∀ s, ∀ data ∈ blobs s, ∀ length : BlobLength, data.length ≤ length.limit →
    (∃ found ∈ blobs s, computeCid blake2256 found = computeCid blake2256 data ∧
      tree.store.getBlob s tree.bucketId (computeCid blake2256 data) length = .ok found) ∨
    ¬ reliable ∧ ∃ message,
      tree.store.getBlob s tree.bucketId (computeCid blake2256 data) length = .error message
  lastLeaf_spec : ∀ s, (leaves s).length ≤ maxRangeLeaves →
    Refines (StoreFails reliable) Eq (tree.lastLeaf blake2256 mmr s)
      (.ok ((leaves s).getLast?.map MmrLeaf.dataRoot))

/-- The last leaf is a directory that holds a file system; without leaves the drive is empty. -/
def Represents (blobs : Set Bytes) (leaves : List MmrLeaf) (fs : FileSystem) : Prop :=
  ∃ root : DirectoryNode, Holds blake2256 bucketId blobs root fs ∧
    (leaves = [] ∧ root = .newEmpty bucketId ∨
      ∃ leaf, leaves.getLast? = some leaf ∧ leaf.dataRoot = computeCid blake2256 root.toBlob ∧
        root.toBlob ∈ blobs)

end Stores

section Rules

variable {σ : Type} {blake2256 : Bytes → H256} {mmr : MmrLibrary} {reliable : Prop} {tree : StoredTree σ}
  {blobs : σ → Set Bytes} {leaves : σ → List MmrLeaf}

/-- The last leaf is read with its proof. -/
theorem lastLeaf_refines (h : tree.store.Serves blake2256 mmr tree.bucketId reliable blobs leaves)
    (hmmr : mmr.IsStandard) {s : σ} (hcount : (leaves s).length ≤ maxRangeLeaves) :
    Refines (StoreFails reliable) Eq (tree.lastLeaf blake2256 mmr s)
      (.ok ((leaves s).getLast?.map MmrLeaf.dataRoot)) := by
  have hread : Refines (StoreFails reliable) Eq (tree.readLastLeaf blake2256 mmr s)
      (.ok ((leaves s).getLast?.map MmrLeaf.dataRoot)) := by
    unfold StoredTree.readLastLeaf
    rcases h.commitment_spec s hcount with ⟨hnil, hcommitment⟩ | ⟨root, startSeq, hroot, hcommitment⟩ |
      ⟨hfails, message, hcommitment⟩
    · rw [hcommitment, hnil]
      exact .ok rfl
    · rw [hcommitment]
      by_cases hnil : leaves s = []
      · rw [hnil]
        exact .ok rfl
      · have hpos : 0 < (leaves s).length := List.length_pos_iff.mpr hnil
        have hindex : (leaves s).length - 1 < (leaves s).length := Nat.sub_lt hpos Nat.one_pos
        obtain ⟨leaf, hleaf⟩ : ∃ leaf, (leaves s).getLast? = some leaf :=
          Option.isSome_iff_exists.mp (by simpa using hnil)
        have hlast : (leaves s)[(leaves s).length - 1]? = some leaf := by
          rw [← List.getLast?_eq_getElem?, hleaf]
        have hcommitted : (⟨root, startSeq, (leaves s).length⟩ : Commitment).leafCount ≠ 0 := hpos.ne'
        obtain ⟨items, hproof, hverify⟩ := exists_mmrProof hmmr hcount hlast hroot
        rcases h.mmrProof_spec s hcount _ hindex with ⟨root', proof, hproof', hget⟩ | ⟨hfails, message, hget⟩
        · rw [hproof, Option.some.injEq, Option.some.injEq, Prod.mk.injEq] at hproof'
          obtain ⟨rfl, rfl⟩ := hproof'
          simp only [Except.mapError, ok_bind, if_neg hcommitted, hget, hverify startSeq, hleaf]
          exact .ok rfl
        · simp only [Except.mapError, ok_bind, if_neg hcommitted, hget]
          exact .failed _ ⟨hfails, message, rfl⟩
    · rw [hcommitment]
      exact .failed _ ⟨hfails, message, rfl⟩
  unfold StoredTree.lastLeaf
  split
  · exact hread
  · exact hread

/-- A store that serves a bucket answers the reads of its tree. -/
theorem BlobStore.Serves.reads (h : tree.store.Serves blake2256 mmr tree.bucketId reliable blobs leaves)
    (hmmr : mmr.IsStandard) : tree.Reads blake2256 mmr reliable blobs leaves where
  getBlob_spec := h.getBlob_spec
  lastLeaf_spec _ hcount := lastLeaf_refines h hmmr hcount

/-- A stored blob is read, or the store fails. -/
theorem StoredTree.Reads.getBlob_of_mem (h : tree.Reads blake2256 mmr reliable blobs leaves) {s : σ}
    (hfree : CollisionFree blake2256 (blobs s)) {data : Bytes} (hdata : data ∈ blobs s)
    (length : BlobLength) (hlength : data.length ≤ length.limit) :
    tree.store.getBlob s tree.bucketId (computeCid blake2256 data) length = .ok data ∨
      ¬ reliable ∧ ∃ message,
        tree.store.getBlob s tree.bucketId (computeCid blake2256 data) length = .error message := by
  rcases h.getBlob_spec s data hdata length hlength with ⟨found, hfound, hcid, hget⟩ | hfails
  · rw [hfree hfound hdata hcid] at hget
    exact .inl hget
  · exact .inr hfails

theorem StoredTree.getBlob_view {s : σ} {cid : Cid} {max : ℕ} {result : Except String Bytes}
    (h : tree.store.getBlob s tree.bucketId cid (.atMost max) = result) (leaf : Option Cid) :
    (tree.view s leaf).getBlob cid max = result.mapError .store := by
  rw [← h]
  rfl

/-- A stored directory is read. -/
theorem readDir_refines (h : tree.Reads blake2256 mmr reliable blobs leaves) {s : σ}
    (hfree : CollisionFree blake2256 (blobs s)) {node : DirectoryNode} (hnode : node.toBlob ∈ blobs s)
    (hvalid : node.validate = .ok ()) (path : Bytes) :
    Refines (StoreFails reliable) Eq
      (tree.readDir blake2256 s path (computeCid blake2256 node.toBlob)) (.ok node) := by
  unfold StoredTree.readDir
  rcases h.getBlob_of_mem hfree hnode (.atMost DirectoryNode.maxBlobLen) node.length_toBlob_le with
    hget | ⟨hfails, message, hget⟩
  · rw [Tree.readDir_eq_ok.mpr ⟨_, StoredTree.getBlob_view hget none, node.length_toBlob_le, rfl,
      (fromBlob_eq_ok _).mpr rfl, hvalid⟩]
    exact .ok rfl
  · unfold Tree.readDir
    dsimp only
    rw [StoredTree.getBlob_view hget none]
    exact .failed _ ⟨hfails, message, rfl⟩

/-- The root of a drive is read. -/
theorem loadRoot_refines (h : tree.Reads blake2256 mmr reliable blobs leaves)
    {s : σ} (hcount : (leaves s).length ≤ maxRangeLeaves)
    (hfree : CollisionFree blake2256 (blobs s)) {fs : FileSystem}
    (hdrive : Represents blake2256 tree.bucketId (blobs s) (leaves s) fs) :
    ∃ root, Holds blake2256 tree.bucketId (blobs s) root fs ∧
      Refines (StoreFails reliable) Eq (tree.loadRoot blake2256 mmr s) (.ok root) := by
  obtain ⟨root, hroot, hlast⟩ := hdrive
  refine ⟨root, hroot, Refines.bind_left (h.lastLeaf_spec s hcount) ?_⟩
  rintro leaf rfl
  rcases hlast with ⟨hnil, rfl⟩ | ⟨leaf, hleaf, hcid, hblob⟩
  · rw [hnil]
    exact .ok rfl
  · rw [hleaf, Option.map_some, hcid]
    rcases h.getBlob_of_mem hfree hblob (.atMost DirectoryNode.maxBlobLen) root.length_toBlob_le with
      hget | ⟨hfails, message, hget⟩
    · have hread : (tree.view s (some (computeCid blake2256 root.toBlob))).loadRoot blake2256 = .ok root :=
        (Tree.loadRoot_eq_ok rfl).mpr ⟨_, StoredTree.getBlob_view hget _, root.length_toBlob_le, rfl,
          (fromBlob_eq_ok _).mpr rfl, hroot.valid, hroot.bucket⟩
      rw [hread]
      exact .ok rfl
    · have hview : (tree.view s (some (computeCid blake2256 root.toBlob))).lastLeaf =
          .ok (some (computeCid blake2256 root.toBlob)) := rfl
      unfold Tree.loadRoot
      rw [hview, ok_bind]
      dsimp only
      rw [StoredTree.getBlob_view hget _]
      exact .failed _ ⟨hfails, message, rfl⟩

theorem isDirectory_of_isFile {entry : DirectoryEntry} (h : entry.isFile = true) :
    entry.isDirectory = false := by
  unfold DirectoryEntry.isFile at h
  unfold DirectoryEntry.isDirectory
  rw [of_decide_eq_true h]
  rfl

/-- The directories along some names are read as the file system is walked. The first one may have entries
that are not stored, next to the one that leads on. -/
theorem extendFrom_refines (h : tree.Reads blake2256 mmr reliable blobs leaves)
    {s : σ} (hfree : CollisionFree blake2256 (blobs s)) {fs : FileSystem} {passed names : List Bytes}
    {dir : DirectoryNode} {known : Set Bytes} (createMissing : Bool) (hknown : blobs s ⊆ known)
    (hdir : Holds blake2256 tree.bucketId known dir (fs.below passed))
    (hfirst : ∀ name, names.head? = some name → HoldsEntry blake2256 tree.bucketId (blobs s)
      (dir.childMap.lookup name) (fs.below (passed ++ [name])))
    (hnames : ∀ name ∈ names, validateEntryName name = .ok ()) :
    Refines (StoreFails reliable)
      (fun below _ ↦ OpenChain blake2256 tree.bucketId known (dir :: below) names (fs.below passed)
        (fs.below (passed ++ names)))
      (tree.extendFrom blake2256 s createMissing passed dir names) (fs.walk createMissing passed names) := by
  induction names generalizing passed dir with
  | nil =>
    rw [List.append_nil]
    exact .ok (.last dir _ _ hdir)
  | cons name rest ih =>
    rw [List.forall_mem_cons] at hnames
    unfold StoredTree.extendFrom FileSystem.walk
    rw [DirectoryNode.findChild_eq (DirectoryNode.sound_of_validate hdir.valid)]
    have hentry := hfirst name rfl
    -- the chain goes on from the next directory
    have hnext : ∀ next, Holds blake2256 tree.bucketId (blobs s) next (fs.below (passed ++ [name])) →
        Refines (StoreFails reliable)
          (fun below _ ↦ OpenChain blake2256 tree.bucketId known (dir :: below) (name :: rest)
            (fs.below passed) (fs.below (passed ++ name :: rest)))
          (do
            let below ← tree.extendFrom blake2256 s createMissing (passed ++ [name]) next rest
            return next :: below)
          (fs.walk createMissing (passed ++ [name]) rest) := by
      intro next hholds
      have hrest := ih (hholds.mono hknown) (fun other _ ↦ ?_) hnames.2
      swap
      · have hother := hholds.children other
        rwa [PathMap.below_below] at hother
      rw [List.append_assoc, List.singleton_append] at hrest
      refine hrest.map fun below _ hbelow ↦ ?_
      rw [← PathMap.below_below] at hbelow
      exact .above dir name _ rest _ _ hdir.valid hdir.bucket hnames.1 (hdir.lookup_eq_none_iff name)
        (fun other _ ↦ hdir.children other) hbelow
    have hself : (fs.below (passed ++ [name])) [] = fs (passed ++ [name]) := by
      rw [PathMap.below, List.append_nil]
    rw [← hself]
    generalize dir.childMap.lookup name = found at hentry
    generalize hpart : fs.below (passed ++ [name]) = part at hentry hnext
    cases hentry with
    | missing =>
      cases createMissing with
      | false => exact .error _
      | true => exact hnext _ holds_newEmpty
    | file entry manifest data htype =>
      have hdirectory : ¬ entry.isDirectory = true := by
        rw [isDirectory_of_isFile htype]
        exact Bool.false_ne_true
      dsimp only
      rw [if_neg hdirectory]
      exact .error _
    | directory entry node _ htype hsize hcid hnode hvalid hbucket hroot hchildren =>
      dsimp only
      rw [if_pos (isDirectory_of_not_isFile htype), hroot, hcid]
      refine (readDir_refines h hfree hnode hvalid _).bind_left ?_
      rintro next rfl
      exact hnext next ⟨hvalid, hbucket, hchildren⟩

/-- A chain goes on along the rest of some names. -/
theorem extendChain_refines (h : tree.Reads blake2256 mmr reliable blobs leaves)
    {s : σ} (hfree : CollisionFree blake2256 (blobs s)) {known : Set Bytes} (hknown : blobs s ⊆ known)
    {fs part : FileSystem} {passed rest : List Bytes} {upper : List DirectoryNode} {dir : DirectoryNode}
    (createMissing : Bool)
    (hopen : OpenChain blake2256 tree.bucketId known (upper ++ [dir]) passed fs part)
    (hfirst : ∀ name, rest.head? = some name → HoldsEntry blake2256 tree.bucketId (blobs s)
      (dir.childMap.lookup name) (part.below [name]))
    (hself : passed ≠ [] → (part [] = none ↔ fs passed = none))
    (hnames : ∀ name ∈ rest, validateEntryName name = .ok ()) :
    Refines (StoreFails reliable)
      (fun chain _ ↦ OpenChain blake2256 tree.bucketId known chain (passed ++ rest) (fs.graft passed part)
        (part.below rest))
      (tree.extendChain blake2256 s (upper ++ [dir]) (passed ++ rest) createMissing)
      (FileSystem.walk (fs.graft passed part) createMissing passed rest) := by
  have hbelow : (fs.graft passed part).below passed = part := PathMap.below_graft fs part passed
  have hend : (fs.graft passed part).below (passed ++ rest) = part.below rest := by
    rw [← PathMap.below_below, hbelow]
  have hdir : Holds blake2256 tree.bucketId known dir part := by
    obtain ⟨last, hlast, hholds⟩ := hopen.exists_last
    rw [List.dropLast_concat, List.append_cancel_left_eq, List.cons.injEq] at hlast
    rwa [hlast.1]
  have hlength : upper.length = passed.length := by
    simpa using hopen.length_eq
  unfold StoredTree.extendChain
  rw [List.getLast?_concat]
  dsimp only
  rw [List.length_append, List.length_singleton, Nat.add_sub_cancel, hlength, List.take_left,
    List.drop_left]
  rw [← hbelow] at hdir
  have hfrom := extendFrom_refines h hfree createMissing hknown hdir (fun name hname ↦ ?_) hnames
  swap
  · rw [← PathMap.below_below, hbelow]
    exact hfirst name hname
  rw [hbelow, hend] at hfrom
  refine hfrom.map fun below _ hchain ↦ ?_
  refine hopen.append ?_ hself hchain
  rw [List.dropLast_concat]

/-- The directories along some names from the root. -/
theorem dirChain_refines (h : tree.Reads blake2256 mmr reliable blobs leaves)
    {s : σ} (hfree : CollisionFree blake2256 (blobs s)) {fs : FileSystem} {names : List Bytes}
    {root : DirectoryNode} (createMissing : Bool) (hroot : Holds blake2256 tree.bucketId (blobs s) root fs)
    (hnames : ∀ name ∈ names, validateEntryName name = .ok ()) :
    Refines (StoreFails reliable)
      (fun chain _ ↦ OpenChain blake2256 tree.bucketId (blobs s) chain names fs (fs.below names))
      (tree.dirChain blake2256 s root names createMissing) (fs.walk createMissing [] names) := by
  have hopen : OpenChain blake2256 tree.bucketId (blobs s) ([] ++ [root]) [] fs fs :=
    .last root fs fs hroot
  have hchain := extendChain_refines h hfree (subset_refl _) createMissing hopen
    (fun name _ ↦ hroot.children name) (absurd rfl) hnames
  rwa [PathMap.graft_nil, List.nil_append] at hchain

/-- What holds of each value that is computed holds of a list of them. -/
private theorem forall_mem_of_mapM {ε α β : Type} {f : α → Except ε β} {values : List α}
    {results : List β} {p : β → Prop} (h : values.mapM f = .ok results)
    (hf : ∀ value result, f value = .ok result → p result) : ∀ result ∈ results, p result := by
  induction values generalizing results with
  | nil =>
    cases h
    exact List.forall_mem_nil _
  | cons first rest ih =>
    simp only [List.mapM_cons, bind_eq_ok, pure_eq_ok] at h
    obtain ⟨result, hresult, results, hresults, rfl⟩ := h
    rw [List.forall_mem_cons]
    exact ⟨hf first result hresult, ih hresults⟩

/-- The names of a path are valid. -/
theorem valid_of_parsePath {path : Bytes} {names : List Bytes} (h : parsePath path = .ok names) :
    ∀ name ∈ names, validateEntryName name = .ok () := by
  unfold parsePath at h
  cases path with
  | nil => cases h
  | cons first rest =>
    dsimp only at h
    split_ifs at h with hslash hrest
    · cases h
      exact List.forall_mem_nil _
    · refine forall_mem_of_mapM h ?_
      intro name name' hname
      cases hvalid : validateEntryName name with
      | error error =>
        rw [hvalid] at hname
        cases hname
      | ok done =>
        rw [hvalid] at hname
        cases hname
        exact hvalid

/-! ### Reads -/

theorem FileManifest.length_toBlob_le (manifest : FileManifest) :
    manifest.toBlob.length ≤ FileManifest.maxBlobLen := by
  have hlength := FileManifest.atMost_codec manifest
  unfold toBlob Formats.toBlob maxBlobLen
  rw [List.length_append]
  exact Nat.add_le_add (le_refl headerLen) hlength

/-- A stored blob of the expected length is read. -/
theorem readBlob_refines (h : tree.Reads blake2256 mmr reliable blobs leaves) {s : σ}
    (hfree : CollisionFree blake2256 (blobs s)) {data : Bytes} (hdata : data ∈ blobs s) (path : Bytes)
    (length : BlobLength) (hlength : match length with
      | .exactly size => data.length = size
      | .atMost max => data.length ≤ max) :
    Refines (StoreFails reliable) Eq
      (tree.readBlob blake2256 s path (computeCid blake2256 data) length) (.ok data) := by
  have hlimit : data.length ≤ length.limit := by
    cases length with
    | exactly size => exact le_of_eq hlength
    | atMost max => exact hlength
  unfold StoredTree.readBlob
  rcases h.getBlob_of_mem hfree hdata length hlimit with hget | ⟨hfails, message, hget⟩
  · have hcid : checkCid blake2256 (computeCid blake2256 data) data = .ok () := by
      unfold checkCid
      dsimp only
      rw [decide_eq_true rfl, ensure_true]
    rw [hget]
    cases length with
    | exactly size =>
      simp only [Except.mapError, ok_bind, hlength, decide_true, ensure_true, hcid]
      exact .ok rfl
    | atMost max =>
      simp only [Except.mapError, ok_bind, hlength, decide_true, ensure_true, hcid]
      exact .ok rfl
  · rw [hget]
    exact .failed _ ⟨hfails, message, rfl⟩

/-- A stored manifest is read. -/
theorem readManifest_refines (h : tree.Reads blake2256 mmr reliable blobs leaves)
    {s : σ} (hfree : CollisionFree blake2256 (blobs s)) {manifest : FileManifest}
    (hmanifest : manifest.toBlob ∈ blobs s) (hvalid : manifest.validate = .ok ()) (path : Bytes) :
    Refines (StoreFails reliable) Eq
      (tree.readManifest blake2256 s path (computeCid blake2256 manifest.toBlob)) (.ok manifest) := by
  unfold StoredTree.readManifest
  refine (readBlob_refines h hfree hmanifest path (.atMost FileManifest.maxBlobLen)
    manifest.length_toBlob_le).bind_left ?_
  rintro bytes rfl
  have hread : FileManifest.fromBlob manifest.toBlob = .ok manifest := (fromBlob_eq_ok _).mpr rfl
  rw [hread, Except.mapError, ok_bind, hvalid]
  exact .ok rfl

/-- What an entry of a directory shows of what stands at its place. -/
def FsNode.Shown (blake2256 : Bytes → H256) (node : FsNode) (entry : DirectoryEntry) : Prop :=
  match node with
  | .file mtime manifest data => entry.entryType = .file ∧ entry.cid = computeCid blake2256 manifest.toBlob ∧
    entry.size = Word.ofNat 8 data.length ∧ entry.mtime = mtime
  | .directory mtime => entry.entryType = .directory ∧ entry.size.1 = 0 ∧ entry.mtime = mtime

/-- The entries of the directory at a path: one for each name, in the order of the names. -/
structure FileSystem.Lists (fs : FileSystem) (blake2256 : Bytes → H256) (dir : List Bytes)
    (entries : List DirectoryEntry) : Prop where
  sorted : entries.Pairwise fun first second ↦ first.name.1 < second.name.1
  shown : ∀ entry ∈ entries, ∃ node, fs (dir ++ [entry.name.1]) = some node ∧ node.Shown blake2256 entry
  complete : ∀ name ∈ fs.namesIn dir, ∃ entry ∈ entries, entry.name.1 = name

theorem HoldsEntry.shown {known : Set Bytes} {bucketId : Word 8} {entry : DirectoryEntry} {fs : FileSystem}
    (h : HoldsEntry blake2256 bucketId known (some entry) fs) :
    ∃ node, fs [] = some node ∧ node.Shown blake2256 entry := by
  cases h with
  | file _ manifest data htype hcid hsize =>
    refine ⟨_, rfl, ?_, hcid, hsize, rfl⟩
    exact of_decide_eq_true htype
  | directory _ node _ htype hsize hcid hnode hvalid hbucket hself =>
    refine ⟨_, hself, ?_, hsize, rfl⟩
    exact of_decide_eq_true (isDirectory_of_not_isFile htype)

/-- A directory lists what it holds. -/
theorem Holds.lists {known : Set Bytes} {bucketId : Word 8} {node : DirectoryNode} {fs : FileSystem}
    {dir : List Bytes} (h : Holds blake2256 bucketId known node (fs.below dir)) :
    fs.Lists blake2256 dir node.children.1 := by
  have hsound := DirectoryNode.sound_of_validate h.valid
  refine ⟨hsound.sorted, fun entry hentry ↦ ?_, fun name hname ↦ ?_⟩
  · have hholds := h.children entry.name.1
    rw [(DirectoryNode.lookup_childMap hsound).mpr ⟨hentry, rfl⟩, PathMap.below_below] at hholds
    obtain ⟨found, hfound, hshown⟩ := hholds.shown
    refine ⟨found, ?_, hshown⟩
    rw [← hfound, PathMap.below, List.append_nil]
  · have hpresent : node.childMap.lookup name ≠ none := fun hnone ↦
      hname ((h.lookup_eq_none_iff name).mp hnone)
    obtain ⟨entry, hentry⟩ := Option.ne_none_iff_exists'.mp hpresent
    exact ⟨entry, (DirectoryNode.lookup_childMap hsound).mp hentry⟩

theorem DirectoryEntry.eq_of_fields {first second : DirectoryEntry} (hname : first.name.1 = second.name.1)
    (htype : first.entryType = second.entryType) (hcid : first.cid = second.cid)
    (hsize : first.size = second.size) (hmtime : first.mtime = second.mtime) : first = second := by
  obtain ⟨name, entryType, cid, size, mtime⟩ := first
  obtain ⟨name', entryType', cid', size', mtime'⟩ := second
  rw [DirectoryEntry.mk.injEq]
  exact ⟨Subtype.ext hname, htype, hcid, hsize, hmtime⟩

section Drives

variable (h : tree.Reads blake2256 mmr reliable blobs leaves)
  {s : σ} (hcount : (leaves s).length ≤ maxRangeLeaves) (hfree : CollisionFree blake2256 (blobs s))
  {fs : FileSystem} (hdrive : Represents blake2256 tree.bucketId (blobs s) (leaves s) fs)

include h hcount hfree hdrive

/-- A directory is listed as the file system has it. -/
theorem list_refines (path : Bytes) :
    Refines (StoreFails reliable) (fun entries names ↦ fs.Lists blake2256 names entries)
      (tree.list blake2256 mmr s path) (do
        let names ← (parsePath path).mapError .read
        fs.walk false [] names
        return names) := by
  unfold StoredTree.list
  refine Refines.bind_same _ fun names hnames ↦ ?_
  rw [mapError_eq_ok] at hnames
  obtain ⟨root, hroot, hload⟩ := loadRoot_refines h hcount hfree hdrive
  refine hload.bind_left ?_
  rintro _ rfl
  refine (dirChain_refines h hfree false hroot (valid_of_parsePath hnames)).bind fun chain _ hchain ↦ .ok ?_
  obtain ⟨last, hlast, hholds⟩ := hchain.exists_last
  rw [hlast, List.getLast?_concat]
  exact hholds.lists

/-- The entry and the manifest of a file are read, and its content is stored. -/
theorem stat_refines (path : Bytes) :
    Refines (StoreFails reliable)
      (fun stat read ↦ stat = read.1 ∧ (read.2 ≠ [] → read.2 ∈ blobs s) ∧
        ∃ mimeType userMetadata,
          stat.manifest.Describes blake2256 tree.bucketId read.2 mimeType userMetadata)
      (tree.stat blake2256 mmr s path) (fs.readFile blake2256 path) := by
  unfold StoredTree.stat FileSystem.readFile
  refine Refines.bind_same _ fun names hnames ↦ ?_
  refine Refines.bind_same _ fun name hname ↦ ?_
  rw [mapError_eq_ok] at hnames
  rw [require_eq_ok] at hname
  have hsplit := List.dropLast_append_getLast? name hname
  have hvalid : ∀ other ∈ names.dropLast, validateEntryName other = .ok () := fun other hother ↦
    valid_of_parsePath hnames other (List.mem_of_mem_dropLast hother)
  obtain ⟨root, hroot, hload⟩ := loadRoot_refines h hcount hfree hdrive
  refine hload.bind_left ?_
  rintro _ rfl
  refine (dirChain_refines h hfree false hroot hvalid).bind fun chain _ hchain ↦ ?_
  obtain ⟨last, hlast, hholds⟩ := hchain.exists_last
  have hentry := hholds.children name
  have hself : (fs.below names) [] = fs names := by
    rw [PathMap.below, List.append_nil]
  rw [PathMap.below_below, hsplit] at hentry
  rw [hlast, List.getLast?_concat, Option.bind_some,
    DirectoryNode.findChild_eq (DirectoryNode.sound_of_validate hholds.valid), ← hself]
  generalize hfound : last.childMap.lookup name = found at hentry
  generalize fs.below names = part at hentry
  cases hentry with
  | missing => exact .error _
  | file entry manifest data htype hcid hsize hmanifest hdata hdescribes =>
    obtain ⟨mimeType, userMetadata, hcontent⟩ := hdescribes
    rw [require_some, ok_bind, htype, ensure_true, ok_bind, hcid]
    refine (readManifest_refines h hfree hmanifest hcontent.valid path).bind_left ?_
    rintro manifest rfl
    have hvalidName := valid_of_parsePath hnames name (List.mem_of_getLast? hname)
    obtain ⟨entry', hentry', hname', htype', hcid', hsize', hmtime'⟩ :=
      DirectoryEntry.tryNew_of_valid hvalidName .file (computeCid blake2256 manifest.toBlob)
        (Word.ofNat 8 data.length) entry.mtime
    have hsame : entry = entry' := by
      refine DirectoryEntry.eq_of_fields ?_ ?_ (hcid.trans hcid'.symm) (hsize.trans hsize'.symm) hmtime'.symm
      · rw [DirectoryNode.name_of_lookup hholds.valid hfound, hname']
      · rw [htype']
        exact of_decide_eq_true htype
    change Refines _ _ _ (Except.mapError _ _ >>= _)
    rw [hentry', ← hsame]
    exact .ok ⟨rfl, hdata, mimeType, userMetadata, hcontent⟩
  | directory entry node _ htype hsize hcid hnode hvalidNode hbucket hroot' hchildren =>
    rw [require_some, ok_bind, htype, hroot']
    exact .error _

/-- A file is read with its content. -/
theorem getFile_refines (path : Bytes) :
    Refines (StoreFails reliable) Eq (tree.getFile blake2256 mmr s path) (fs.readFile blake2256 path) := by
  unfold StoredTree.getFile
  have hstat := stat_refines h hcount hfree hdrive path
  rw [← bind_pure (fs.readFile blake2256 path)]
  refine hstat.bind ?_
  rintro _ ⟨stat, data⟩ ⟨rfl, hdata, mimeType, userMetadata, hcontent⟩
  dsimp only at hdata hcontent ⊢
  rw [hcontent.totalSize, hcontent.contentRoot]
  by_cases hempty : data = []
  · rw [hempty, List.length_nil, if_pos rfl]
    exact .ok rfl
  · rw [if_neg fun hzero ↦ hempty (List.length_eq_zero_iff.mp hzero)]
    refine (readBlob_refines h hfree (hdata hempty) path (.exactly data.length) rfl).bind_left ?_
    rintro _ rfl
    exact .ok rfl

end Drives

end Rules

end Web3Storage.Formats
