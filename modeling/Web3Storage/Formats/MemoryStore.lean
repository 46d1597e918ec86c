import Web3Storage.Formats.DriveReads

/-!
# A store in memory

The store of the crate's tests keeps the blobs it was given and the identifiers that were committed. It
serves its bucket (`memoryStore_serves`) without ever failing, so that a drive in it is exactly a file
system.
-/

set_option autoImplicit false
set_option relaxedAutoImplicit false

namespace Web3Storage.Formats

open Foundations Primitives

/-- The blobs that were put, the newest first, and the commits in their order. -/
structure MemoryStore where
  blobs : List Bytes
  commits : List (List Cid)
  deriving DecidableEq

namespace MemoryStore

def new : MemoryStore := ⟨[], []⟩

/-- The leaves of the bucket, one for each committed identifier. -/
def leaves (s : MemoryStore) : List MmrLeaf :=
  s.commits.flatten.map fun dataRoot ↦ ⟨leafVersion, dataRoot, 0, 0⟩

variable (blake2256 : Bytes → H256) (mmr : MmrLibrary)

/-- The blob with an identifier is the one that was put last. -/
def findBlob (s : MemoryStore) (cid : Cid) : Option Bytes :=
  s.blobs.find? fun blob ↦ decide (computeCid blake2256 blob = cid)

/-- The Layer 0 of the crate's tests, which has one bucket. -/
def store : BlobStore MemoryStore where
  putBlob _ data s := (.ok (computeCid blake2256 data), { s with blobs := data :: s.blobs })
  getBlob s _ cid _ := require (s.findBlob blake2256 cid) "missing blob"
  commit _ dataRoots s :=
    -- a commit of what was not put stops the test
    if dataRoots.all fun cid ↦ (s.findBlob blake2256 cid).isSome then
      (.ok (), { s with commits := s.commits ++ [dataRoots] })
    else (.error "missing blob", s)
  commitment s _ :=
    if s.leaves = [] then .ok none
    else do
      let root ← require (mmrRoot blake2256 mmr s.leaves) "no root"
      return some ⟨root, 0, s.leaves.length⟩
  mmrProof s _ leafIndex := do
    let found ← require (Primitives.mmrProof blake2256 mmr s.leaves leafIndex) "no root"
    let found ← require found "no leaf at this index"
    return found.2

end MemoryStore

section Serves

variable {blake2256 : Bytes → H256} {mmr : MmrLibrary}

theorem MemoryStore.isSome_findBlob {s : MemoryStore} {cid : Cid} :
    (s.findBlob blake2256 cid).isSome = true ↔ cid ∈ computeCid blake2256 '' {blob | blob ∈ s.blobs} := by
  rw [findBlob, List.find?_isSome]
  simp only [decide_eq_true_eq]
  rfl

/-- The store in memory keeps what it is given and appends what is committed. -/
theorem memoryStore_serves (hmmr : mmr.IsStandard) (bucketId : Word 8) :
    (MemoryStore.store blake2256 mmr).Serves blake2256 mmr bucketId True
      (fun s ↦ {blob | blob ∈ s.blobs}) MemoryStore.leaves where
  getBlob_spec s data hdata length hlength := by
    refine .inl ?_
    have hstored : (s.findBlob blake2256 (computeCid blake2256 data)).isSome = true :=
      MemoryStore.isSome_findBlob.mpr ⟨data, hdata, rfl⟩
    obtain ⟨found, hfound⟩ := Option.isSome_iff_exists.mp hstored
    have hcid := List.find?_some hfound
    refine ⟨found, List.mem_of_find?_eq_some hfound, of_decide_eq_true hcid, ?_⟩
    change require (s.findBlob blake2256 (computeCid blake2256 data)) _ = _
    rw [hfound, require_some]
  commitment_spec s hcount := by
    by_cases hnil : s.leaves = []
    · exact .inl ⟨hnil, if_pos hnil⟩
    · obtain ⟨root, hroot⟩ := exists_mmrRoot hmmr hcount
      refine .inr (.inl ⟨root, 0, hroot, ?_⟩)
      change (if s.leaves = [] then _ else _) = _
      rw [if_neg hnil, hroot, require_some]
      rfl
  mmrProof_spec s hcount index hindex := by
    obtain ⟨root, hroot⟩ := exists_mmrRoot hmmr hcount
    obtain ⟨items, hproof, -⟩ := exists_mmrProof hmmr hcount (List.getElem?_eq_getElem hindex) hroot
    refine .inl ⟨root, _, hproof, ?_⟩
    change (require (Primitives.mmrProof blake2256 mmr s.leaves index) _ >>= _) = _
    rw [hproof]
    rfl
  putBlob_spec data s := by
    refine ⟨rfl, .inl ⟨rfl, ?_⟩⟩
    ext blob
    exact List.mem_cons
  commit_spec cids s hcids := by
    have hall : (cids.all fun cid ↦ (s.findBlob blake2256 cid).isSome) = true :=
      List.all_eq_true.mpr fun cid hcid ↦ MemoryStore.isSome_findBlob.mpr (hcids cid hcid)
    have hcommit : (MemoryStore.store blake2256 mmr).commit bucketId cids s =
        (.ok (), { s with commits := s.commits ++ [cids] }) := if_pos hall
    rw [hcommit]
    refine ⟨rfl, .inl ⟨rfl, cids.map fun dataRoot ↦ ⟨leafVersion, dataRoot, 0, 0⟩, ?_, ?_⟩⟩
    · simp only [MemoryStore.leaves, List.flatten_append, List.flatten_singleton, List.map_append]
    · rw [List.map_map]
      exact List.map_id _

/-- An empty drive. -/
theorem represents_empty (bucketId : Word 8) (blobs : Set Bytes) :
    Represents blake2256 bucketId blobs [] .empty :=
  ⟨.newEmpty bucketId, holds_newEmpty, .inl ⟨rfl, rfl⟩⟩

end Serves

/-! ### The bucket of the tests -/

def MemoryStore.tree : StoredTree MemoryStore := ⟨store blake2b256 standardMmr, Word.ofNat 8 7⟩

theorem MemoryStore.tree_serves : MemoryStore.tree.store.Serves blake2b256 standardMmr
    MemoryStore.tree.bucketId True (fun s ↦ {blob | blob ∈ s.blobs}) MemoryStore.leaves :=
  memoryStore_serves standardMmr_isStandard _

/-- The time of every write of the tests. -/
def testTime : Word 8 := Word.ofNat 8 1700000000

/-- A file `/a` of one byte. -/
def putSmall : StoredTree.FsOp := .putFile [slash, 0x61] [7] [] [] testTime testTime

/-- An empty directory `/b`. -/
def mkdirSmall : StoredTree.FsOp := .mkdir [slash, 0x62] testTime

end Web3Storage.Formats
