import Web3Storage.Foundations.MountainRange
import Web3Storage.Primitives.Merkle

/-!
# The mountain range over the leaves of a bucket

Leaves, proofs and the verifier that the chain runs. The mountain range itself is an external
library; `MmrLibrary` is its interface, and the functions here call it as the source does. What the
source relies on is `MmrLibrary.IsStandard`: the library numbers, builds, proves and verifies as the
standard mountain range does. For such a library a verified proof is one that recomputes the root
(`verifyMmrProof_iff`), and a built proof verifies (`exists_mmrProof`).
-/

set_option autoImplicit false
set_option relaxedAutoImplicit false

namespace Web3Storage.Primitives

open Foundations

/-- The leaf format in use. -/
def leafVersion : UInt8 := 1

/-- A leaf: a data root with its size and the bytes committed up to it. The fields keep the widths
of the source because the leaf is hashed in its encoded form. -/
structure MmrLeaf where
  leafVersion : UInt8
  dataRoot : H256
  dataSize : UInt64
  totalSize : UInt64
  deriving DecidableEq

namespace MmrLeaf

/-- The chunk size of the version of a leaf, if the version is known. -/
def chunkSize (leaf : MmrLeaf) : Option ℕ :=
  if leaf.leafVersion = 1 then some defaultChunkSize else none

/-- The number of chunks under the data root of a leaf, if its version is known. -/
def chunkCount (leaf : MmrLeaf) : Option ℕ :=
  leaf.chunkSize.map fun chunkSize ↦ (leaf.dataSize.toNat + chunkSize - 1) / chunkSize

def encode (leaf : MmrLeaf) : Bytes :=
  leaf.leafVersion :: (leaf.dataRoot.bytes ++ littleEndian 8 leaf.dataSize.toNat ++
    littleEndian 8 leaf.totalSize.toNat)

/-- A leaf is read back from its bytes. -/
theorem encode_inj {leaf leaf' : MmrLeaf} (h : leaf.encode = leaf'.encode) : leaf = leaf' := by
  have hfits (value : UInt64) : value.toNat < 256 ^ 8 := value.toNat_lt
  obtain ⟨version, dataRoot, dataSize, totalSize⟩ := leaf
  obtain ⟨version', dataRoot', dataSize', totalSize'⟩ := leaf'
  simp only [encode, List.append_assoc, List.cons.injEq] at h
  obtain ⟨rfl, h⟩ := h
  obtain ⟨hroot, h⟩ := List.append_inj h (by rw [H256.length_bytes, H256.length_bytes])
  obtain ⟨hdata, h⟩ := littleEndian_append_inj (hfits _) (hfits _) h
  have htotal := littleEndian_inj (hfits _) (hfits _) h
  rw [H256.ext_bytes hroot, UInt64.toNat_inj.mp hdata, UInt64.toNat_inj.mp htotal]

end MmrLeaf

/-- A leaf and the hashes that link it to a root. -/
structure MmrProof where
  leaf : MmrLeaf
  items : List H256
  deriving DecidableEq

/-- How a mountain range combines two nodes of a mountain, and a peak with what is bagged to its
right. -/
structure Merge where
  merge : H256 → H256 → H256
  mergePeaks : H256 → H256 → H256

/-- The combination the storage protocol uses. The library bags peaks from right to left and passes
the right-hand value first. -/
def storageMerge (blake2256 : Bytes → H256) : Merge where
  merge := hashChildren blake2256
  mergePeaks right left := hashPeaks blake2256 left right

/-- The mountain range library. Positions number the nodes of the range in insertion order; a failed
verification and an error are both `false`. -/
structure MmrLibrary where
  leafIndexToMmrSize : ℕ → ℕ
  leafIndexToPos : ℕ → ℕ
  getPeaks : ℕ → List ℕ
  posHeightInTree : ℕ → ℕ
  /-- Verify one leaf, given by its position and hash, against a root. -/
  verify : Merge → (mmrSize : ℕ) → (items : List H256) → (root : H256) → ℕ × H256 → Bool
  /-- The root of the range built by pushing some leaf hashes. -/
  getRoot : Merge → List H256 → Option H256
  /-- The root of the same range, computed together with its peaks. -/
  getAncestorRoot : Merge → List H256 → Option H256
  /-- The proof for the leaf at a position of the range built by pushing some leaf hashes. -/
  genProof : Merge → List H256 → ℕ → Option (List H256)

/-- The standard mountain range as such a library. -/
def standardMmr : MmrLibrary where
  leafIndexToMmrSize index := MountainRange.size 64 (index + 1)
  leafIndexToPos index := MountainRange.size 64 index
  getPeaks mmrSize := MountainRange.peakPositions 64 0 mmrSize
  posHeightInTree pos := MountainRange.height 64 pos
  verify combine mmrSize items root leaf :=
    MountainRange.recompute combine.merge combine.mergePeaks 64 (MountainRange.leavesOf 64 mmrSize)
      (MountainRange.leavesOf 64 leaf.1) leaf.2 items = some root
  getRoot combine leaves := MountainRange.root combine.merge combine.mergePeaks 64 leaves
  getAncestorRoot combine leaves := MountainRange.root combine.merge combine.mergePeaks 64 leaves
  genProof combine leaves pos :=
    if MountainRange.leavesOf 64 pos < leaves.length then
      some (MountainRange.proof combine.merge combine.mergePeaks 64 leaves
        (MountainRange.leavesOf 64 pos))
    else none

/-- The number of items of the proof for a leaf position: the peaks to the left, the levels of the
leaf's peak, and one item for the peaks to the right. -/
def mmrProofLen (mmr : MmrLibrary) (leafPos mmrSize : ℕ) : Option ℕ := do
  let peaks := mmr.getPeaks mmrSize
  let peak ← peaks.findIdx? fun pos ↦ leafPos ≤ pos
  let pos ← peaks[peak]?
  return peak + mmr.posHeightInTree pos + if peak + 1 < peaks.length then 1 else 0

/-- Verify that a proof proves the leaf at an index of a commitment. -/
def verifyMmrProof (blake2256 : Bytes → H256) (mmr : MmrLibrary) (proof : MmrProof)
    (leafIndex : ℕ) (commitment : Commitment) : Bool :=
  -- more leaves than this would overflow the size of the range
  if leafIndex ≥ commitment.leafCount ∨ commitment.leafCount > u64Max / 2 then false
  else
    let mmrSize := mmr.leafIndexToMmrSize (commitment.leafCount - 1)
    let leafPos := mmr.leafIndexToPos leafIndex
    if some proof.items.length ≠ mmrProofLen mmr leafPos mmrSize then false
    else
      mmr.verify (storageMerge blake2256) mmrSize proof.items commitment.mmrRoot
        (leafPos, hashLeaf blake2256 proof.leaf.encode)

/-! ### Building the range -/

/-- The hashes of some leaves, in the order they are pushed. -/
def leafHashes (blake2256 : Bytes → H256) (leaves : List MmrLeaf) : List H256 :=
  leaves.map fun leaf ↦ hashLeaf blake2256 leaf.encode

/-- The root of the range over some leaves, `none` for an error of the library. No leaves give the
zero root. -/
def mmrRoot (blake2256 : Bytes → H256) (mmr : MmrLibrary) (leaves : List MmrLeaf) : Option H256 :=
  if leaves = [] then some H256.zero
  else mmr.getAncestorRoot (storageMerge blake2256) (leafHashes blake2256 leaves)

/-- The root of the range over some leaves and the proof for the leaf at an index, or that there is
no such leaf. -/
def mmrProof (blake2256 : Bytes → H256) (mmr : MmrLibrary) (leaves : List MmrLeaf)
    (leafIndex : ℕ) : Option (Option (H256 × MmrProof)) :=
  match leaves[leafIndex]? with
  | none => some none
  | some leaf => do
    let hashes := leafHashes blake2256 leaves
    let root ← mmr.getRoot (storageMerge blake2256) hashes
    let items ← mmr.genProof (storageMerge blake2256) hashes (mmr.leafIndexToPos leafIndex)
    return some (root, ⟨leaf, items⟩)

/-! ### Standard libraries -/

/-- The largest number of leaves the chain accepts. -/
def maxRangeLeaves : ℕ := u64Max / 2

theorem maxRangeLeaves_lt : maxRangeLeaves < 2 ^ 64 := by
  decide

/-- The library is the standard mountain range, on every range the chain accepts and for proofs with
the number of items that the range asks for. -/
structure MmrLibrary.IsStandard (mmr : MmrLibrary) : Prop where
  mmrSize_eq : ∀ n, 0 < n → n ≤ maxRangeLeaves →
    mmr.leafIndexToMmrSize (n - 1) = MountainRange.size 64 n
  pos_eq : ∀ index, index < maxRangeLeaves → mmr.leafIndexToPos index = MountainRange.size 64 index
  peaks_eq : ∀ n, n ≤ maxRangeLeaves → mmr.getPeaks (MountainRange.size 64 n) =
    MountainRange.peakPositions 64 0 (MountainRange.size 64 n)
  height_eq : ∀ n pos, n ≤ maxRangeLeaves →
    pos ∈ MountainRange.peakPositions 64 0 (MountainRange.size 64 n) →
      mmr.posHeightInTree pos = MountainRange.height 64 pos
  verify_iff : ∀ combine n index items root leaf, n ≤ maxRangeLeaves → index < n →
    items.length = MountainRange.proofLength 64 n index →
      (mmr.verify combine (MountainRange.size 64 n) items root
          (MountainRange.size 64 index, leaf) = true ↔
        MountainRange.recompute combine.merge combine.mergePeaks 64 n index leaf items = some root)
  getRoot_eq : ∀ combine leaves, leaves.length ≤ maxRangeLeaves →
    mmr.getRoot combine leaves = MountainRange.root combine.merge combine.mergePeaks 64 leaves
  getAncestorRoot_eq : ∀ combine leaves, leaves.length ≤ maxRangeLeaves →
    mmr.getAncestorRoot combine leaves =
      MountainRange.root combine.merge combine.mergePeaks 64 leaves
  genProof_eq : ∀ combine leaves index, leaves.length ≤ maxRangeLeaves → index < leaves.length →
    mmr.genProof combine leaves (MountainRange.size 64 index) =
      some (MountainRange.proof combine.merge combine.mergePeaks 64 leaves index)

theorem standardMmr_isStandard : standardMmr.IsStandard := by
  have hsize : ∀ n, n ≤ maxRangeLeaves →
      MountainRange.leavesOf 64 (MountainRange.size 64 n) = n :=
    fun n hn ↦ MountainRange.leavesOf_size (hn.trans_lt maxRangeLeaves_lt)
  refine
    { mmrSize_eq := fun n hpos _ ↦ ?_, pos_eq := fun _ _ ↦ rfl, peaks_eq := fun _ _ ↦ rfl
      height_eq := fun _ _ _ _ ↦ rfl, verify_iff := ?_, getRoot_eq := fun _ _ _ ↦ rfl
      getAncestorRoot_eq := fun _ _ _ ↦ rfl, genProof_eq := ?_ }
  · exact congrArg (MountainRange.size 64) (Nat.sub_add_cancel hpos)
  · intro combine n index items root leaf hn hindex _
    simp only [standardMmr, decide_eq_true_eq, hsize n hn, hsize index (hindex.le.trans hn)]
  · intro combine leaves index hn hindex
    simp only [standardMmr, hsize index (hindex.le.trans hn), if_pos hindex]

section Standard

variable {blake2256 : Bytes → H256} {mmr : MmrLibrary}

/-- The number of items the chain asks for is that of the standard proof. -/
theorem MmrLibrary.IsStandard.mmrProofLen_eq (hmmr : mmr.IsStandard) {n index : ℕ}
    (hn : n ≤ maxRangeLeaves) (hindex : index < n) :
    mmrProofLen mmr (MountainRange.size 64 index) (MountainRange.size 64 n) =
      some (MountainRange.proofLength 64 n index) := by
  obtain ⟨peak, position, hfind, hget, hlength⟩ :=
    MountainRange.exists_peak (hn.trans_lt maxRangeLeaves_lt) hindex
  have hheight := hmmr.height_eq n position hn (List.mem_of_getElem? hget)
  simp only [mmrProofLen, hmmr.peaks_eq n hn, hfind, Option.bind_eq_bind, Option.bind_some, hget,
    hheight, Option.pure_def, hlength]

/-- A proof of a leaf of a commitment verifies exactly when it has the right number of items and the
leaf recomputes the root with them. -/
theorem verifyMmrProof_iff (hmmr : mmr.IsStandard) (proof : MmrProof) (leafIndex : ℕ)
    (commitment : Commitment) :
    verifyMmrProof blake2256 mmr proof leafIndex commitment = true ↔
      leafIndex < commitment.leafCount ∧ commitment.leafCount ≤ maxRangeLeaves ∧
        proof.items.length = MountainRange.proofLength 64 commitment.leafCount leafIndex ∧
          MountainRange.recompute (hashChildren blake2256) (storageMerge blake2256).mergePeaks 64
            commitment.leafCount leafIndex (hashLeaf blake2256 proof.leaf.encode) proof.items =
              some commitment.mmrRoot := by
  unfold verifyMmrProof
  by_cases hrange : leafIndex ≥ commitment.leafCount ∨ commitment.leafCount > u64Max / 2
  · rw [if_pos hrange]
    constructor
    · intro hfalse
      cases hfalse
    · rintro ⟨hindex, hcount, -⟩
      unfold maxRangeLeaves at hcount
      omega
  · rw [if_neg hrange]
    push Not at hrange
    obtain ⟨hindex, hcount⟩ := hrange
    have hsize := hmmr.mmrSize_eq commitment.leafCount (Nat.zero_lt_of_lt hindex) hcount
    have hpos := hmmr.pos_eq leafIndex (hindex.trans_le hcount)
    simp only [hsize, hpos, hmmr.mmrProofLen_eq hcount hindex]
    by_cases hlength : proof.items.length =
        MountainRange.proofLength 64 commitment.leafCount leafIndex
    · rw [if_neg (by simp [hlength]), hmmr.verify_iff _ _ _ _ _ _ hcount hindex hlength]
      exact ⟨fun h ↦ ⟨hindex, hcount, hlength, h⟩, fun h ↦ h.2.2.2⟩
    · rw [if_pos (by simpa using hlength)]
      constructor
      · intro hfalse
        cases hfalse
      · rintro ⟨-, -, hlength', -⟩
        exact absurd hlength' hlength

/-- The root of leaves is the standard one. -/
theorem mmrRoot_eq (hmmr : mmr.IsStandard) {leaves : List MmrLeaf} (hne : leaves ≠ [])
    (hlength : leaves.length ≤ maxRangeLeaves) :
    mmrRoot blake2256 mmr leaves = MountainRange.root (hashChildren blake2256)
      (storageMerge blake2256).mergePeaks 64 (leafHashes blake2256 leaves) := by
  have hlength' : (leafHashes blake2256 leaves).length ≤ maxRangeLeaves := by
    rwa [leafHashes, List.length_map]
  unfold mmrRoot
  rw [if_neg hne, hmmr.getAncestorRoot_eq _ _ hlength']
  rfl

/-- Every range has a root. -/
theorem exists_mmrRoot (hmmr : mmr.IsStandard) {leaves : List MmrLeaf}
    (hlength : leaves.length ≤ maxRangeLeaves) : ∃ root, mmrRoot blake2256 mmr leaves = some root := by
  by_cases hne : leaves = []
  · exact ⟨H256.zero, if_pos hne⟩
  · have hfits : (leafHashes blake2256 leaves).length < 2 ^ 64 := by
      rw [leafHashes, List.length_map]
      exact hlength.trans_lt maxRangeLeaves_lt
    refine Option.ne_none_iff_exists'.mp fun hnone ↦ ?_
    rw [mmrRoot_eq hmmr hne hlength, MountainRange.root_eq_none_iff _ _ hfits, leafHashes,
      List.map_eq_nil_iff] at hnone
    exact hne hnone

/-- A leaf of a range with a root has a proof, which verifies against the root. -/
theorem exists_mmrProof (hmmr : mmr.IsStandard) {leaves : List MmrLeaf} {leafIndex : ℕ}
    {leaf : MmrLeaf} {root : H256} (hlength : leaves.length ≤ maxRangeLeaves)
    (hleaf : leaves[leafIndex]? = some leaf) (hroot : mmrRoot blake2256 mmr leaves = some root) :
    ∃ items, mmrProof blake2256 mmr leaves leafIndex = some (some (root, ⟨leaf, items⟩)) ∧
      ∀ startSeq, verifyMmrProof blake2256 mmr ⟨leaf, items⟩ leafIndex
        ⟨root, startSeq, leaves.length⟩ = true := by
  have hindex : leafIndex < leaves.length := (List.getElem?_eq_some_iff.mp hleaf).1
  have hne : leaves ≠ [] := by
    rintro rfl
    cases hleaf
  have hcount : (leafHashes blake2256 leaves).length = leaves.length := List.length_map _
  have hhash : (leafHashes blake2256 leaves)[leafIndex]? =
      some (hashLeaf blake2256 leaf.encode) := by
    rw [leafHashes, List.getElem?_map, hleaf]
    rfl
  have hlength' : (leafHashes blake2256 leaves).length ≤ maxRangeLeaves := hcount.trans_le hlength
  rw [mmrRoot_eq hmmr hne hlength] at hroot
  refine ⟨MountainRange.proof (hashChildren blake2256) (storageMerge blake2256).mergePeaks 64
    (leafHashes blake2256 leaves) leafIndex, ?_, fun startSeq ↦ ?_⟩
  · have hroot' : mmr.getRoot (storageMerge blake2256) (leafHashes blake2256 leaves) = some root :=
      (hmmr.getRoot_eq _ _ hlength').trans hroot
    simp only [mmrProof, hleaf, hroot', hmmr.pos_eq _ (hindex.trans_le hlength),
      hmmr.genProof_eq _ _ _ hlength' (hindex.trans_eq hcount.symm)]
    rfl
  · have hbelow : (leafHashes blake2256 leaves).length < 2 ^ 64 :=
      hlength'.trans_lt maxRangeLeaves_lt
    have hitems := MountainRange.length_proof (hashChildren blake2256)
      (storageMerge blake2256).mergePeaks hbelow leafIndex
    have hrecompute := MountainRange.recompute_proof (hashChildren blake2256)
      (storageMerge blake2256).mergePeaks hbelow hhash
    rw [hcount] at hitems hrecompute
    rw [verifyMmrProof_iff hmmr]
    exact ⟨hindex, hlength, hitems, hrecompute.trans hroot⟩

end Standard

end Web3Storage.Primitives
