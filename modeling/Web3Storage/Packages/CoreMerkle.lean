import Web3Storage.Primitives.Bagging
import Web3Storage.Primitives.MerkleProofs

/-!
# The Merkle functions of the core package

The TypeScript port of the primitives, with which a client checks roots and proofs itself. It builds a
tree with one list per level, walks a chunk proof by a counter and finds the mountain of a leaf from
the binary digits of the leaf count, where the primitives call a library with node positions and check
the number of items apart. `verifyMmrProof_eq`, `verifyChunkProof_eq`, `merkleTree_eq` and
`bagPeaks_eq` say that both sides agree; `verifiers_agree` puts them together.

The numbers of a chunk proof are below `2 ^ 53`, where the arithmetic of the language is exact; the
leaf index and the leaf count of a range are big integers.
-/

set_option autoImplicit false
set_option relaxedAutoImplicit false

namespace Web3Storage.Packages

open Foundations
open Primitives (Bytes H256 MerkleNode MmrLibrary Merge IsBagging littleEndian)

/-! ### Hashes -/

def nodePrefix : UInt8 := 0x01

def leafPrefix : UInt8 := 0x00

def peakPrefix : UInt8 := 0x02

/-- A range with more leaves has no proofs. -/
def maxMmrLeaves : ℕ := 2 ^ 63 - 1

variable (blake2b256 : Bytes → H256)

def hashChildren (left right : H256) : H256 :=
  blake2b256 (nodePrefix :: (left.bytes ++ right.bytes))

def hashLeaf (data : Bytes) : H256 := blake2b256 (leafPrefix :: data)

/-- Fold the peaks from right to left, starting with the last. -/
def bagPeaks (peaks : List H256) : H256 :=
  match peaks.getLast? with
  | none => H256.zero
  | some last =>
    peaks.dropLast.foldr
      (fun peak rest ↦ blake2b256 (peakPrefix :: (peak.bytes ++ rest.bytes))) last

/-! ### The tree -/

/-- One pass over a level: the next level and the nodes of its pairs. An odd last node moves up. -/
def mergeLevel : List H256 → List H256 × List MerkleNode
  | [] => ([], [])
  | [last] => ([last], [])
  | left :: right :: rest =>
    let hash := hashChildren blake2b256 left right
    let merged := mergeLevel rest
    (hash :: merged.1, ⟨hash, left, right⟩ :: merged.2)

theorem length_mergeLevel (level : List H256) :
    (mergeLevel blake2b256 level).1.length = (level.length + 1) / 2 := by
  induction level using mergeLevel.induct blake2b256 with
  | case1 => rfl
  | case2 last => simp [mergeLevel]
  | case3 left right rest ih =>
    simp only [mergeLevel, List.length_cons, ih]
    omega

/-- The passes over the levels, with the nodes so far. -/
def mergeLevels (level : List H256) (nodes : List MerkleNode) : H256 × List MerkleNode :=
  if level.length > 1 then
    let merged := mergeLevel blake2b256 level
    mergeLevels merged.1 (nodes ++ merged.2)
  else (level.headD H256.zero, nodes)
termination_by level.length
decreasing_by
  rw [length_mergeLevel]
  omega

/-- The root and the inner nodes of the tree over some leaves. -/
def merkleTree (leaves : List H256) : H256 × List MerkleNode :=
  match leaves with
  | [] => (H256.zero, [])
  | [leaf] => (leaf, [])
  | leaves => mergeLevels blake2b256 leaves []

def merkleRoot (leaves : List H256) : H256 := (merkleTree blake2b256 leaves).1

/-! ### Chunk proofs -/

/-- The walk to the root, with the number of siblings used. -/
def walkChunkProof (siblings : List H256) (current : H256) (idx width used : ℕ) :
    Option (H256 × ℕ) :=
  if width > 1 then
    -- an odd last node moves up without a sibling
    if idx ≠ width - 1 ∨ width % 2 = 0 then
      match siblings[used]? with
      | none => none
      | some sibling =>
        walkChunkProof siblings
          (if idx % 2 = 1 then hashChildren blake2b256 sibling current
            else hashChildren blake2b256 current sibling) (idx / 2) ((width + 1) / 2) (used + 1)
    else walkChunkProof siblings current (idx / 2) ((width + 1) / 2) used
  else some (current, used)
termination_by width

def verifyChunkProof (chunkHash : H256) (index : ℤ) (siblings : List H256) (dataRoot : H256)
    (chunks : ℕ) : Bool :=
  if index < 0 ∨ index ≥ chunks then false
  else
    match walkChunkProof blake2b256 siblings chunkHash index.toNat chunks 0 with
    | some (current, used) => used = siblings.length && current = dataRoot
    | none => false

/-! ### Range proofs -/

structure MmrLeaf where
  leafVersion : ℕ
  dataRoot : H256
  dataSize : ℕ
  totalSize : ℕ

structure MmrProof where
  leaf : MmrLeaf
  items : List H256

def u64le (value : ℕ) : Bytes := littleEndian 8 value

def mmrLeafHash (leaf : MmrLeaf) : H256 :=
  hashLeaf blake2b256 (UInt8.ofNat leaf.leafVersion ::
    (leaf.dataRoot.bytes ++ u64le leaf.dataSize ++ u64le leaf.totalSize))

/-- The peak of a leaf: its height, the leaves and the number of peaks before it, and the leaves that
remain with its own. -/
structure Peak where
  height : ℕ
  offset : ℕ
  remaining : ℕ
  peakIndex : ℕ

/-- Pass peaks from the left until one covers the leaf. The height of a peak is the number of binary
digits of what remains, less one. -/
def findPeak (leafIndex remaining offset peakIndex : ℕ) : Peak :=
  if leafIndex < offset + 2 ^ Nat.log2 remaining then
    ⟨Nat.log2 remaining, offset, remaining, peakIndex⟩
  else
    findPeak leafIndex (remaining - 2 ^ Nat.log2 remaining) (offset + 2 ^ Nat.log2 remaining)
      (peakIndex + 1)
termination_by leafIndex + 1 - offset
decreasing_by
  have hpos := Nat.two_pow_pos (Nat.log2 remaining)
  omega

/-- Combine a leaf hash with the siblings after the first `peakIndex` items, from the bottom up. -/
def climbPeak (items : List H256) (peakIndex localIndex : ℕ) (leafHash : H256) (height : ℕ) : H256 :=
  (List.range height).foldl
    (fun current k ↦
      let sibling := items.getD (peakIndex + k) H256.zero
      if (localIndex >>> k) &&& 1 = 1 then hashChildren blake2b256 sibling current
      else hashChildren blake2b256 current sibling) leafHash

def verifyMmrProof (proof : MmrProof) (leafIndex : ℤ) (mmrRoot : H256) (leafCount : ℤ) : Bool :=
  if leafIndex < 0 ∨ leafIndex ≥ leafCount ∨ leafCount > maxMmrLeaves then false
  else
    let peak := findPeak leafIndex.toNat leafCount.toNat 0 0
    let localIndex := leafIndex.toNat - peak.offset
    let rightPeaks := if peak.remaining > 2 ^ peak.height then 1 else 0
    if proof.items.length ≠ peak.peakIndex + peak.height + rightPeaks then false
    else
      let current := climbPeak blake2b256 proof.items peak.peakIndex localIndex
        (mmrLeafHash blake2b256 proof.leaf) peak.height
      -- the bagged peaks to the right count as one
      let peaks := proof.items.take peak.peakIndex ++ [current] ++
        proof.items.drop (peak.peakIndex + peak.height)
      bagPeaks blake2b256 peaks = mmrRoot

/-- A leaf of the primitives in the numbers of the package. -/
def MmrLeaf.ofPrimitives (leaf : Primitives.MmrLeaf) : MmrLeaf where
  leafVersion := leaf.leafVersion.toNat
  dataRoot := leaf.dataRoot
  dataSize := leaf.dataSize.toNat
  totalSize := leaf.totalSize.toNat

def MmrProof.ofPrimitives (proof : Primitives.MmrProof) : MmrProof where
  leaf := .ofPrimitives proof.leaf
  items := proof.items

/-! ### Agreement on peaks and trees -/

variable {blake2b256}

/-- More than one peak: the first is combined with the others, bagged. -/
theorem bagPeaks_cons (peak : H256) {rest : List H256} (hrest : rest ≠ []) :
    bagPeaks blake2b256 (peak :: rest) =
      Primitives.hashPeaks blake2b256 peak (bagPeaks blake2b256 rest) := by
  obtain ⟨last, hlast⟩ : ∃ last, rest.getLast? = some last :=
    ⟨_, List.getLast?_eq_some_getLast hrest⟩
  have hlast' : (peak :: rest).getLast? = some last := by
    rw [List.getLast?_cons, hlast]
    rfl
  rw [bagPeaks, bagPeaks, hlast, hlast', List.dropLast_cons_of_ne_nil hrest]
  rfl

/-- Both sides bag peaks alike. Assumes: the library bags from the right. -/
theorem bagPeaks_eq {baggingPeaksHashes : Merge → List H256 → Option H256}
    (hbagging : IsBagging baggingPeaksHashes) (peaks : List H256) :
    bagPeaks blake2b256 peaks = Primitives.bagPeaks blake2b256 baggingPeaksHashes peaks := by
  unfold bagPeaks Primitives.bagPeaks
  cases hlast : peaks.getLast? with
  | none =>
    rw [List.getLast?_eq_none_iff] at hlast
    rw [hlast, hbagging.nil_eq]
    rfl
  | some last =>
    conv_rhs => rw [← List.dropLast_append_getLast? last hlast, hbagging.concat_singleton]
    rfl

/-- A pass gives the next level of the tree, and the nodes over its pairs. -/
theorem mergeLevel_eq (level : List H256) :
    mergeLevel blake2b256 level =
      (MerkleTree.nextLevel (Primitives.hashChildren blake2b256) level,
        Primitives.levelNodes level
          (MerkleTree.nextLevel (Primitives.hashChildren blake2b256) level)) := by
  induction level using mergeLevel.induct blake2b256 with
  | case1 => rfl
  | case2 last => rfl
  | case3 left right rest ih =>
    simp only [mergeLevel, ih, MerkleTree.nextLevel, Primitives.levelNodes]
    rfl

/-- The passes end at the root and add the nodes of all levels. -/
theorem mergeLevels_eq {level : List H256} (hne : level ≠ []) (nodes : List MerkleNode) :
    mergeLevels blake2b256 level nodes =
      (Primitives.merkleRoot blake2b256 level, nodes ++ Primitives.treeNodes
        (MerkleTree.levels (Primitives.hashChildren blake2b256) level)) := by
  induction level using MerkleTree.levels.induct (Primitives.hashChildren blake2b256)
    generalizing nodes with
  | case1 level hlong ih =>
    have hnext : MerkleTree.nextLevel (Primitives.hashChildren blake2b256) level ≠ [] :=
      MerkleTree.nextLevel_ne_nil hne
    have hroot : Primitives.merkleRoot blake2b256
          (MerkleTree.nextLevel (Primitives.hashChildren blake2b256) level) =
        Primitives.merkleRoot blake2b256 level := by
      have htop := Primitives.getLast_levels blake2b256 hnext
      rw [← MerkleTree.getLast_levels_of_lt hlong,
        Primitives.getLast_levels blake2b256 hne] at htop
      simpa using htop.symm
    rw [mergeLevels, if_pos hlong]
    dsimp only
    rw [mergeLevel_eq, ih hnext, hroot, List.append_assoc, MerkleTree.levels_of_lt hlong]
    obtain ⟨rest, hlevels⟩ := @MerkleTree.exists_levels _ (Primitives.hashChildren blake2b256) _ hnext
    rw [hlevels]
    rfl
  | case2 hshort => exact absurd rfl hne
  | case3 level hshort _ =>
    obtain ⟨last, rfl⟩ : ∃ last, level = [last] := by
      rw [← List.length_eq_one_iff]
      have hpos := List.length_pos_iff.mpr hne
      omega
    rw [mergeLevels, if_neg hshort, Primitives.merkleRoot, MerkleTree.levels_singleton]
    simp [Primitives.treeNodes]

theorem merkleTree_eq (leaves : List H256) :
    merkleTree blake2b256 leaves = Primitives.merkleTree blake2b256 leaves := by
  match leaves with
  | [] =>
    rw [Primitives.merkleTree, Primitives.merkleRoot, MerkleTree.levels_nil]
    rfl
  | [leaf] =>
    rw [merkleTree, Primitives.merkleTree, Primitives.merkleRoot, MerkleTree.levels_singleton]
    rfl
  | first :: second :: rest =>
    rw [merkleTree, mergeLevels_eq (List.cons_ne_nil _ _), List.nil_append]
    · rfl
    · exact List.cons_ne_nil _ _
    · intro leaf hone
      cases hone

/-! ### Agreement on proofs -/

/-- The walk by a counter is the walk along the siblings that are left. -/
theorem walkChunkProof_eq (siblings : List H256) (current : H256) (idx width used : ℕ)
    (hused : used ≤ siblings.length) :
    walkChunkProof blake2b256 siblings current idx width used =
      (MerkleTree.climb (Primitives.hashChildren blake2b256) current idx width
        (siblings.drop used)).map fun top ↦ (top.1, siblings.length - top.2.length) := by
  induction width using Nat.strongRecOn generalizing current idx used with
  | ind width ih =>
    rw [walkChunkProof.eq_def, MerkleTree.climb.eq_def]
    by_cases hwidth : width > 1
    · rw [if_pos hwidth, if_pos hwidth]
      by_cases hsibling : idx ≠ width - 1 ∨ width % 2 = 0
      · rw [if_pos hsibling, if_pos hsibling]
        by_cases hleft : used < siblings.length
        · rw [List.getElem?_eq_getElem hleft, List.drop_eq_getElem_cons hleft]
          exact ih _ (by omega) _ _ _ hleft
        · rw [List.getElem?_eq_none (by omega), List.drop_eq_nil_of_le (by omega)]
          rfl
      · rw [if_neg hsibling, if_neg hsibling]
        exact ih _ (by omega) _ _ _ hused
    · rw [if_neg hwidth, if_neg hwidth, Option.map_some, List.length_drop]
      have hcount : siblings.length - (siblings.length - used) = used := by omega
      rw [hcount]

/-- No more siblings are left over than there were. -/
theorem length_of_climb {combine : H256 → H256 → H256} {current top : H256} {index width : ℕ}
    {siblings left : List H256}
    (h : MerkleTree.climb combine current index width siblings = some (top, left)) :
    left.length ≤ siblings.length := by
  induction width using Nat.strongRecOn generalizing current index siblings with
  | ind width ih =>
    rw [MerkleTree.climb.eq_def] at h
    by_cases hwidth : width > 1
    · rw [if_pos hwidth] at h
      by_cases hsibling : index ≠ width - 1 ∨ width % 2 = 0
      · rw [if_pos hsibling] at h
        cases siblings with
        | nil => cases h
        | cons sibling rest =>
          rw [List.length_cons]
          exact (ih _ (by omega) h).trans (Nat.le_succ _)
      · rw [if_neg hsibling] at h
        exact ih _ (by omega) h
    · rw [if_neg hwidth] at h
      cases h
      exact le_rfl

theorem verifyChunkProof_eq (chunkHash : H256) (index chunks : ℕ) (siblings : List H256)
    (dataRoot : H256) :
    verifyChunkProof blake2b256 chunkHash index siblings dataRoot chunks =
      Primitives.verifyMerkleProof blake2b256 chunkHash index chunks siblings dataRoot := by
  unfold verifyChunkProof Primitives.verifyMerkleProof
  by_cases hindex : index ≥ chunks
  · have hrange : (index : ℤ) < 0 ∨ (index : ℤ) ≥ chunks := .inr (by omega)
    rw [if_pos hindex, if_pos hrange]
  · have hrange : ¬ ((index : ℤ) < 0 ∨ (index : ℤ) ≥ chunks) := by omega
    rw [if_neg hindex, if_neg hrange, Int.toNat_natCast,
      walkChunkProof_eq siblings chunkHash index chunks 0 (Nat.zero_le _), List.drop_zero]
    cases hclimb : MerkleTree.climb (Primitives.hashChildren blake2b256) chunkHash index chunks
        siblings with
    | none => rfl
    | some top =>
      obtain ⟨current, left⟩ := top
      have hle := length_of_climb hclimb
      cases left with
      | nil => simp
      | cons sibling rest =>
        have hunused : siblings.length - (sibling :: rest).length ≠ siblings.length := by
          rw [List.length_cons] at hle ⊢
          omega
        simp only [Option.map_some, hunused, decide_false, Bool.false_and]

theorem mmrLeafHash_ofPrimitives (leaf : Primitives.MmrLeaf) :
    mmrLeafHash blake2b256 (.ofPrimitives leaf) = Primitives.hashLeaf blake2b256 leaf.encode := by
  simp only [mmrLeafHash, MmrLeaf.ofPrimitives, UInt8.ofNat_toNat]
  rfl

/-- The walk up a peak combines the leaf with the items after those of the peaks to its left. -/
theorem climbPeak_eq {items : List H256} {peakIndex height : ℕ}
    (hitems : peakIndex + height ≤ items.length) (localIndex : ℕ) (leafHash : H256) :
    climbPeak blake2b256 items peakIndex localIndex leafHash height =
      MountainRange.climb (Primitives.hashChildren blake2b256) localIndex leafHash
        ((items.drop peakIndex).take height) := by
  induction height with
  | zero => rfl
  | succ height ih =>
    have hlt : peakIndex + height < items.length := by omega
    have hget : (items.drop peakIndex)[height]? = some items[peakIndex + height] := by
      rw [List.getElem?_drop, List.getElem?_eq_getElem hlt]
    have hlength : ((items.drop peakIndex).take height).length = height := by
      rw [List.length_take, List.length_drop]
      omega
    have hbit : (localIndex >>> height) &&& 1 = 1 ↔ ¬ localIndex / 2 ^ height % 2 = 0 := by
      rw [Nat.shiftRight_eq_div_pow, Nat.and_one_is_mod]
      omega
    rw [List.take_add_one, hget, Option.toList_some, MountainRange.climb_concat, hlength,
      ← ih (by omega), climbPeak, List.range_succ, List.foldl_append, List.foldl_cons,
      List.foldl_nil, List.getD_eq_getElem _ _ hlt]
    change (if (localIndex >>> height) &&& 1 = 1 then _ else _) = _
    by_cases hodd : localIndex / 2 ^ height % 2 = 0
    · rw [if_pos hodd, if_neg (by simp only [hbit, hodd, not_true_eq_false, not_false_eq_true])]
      rfl
    · rw [if_neg hodd, if_pos (hbit.mpr hodd)]
      rfl

/-- The peak that covers a leaf: as many items as the proof has, and from them the root that the
verifier of the range recomputes. -/
theorem findPeak_spec {bound n index : ℕ} (hn : n < 2 ^ bound) (hindex : index < n)
    (leafHash : H256) (offset peakIndex : ℕ) :
    ∃ height localIndex remaining peaks,
      findPeak (offset + index) n offset peakIndex =
          ⟨height, offset + index - localIndex, remaining, peakIndex + peaks⟩ ∧
        localIndex ≤ index ∧
        peaks + height + (if remaining > 2 ^ height then 1 else 0) =
          MountainRange.proofLength bound n index ∧
        ∀ items : List H256, items.length = MountainRange.proofLength bound n index →
          MountainRange.recompute (Primitives.hashChildren blake2b256)
            (Primitives.storageMerge blake2b256).mergePeaks bound n index leafHash items =
              some (bagPeaks blake2b256 (items.take peaks ++
                [MountainRange.climb (Primitives.hashChildren blake2b256) localIndex leafHash
                  ((items.drop peaks).take height)] ++ items.drop (peaks + height))) := by
  induction bound generalizing n index offset peakIndex with
  | zero =>
    rw [pow_zero] at hn
    omega
  | succ bound ih =>
    by_cases hpeak : 2 ^ bound ≤ n
    · have hlog : Nat.log2 n = bound := by
        rw [Nat.log2_eq_iff (by omega)]
        exact ⟨hpeak, hn⟩
      rw [pow_succ] at hn
      by_cases hleft : index < 2 ^ bound
      · refine ⟨bound, index, n, 0, ?_, le_rfl, ?_, ?_⟩
        · rw [findPeak, hlog, if_pos (by omega), Nat.add_sub_cancel]
          rfl
        · rw [MountainRange.proofLength, if_pos hpeak, if_pos hleft, Nat.zero_add]
        · intro items hitems
          rw [MountainRange.proofLength, if_pos hpeak, if_pos hleft] at hitems
          unfold MountainRange.recompute
          rw [if_pos hpeak, if_pos hleft, List.take_zero, List.nil_append, List.drop_zero,
            Nat.zero_add]
          cases hright : items.drop bound with
          | nil => rfl
          | cons right rest =>
            have hrest : rest = [] := by
              have hlength := congrArg List.length hright
              rw [List.length_drop, List.length_cons] at hlength
              split_ifs at hitems
              · exact List.length_eq_zero_iff.mp (by omega)
              · omega
            subst hrest
            rfl
      · have hfind : findPeak (offset + index) n offset peakIndex =
            findPeak (offset + 2 ^ bound + (index - 2 ^ bound)) (n - 2 ^ bound) (offset + 2 ^ bound)
              (peakIndex + 1) := by
          have hsum : offset + 2 ^ bound + (index - 2 ^ bound) = offset + index := by omega
          rw [findPeak, hlog, if_neg (by omega), hsum]
        have hrest : n - 2 ^ bound < 2 ^ bound := by omega
        have hindex' : index - 2 ^ bound < n - 2 ^ bound := by omega
        obtain ⟨height, localIndex, remaining, peaks, hpeakAt, hlocal, hcount, hrecompute⟩ :=
          ih hrest hindex' (offset + 2 ^ bound) (peakIndex + 1)
        refine ⟨height, localIndex, remaining, peaks + 1, ?_, by omega, ?_, ?_⟩
        · rw [hfind, hpeakAt]
          congr 1
          · omega
          · omega
        · rw [MountainRange.proofLength, if_pos hpeak, if_neg hleft, ← hcount]
          omega
        · intro items hitems
          rw [MountainRange.proofLength, if_pos hpeak, if_neg hleft] at hitems
          unfold MountainRange.recompute
          rw [if_pos hpeak, if_neg hleft]
          cases items with
          | nil =>
            rw [List.length_nil] at hitems
            omega
          | cons peak rest =>
            have hrest : rest.length =
                MountainRange.proofLength bound (n - 2 ^ bound) (index - 2 ^ bound) := by
              rw [List.length_cons] at hitems
              omega
            have hsum : peaks + 1 + height = peaks + height + 1 := by omega
            dsimp only
            rw [hrecompute rest hrest, Option.map_some, List.take_succ_cons, List.drop_succ_cons,
              hsum, List.drop_succ_cons, List.cons_append, List.cons_append, bagPeaks_cons]
            · rfl
            · simp
    · have hn' : n < 2 ^ bound := Nat.lt_of_not_le hpeak
      simp only [MountainRange.proofLength, MountainRange.recompute, if_neg hpeak]
      exact ih hn' hindex offset peakIndex

theorem verifyMmrProof_eq {mmr : MmrLibrary} (hmmr : mmr.IsStandard) (proof : Primitives.MmrProof)
    (leafIndex : ℕ) (commitment : Primitives.Commitment) :
    verifyMmrProof blake2b256 (.ofPrimitives proof) leafIndex commitment.mmrRoot
        commitment.leafCount =
      Primitives.verifyMmrProof blake2b256 mmr proof leafIndex commitment := by
  rw [Bool.eq_iff_iff, Primitives.verifyMmrProof_iff hmmr]
  unfold verifyMmrProof
  by_cases hrange : (leafIndex : ℤ) < 0 ∨ (leafIndex : ℤ) ≥ commitment.leafCount ∨
      (commitment.leafCount : ℤ) > maxMmrLeaves
  · rw [if_pos hrange]
    constructor
    · intro hfalse
      cases hfalse
    · rintro ⟨hindex, hcount, -⟩
      have hsame : Primitives.maxRangeLeaves = maxMmrLeaves := by decide
      omega
  · rw [if_neg hrange]
    push Not at hrange
    have hindex : leafIndex < commitment.leafCount := by omega
    have hcount : commitment.leafCount ≤ Primitives.maxRangeLeaves := by
      have hsame : Primitives.maxRangeLeaves = maxMmrLeaves := by decide
      omega
    obtain ⟨height, localIndex, remaining, peaks, hpeak, hlocal, hlength, hrecompute⟩ :=
      findPeak_spec (hcount.trans_lt Primitives.maxRangeLeaves_lt) hindex
        (Primitives.hashLeaf blake2b256 proof.leaf.encode) 0 0
    have hoffset : leafIndex - (0 + leafIndex - localIndex) = localIndex := by omega
    rw [Nat.zero_add] at hpeak
    simp only [Int.toNat_natCast, hpeak, Nat.zero_add, MmrProof.ofPrimitives]
    rw [Nat.zero_add] at hoffset
    rw [hlength, hoffset, mmrLeafHash_ofPrimitives]
    by_cases hitems : proof.items.length =
        MountainRange.proofLength 64 commitment.leafCount leafIndex
    · have hwithin : peaks + height ≤ proof.items.length := by omega
      rw [if_neg (not_not.mpr hitems), climbPeak_eq hwithin, decide_eq_true_eq,
        hrecompute proof.items hitems, Option.some.injEq]
      exact ⟨fun h ↦ ⟨hindex, hcount, hitems, h⟩, fun h ↦ h.2.2.2⟩
    · rw [if_pos hitems]
      constructor
      · intro hfalse
        cases hfalse
      · rintro ⟨-, -, hitems', -⟩
        exact absurd hitems' hitems

/-- The package and the primitives agree: on every range proof, every chunk proof, every tree and every
list of peaks. Assumes: the library of the primitives is the standard mountain range and bags its
peaks from the right. -/
theorem verifiers_agree {mmr : MmrLibrary} {baggingPeaksHashes : Merge → List H256 → Option H256}
    (hmmr : mmr.IsStandard) (hbagging : IsBagging baggingPeaksHashes) :
    (∀ (proof : Primitives.MmrProof) (leafIndex : ℕ) (commitment : Primitives.Commitment),
      verifyMmrProof blake2b256 (.ofPrimitives proof) leafIndex commitment.mmrRoot
          commitment.leafCount =
        Primitives.verifyMmrProof blake2b256 mmr proof leafIndex commitment) ∧
      (∀ (chunkHash : H256) (index chunks : ℕ) (siblings : List H256) (dataRoot : H256),
        verifyChunkProof blake2b256 chunkHash index siblings dataRoot chunks =
          Primitives.verifyMerkleProof blake2b256 chunkHash index chunks siblings dataRoot) ∧
        (∀ leaves : List H256,
          merkleTree blake2b256 leaves = Primitives.merkleTree blake2b256 leaves) ∧
          ∀ peaks : List H256,
            bagPeaks blake2b256 peaks = Primitives.bagPeaks blake2b256 baggingPeaksHashes peaks :=
  ⟨verifyMmrProof_eq hmmr, verifyChunkProof_eq, merkleTree_eq, bagPeaks_eq hbagging⟩

/-- The last leaf of three is a peak of its own, proved by the peak to its left. -/
def lastLeafProof : Primitives.MmrProof := ⟨⟨1, .repeatByte 3, 5, 15⟩, [.repeatByte 9]⟩

/-- The commitment to these three leaves. -/
def threeLeafCommitment : Primitives.Commitment where
  mmrRoot := Primitives.hashPeaks Primitives.blake2b256 (.repeatByte 9)
    (Primitives.hashLeaf Primitives.blake2b256 lastLeafProof.leaf.encode)
  startSeq := 0
  leafCount := 3

/-- The proof of the last of three leaves is accepted on both sides. -/
theorem verifiers_agree_last :
    verifyMmrProof Primitives.blake2b256 (.ofPrimitives lastLeafProof) 2 threeLeafCommitment.mmrRoot
        3 = true ∧
      Primitives.verifyMmrProof Primitives.blake2b256 Primitives.standardMmr lastLeafProof 2
        threeLeafCommitment = true := by
  have hagree := (@verifiers_agree Primitives.blake2b256 _ _ Primitives.standardMmr_isStandard
    Primitives.standardBagging_isBagging).1 lastLeafProof 2 threeLeafCommitment
  have haccepted : verifyMmrProof Primitives.blake2b256 (.ofPrimitives lastLeafProof) 2
      threeLeafCommitment.mmrRoot 3 = true := by
    decide +kernel
  exact ⟨haccepted, hagree.symm.trans haccepted⟩

end Web3Storage.Packages
