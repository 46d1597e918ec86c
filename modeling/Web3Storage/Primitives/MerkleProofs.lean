import Web3Storage.Foundations.Blake2b
import Web3Storage.Primitives.Merkle

/-!
# Proofs for the leaves of a chunk tree

The tree with its inner nodes, and the proofs for its leaves. A built proof is accepted for its leaf
(`built_proof_accepted`). An accepted proof is the built one, for the leaf at its index, as long as no
pair the verifier hashes collides with a pair of the tree (`accepted_proof_built`): the index and the
number of leaves fix at which levels there is a sibling and on which side.
-/

set_option autoImplicit false
set_option relaxedAutoImplicit false

namespace Web3Storage.Primitives

open Foundations

/-- An inner node of the tree. -/
structure MerkleNode where
  hash : H256
  left : H256
  right : H256
  deriving DecidableEq

/-- The inner nodes over the pairs of a level, with their hashes from the next level. -/
def levelNodes : List H256 → List H256 → List MerkleNode
  | left :: right :: rest, hash :: hashes => ⟨hash, left, right⟩ :: levelNodes rest hashes
  | _, _ => []

/-- The inner nodes of some levels, children before parents. -/
def treeNodes : List (List H256) → List MerkleNode
  | level :: next :: rest => levelNodes level next ++ treeNodes (next :: rest)
  | _ => []

section Proofs

variable (blake2256 : Bytes → H256)

/-- The root and the inner nodes of the tree over some leaf hashes. -/
def merkleTree (leafHashes : List H256) : H256 × List MerkleNode :=
  (merkleRoot blake2256 leafHashes,
    treeNodes (MerkleTree.levels (hashChildren blake2256) leafHashes))

/-- The proofs for the leaves with indices from `start` to before `stop`, without those past the last
leaf. -/
def buildMerkleProofs (leafHashes : List H256) (start stop : ℕ) : List (List H256) :=
  let stop := min stop leafHashes.length
  let start := min start stop
  if start = stop then []
  else
    let levels := MerkleTree.levels (hashChildren blake2256) leafHashes
    (List.range' start (stop - start)).map (MerkleTree.siblings levels)

variable {blake2256}

variable (blake2256) in
/-- The last level over some leaves is their root. -/
theorem getLast_levels {leafHashes : List H256} (hne : leafHashes ≠ []) :
    (MerkleTree.levels (hashChildren blake2256) leafHashes).getLast? =
      some [merkleRoot blake2256 leafHashes] := by
  obtain ⟨top, htop⟩ := MerkleTree.exists_root (hashChildren blake2256) hne
  rw [merkleRoot, htop]

variable (blake2256) in
/-- The proofs of a range, which ends with the leaves. -/
theorem buildMerkleProofs_eq (leafHashes : List H256) (start stop : ℕ) :
    buildMerkleProofs blake2256 leafHashes start stop =
      (List.range' start (min stop leafHashes.length - start)).map
        (MerkleTree.siblings (MerkleTree.levels (hashChildren blake2256) leafHashes)) := by
  unfold buildMerkleProofs
  dsimp only
  by_cases hstart : start < min stop leafHashes.length
  · rw [min_eq_left hstart.le, if_neg hstart.ne]
  · push Not at hstart
    rw [min_eq_right hstart, if_pos rfl, Nat.sub_eq_zero_of_le hstart]
    rfl

variable (blake2256) in
/-- The proofs of a range are those of its leaves. -/
theorem getElem?_buildMerkleProofs {leafHashes : List H256} {start stop index : ℕ}
    (hstart : start ≤ index) (hstop : index < stop) (hindex : index < leafHashes.length) :
    (buildMerkleProofs blake2256 leafHashes start stop)[index - start]? =
      some (MerkleTree.siblings (MerkleTree.levels (hashChildren blake2256) leafHashes) index) := by
  have hend : min stop leafHashes.length > index := lt_min hstop hindex
  have hbegin : min start (min stop leafHashes.length) = start := min_eq_left (by omega)
  have hplace : index - start < min stop leafHashes.length - start := by omega
  have hsum : start + 1 * (index - start) = index := by omega
  unfold buildMerkleProofs
  dsimp only
  rw [hbegin, if_neg (by omega), List.getElem?_map, List.getElem?_range' hplace, hsum]
  rfl

/-- The verifier accepts a walk that uses up the proof and ends at the root. -/
theorem verifyMerkleProof_iff {leafHash root : H256} {index leafCount : ℕ} {proof : List H256} :
    verifyMerkleProof blake2256 leafHash index leafCount proof root = true ↔
      index < leafCount ∧
        MerkleTree.climb (hashChildren blake2256) leafHash index leafCount proof =
          some (root, []) := by
  unfold verifyMerkleProof
  by_cases hindex : index ≥ leafCount
  · rw [if_pos hindex]
    constructor
    · intro hfalse
      cases hfalse
    · rintro ⟨hlt, -⟩
      omega
  · rw [if_neg hindex]
    push Not at hindex
    constructor
    · intro h
      split at h
      · rename_i current hclimb
        rw [hclimb, of_decide_eq_true h]
        exact ⟨hindex, rfl⟩
      · cases h
    · rintro ⟨-, hclimb⟩
      rw [hclimb]
      exact decide_eq_true rfl

/-- A proof that is built for a leaf is accepted for it. -/
theorem built_proof_accepted {leafHashes : List H256} {start stop index : ℕ} {leafHash : H256}
    (hstart : start ≤ index) (hstop : index < stop) (hleaf : leafHashes[index]? = some leafHash) :
    ∃ proof, (buildMerkleProofs blake2256 leafHashes start stop)[index - start]? = some proof ∧
      verifyMerkleProof blake2256 leafHash index leafHashes.length proof
        (merkleRoot blake2256 leafHashes) = true := by
  have hindex : index < leafHashes.length := (List.getElem?_eq_some_iff.mp hleaf).1
  have hne : leafHashes ≠ [] := List.length_pos_iff.mp (Nat.zero_lt_of_lt hindex)
  refine ⟨_, getElem?_buildMerkleProofs blake2256 hstart hstop hindex, ?_⟩
  rw [verifyMerkleProof_iff]
  refine ⟨hindex, ?_⟩
  have hclimb := MerkleTree.climb_siblings hleaf (getLast_levels blake2256 hne) []
  rwa [List.append_nil] at hclimb

/-- The hash function of the protocol. -/
def blake2b256 (bytes : Bytes) : H256 := ⟨Blake2b.digest bytes, Blake2b.length_digest bytes⟩

/-- A hash function that keeps the first bytes, for runs on strings that are too long for the other. -/
def prefixHash (bytes : Bytes) : H256 := ⟨(bytes ++ List.replicate 32 0).take 32, by simp⟩

/-- The same hash function, faster to evaluate. -/
def blake2b256Words (bytes : Bytes) : H256 where
  bytes := Blake2b.digestWords bytes
  length_bytes := by rw [← Blake2b.digest_eq, Blake2b.length_digest]

theorem blake2b256_eq : blake2b256 = blake2b256Words := by
  funext bytes
  unfold blake2b256 blake2b256Words
  simp only [Blake2b.digest_eq]

/-- The hashes of three leaves. The last one moves up a level. -/
def threeLeaves : List H256 := [.repeatByte 1, .repeatByte 2, .repeatByte 3]

theorem built_proof_accepted_last :
    ∃ proof, (buildMerkleProofs blake2b256 threeLeaves 0 3)[2]? = some proof ∧
      verifyMerkleProof blake2b256 (.repeatByte 3) 2 3 proof (merkleRoot blake2b256 threeLeaves) =
        true :=
  built_proof_accepted (Nat.zero_le 2) (Nat.lt_succ_self 2) rfl

/-- What the tree over some leaves and the verifier of a proof hash in pairs. -/
def hashedPairs (blake2256 : Bytes → H256) (leafHashes : List H256) (leafHash : H256) (index : ℕ)
    (proof : List H256) : List (H256 × H256) :=
  MerkleTree.treePairs (hashChildren blake2256) leafHashes ++
    MerkleTree.climbPairs (hashChildren blake2256) leafHash index leafHashes.length proof

/-- No two different pairs have the same hash. -/
def PairsCollisionFree (blake2256 : Bytes → H256) (pairs : List (H256 × H256)) : Prop :=
  ∀ pair ∈ pairs, ∀ pair' ∈ pairs,
    hashChildren blake2256 pair.1 pair.2 = hashChildren blake2256 pair'.1 pair'.2 → pair = pair'

instance (blake2256 : Bytes → H256) (pairs : List (H256 × H256)) :
    Decidable (PairsCollisionFree blake2256 pairs) :=
  inferInstanceAs (Decidable (∀ pair ∈ pairs, ∀ pair' ∈ pairs, _ → _))

/-- A proof that is accepted for some hash, index and the number of leaves against the root is the one
that is built for this index, and the hash is that of the leaf there. -/
theorem accepted_proof_built {leafHashes : List H256} {leafHash : H256} {index : ℕ}
    {proof : List H256}
    (hfree : PairsCollisionFree blake2256 (hashedPairs blake2256 leafHashes leafHash index proof))
    (haccepted : verifyMerkleProof blake2256 leafHash index leafHashes.length proof
      (merkleRoot blake2256 leafHashes) = true) :
    index < leafHashes.length ∧ leafHashes[index]? = some leafHash ∧
      buildMerkleProofs blake2256 leafHashes index (index + 1) = [proof] := by
  obtain ⟨hindex, hclimb⟩ := verifyMerkleProof_iff.mp haccepted
  have hne : leafHashes ≠ [] := List.length_pos_iff.mp (Nat.zero_lt_of_lt hindex)
  obtain ⟨hleaf, hproof⟩ := MerkleTree.eq_siblings_of_climb hindex (getLast_levels blake2256 hne)
    (fun pair hpair pair' hpair' ↦ hfree pair (List.mem_append_right _ hpair) pair'
      (List.mem_append_left _ hpair')) hclimb
  refine ⟨hindex, hleaf, ?_⟩
  rw [List.append_nil] at hproof
  have hfirst := getElem?_buildMerkleProofs blake2256 le_rfl (Nat.lt_succ_self index)
    hindex
  rw [Nat.sub_self, ← hproof] at hfirst
  have hlength : (buildMerkleProofs blake2256 leafHashes index (index + 1)).length = 1 := by
    have hend : min (index + 1) leafHashes.length = index + 1 := min_eq_left hindex
    have hbegin : min index (index + 1) = index := min_eq_left (Nat.le_succ index)
    unfold buildMerkleProofs
    dsimp only
    rw [hend, hbegin, if_neg (Nat.ne_of_lt (Nat.lt_succ_self index)), List.length_map,
      List.length_range', Nat.add_sub_cancel_left]
  obtain ⟨only, honly⟩ := List.length_eq_one_iff.mp hlength
  rw [honly] at hfirst ⊢
  cases hfirst
  rfl

/-- The sibling of the last of three leaves: the two before it, combined. -/
def lastProof : List H256 := [hashChildren blake2b256 (.repeatByte 1) (.repeatByte 2)]

theorem accepted_proof_built_last :
    threeLeaves[2]? = some (.repeatByte 3) ∧
      buildMerkleProofs blake2b256 threeLeaves 2 3 = [lastProof] := by
  have hfree : PairsCollisionFree blake2b256
      (hashedPairs blake2b256 threeLeaves (.repeatByte 3) 2 lastProof) := by
    rw [lastProof, blake2b256_eq]
    decide +kernel
  have haccepted : verifyMerkleProof blake2b256 (.repeatByte 3) 2 threeLeaves.length lastProof
      (merkleRoot blake2b256 threeLeaves) = true := by
    rw [lastProof, blake2b256_eq]
    decide +kernel
  exact (accepted_proof_built hfree haccepted).2

end Proofs

end Web3Storage.Primitives
