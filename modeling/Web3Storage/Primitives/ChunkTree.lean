import Web3Storage.Foundations.Chunks
import Web3Storage.Foundations.MerkleSplit
import Web3Storage.Primitives.MerkleProofs

/-!
# Chunk trees and their roots

The root of the tree over some chunks fixes the chunks (`chunks_eq_of_root`). The first byte of what is
hashed tells a chunk from an inner node, so that the number of chunks is fixed too. No function into 32
bytes is free of collisions everywhere: the hash function must not collide on what is hashed for the
trees at hand (`treePreimages`).
-/

set_option autoImplicit false
set_option relaxedAutoImplicit false

namespace Web3Storage.Primitives

open Foundations

variable (blake2256 : Bytes → H256)

/-- The root of the tree over some chunks. -/
def chunkRoot (chunks : List Bytes) : H256 := merkleRoot blake2256 (chunks.map (hashLeaf blake2256))

/-- What is hashed for a pair of nodes. -/
def pairPreimage (pair : H256 × H256) : Bytes := nodePrefix :: (pair.1.bytes ++ pair.2.bytes)

/-- What is hashed for the tree over some chunks. -/
def treePreimages (chunks : List Bytes) : List Bytes :=
  chunks.map (leafPrefix :: ·) ++
    (MerkleTree.treePairs (hashChildren blake2256) (chunks.map (hashLeaf blake2256))).map pairPreimage

variable {blake2256}

theorem pairPreimage_inj {pair pair' : H256 × H256} (h : pairPreimage pair = pairPreimage pair') :
    pair = pair' := by
  rw [pairPreimage, pairPreimage, List.cons.injEq] at h
  obtain ⟨hleft, hright⟩ := List.append_inj h.2 (by rw [H256.length_bytes, H256.length_bytes])
  exact Prod.ext (H256.ext_bytes hleft) (H256.ext_bytes hright)

theorem chunkRoot_singleton (chunk : Bytes) : chunkRoot blake2256 [chunk] = hashLeaf blake2256 chunk := by
  rw [chunkRoot, List.map_singleton, merkleRoot, MerkleTree.levels_singleton]
  rfl

/-- The last level over the hashes of some chunks is their root. -/
theorem getLast_levels_chunks {chunks : List Bytes} (hne : chunks ≠ []) :
    (MerkleTree.levels (hashChildren blake2256) (chunks.map (hashLeaf blake2256))).getLast? =
      some [chunkRoot blake2256 chunks] := by
  apply getLast_levels
  intro hnil
  exact hne (List.map_eq_nil_iff.mp hnil)

theorem mem_treePreimages_leaf {chunk : Bytes} {chunks : List Bytes} (h : chunk ∈ chunks) :
    leafPrefix :: chunk ∈ treePreimages blake2256 chunks :=
  List.mem_append_left _ (List.mem_map_of_mem h)

/-- The tree over part of the chunks hashes part of what the tree hashes. -/
theorem treePreimages_subset {part chunks : List Bytes} (hpart : part ⊆ chunks)
    (hpairs : MerkleTree.treePairs (hashChildren blake2256) (part.map (hashLeaf blake2256)) ⊆
      MerkleTree.treePairs (hashChildren blake2256) (chunks.map (hashLeaf blake2256))) :
    treePreimages blake2256 part ⊆ treePreimages blake2256 chunks := by
  intro preimage hmem
  rcases List.mem_append.mp hmem with hleaf | hinner
  · obtain ⟨chunk, hchunk, rfl⟩ := List.mem_map.mp hleaf
    exact mem_treePreimages_leaf (hpart hchunk)
  · obtain ⟨pair, hpair, rfl⟩ := List.mem_map.mp hinner
    exact List.mem_append_right _ (List.mem_map_of_mem (hpairs hpair))

/-- The tree over more than one chunk combines the trees over two parts. -/
theorem chunkRoot_split {chunks : List Bytes} (hlong : 1 < chunks.length) :
    ∃ left right, chunks = left ++ right ∧ left ≠ [] ∧ right ≠ [] ∧
      chunkRoot blake2256 chunks =
        blake2256 (pairPreimage (chunkRoot blake2256 left, chunkRoot blake2256 right)) ∧
      pairPreimage (chunkRoot blake2256 left, chunkRoot blake2256 right) ∈
        treePreimages blake2256 chunks ∧
      treePreimages blake2256 left ⊆ treePreimages blake2256 chunks ∧
      treePreimages blake2256 right ⊆ treePreimages blake2256 chunks := by
  have hpos := MerkleTree.splitPoint_pos chunks.length
  have hlt := MerkleTree.splitPoint_lt hlong
  have hlong' : 1 < (chunks.map (hashLeaf blake2256)).length := by rwa [List.length_map]
  have hleft : chunks.take (MerkleTree.splitPoint chunks.length) ≠ [] := by
    rw [← List.length_pos_iff, List.length_take]
    omega
  have hright : chunks.drop (MerkleTree.splitPoint chunks.length) ≠ [] := by
    rw [← List.length_pos_iff, List.length_drop]
    omega
  have hleftRoot := @getLast_levels_chunks blake2256 _ hleft
  have hrightRoot := @getLast_levels_chunks blake2256 _ hright
  obtain ⟨htake, hdrop⟩ := @MerkleTree.treePairs_halves_subset _ (hashChildren blake2256) _ hlong'
  rw [List.length_map, ← List.map_take] at htake
  rw [List.length_map, ← List.map_drop] at hdrop
  rw [List.map_take] at hleftRoot
  rw [List.map_drop] at hrightRoot
  have hsplit : MerkleTree.splitPoint chunks.length =
      MerkleTree.splitPoint (chunks.map (hashLeaf blake2256)).length := by
    rw [List.length_map]
  rw [hsplit] at hleftRoot hrightRoot
  have hroot := MerkleTree.getLast_levels_split hlong' hleftRoot hrightRoot
  have hmem := MerkleTree.mem_treePairs_split hlong' hleftRoot hrightRoot
  rw [← hsplit] at hroot hmem
  have hne : chunks ≠ [] := List.length_pos_iff.mp (by omega)
  rw [getLast_levels_chunks hne, Option.some.injEq, List.cons.injEq] at hroot
  exact ⟨_, _, (List.take_append_drop _ chunks).symm, hleft, hright, hroot.1,
    List.mem_append_right _ (List.mem_map_of_mem hmem),
    treePreimages_subset (List.take_subset _ _) htake,
    treePreimages_subset (List.drop_subset _ _) hdrop⟩

/-- Without collisions on what is hashed for their trees, chunks with one root are the same. -/
theorem chunks_eq_of_root {preimages : Set Bytes} (hfree : Set.InjOn blake2256 preimages)
    {chunks chunks' : List Bytes} (hne : chunks ≠ []) (hne' : chunks' ≠ [])
    (hhashed : ∀ preimage ∈ treePreimages blake2256 chunks, preimage ∈ preimages)
    (hhashed' : ∀ preimage ∈ treePreimages blake2256 chunks', preimage ∈ preimages)
    (h : chunkRoot blake2256 chunks = chunkRoot blake2256 chunks') : chunks = chunks' := by
  -- a chunk and an inner node start with different bytes
  have hkind {chunk : Bytes} {chunks : List Bytes} (hlong : 1 < chunks.length)
      (hleaf : leafPrefix :: chunk ∈ preimages)
      (hhashed : ∀ preimage ∈ treePreimages blake2256 chunks, preimage ∈ preimages)
      (hroot : hashLeaf blake2256 chunk = chunkRoot blake2256 chunks) : False := by
    obtain ⟨left, right, -, -, -, hsplit, hmem, -⟩ := @chunkRoot_split blake2256 _ hlong
    rw [hsplit] at hroot
    have hsame := hfree hleaf (hhashed _ hmem) hroot
    cases hsame
  induction hlength : chunks.length using Nat.strongRecOn generalizing chunks chunks' with
  | ind count ih =>
    have hpos := List.length_pos_iff.mpr hne
    have hpos' := List.length_pos_iff.mpr hne'
    by_cases hlong : 1 < chunks.length
    · by_cases hlong' : 1 < chunks'.length
      · obtain ⟨left, right, rfl, hleft, hright, hsplit, hmem, hleftSub, hrightSub⟩ :=
          @chunkRoot_split blake2256 _ hlong
        obtain ⟨left', right', rfl, hleft', hright', hsplit', hmem', hleftSub', hrightSub'⟩ :=
          @chunkRoot_split blake2256 _ hlong'
        rw [hsplit, hsplit'] at h
        have hpair := pairPreimage_inj (hfree (hhashed _ hmem) (hhashed' _ hmem') h)
        rw [Prod.mk.injEq] at hpair
        have hleftPos := List.length_pos_iff.mpr hleft
        have hrightPos := List.length_pos_iff.mpr hright
        rw [List.length_append] at hlength
        have hsameLeft : left = left' := by
          apply ih left.length (by omega) hleft hleft' _ _ hpair.1 rfl
          · intro preimage hpreimage
            exact hhashed _ (hleftSub hpreimage)
          · intro preimage hpreimage
            exact hhashed' _ (hleftSub' hpreimage)
        have hsameRight : right = right' := by
          apply ih right.length (by omega) hright hright' _ _ hpair.2 rfl
          · intro preimage hpreimage
            exact hhashed _ (hrightSub hpreimage)
          · intro preimage hpreimage
            exact hhashed' _ (hrightSub' hpreimage)
        rw [hsameLeft, hsameRight]
      · obtain ⟨chunk', rfl⟩ := List.length_eq_one_iff.mp (show chunks'.length = 1 by omega)
        rw [chunkRoot_singleton] at h
        exact (hkind hlong (hhashed' _ (mem_treePreimages_leaf List.mem_cons_self)) hhashed
          h.symm).elim
    · obtain ⟨chunk, rfl⟩ := List.length_eq_one_iff.mp (show chunks.length = 1 by omega)
      by_cases hlong' : 1 < chunks'.length
      · rw [chunkRoot_singleton] at h
        exact (hkind hlong' (hhashed _ (mem_treePreimages_leaf List.mem_cons_self)) hhashed' h).elim
      · obtain ⟨chunk', rfl⟩ := List.length_eq_one_iff.mp (show chunks'.length = 1 by omega)
        rw [chunkRoot_singleton, chunkRoot_singleton] at h
        have hsame := hfree (hhashed _ (mem_treePreimages_leaf List.mem_cons_self))
          (hhashed' _ (mem_treePreimages_leaf List.mem_cons_self)) h
        rw [List.cons.injEq] at hsame
        rw [hsame.2]

end Web3Storage.Primitives
