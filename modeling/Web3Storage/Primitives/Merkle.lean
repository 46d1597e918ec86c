import Web3Storage.Foundations.MerkleTree
import Web3Storage.Primitives.Types

/-!
# Hashing and the chunk tree

The three prefixed preimages (leaf, node, peak) and the Merkle tree over the chunks of one data
root, with its verifier. The hash function blake2b-256 is a parameter.
-/

set_option autoImplicit false
set_option relaxedAutoImplicit false

namespace Web3Storage.Primitives

open Foundations

/-- The chunk size of leaf version 1. -/
def defaultChunkSize : ℕ := 256 * 1024

/-! ### Prefixed hashing -/

def leafPrefix : UInt8 := 0x00

def nodePrefix : UInt8 := 0x01

def peakPrefix : UInt8 := 0x02

variable (blake2256 : Bytes → H256)

/-- Hash a chunk or an encoded leaf. -/
def hashLeaf (data : Bytes) : H256 := blake2256 (leafPrefix :: data)

/-- Hash two hashes behind a prefix byte. -/
def hashPair (tag : UInt8) (left right : H256) : H256 :=
  blake2256 (tag :: (left.bytes ++ right.bytes))

/-- Hash two children into an internal node. -/
def hashChildren (left right : H256) : H256 := hashPair blake2256 nodePrefix left right

/-- Combine a peak with the bagged peaks to its right. -/
def hashPeaks (left right : H256) : H256 := hashPair blake2256 peakPrefix left right

/-! ### The chunk tree -/

/-- The root of the tree over some leaf hashes. No leaves give the zero hash. -/
def merkleRoot (leafHashes : List H256) : H256 :=
  match (MerkleTree.levels (hashChildren blake2256) leafHashes).getLast? with
  | some (root :: _) => root
  | _ => H256.zero

/-- Whether the siblings in `proof` link a leaf hash at an index of a tree with `leafCount` leaves
to a root, with none left over. -/
def verifyMerkleProof (leafHash : H256) (index leafCount : ℕ) (proof : List H256) (root : H256) :
    Bool :=
  if index ≥ leafCount then false
  else
    match MerkleTree.climb (hashChildren blake2256) leafHash index leafCount proof with
    | some (current, []) => current = root
    | _ => false

end Web3Storage.Primitives
