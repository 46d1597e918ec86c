import Web3Storage.Foundations.Chunks
import Web3Storage.Foundations.MerkleRebuild
import Web3Storage.Packages.CoreMerkle
import Web3Storage.Primitives.ChunkTree

/-!
# Bytes, nodes and blobs of the core package

The texts of provider answers and how a client reads bytes, hashes and tree nodes from them, and the
identifier of a blob. A node is read strictly, with two hashes of 32 bytes; the siblings of a chunk
proof are read leniently (`hexToBytes`) and may have any length, so a chunk proof is checked on byte
arrays here. On siblings of 32 bytes this is the check of `Web3Storage.Packages.CoreMerkle`
(`verifyChunkProofBytes_eq`).
-/

set_option autoImplicit false
set_option relaxedAutoImplicit false

namespace Web3Storage.Packages

open Foundations
open Primitives (Bytes H256 chunkRoot)

/-! ### Texts -/

/-- A string by its code units. -/
abbrev Text := List UInt16

/-- The value of a hexadecimal digit. -/
def hexDigit (unit : UInt16) : Option ℕ :=
  if 0x30 ≤ unit ∧ unit ≤ 0x39 then some (unit.toNat - 0x30)
  else if 0x61 ≤ unit ∧ unit ≤ 0x66 then some (unit.toNat - 0x61 + 10)
  else if 0x41 ≤ unit ∧ unit ≤ 0x46 then some (unit.toNat - 0x41 + 10)
  else none

/-- Whether a number is read past a unit at the start of a text. -/
def isSpace (unit : UInt16) : Bool :=
  unit ∈ [0x9, 0xa, 0xb, 0xc, 0xd, 0x20, 0xa0, 0x1680, 0x2028, 0x2029, 0x202f, 0x205f, 0x3000, 0xfeff] ||
    (0x2000 ≤ unit && unit ≤ 0x200a)

/-- `parseInt` with radix 16: white space, a sign, `0x` and as many digits as follow. None is not a
number. -/
def parseHexInt (text : Text) : Option ℤ :=
  let text := text.dropWhile isSpace
  let negative := text.head? = some 0x2d
  let text := if negative ∨ text.head? = some 0x2b then text.drop 1 else text
  let text := if text.take 2 = [0x30, 0x78] ∨ text.take 2 = [0x30, 0x58] then text.drop 2 else text
  match text.takeWhile (fun unit ↦ (hexDigit unit).isSome) with
  | [] => none
  | digits =>
    let value : ℤ := digits.foldl (fun value unit ↦ value * 16 + (hexDigit unit).getD 0) 0
    some (if negative then -value else value)

/-- A text without `0x` at its start. -/
def stripHexPrefix (hex : Text) : Text := if hex.take 2 = [0x30, 0x78] then hex.drop 2 else hex

/-- A byte for every two units, zero where they are not a number. -/
def hexToBytes (hex : Text) : Bytes :=
  let digits := stripHexPrefix hex
  (List.range (digits.length / 2)).map fun i ↦
    UInt8.ofNat ((parseHexInt ((digits.drop (i * 2)).take 2)).getD 0 % 256).toNat

/-- The bytes of the units that `atob` gives, where it does not throw. -/
def base64ToBytes (atob : Text → Option Text) (b64 : Text) : Option Bytes :=
  (atob b64).map (List.map fun unit ↦ UInt8.ofNat unit.toNat)

/-- A hash in 64 hexadecimal digits. -/
def isHashHex (hex : Text) : Bool :=
  let digits := stripHexPrefix hex
  digits.length = 64 && digits.all fun unit ↦ (hexDigit unit).isSome

/-! ### Chunks -/

def defaultChunkSize : ℕ := 256 * 1024

theorem defaultChunkSize_pos : 0 < defaultChunkSize := by
  decide

/-- The chunks from an offset on. -/
def splitChunksFrom (bytes : Bytes) (off : ℕ) : List Bytes :=
  if off < bytes.length then
    (bytes.take (min (off + defaultChunkSize) bytes.length)).drop off ::
      splitChunksFrom bytes (off + defaultChunkSize)
  else []
termination_by bytes.length - off
decreasing_by
  have hpos := defaultChunkSize_pos
  omega

def splitChunks (bytes : Bytes) : List Bytes := splitChunksFrom bytes 0

/-- The division of big integers drops the fraction. -/
def chunkCount (dataSize chunkSize : ℤ) : ℤ := (dataSize + chunkSize - 1).tdiv chunkSize

variable (blake2b256 : Bytes → H256)

/-- The identifier of a blob. None throws: empty data has no chunk tree. -/
def computeDataRoot (bytes : Bytes) : Option H256 :=
  if bytes.length = 0 then none
  else some (merkleRoot blake2b256 ((splitChunks bytes).map (hashLeaf blake2b256)))

/-! ### Nodes -/

/-- What the provider says of a node. -/
structure NodeBody where
  data : Option Text
  children : Option (List Text)

inductive TreeNode where
  | data (data : Bytes)
  | children (left right : Bytes)

/-- A node, if the body has one. Reading the data of a chunk may throw. -/
def parseNode (atob : Text → Option Text) (body : NodeBody) : Option (Option TreeNode) :=
  match body.data, body.children with
  | some data, none => (base64ToBytes atob data).map fun bytes ↦ some (.data bytes)
  | none, some [left, right] =>
    if isHashHex left && isHashHex right then
      some (some (.children (hexToBytes left) (hexToBytes right)))
    else some none
  | _, _ => some none

/-- `hashChildren` on arrays of any length. -/
def hashArrays (left right : Bytes) : H256 := blake2b256 (nodePrefix :: (left ++ right))

def nodeHash : TreeNode → H256
  | .data data => hashLeaf blake2b256 data
  | .children left right => hashArrays blake2b256 left right

/-- `verifyChunkProof` on siblings of any length. -/
def verifyChunkProofBytes (chunkHash : H256) (index : ℤ) (siblings : List Bytes) (dataRoot : H256)
    (chunks : ℤ) : Bool :=
  if index < 0 ∨ index ≥ chunks then false
  else
    match MerkleTree.climb (fun left right ↦ (hashArrays blake2b256 left right).bytes)
      chunkHash.bytes index.toNat chunks.toNat siblings with
    | some (current, []) => current = dataRoot.bytes
    | _ => false

/-! ### Rules -/

variable {blake2b256}

@[simp] theorem length_hexToBytes (hex : Text) :
    (hexToBytes hex).length = (stripHexPrefix hex).length / 2 := by
  rw [hexToBytes, List.length_map, List.length_range]

/-- The chunks from an offset on are those of the bytes from there on. -/
theorem splitChunksFrom_eq (bytes : Bytes) (off : ℕ) :
    splitChunksFrom bytes off = chunksOf defaultChunkSize (bytes.drop off) := by
  induction off using splitChunksFrom.induct bytes with
  | case1 off hlt ih =>
    have hne : bytes.drop off ≠ [] := by
      rw [← List.length_pos_iff, List.length_drop]
      omega
    rw [splitChunksFrom, if_pos hlt, ih, chunksOf_of_ne_nil defaultChunkSize_pos hne, List.drop_drop,
      List.drop_take]
    congr 1
    by_cases hlast : off + defaultChunkSize ≤ bytes.length
    · rw [min_eq_left hlast, Nat.add_sub_cancel_left]
    · rw [min_eq_right (by omega), List.take_of_length_le (by rw [List.length_drop]),
        List.take_of_length_le (by rw [List.length_drop]; omega)]
  | case2 off hge =>
    rw [splitChunksFrom, if_neg hge, List.drop_of_length_le (by omega), chunksOf_nil]

theorem splitChunks_eq (bytes : Bytes) : splitChunks bytes = chunksOf defaultChunkSize bytes := by
  rw [splitChunks, splitChunksFrom_eq, List.drop_zero]

theorem merkleRoot_chunks (chunks : List Bytes) :
    merkleRoot blake2b256 (chunks.map (hashLeaf blake2b256)) = chunkRoot blake2b256 chunks := by
  rw [merkleRoot, merkleTree_eq]
  rfl

/-- The identifier of a blob is the root of the tree over its chunks. -/
theorem computeDataRoot_of_ne_nil {bytes : Bytes} (h : bytes ≠ []) :
    computeDataRoot blake2b256 bytes = some (chunkRoot blake2b256 (splitChunks bytes)) := by
  rw [computeDataRoot, if_neg (by simpa using h), merkleRoot_chunks]

/-- A chunk proof that is accepted is a walk from the chunk to the root that uses all siblings. -/
theorem verifyChunkProofBytes_iff {chunkHash dataRoot : H256} {index chunks : ℕ}
    {siblings : List Bytes} :
    verifyChunkProofBytes blake2b256 chunkHash index siblings dataRoot chunks = true ↔
      index < chunks ∧
        MerkleTree.climb (fun left right ↦ (hashArrays blake2b256 left right).bytes) chunkHash.bytes
          index chunks siblings = some (dataRoot.bytes, []) := by
  unfold verifyChunkProofBytes
  by_cases hrange : (index : ℤ) < 0 ∨ (index : ℤ) ≥ chunks
  · rw [if_pos hrange]
    constructor
    · intro hfalse
      cases hfalse
    · intro h
      omega
  · rw [if_neg hrange, Int.toNat_natCast, Int.toNat_natCast]
    constructor
    · intro h
      split at h
      · rename_i current hclimb
        rw [hclimb, of_decide_eq_true h]
        exact ⟨by omega, rfl⟩
      · cases h
    · rintro ⟨-, hclimb⟩
      rw [hclimb]
      exact decide_eq_true rfl

/-- On siblings of 32 bytes the check is that of chunk proofs. -/
theorem verifyChunkProofBytes_eq (chunkHash : H256) (index chunks : ℕ) (siblings : List H256)
    (dataRoot : H256) :
    verifyChunkProofBytes blake2b256 chunkHash index (siblings.map H256.bytes) dataRoot chunks =
      verifyChunkProof blake2b256 chunkHash index siblings dataRoot chunks := by
  have hmap := @MerkleTree.climb_map H256 Bytes (Primitives.hashChildren blake2b256)
    (fun left right ↦ (hashArrays blake2b256 left right).bytes) H256.bytes (fun _ _ ↦ rfl)
  rw [verifyChunkProof_eq, Bool.eq_iff_iff, verifyChunkProofBytes_iff,
    Primitives.verifyMerkleProof_iff, hmap, Option.map_eq_some_iff]
  apply and_congr_right
  intro _
  constructor
  · rintro ⟨⟨top, left⟩, hclimb, htop⟩
    rw [Prod.mk.injEq, List.map_eq_nil_iff] at htop
    obtain ⟨hroot, rfl⟩ := htop
    obtain rfl : top = dataRoot := H256.ext_bytes hroot
    exact hclimb
  · intro hclimb
    exact ⟨_, hclimb, rfl⟩

end Web3Storage.Packages
