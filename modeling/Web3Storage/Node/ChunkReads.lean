import Web3Storage.Foundations.MerkleSplit
import Web3Storage.Node.CommitAndPrune
import Web3Storage.Primitives.MerkleProofs

/-!
# Reading a chunk with its proof

To answer a challenge a node reads one chunk of a data root with the siblings up to the root. It takes
the number of chunks from the nodes down the right edge and the way to a chunk from this number, so it
relies on the shape of the tree. Uploaded nodes may form any graph: two roots can share nodes, and the
split of a node is up to the client. A commit accepts a root only if it is that of the tree over its
chunks; then the graph under it has the shape of that tree (`canonical_of_under`), as long as no
stored node collides with a pair of it, and every chunk can be read (`committed_chunks_answerable`).
-/

set_option autoImplicit false
set_option relaxedAutoImplicit false

namespace Web3Storage.Node

open Foundations Primitives
open MerkleTree (levels siblings splitPoint treePairs)

/-! ### Reads -/

/-- The deepest edge a chunk tree may have. -/
def maxTreeDepth : ℕ := 63

def nodeAt (s : Store) (hash : H256) : Except StoreError ChunkTreeNode :=
  require (s.nodes.lookup hash) (.nodeNotFound hash)

/-- The chunks under a left child, by the nodes down its left edge: `2 ^ height`. The first number
counts the nodes that may still be read. -/
def leftChildChunks (s : Store) (root : H256) : ℕ → ℕ → H256 → Except StoreError ℕ
  | 0, _, _ => .error (.nonCanonicalTree root)
  | nodes + 1, height, hash => do
    match ← nodeAt s hash with
    | .chunk _ => return 2 ^ height
    | .internal left _ => leftChildChunks s root nodes (height + 1) left

/-- The chunks counted so far and those under a node, by the nodes down the right edge: each adds the
chunks of its left child. -/
def chunkCountFrom (s : Store) (root : H256) : ℕ → ℕ → H256 → Except StoreError ℕ
  | 0, _, _ => .error (.nonCanonicalTree root)
  | nodes + 1, count, hash => do
    match ← nodeAt s hash with
    | .chunk _ => require (checkedAdd u64Max count 1) (.nonCanonicalTree root)
    | .internal left right => do
      let chunks ← leftChildChunks s root (maxTreeDepth + 1) 0 left
      let count ← require (checkedAdd u64Max count chunks) (.nonCanonicalTree root)
      chunkCountFrom s root nodes count right

/-- The number of chunks under a root. -/
def chunkCount (s : Store) (root : H256) : Except StoreError ℕ :=
  chunkCountFrom s root (maxTreeDepth + 1) 0 root

/-- Go down from a node over `count` chunks to the chunk at an index, with the siblings passed so far.
Returns the hash and the data of the chunk and the siblings from the chunk up. -/
def chunkWithProofFrom (s : Store) (root hash : H256) (count index : ℕ) (passed : List H256) :
    Except StoreError (H256 × Bytes × List H256) := do
  match ← nodeAt s hash with
  | .chunk data =>
    if count = 1 then return (hash, data, passed.reverse) else .error (.nonCanonicalTree root)
  | .internal left right =>
    if _hcount : count > 1 then
      let split := 2 ^ Nat.log2 (count - 1)
      if index < split then chunkWithProofFrom s root left split index (passed ++ [right])
      else chunkWithProofFrom s root right (count - split) (index - split) (passed ++ [left])
    else .error (.nonCanonicalTree root)
termination_by count
decreasing_by
  · exact MerkleTree.splitPoint_lt _hcount
  · exact Nat.sub_lt (by omega) (MerkleTree.splitPoint_pos count)

/-- The hash, the data and the proof of a chunk of a tree with some number of chunks. -/
def chunkWithProof (s : Store) (root : H256) (chunkCount index : ℕ) :
    Except StoreError (H256 × Bytes × List H256) :=
  chunkWithProofFrom s root root chunkCount index []

/-- The data and the proof of the chunk at an index under a data root. -/
def getChunkAtIndex (s : Store) (dataRoot : H256) (chunkIndex : ℕ) :
    Except StoreError (Bytes × List H256) := do
  let count ← chunkCount s dataRoot
  ensure (!decide (chunkIndex ≥ count)) (.chunkIndexOutOfRange chunkIndex count)
  let read ← chunkWithProof s dataRoot count chunkIndex
  return (read.2.1, read.2.2)

/-! ### The graph under a node -/

variable {s : Store} {engine : Engine}

/-- Every node is stored under its content hash. -/
def NodesHashed (engine : Engine) (s : Store) : Prop :=
  ∀ hash node, s.nodes.lookup hash = some node → node.hash engine.blake2256 = hash

/-- The chunks under a node, in leaf order. -/
inductive Under (s : Store) : H256 → List (H256 × Bytes) → Prop
  | chunk (hash : H256) (data : Bytes) (hnode : s.nodes.lookup hash = some (.chunk data)) :
      Under s hash [(hash, data)]
  | internal (hash left right : H256) (before after : List (H256 × Bytes))
      (hnode : s.nodes.lookup hash = some (.internal left right)) (hleft : Under s left before)
      (hright : Under s right after) : Under s hash (before ++ after)

/-- The chunks under a node, when every split is where the tree over them has it. -/
inductive Canonical (s : Store) : H256 → List (H256 × Bytes) → Prop
  | chunk (hash : H256) (data : Bytes) (hnode : s.nodes.lookup hash = some (.chunk data)) :
      Canonical s hash [(hash, data)]
  | internal (hash left right : H256) (chunks : List (H256 × Bytes))
      (hnode : s.nodes.lookup hash = some (.internal left right)) (hlong : 1 < chunks.length)
      (hleft : Canonical s left (chunks.take (splitPoint chunks.length)))
      (hright : Canonical s right (chunks.drop (splitPoint chunks.length))) :
      Canonical s hash chunks

/-- No stored node has the hash of a pair, unless it is the node of that pair. -/
def PairsUnmatched (engine : Engine) (s : Store) (pairs : List (H256 × H256)) : Prop :=
  ∀ pair ∈ pairs, ∀ hash node, s.nodes.lookup hash = some node →
    node.hash engine.blake2256 = hashChildren engine.blake2256 pair.1 pair.2 →
      node = .internal pair.1 pair.2

/-- No stored node collides with a pair of the tree over the chunks of a root. -/
def TreeCollisionFree (engine : Engine) (s : Store) (root : H256) : Prop :=
  ∀ leaves, collectLeaves s root = .ok leaves →
    PairsUnmatched engine s (treePairs (hashChildren engine.blake2256) (leaves.map (·.1)))

/-- A walk lists the chunks under the nodes of its stack. -/
theorem under_of_walkLeaves {visits : ℕ} {stack : List H256} {leaves : List (H256 × ℕ)}
    (h : walkLeaves s visits stack = .ok leaves) :
    ∃ groups, List.Forall₂ (Under s) stack groups ∧
      leaves = groups.flatten.map fun chunk ↦ (chunk.1, chunk.2.length) := by
  induction visits generalizing stack leaves with
  | zero =>
    cases stack with
    | nil =>
      cases h
      exact ⟨[], .nil, rfl⟩
    | cons hash stack => cases h
  | succ visits ih =>
    cases stack with
    | nil =>
      cases h
      exact ⟨[], .nil, rfl⟩
    | cons hash stack =>
      simp only [walkLeaves, bind_eq_ok, require_eq_ok] at h
      obtain ⟨node, hnode, h⟩ := h
      cases node with
      | chunk data =>
        simp only [bind_eq_ok, pure_eq_ok] at h
        obtain ⟨rest, hrest, rfl⟩ := h
        obtain ⟨groups, hgroups, rfl⟩ := ih hrest
        exact ⟨[(hash, data)] :: groups, .cons (.chunk hash data hnode) hgroups, rfl⟩
      | internal left right =>
        obtain ⟨groups, hgroups, rfl⟩ := ih h
        cases hgroups with
        | cons hleft hgroups =>
          cases hgroups with
          | cons hright hgroups =>
            refine ⟨_, .cons (.internal hash left right _ _ hnode hleft hright) hgroups, ?_⟩
            simp only [List.flatten_cons, List.append_assoc]

theorem under_of_collectLeaves {root : H256} {leaves : List (H256 × ℕ)}
    (h : collectLeaves s root = .ok leaves) :
    ∃ chunks, Under s root chunks ∧
      leaves = chunks.map fun chunk ↦ (chunk.1, chunk.2.length) := by
  obtain ⟨groups, hgroups, rfl⟩ := under_of_walkLeaves h
  cases hgroups with
  | cons hroot hgroups =>
    cases hgroups
    exact ⟨_, hroot, by rw [List.flatten_cons, List.flatten_nil, List.append_nil]⟩

theorem Under.chunk_stored {hash : H256} {chunks : List (H256 × Bytes)} (h : Under s hash chunks) :
    ∀ chunk ∈ chunks, s.nodes.lookup chunk.1 = some (.chunk chunk.2) := by
  induction h with
  | chunk hash data hnode =>
    intro chunk hchunk
    rw [List.mem_singleton] at hchunk
    subst hchunk
    exact hnode
  | internal hash left right before after hnode hleft hright ihleft ihright =>
    intro chunk hchunk
    rcases List.mem_append.mp hchunk with hbefore | hafter
    · exact ihleft chunk hbefore
    · exact ihright chunk hafter

/-- The graph under a node with the root of a tree over chunk hashes has these chunks and the splits
of the tree. Assumes: no stored node collides with a pair of the tree. -/
theorem canonical_of_under (hhashed : NodesHashed engine s) {hash : H256}
    {chunks : List (H256 × Bytes)} (h : Under s hash chunks) {hashes : List H256}
    (hstored : ∀ leaf ∈ hashes, ∃ data, s.nodes.lookup leaf = some (.chunk data))
    (hroot : (levels (hashChildren engine.blake2256) hashes).getLast? = some [hash])
    (hfree : PairsUnmatched engine s (treePairs (hashChildren engine.blake2256) hashes)) :
    chunks.map (·.1) = hashes ∧ Canonical s hash chunks := by
  -- the root of more than one hash is that of an inner node with the roots of the halves
  have hsplit {node : ChunkTreeNode} {hash : H256} {hashes : List H256}
      (hnode : s.nodes.lookup hash = some node) (hlong : 1 < hashes.length)
      (hroot : (levels (hashChildren engine.blake2256) hashes).getLast? = some [hash])
      (hfree : PairsUnmatched engine s (treePairs (hashChildren engine.blake2256) hashes)) :
      ∃ left right, node = .internal left right ∧
        (levels (hashChildren engine.blake2256)
          (hashes.take (splitPoint hashes.length))).getLast? = some [left] ∧
        (levels (hashChildren engine.blake2256)
          (hashes.drop (splitPoint hashes.length))).getLast? = some [right] := by
    have hpos := MerkleTree.splitPoint_pos hashes.length
    have hlt := MerkleTree.splitPoint_lt hlong
    have htake : hashes.take (splitPoint hashes.length) ≠ [] := by
      rw [← List.length_pos_iff, List.length_take]
      omega
    have hdrop : hashes.drop (splitPoint hashes.length) ≠ [] := by
      rw [← List.length_pos_iff, List.length_drop]
      omega
    obtain ⟨left, hleft⟩ := MerkleTree.exists_root (hashChildren engine.blake2256) htake
    obtain ⟨right, hright⟩ := MerkleTree.exists_root (hashChildren engine.blake2256) hdrop
    rw [MerkleTree.getLast_levels_split hlong hleft hright] at hroot
    have hcombined : hashChildren engine.blake2256 left right = node.hash engine.blake2256 := by
      rw [hhashed hash node hnode]
      simpa using hroot
    exact ⟨left, right, hfree _ (MerkleTree.mem_treePairs_split hlong hleft hright) hash node hnode
      hcombined.symm, hleft, hright⟩
  have hone {hashes : List H256} {hash : H256} (hshort : ¬ 1 < hashes.length)
      (hroot : (levels (hashChildren engine.blake2256) hashes).getLast? = some [hash]) :
      hashes = [hash] := by
    match hashes, hshort with
    | [], _ =>
      rw [MerkleTree.levels_nil] at hroot
      cases hroot
    | [last], _ =>
      rw [MerkleTree.levels_singleton] at hroot
      cases hroot
      rfl
    | _ :: _ :: _, hshort => exact absurd (by simp) hshort
  induction h generalizing hashes with
  | chunk hash data hnode =>
    by_cases hlong : 1 < hashes.length
    · obtain ⟨left, right, hinternal, -⟩ := hsplit hnode hlong hroot hfree
      cases hinternal
    · rw [hone hlong hroot]
      exact ⟨rfl, .chunk hash data hnode⟩
  | internal hash left right before after hnode _ _ ihleft ihright =>
    by_cases hlong : 1 < hashes.length
    · obtain ⟨left', right', hinternal, hleft, hright⟩ := hsplit hnode hlong hroot hfree
      cases hinternal
      obtain ⟨htakePairs, hdropPairs⟩ :=
        @MerkleTree.treePairs_halves_subset _ (hashChildren engine.blake2256) _ hlong
      obtain ⟨hbefore, hcanonicalLeft⟩ := ihleft
        (fun leaf hleaf ↦ hstored leaf (List.mem_of_mem_take hleaf)) hleft
        (fun pair hpair ↦ hfree pair (htakePairs hpair))
      obtain ⟨hafter, hcanonicalRight⟩ := ihright
        (fun leaf hleaf ↦ hstored leaf (List.mem_of_mem_drop hleaf)) hright
        (fun pair hpair ↦ hfree pair (hdropPairs hpair))
      have hlt := MerkleTree.splitPoint_lt hlong
      have hchunks : (before ++ after).map (·.1) = hashes := by
        rw [List.map_append, hbefore, hafter, List.take_append_drop]
      have hlength : (before ++ after).length = hashes.length := by
        rw [← hchunks, List.length_map]
      have hcut : before.length = splitPoint (before ++ after).length := by
        rw [hlength, ← List.length_map (·.1), hbefore, List.length_take]
        omega
      refine ⟨hchunks, .internal hash left right _ hnode (by omega) ?_ ?_⟩
      · rwa [← hcut, List.take_left]
      · rwa [← hcut, List.drop_left]
    · obtain rfl := hone hlong hroot
      obtain ⟨data, hchunk⟩ := hstored hash List.mem_cons_self
      rw [hnode] at hchunk
      cases hchunk

/-! ### Reads of a canonical graph -/

section CanonicalReads

variable {hash root : H256} {chunks : List (H256 × Bytes)}

theorem Canonical.length_pos (h : Canonical s hash chunks) : 0 < chunks.length := by
  cases h with
  | chunk => exact Nat.zero_lt_one
  | internal left right hnode hlong => omega

theorem length_take_split (hlong : 1 < chunks.length) :
    (chunks.take (splitPoint chunks.length)).length = splitPoint chunks.length := by
  have hlt := MerkleTree.splitPoint_lt hlong
  rw [List.length_take]
  omega

theorem Canonical.chunk_stored (h : Canonical s hash chunks) :
    ∀ chunk ∈ chunks, s.nodes.lookup chunk.1 = some (.chunk chunk.2) := by
  induction h with
  | chunk hash data hnode =>
    intro chunk hchunk
    rw [List.mem_singleton] at hchunk
    subst hchunk
    exact hnode
  | internal hash left right chunks hnode hlong _ _ ihleft ihright =>
    intro chunk hchunk
    rw [← List.take_append_drop (splitPoint chunks.length) chunks] at hchunk
    rcases List.mem_append.mp hchunk with hbefore | hafter
    · exact ihleft chunk hbefore
    · exact ihright chunk hafter

/-- A node is the root of the tree over its chunks. -/
theorem Canonical.getLast_levels (hhashed : NodesHashed engine s) (h : Canonical s hash chunks) :
    (levels (hashChildren engine.blake2256) (chunks.map (·.1))).getLast? = some [hash] := by
  induction h with
  | chunk hash data hnode =>
    rw [List.map_singleton, MerkleTree.levels_singleton]
    rfl
  | internal hash left right chunks hnode hlong _ _ ihleft ihright =>
    rw [← hhashed hash _ hnode]
    refine MerkleTree.getLast_levels_split (by rwa [List.length_map]) ?_ ?_
    · rwa [List.length_map, ← List.map_take]
    · rwa [List.length_map, ← List.map_drop]

/-- The left edge of a tree over a power of two of chunks has as many nodes as its height, and the
chunk. -/
theorem Canonical.leftChildChunks_eq (h : Canonical s hash chunks) {height : ℕ}
    (hlength : chunks.length = 2 ^ height) {nodes : ℕ} (hnodes : height < nodes) (above : ℕ) :
    leftChildChunks s root nodes above hash = .ok (2 ^ (above + height)) := by
  induction h generalizing height nodes above with
  | chunk hash data hnode =>
    obtain rfl : height = 0 := by
      by_contra hne
      exact absurd hlength (Nat.one_lt_two_pow hne).ne
    obtain ⟨nodes, rfl⟩ : ∃ rest, nodes = rest + 1 := ⟨nodes - 1, by omega⟩
    simp only [leftChildChunks, nodeAt, hnode, require_some, ok_bind]
    rfl
  | internal hash left right chunks hnode hlong _ _ ihleft _ =>
    obtain ⟨below, rfl⟩ : ∃ below, height = below + 1 := by
      refine ⟨height - 1, ?_⟩
      by_contra hne
      obtain rfl : height = 0 := by omega
      omega
    obtain ⟨nodes, rfl⟩ : ∃ rest, nodes = rest + 1 := ⟨nodes - 1, by omega⟩
    have hhalf : (chunks.take (splitPoint chunks.length)).length = 2 ^ below := by
      rw [length_take_split hlong, hlength, MerkleTree.splitPoint_two_pow]
    have hsum : above + 1 + below = above + (below + 1) := by omega
    simp only [leftChildChunks, nodeAt, hnode, require_some, ok_bind]
    rw [ihleft hhalf (by omega), hsum]

/-- The right edge counts the chunks. Its nodes span half as many chunks each. -/
theorem Canonical.chunkCountFrom_eq (h : Canonical s hash chunks) {nodes : ℕ}
    (hnodes : chunks.length < 2 ^ (nodes + 1)) {count : ℕ}
    (hfits : count + chunks.length ≤ u64Max) :
    chunkCountFrom s root (nodes + 1) count hash = .ok (count + chunks.length) := by
  induction h generalizing nodes count with
  | chunk hash data hnode =>
    simp only [chunkCountFrom, nodeAt, hnode, require_some, ok_bind]
    rw [require_eq_ok, checkedAdd_eq_some]
    exact ⟨hfits, rfl⟩
  | internal hash left right chunks hnode hlong hleft _ _ ihright =>
    have hlt := MerkleTree.splitPoint_lt hlong
    have hhalf := MerkleTree.le_two_mul_splitPoint chunks.length
    obtain ⟨below, rfl⟩ : ∃ below, nodes = below + 1 := by
      refine ⟨nodes - 1, ?_⟩
      by_contra hne
      obtain rfl : nodes = 0 := by omega
      omega
    have hright := MerkleTree.sub_splitPoint_lt hnodes
    have hheight : Nat.log2 (chunks.length - 1) < maxTreeDepth + 1 := by
      have hbound : 2 ^ Nat.log2 (chunks.length - 1) < 2 ^ (maxTreeDepth + 1) := by
        change splitPoint chunks.length < _
        unfold u64Max at hfits
        unfold maxTreeDepth
        omega
      exact (Nat.pow_lt_pow_iff_right (by omega)).mp hbound
    have hchunks : leftChildChunks s root (maxTreeDepth + 1) 0 left =
        .ok (splitPoint chunks.length) := by
      rw [hleft.leftChildChunks_eq (length_take_split hlong) hheight, Nat.zero_add]
      rfl
    have hcount : checkedAdd u64Max count (splitPoint chunks.length) =
        some (count + splitPoint chunks.length) :=
      (checkedAdd_eq_some _ _ _ _).mpr ⟨by omega, rfl⟩
    have hrest : (chunks.drop (splitPoint chunks.length)).length =
        chunks.length - splitPoint chunks.length := List.length_drop
    have hsum : count + splitPoint chunks.length + (chunks.length - splitPoint chunks.length) =
        count + chunks.length := by omega
    have hstep : chunkCountFrom s root (below + 1) (count + splitPoint chunks.length) right = _ :=
      ihright (by omega) (by omega)
    rw [hrest, hsum] at hstep
    rw [chunkCountFrom]
    simp only [nodeAt, hnode, hchunks, hcount, hstep, require_some, ok_bind]

theorem Canonical.chunkCount_eq (h : Canonical s hash chunks) (hfits : chunks.length ≤ u64Max) :
    chunkCount s hash = .ok chunks.length := by
  have hbound : u64Max < 2 ^ (maxTreeDepth + 1) := by decide
  rw [chunkCount, h.chunkCountFrom_eq (hfits.trans_lt hbound) (by omega), Nat.zero_add]

/-- The way to a chunk passes its siblings. -/
theorem Canonical.chunkWithProofFrom_eq (hhashed : NodesHashed engine s) (h : Canonical s hash chunks)
    {index : ℕ} {chunk : H256 × Bytes} (hchunk : chunks[index]? = some chunk) (passed : List H256) :
    chunkWithProofFrom s root hash chunks.length index passed =
      .ok (chunk.1, chunk.2, siblings (levels (hashChildren engine.blake2256)
        (chunks.map (·.1))) index ++ passed.reverse) := by
  induction h generalizing index passed with
  | chunk hash data hnode =>
    obtain ⟨hindex, hget⟩ := List.getElem?_eq_some_iff.mp hchunk
    rw [List.length_singleton] at hindex
    obtain rfl : index = 0 := by omega
    cases hget
    rw [chunkWithProofFrom]
    simp only [nodeAt, hnode, require_some, ok_bind, List.length_singleton, if_true,
      List.map_singleton, MerkleTree.levels_singleton]
    rfl
  | internal hash left right chunks hnode hlong hleft hright ihleft ihright =>
    have hlt := MerkleTree.splitPoint_lt hlong
    have hindex : index < chunks.length := (List.getElem?_eq_some_iff.mp hchunk).1
    have hmap : (chunks.map (·.1)).length = chunks.length := List.length_map _
    have hleftRoot := hleft.getLast_levels hhashed
    have hrightRoot := hright.getLast_levels hhashed
    rw [List.map_take, ← hmap] at hleftRoot
    rw [List.map_drop, ← hmap] at hrightRoot
    rw [chunkWithProofFrom]
    simp only [nodeAt, hnode, require_some, ok_bind]
    rw [dif_pos hlong]
    change (if index < splitPoint chunks.length then _ else _) = _
    by_cases hside : index < splitPoint chunks.length
    · have hbefore : (chunks.take (splitPoint chunks.length))[index]? = some chunk := by
        rwa [List.getElem?_take_of_lt hside]
      have hstep := ihleft hbefore (passed ++ [right])
      rw [length_take_split hlong] at hstep
      rw [if_pos hside, MerkleTree.siblings_take (by rwa [hmap]) (by rwa [hmap]) hrightRoot, hmap,
        ← List.map_take]
      refine hstep.trans ?_
      rw [List.reverse_append, List.append_assoc]
      rfl
    · have hafter : (chunks.drop (splitPoint chunks.length))[index - splitPoint chunks.length]? =
          some chunk := by
        rwa [List.getElem?_drop, Nat.add_sub_cancel' (by omega)]
      have hstep := ihright hafter (passed ++ [left])
      rw [List.length_drop] at hstep
      rw [if_neg hside, MerkleTree.siblings_drop (by rwa [hmap]) (by rw [hmap]; omega)
        (by rwa [hmap]) hleftRoot, hmap, ← List.map_drop]
      refine hstep.trans ?_
      rw [List.reverse_append, List.append_assoc]
      rfl

/-- Every chunk of a canonical graph is read with a proof that the verifier accepts, and no others. -/
theorem Canonical.getChunkAtIndex_spec (hhashed : NodesHashed engine s) (h : Canonical s hash chunks)
    (hfits : chunks.length ≤ u64Max) (index : ℕ) :
    (index < chunks.length → ∃ data proof, getChunkAtIndex s hash index = .ok (data, proof) ∧
      verifyMerkleProof engine.blake2256 (hashLeaf engine.blake2256 data) index chunks.length proof
        hash = true) ∧
      (chunks.length ≤ index →
        getChunkAtIndex s hash index = .error (.chunkIndexOutOfRange index chunks.length)) := by
  have hcount : chunkCount s hash = .ok chunks.length := h.chunkCount_eq hfits
  constructor
  · intro hindex
    obtain ⟨chunk, hchunk⟩ : ∃ chunk, chunks[index]? = some chunk :=
      ⟨_, List.getElem?_eq_getElem hindex⟩
    have hread : chunkWithProofFrom s hash hash chunks.length index [] =
        .ok (chunk.1, chunk.2, siblings (levels (hashChildren engine.blake2256)
          (chunks.map (·.1))) index) := by
      rw [h.chunkWithProofFrom_eq hhashed hchunk [], List.reverse_nil, List.append_nil]
    refine ⟨chunk.2, siblings (levels (hashChildren engine.blake2256) (chunks.map (·.1))) index,
      ?_, ?_⟩
    · have hrange : (!decide (index ≥ chunks.length)) = true := by simp [hindex]
      simp only [getChunkAtIndex, hcount, ok_bind, chunkWithProof, hread, hrange, ensure_true]
      rfl
    · rw [verifyMerkleProof_iff]
      refine ⟨hindex, ?_⟩
      have hleaf : (chunks.map (·.1))[index]? = some (hashLeaf engine.blake2256 chunk.2) := by
        rw [List.getElem?_map, hchunk]
        exact congrArg some (hhashed _ _ (h.chunk_stored chunk (List.mem_of_getElem? hchunk))).symm
      have hclimb := MerkleTree.climb_siblings hleaf (h.getLast_levels hhashed) []
      rwa [List.append_nil, List.length_map] at hclimb
  · intro hindex
    have hrange : (!decide (index ≥ chunks.length)) = false := by simp [hindex]
    simp only [getChunkAtIndex, hcount, ok_bind, hrange]
    rfl

theorem Canonical.mono {later : Store}
    (hlater : ∀ hash node, s.nodes.lookup hash = some node → later.nodes.lookup hash = some node)
    (h : Canonical s hash chunks) : Canonical later hash chunks := by
  induction h with
  | chunk hash data hnode => exact .chunk hash data (hlater _ _ hnode)
  | internal hash left right chunks hnode hlong _ _ ihleft ihright =>
    exact .internal hash left right chunks (hlater _ _ hnode) hlong ihleft ihright

end CanonicalReads

/-! ### Runs of the store -/

section Runs

variable {s' : Store} {input : StoreInput}

theorem nodesHashed_empty : NodesHashed engine Store.empty := by
  intro hash node h
  cases h

theorem NodesHashed.of_effect (h : StoreEffect engine s input s') (hs : NodesHashed engine s) :
    NodesHashed engine s' := by
  cases h with
  | kept | bucketAdded | leavesAdded | leavesDropped => exact hs
  | nodeAdded bucketId node bucket hchildren hbucket hquota hnew =>
    intro hash stored hstored
    rw [FiniteMap.lookup_insert_eq] at hstored
    split_ifs at hstored with hhash
    · cases hstored
      exact hhash.symm
    · exact hs hash stored hstored

/-- Every node of a reachable store is under its content hash. -/
theorem nodesHashed_run {start : Store} (hstart : NodesHashed engine start)
    (inputs : List StoreInput) : NodesHashed engine (run (storeStep engine) start inputs) :=
  invariant_of_every_step (NodesHashed engine)
    (fun s input hs ↦ hs.of_effect (storeEffect_of_step s input)) hstart inputs

/-- A stored node stays. -/
theorem lookup_of_effect (h : StoreEffect engine s input s') {hash : H256} {node : ChunkTreeNode}
    (hnode : s.nodes.lookup hash = some node) : s'.nodes.lookup hash = some node := by
  cases h with
  | kept | bucketAdded | leavesAdded | leavesDropped => exact hnode
  | nodeAdded bucketId added bucket hchildren hbucket hquota hnew =>
    rw [FiniteMap.lookup_insert_eq]
    split_ifs with hhash
    · rw [hhash, hnew] at hnode
      cases hnode
    · exact hnode

theorem lookup_run {hash : H256} {node : ChunkTreeNode} (inputs : List StoreInput)
    (hnode : s.nodes.lookup hash = some node) :
    (run (storeStep engine) s inputs).nodes.lookup hash = some node :=
  invariant_of_every_step (fun s ↦ s.nodes.lookup hash = some node)
    (fun s input hs ↦ lookup_of_effect (storeEffect_of_step s input) hs) hnode inputs

end Runs

/-! ### Committed roots -/

section Committed

/-- A number of full chunks and a last one that is not empty. -/
private theorem div_chunks {chunkSize count last : ℕ} (hpos : 1 ≤ last) (hle : last ≤ chunkSize) :
    (count * chunkSize + last + chunkSize - 1) / chunkSize = count + 1 := by
  have hsum : count * chunkSize + last + chunkSize - 1 = last - 1 + (count + 1) * chunkSize := by
    rw [Nat.succ_mul]
    omega
  rw [hsum, Nat.add_mul_div_right _ _ (by omega), Nat.div_eq_of_lt (by omega), Nat.zero_add]

/-- The size of chunks of the default size, up to the last, gives their number. -/
theorem length_of_fixedSizes {chunkSizes : List ℕ} (h : fixedSizes chunkSizes = true) :
    (chunkSizes.sum + defaultChunkSize - 1) / defaultChunkSize = chunkSizes.length := by
  unfold fixedSizes at h
  split at h
  · cases h
  · rename_i last hlast
    simp only [Bool.and_eq_true, List.all_eq_true, decide_eq_true_eq] at h
    obtain ⟨⟨hfull, hpos⟩, hle⟩ := h
    have hinit : chunkSizes.dropLast.sum = chunkSizes.dropLast.length * defaultChunkSize := by
      have hsame := List.sum_eq_card_nsmul chunkSizes.dropLast defaultChunkSize hfull
      rwa [smul_eq_mul] at hsame
    rw [← List.dropLast_append_getLast? last hlast, List.sum_append, List.sum_singleton, hinit,
      List.length_append, List.length_singleton]
    exact div_chunks hpos hle

theorem getElem?_mapM {f : H256 → Except StoreError ℕ} {roots : List H256} {sizes : List ℕ}
    (h : roots.mapM f = .ok sizes) {i : ℕ} {root : H256} (hroot : roots[i]? = some root) :
    ∃ size, sizes[i]? = some size ∧ f root = .ok size := by
  induction roots generalizing sizes i with
  | nil => cases hroot
  | cons first rest ih =>
    simp only [List.mapM_cons, bind_eq_ok, pure_eq_ok] at h
    obtain ⟨size, hsize, others, hothers, rfl⟩ := h
    cases i with
    | zero =>
      cases hroot
      exact ⟨size, rfl, hsize⟩
    | succ i => exact ih hothers hroot

theorem getElem?_leavesAfter {data : List (H256 × ℕ)} {i : ℕ} {d : H256 × ℕ} (h : data[i]? = some d)
    (total : ℕ) : ∃ before, (leavesAfter total data)[i]? = some (leafAfter before d) := by
  induction data generalizing total i with
  | nil => cases h
  | cons first rest ih =>
    cases i with
    | zero =>
      cases h
      exact ⟨total, rfl⟩
    | succ i => exact ih h _

/-- A root with a canonical size has that size in chunks under it, in the shape of the tree. -/
theorem canonical_of_canonicalDataSize (hhashed : NodesHashed engine s) {root : H256} {size : ℕ}
    (h : canonicalDataSize engine s root = .ok size) (hfree : TreeCollisionFree engine s root) :
    ∃ chunks, Canonical s root chunks ∧ chunks.length ≤ maxTreeWalkVisits ∧
      (size + defaultChunkSize - 1) / defaultChunkSize = chunks.length := by
  simp only [canonicalDataSize, bind_eq_ok, pure_eq_ok, ensure_eq_ok, Bool.and_eq_true,
    decide_eq_true_eq] at h
  obtain ⟨leaves, hleaves, -, ⟨hfixed, hroot⟩, rfl⟩ := h
  have hlength := length_walkLeaves_le hleaves
  have hpairs := hfree leaves hleaves
  obtain ⟨chunks, hunder, rfl⟩ := under_of_collectLeaves hleaves
  have hhashes : (chunks.map fun chunk ↦ (chunk.1, chunk.2.length)).map (·.1) =
      chunks.map (·.1) := by
    rw [List.map_map]
    rfl
  have hne : chunks.map (·.1) ≠ [] := by
    intro hnil
    rw [List.map_eq_nil_iff] at hnil
    subst hnil
    cases hfixed
  have htop := getLast_levels engine.blake2256 hne
  rw [hhashes] at hroot hpairs
  rw [hroot] at htop
  refine ⟨chunks, ?_, by rwa [List.length_map] at hlength, ?_⟩
  · refine (canonical_of_under hhashed hunder ?_ htop hpairs).2
    intro leaf hleaf
    obtain ⟨chunk, hchunk, rfl⟩ := List.mem_map.mp hleaf
    exact ⟨chunk.2, hunder.chunk_stored chunk hchunk⟩
  · rw [length_of_fixedSizes hfixed, List.length_map, List.length_map]

/-- Commit implies answerable. Assumes: every node is stored under its hash, as `Sound` has it, and
none collides with a pair of the tree over the chunks of a committed root. The leaf of every root of
an accepted commit has a number of chunks; from then on, each of these is read with a proof that the
verifier accepts for that number, and any other index is reported out of range. -/
theorem committed_chunks_answerable {bucketId : ℕ} {dataRoots : List H256} {outcome : CommitOutcome}
    {s' : Store} (hhashed : NodesHashed engine s)
    (hcommit : commit engine bucketId dataRoots s = .ok (outcome, s'))
    (hfree : ∀ root ∈ dataRoots, TreeCollisionFree engine s root) :
    ∃ bucket, s'.buckets.lookup bucketId = some bucket ∧
      ∀ (i : ℕ) (root : H256), dataRoots[i]? = some root →
        ∃ (leafIndex : ℕ) (leaf : MmrLeaf) (chunkCount : ℕ), outcome.leafIndices[i]? = some leafIndex ∧
          bucket.leaves[leafIndex]? = some leaf ∧ leaf.dataRoot = root ∧
            leaf.chunkCount = some chunkCount ∧
              ∀ (inputs : List StoreInput) (index : ℕ),
                (index < chunkCount → ∃ data proof,
                  getChunkAtIndex (run (storeStep engine) s' inputs) root index =
                    .ok (data, proof) ∧
                    verifyMerkleProof engine.blake2256 (hashLeaf engine.blake2256 data) index
                      chunkCount proof root = true) ∧
                (chunkCount ≤ index →
                  getChunkAtIndex (run (storeStep engine) s' inputs) root index =
                    .error (.chunkIndexOutOfRange index chunkCount)) := by
  have hhashed' : NodesHashed engine s' := hhashed.of_effect (commit_ok hcommit).1
  have hkept : ∀ inputs hash node, s.nodes.lookup hash = some node →
      (run (storeStep engine) s' inputs).nodes.lookup hash = some node := by
    intro inputs hash node hnode
    exact lookup_run inputs (lookup_of_effect (commit_ok hcommit).1 hnode)
  simp only [commit, bind_eq_ok, pure_eq_ok, ensure_eq_ok, require_eq_ok, Prod.mk.injEq] at hcommit
  obtain ⟨-, -, sizes, hsizes, bucket, hbucket, -, -, top, -, rfl, rfl⟩ := hcommit
  refine ⟨_, Finmap.lookup_insert _, fun i root hroot ↦ ?_⟩
  obtain ⟨size, hsize, hcanonical⟩ := getElem?_mapM hsizes hroot
  have hdata : (dataRoots.zip sizes)[i]? = some (root, size) :=
    List.getElem?_zip_eq_some.mpr ⟨hroot, hsize⟩
  obtain ⟨before, hleaf⟩ := getElem?_leavesAfter hdata (lastTotal bucket.leaves)
  obtain ⟨chunks, hchunks, hlength, hcount⟩ :=
    canonical_of_canonicalDataSize hhashed hcanonical (hfree root (List.mem_of_getElem? hroot))
  have hindex : i < dataRoots.length := (List.getElem?_eq_some_iff.mp hroot).1
  refine ⟨bucket.leaves.length + i, leafAfter before (root, size), chunks.length, ?_, ?_, rfl, ?_, ?_⟩
  · rw [List.getElem?_map, List.getElem?_range hindex]
    rfl
  · rw [foldl_pushLeaf_eq, List.getElem?_append_right (Nat.le_add_right _ _),
      Nat.add_sub_cancel_left]
    exact hleaf
  · rw [← hcount]
    simp only [MmrLeaf.chunkCount, MmrLeaf.chunkSize, leafAfter,
      toNat_ofNat (canonicalDataSize_lt hcanonical).le]
    rfl
  · intro inputs index
    have hbound : maxTreeWalkVisits ≤ u64Max := by decide
    exact (hchunks.mono (hkept inputs)).getChunkAtIndex_spec (nodesHashed_run hhashed' inputs)
      (hlength.trans hbound) index

/-- The store before the commit of `smallStore`. -/
def uploadedStore : Store := run (storeStep blakeEngine) Store.empty smallStore.dropLast

/-- An engine that hashes a full chunk at once. -/
def prefixEngine : Engine := ⟨prefixHash, standardMmr⟩

/-- A full chunk. -/
def fullChunk : Bytes := List.replicate defaultChunkSize 0

/-- The hashes of a full chunk and of a byte, and of the node over both. -/
def fullHash : H256 := hashLeaf prefixHash fullChunk

def byteHash : H256 := hashLeaf prefixHash [7]

def twoChunkRoot : H256 := hashChildren prefixHash fullHash byteHash

/-- A bucket, and the tree over a full chunk and a byte. -/
def twoChunkStore : Store where
  nodes := (((∅ : FiniteMap H256 ChunkTreeNode).insert fullHash (.chunk fullChunk)).insert byteHash
    (byteChunk 7)).insert twoChunkRoot (.internal fullHash byteHash)
  buckets := (∅ : FiniteMap ℕ BucketState).insert 1 (.new 0)

private theorem lookup_twoChunkStore (hash : H256) :
    twoChunkStore.nodes.lookup hash =
      if hash = twoChunkRoot then some (.internal fullHash byteHash)
      else if hash = byteHash then some (byteChunk 7)
      else if hash = fullHash then some (.chunk fullChunk) else none := by
  rw [twoChunkStore, FiniteMap.lookup_insert_eq, FiniteMap.lookup_insert_eq, FiniteMap.lookup_insert_eq]
  rfl

private theorem nodesHashed_twoChunkStore : NodesHashed prefixEngine twoChunkStore := by
  intro hash node hnode
  rw [lookup_twoChunkStore] at hnode
  split_ifs at hnode with hroot hbyte hfull
  · cases hnode
    exact hroot.symm
  · cases hnode
    exact hbyte.symm
  · cases hnode
    exact hfull.symm

/-- The walk over the tree finds the full chunk and the byte. -/
private theorem collectLeaves_twoChunkStore : collectLeaves twoChunkStore twoChunkRoot =
    .ok [(fullHash, defaultChunkSize), (byteHash, 1)] := by
  have hroot : twoChunkStore.nodes.lookup twoChunkRoot = some (.internal fullHash byteHash) := by
    rw [lookup_twoChunkStore, if_pos rfl]
  have hfull : twoChunkStore.nodes.lookup fullHash = some (.chunk fullChunk) := by
    rw [lookup_twoChunkStore, if_neg (by decide +kernel), if_neg (by decide +kernel), if_pos rfl]
  have hbyte : twoChunkStore.nodes.lookup byteHash = some (.chunk [7]) := by
    rw [lookup_twoChunkStore, if_neg (by decide +kernel), if_pos rfl]
    rfl
  have hlength : fullChunk.length = defaultChunkSize := List.length_replicate
  have hvisits : maxTreeWalkVisits = maxTreeWalkVisits - 3 + 1 + 1 + 1 := by decide
  rw [collectLeaves, hvisits]
  simp only [walkLeaves, hroot, hfull, hbyte, require_some, ok_bind, hlength]
  rfl

/-- A commit takes the tree as one leaf of two chunks. -/
private theorem commit_twoChunkStore :
    ((commit prefixEngine 1 [twoChunkRoot] twoChunkStore).toOption.map fun result ↦
      (result.1.leafIndices[0]?,
        (result.2.buckets.lookup 1).map fun bucket ↦ bucket.leaves[0]?.map MmrLeaf.chunkCount)) =
      some (some 0, some (some (some 2))) := by
  have hstored : ensureRootsStored twoChunkStore [twoChunkRoot] = .ok () := by decide +kernel
  have hsize : canonicalDataSize prefixEngine twoChunkStore twoChunkRoot =
      .ok (defaultChunkSize + 1) := by
    simp only [canonicalDataSize, bind_eq_ok, ensure_eq_ok, pure_eq_ok]
    exact ⟨_, collectLeaves_twoChunkStore, (), by decide +kernel, rfl⟩
  rw [commit, hstored, ok_bind, List.mapM_cons, hsize, ok_bind, List.mapM_nil]
  decide +kernel

private theorem treeCollisionFree_twoChunkStore :
    TreeCollisionFree prefixEngine twoChunkStore twoChunkRoot := by
  intro leaves hleaves pair hpair hash node hnode hhash
  rw [collectLeaves_twoChunkStore, Except.ok.injEq] at hleaves
  subst hleaves
  -- the one pair is that of the root, and what is stored under the root is the node over it
  have hpairs : treePairs (hashChildren prefixHash) [fullHash, byteHash] = [(fullHash, byteHash)] := by
    rw [MerkleTree.treePairs_of_lt (by simp), treePairs, MerkleTree.nextLevel, MerkleTree.nextLevel,
      MerkleTree.levels_singleton]
    rfl
  obtain rfl : pair = (fullHash, byteHash) := List.mem_singleton.mp (hpairs ▸ hpair)
  have hroot : hash = twoChunkRoot := (nodesHashed_twoChunkStore hash node hnode).symm.trans hhash
  rw [hroot, lookup_twoChunkStore, if_pos rfl] at hnode
  exact (Option.some.inj hnode).symm

/-- The chunk of one byte is committed and read, and so are both chunks of a longer tree. -/
theorem committed_chunks_answerable_byte :
    (∃ outcome s' data proof,
      commit blakeEngine 1 [(byteChunk 7).hash blakeEngine.blake2256] uploadedStore =
          .ok (outcome, s') ∧
        getChunkAtIndex s' ((byteChunk 7).hash blakeEngine.blake2256) 0 = .ok (data, proof) ∧
          verifyMerkleProof blakeEngine.blake2256 (hashLeaf blakeEngine.blake2256 data) 0 1 proof
            ((byteChunk 7).hash blakeEngine.blake2256) = true) ∧
    ∃ outcome s', commit prefixEngine 1 [twoChunkRoot] twoChunkStore = .ok (outcome, s') ∧
      ∀ index,
        (index < 2 → ∃ data proof, getChunkAtIndex s' twoChunkRoot index = .ok (data, proof) ∧
          verifyMerkleProof prefixHash (hashLeaf prefixHash data) index 2 proof twoChunkRoot = true) ∧
        (2 ≤ index →
          getChunkAtIndex s' twoChunkRoot index = .error (.chunkIndexOutOfRange index 2)) := by
  constructor
  · have hhashed : NodesHashed blakeEngine uploadedStore := nodesHashed_run nodesHashed_empty _
    have hchunk : (collectLeaves uploadedStore ((byteChunk 7).hash blakeEngine.blake2256)).toOption =
        some [((byteChunk 7).hash blakeEngine.blake2256, 1)] := by
      decide +kernel
    have hfree : ∀ root ∈ [(byteChunk 7).hash blakeEngine.blake2256],
        TreeCollisionFree blakeEngine uploadedStore root := by
      intro root hroot leaves hleaves pair hpair
      rw [List.mem_singleton] at hroot
      subst hroot
      rw [hleaves] at hchunk
      obtain rfl := Option.some.inj hchunk
      rw [List.map_singleton, treePairs, MerkleTree.levels_singleton] at hpair
      cases hpair
    have hok : ((commit blakeEngine 1 [(byteChunk 7).hash blakeEngine.blake2256]
        uploadedStore).toOption.map fun result ↦ (result.1.leafIndices[0]?,
          (result.2.buckets.lookup 1).map fun bucket ↦ bucket.leaves[0]?.map MmrLeaf.chunkCount)) =
        some (some 0, some (some (some 1))) := by
      decide +kernel
    obtain ⟨⟨outcome, s'⟩, hsome, hleaf⟩ := Option.map_eq_some_iff.mp hok
    have hcommit := eq_ok_of_toOption hsome
    obtain ⟨bucket, hbucket, hroots⟩ := committed_chunks_answerable hhashed hcommit hfree
    obtain ⟨leafIndex, leaf, chunkCount, hindex, hget, -, hcount, hreads⟩ := hroots 0 _ rfl
    -- the leaf has one chunk
    rw [Prod.mk.injEq, hindex, hbucket, Option.some.injEq, Option.map_some, Option.some.injEq] at hleaf
    obtain ⟨rfl, hone⟩ := hleaf
    rw [hget, Option.map_some, hcount, Option.some.injEq, Option.some.injEq] at hone
    subst hone
    obtain ⟨data, proof, hread, hverified⟩ := (hreads [] 0).1 Nat.zero_lt_one
    exact ⟨outcome, s', data, proof, hcommit, hread, hverified⟩
  · obtain ⟨⟨outcome, s'⟩, hsome, hleaf⟩ := Option.map_eq_some_iff.mp commit_twoChunkStore
    have hcommit := eq_ok_of_toOption hsome
    obtain ⟨bucket, hbucket, hroots⟩ := committed_chunks_answerable nodesHashed_twoChunkStore hcommit
      (List.forall_mem_singleton.mpr treeCollisionFree_twoChunkStore)
    obtain ⟨leafIndex, leaf, chunkCount, hindex, hget, -, hcount, hreads⟩ := hroots 0 _ rfl
    -- the leaf has two chunks
    rw [Prod.mk.injEq, hindex, hbucket, Option.some.injEq, Option.map_some, Option.some.injEq] at hleaf
    obtain ⟨rfl, htwo⟩ := hleaf
    rw [hget, Option.map_some, hcount, Option.some.injEq, Option.some.injEq] at htwo
    subst htwo
    exact ⟨outcome, s', hcommit, hreads []⟩

end Committed

end Web3Storage.Node
