import Web3Storage.Node.ChunkReads
import Web3Storage.Primitives.ChunkTree
import Web3Storage.Primitives.TreeShape

/-!
# Reading chunks of a stored tree

The reads of a node agree with the tree they read. When the chunks and the inner nodes of
`merkle_tree` are stored, the graph under the root has the shape of the tree (`canonical_of_holdsTree`),
so that the number of chunks is found and every chunk comes with the proof that `build_merkle_proofs`
gives for it. On any other graph the reads still end: `chunkCountLoop` and `chunkWithProofLoop` are the
loops of the source with every arithmetic operation checked, and they are the reads above with their
errors renamed, so none of the operations overflows and no loop goes on past its passes. `reads_agree`
puts both together.
-/

set_option autoImplicit false
set_option relaxedAutoImplicit false

namespace Web3Storage.Node

open Foundations Primitives
open MerkleTree (levels siblings splitPoint)

/-- The hashes, the data and the proofs of the chunks of a data root with an index in a range. Leaves
out indices past the last chunk. -/
def getChunksInRange (s : Store) (dataRoot : H256) (start stop : ℕ) :
    Except StoreError (List (H256 × Bytes × List H256)) := do
  let count ← chunkCount s dataRoot
  (List.range' start (min stop count - start)).mapM (chunkWithProof s dataRoot count)

/-! ### The loops with checked arithmetic -/

/-- How a loop ends without a value: an operation overflows, the passes are used up, or it returns an
error. -/
inductive Stop
  | overflow
  | unfinished
  | failed (error : StoreError)
  deriving DecidableEq

def checkedSub (a b : ℕ) : Option ℕ := if b ≤ a then some (a - b) else none

/-- `1u64 << bits`. -/
def checkedShift (bits : ℕ) : Option ℕ := if bits < 64 then some (2 ^ bits) else none

def checkedLog2 (a : ℕ) : Option ℕ := if a = 0 then none else some a.log2

/-- `left_child_chunks` with its shift checked. -/
def leftChildChunksLoop (s : Store) (root : H256) : ℕ → ℕ → H256 → Except Stop ℕ
  | 0, _, _ => .error (.failed (.nonCanonicalTree root))
  | nodes + 1, height, hash =>
    match nodeAt s hash with
    | .error error => .error (.failed error)
    | .ok (.chunk _) => require (checkedShift height) .overflow
    | .ok (.internal left _) => leftChildChunksLoop s root nodes (height + 1) left

/-- `chunk_count` with its operations checked. -/
def chunkCountLoop (s : Store) (root : H256) : ℕ → ℕ → H256 → Except Stop ℕ
  | 0, _, _ => .error (.failed (.nonCanonicalTree root))
  | nodes + 1, count, hash =>
    match nodeAt s hash with
    | .error error => .error (.failed error)
    | .ok (.chunk _) => require (checkedAdd u64Max count 1) (.failed (.nonCanonicalTree root))
    | .ok (.internal left right) => do
      let chunks ← leftChildChunksLoop s root (maxTreeDepth + 1) 0 left
      let count ← require (checkedAdd u64Max count chunks) (.failed (.nonCanonicalTree root))
      chunkCountLoop s root nodes count right

/-- `chunk_with_proof` with its operations checked, for a number of passes. -/
def chunkWithProofLoop (s : Store) (root : H256) : ℕ → H256 → ℕ → ℕ → List H256 →
    Except Stop (H256 × Bytes × List H256)
  | 0, _, _, _, _ => .error .unfinished
  | passes + 1, hash, count, index, siblings =>
    match nodeAt s hash with
    | .error error => .error (.failed error)
    | .ok (.chunk data) =>
      if count = 1 then .ok (hash, data, siblings.reverse)
      else .error (.failed (.nonCanonicalTree root))
    | .ok (.internal left right) =>
      if count > 1 then do
        let below ← require (checkedSub count 1) .overflow
        let bits ← require (checkedLog2 below) .overflow
        let split ← require (checkedShift bits) .overflow
        if index < split then chunkWithProofLoop s root passes left split index (siblings ++ [right])
        else do
          let count ← require (checkedSub count split) .overflow
          let index ← require (checkedSub index split) .overflow
          chunkWithProofLoop s root passes right count index (siblings ++ [left])
      else .error (.failed (.nonCanonicalTree root))

section Loops

variable {s : Store} {root : H256}

theorem leftChildChunksLoop_eq {nodes height : ℕ} (hfits : height + nodes ≤ 64) (hash : H256) :
    leftChildChunksLoop s root nodes height hash =
      (leftChildChunks s root nodes height hash).mapError .failed := by
  induction nodes generalizing height hash with
  | zero => rfl
  | succ nodes ih =>
    rw [leftChildChunksLoop, leftChildChunks]
    cases nodeAt s hash with
    | error error => rfl
    | ok node =>
      cases node with
      | chunk data =>
        have hbits : checkedShift height = some (2 ^ height) := if_pos (by omega)
        dsimp only
        rw [hbits]
        rfl
      | internal left right => exact ih (by omega) left

theorem chunkCountLoop_eq (nodes count : ℕ) (hash : H256) :
    chunkCountLoop s root nodes count hash =
      (chunkCountFrom s root nodes count hash).mapError .failed := by
  induction nodes generalizing count hash with
  | zero => rfl
  | succ nodes ih =>
    rw [chunkCountLoop, chunkCountFrom]
    cases nodeAt s hash with
    | error error => rfl
    | ok node =>
      cases node with
      | chunk data =>
        dsimp only [ok_bind]
        cases checkedAdd u64Max count 1 with
        | none => rfl
        | some total => rfl
      | internal left right =>
        have hbound : 0 + (maxTreeDepth + 1) ≤ 64 := le_rfl
        dsimp only [ok_bind]
        rw [leftChildChunksLoop_eq hbound left]
        cases leftChildChunks s root (maxTreeDepth + 1) 0 left with
        | error error => rfl
        | ok chunks =>
          change ((.ok chunks : Except Stop ℕ) >>= _) =
            Except.mapError _ ((.ok chunks : Except StoreError ℕ) >>= _)
          rw [ok_bind, ok_bind]
          cases checkedAdd u64Max count chunks with
          | none => rfl
          | some total => exact ih total right

/-- The count halves with every pass, so that the passes and the operations suffice. -/
theorem chunkWithProofLoop_eq {passes height count : ℕ} (hpasses : height < passes)
    (hheight : height ≤ 64) (hcount : count ≤ 2 ^ height) (hash : H256) (index : ℕ)
    (passed : List H256) :
    chunkWithProofLoop s root passes hash count index passed =
      (chunkWithProofFrom s root hash count index passed).mapError .failed := by
  induction passes generalizing height count hash index passed with
  | zero => omega
  | succ passes ih =>
    rw [chunkWithProofLoop, chunkWithProofFrom]
    cases nodeAt s hash with
    | error error => rfl
    | ok node =>
      cases node with
      | chunk data =>
        dsimp only [ok_bind]
        split_ifs
        · rfl
        · rfl
      | internal left right =>
        dsimp only [ok_bind]
        by_cases hlong : count > 1
        · have hlt := MerkleTree.splitPoint_lt hlong
          have hhalf := MerkleTree.le_two_mul_splitPoint count
          have hdigits : Nat.log2 (count - 1) < height :=
            (Nat.pow_lt_pow_iff_right Nat.one_lt_two).mp (hlt.trans_le hcount)
          have hsplit : splitPoint count ≤ 2 ^ (height - 1) :=
            Nat.pow_le_pow_right Nat.two_pos (by omega)
          have hpart : count - splitPoint count ≤ 2 ^ (height - 1) := by omega
          have hbelow : checkedSub count 1 = some (count - 1) := if_pos (by omega)
          have hlog : checkedLog2 (count - 1) = some (count - 1).log2 := if_neg (by omega)
          have hshift : checkedShift (count - 1).log2 = some (splitPoint count) :=
            if_pos (by omega)
          have hrest : checkedSub count (splitPoint count) = some (count - splitPoint count) :=
            if_pos hlt.le
          rw [if_pos hlong, dif_pos hlong, hbelow, require_some, ok_bind, hlog, require_some, ok_bind,
            hshift, require_some, ok_bind]
          change _ = Except.mapError _ (if index < splitPoint count then _ else _)
          by_cases hside : index < splitPoint count
          · rw [if_pos hside, if_pos hside]
            exact ih (by omega) (by omega) hsplit left index _
          · have hindex : checkedSub index (splitPoint count) = some (index - splitPoint count) :=
              if_pos (by omega)
            rw [if_neg hside, if_neg hside, hrest, require_some, ok_bind, hindex, require_some,
              ok_bind]
            exact ih (by omega) (by omega) hpart right _ _
        · rw [if_neg hlong, dif_neg hlong]
          rfl

end Loops

/-! ### Stored trees -/

/-- The store holds the tree over some chunks: each chunk, and each inner node of `merkle_tree`. -/
structure HoldsTree (engine : Engine) (s : Store) (chunks : List Bytes) : Prop where
  chunk : ∀ data ∈ chunks,
    s.nodes.lookup (hashLeaf engine.blake2256 data) = some (.chunk data)
  internal : ∀ node ∈ (merkleTree engine.blake2256
    (chunks.map (hashLeaf engine.blake2256))).2,
      s.nodes.lookup node.hash = some (.internal node.left node.right)

/-- The hash of a chunk with the chunk. -/
def hashedChunk (engine : Engine) (data : Bytes) : H256 × Bytes :=
  (hashLeaf engine.blake2256 data, data)

section StoredTrees

variable {engine : Engine} {s : Store} {chunks : List Bytes}

theorem map_hashedChunk (chunks : List Bytes) :
    (chunks.map (hashedChunk engine)).map (·.1) = chunks.map (hashLeaf engine.blake2256) := by
  rw [List.map_map]
  rfl

/-- The parts of a stored tree are stored, and so is its root over them. -/
theorem HoldsTree.split (h : HoldsTree engine s chunks) (hlong : 1 < chunks.length) :
    HoldsTree engine s (chunks.take (splitPoint chunks.length)) ∧
      HoldsTree engine s (chunks.drop (splitPoint chunks.length)) ∧
      s.nodes.lookup (chunkRoot engine.blake2256 chunks) =
        some (.internal (chunkRoot engine.blake2256 (chunks.take (splitPoint chunks.length)))
          (chunkRoot engine.blake2256 (chunks.drop (splitPoint chunks.length)))) := by
  have hmap : (chunks.map (hashLeaf engine.blake2256)).length = chunks.length := List.length_map _
  have hperm := @nodesOver_perm engine.blake2256 (chunks.map (hashLeaf engine.blake2256))
    (by rwa [hmap])
  rw [hmap, ← List.map_take, ← List.map_drop] at hperm
  have hstored : ∀ node ∈ nodesOver engine.blake2256 (chunks.map (hashLeaf engine.blake2256)),
      s.nodes.lookup node.hash = some (.internal node.left node.right) := h.internal
  refine ⟨⟨?_, ?_⟩, ⟨?_, ?_⟩, ?_⟩
  · intro data hdata
    exact h.chunk data (List.mem_of_mem_take hdata)
  · intro node hnode
    apply hstored
    exact hperm.mem_iff.mpr (List.mem_append_left _ (List.mem_append_left _ hnode))
  · intro data hdata
    exact h.chunk data (List.mem_of_mem_drop hdata)
  · intro node hnode
    apply hstored
    exact hperm.mem_iff.mpr (List.mem_append_left _ (List.mem_append_right _ hnode))
  · exact hstored _ (hperm.mem_iff.mpr (List.mem_append_right _ List.mem_cons_self))

/-- Under the root of a stored tree are its chunks, in the shape of the tree. -/
theorem canonical_of_holdsTree (h : HoldsTree engine s chunks) (hne : chunks ≠ []) :
    Canonical s (chunkRoot engine.blake2256 chunks) (chunks.map (hashedChunk engine)) := by
  induction hlength : chunks.length using Nat.strongRecOn generalizing chunks with
  | ind count ih =>
    have hpos := List.length_pos_iff.mpr hne
    by_cases hlong : 1 < chunks.length
    · have hsplit := MerkleTree.splitPoint_pos chunks.length
      have hlt := MerkleTree.splitPoint_lt hlong
      have hmap : (chunks.map (hashedChunk engine)).length = chunks.length := List.length_map _
      have htake : (chunks.take (splitPoint chunks.length)).length = splitPoint chunks.length :=
        List.length_take_of_le hlt.le
      have hdrop : (chunks.drop (splitPoint chunks.length)).length =
          chunks.length - splitPoint chunks.length := List.length_drop
      obtain ⟨hleft, hright, hroot⟩ := h.split hlong
      refine .internal _ _ _ _ hroot (by rwa [hmap]) ?_ ?_
      · rw [hmap, ← List.map_take]
        exact ih _ (by omega) hleft (List.length_pos_iff.mp (by omega)) rfl
      · rw [hmap, ← List.map_drop]
        exact ih _ (by omega) hright (List.length_pos_iff.mp (by omega)) rfl
    · obtain ⟨data, rfl⟩ := List.length_eq_one_iff.mp (show chunks.length = 1 by omega)
      rw [chunkRoot_singleton]
      exact .chunk _ data (h.chunk data List.mem_cons_self)

/-- The chunk at an index of a stored tree is read with the siblings of its leaf. -/
theorem chunkWithProof_of_holdsTree (hhashed : NodesHashed engine s)
    (h : HoldsTree engine s chunks) {index : ℕ} {data : Bytes} (hdata : chunks[index]? = some data) :
    chunkWithProof s (chunkRoot engine.blake2256 chunks) chunks.length index =
      .ok (hashLeaf engine.blake2256 data, data, siblings (levels (hashChildren engine.blake2256)
        (chunks.map (hashLeaf engine.blake2256))) index) := by
  have hindex : index < chunks.length := (List.getElem?_eq_some_iff.mp hdata).1
  have hne : chunks ≠ [] := List.length_pos_iff.mp (Nat.zero_lt_of_lt hindex)
  have hchunk : (chunks.map (hashedChunk engine))[index]? = some (hashedChunk engine data) := by
    rw [List.getElem?_map, hdata]
    rfl
  have hread := @Canonical.chunkWithProofFrom_eq _ _ _ (chunkRoot engine.blake2256 chunks) _ hhashed
    (canonical_of_holdsTree h hne) _ _ hchunk []
  rw [List.length_map, List.reverse_nil, List.append_nil, map_hashedChunk] at hread
  exact hread

theorem chunkCount_of_holdsTree (h : HoldsTree engine s chunks) (hne : chunks ≠ [])
    (hfits : chunks.length ≤ u64Max) :
    chunkCount s (chunkRoot engine.blake2256 chunks) = .ok chunks.length := by
  have hcount := (canonical_of_holdsTree h hne).chunkCount_eq (by rwa [List.length_map])
  rwa [List.length_map] at hcount

/-- A range of chunks of a stored tree is read with the proofs that are built for it. -/
theorem getChunksInRange_of_holdsTree (hhashed : NodesHashed engine s)
    (h : HoldsTree engine s chunks) (hne : chunks ≠ []) (hfits : chunks.length ≤ u64Max)
    (start stop : ℕ) :
    getChunksInRange s (chunkRoot engine.blake2256 chunks) start stop =
      .ok (List.zipWith (fun data proof ↦ (hashLeaf engine.blake2256 data, data, proof))
        ((chunks.take stop).drop start) (buildMerkleProofs engine.blake2256
          (chunks.map (hashLeaf engine.blake2256)) start stop)) := by
  rw [getChunksInRange, chunkCount_of_holdsTree h hne hfits, ok_bind]
  have hreads : ∀ index ∈ List.range' start (min stop chunks.length - start),
      chunkWithProof s (chunkRoot engine.blake2256 chunks) chunks.length index =
        .ok (hashLeaf engine.blake2256 (chunks.getD index []), chunks.getD index [],
          siblings (levels (hashChildren engine.blake2256)
            (chunks.map (hashLeaf engine.blake2256))) index) := by
    intro index hindex
    rw [List.mem_range'_1] at hindex
    have hlt : index < chunks.length := by omega
    refine chunkWithProof_of_holdsTree hhashed h ?_
    rw [List.getD_eq_getElem?_getD, List.getElem?_eq_getElem hlt, Option.getD_some]
  rw [mapM_eq_ok_map hreads, buildMerkleProofs_eq, List.length_map, Except.ok.injEq]
  apply List.ext_getElem?
  intro place
  rw [List.getElem?_map, List.getElem?_zipWith, List.getElem?_map, List.getElem?_drop]
  by_cases hplace : place < min stop chunks.length - start
  · have hlt : start + place < chunks.length := by omega
    have hsum : start + 1 * place = start + place := by omega
    have hget : chunks.getD (start + place) [] = chunks[start + place] := by
      rw [List.getD_eq_getElem?_getD, List.getElem?_eq_getElem hlt, Option.getD_some]
    rw [List.getElem?_range' hplace, List.getElem?_take_of_lt (by omega), hsum,
      List.getElem?_eq_getElem hlt, Option.map_some, Option.map_some, hget]
  · have hend : (List.range' start (min stop chunks.length - start))[place]? = none := by
      rw [List.getElem?_eq_none_iff, List.length_range']
      omega
    rw [hend]
    simp

/-- The chunk at an index of a stored tree is read with the proof that is built for it. -/
theorem getChunkAtIndex_of_holdsTree (hhashed : NodesHashed engine s)
    (h : HoldsTree engine s chunks) (hfits : chunks.length ≤ u64Max) {index : ℕ} {data : Bytes}
    (hdata : chunks[index]? = some data) :
    ∃ proof, buildMerkleProofs engine.blake2256 (chunks.map (hashLeaf engine.blake2256)) index
        (index + 1) = [proof] ∧
      getChunkAtIndex s (chunkRoot engine.blake2256 chunks) index = .ok (data, proof) := by
  have hindex : index < chunks.length := (List.getElem?_eq_some_iff.mp hdata).1
  have hne : chunks ≠ [] := List.length_pos_iff.mp (Nat.zero_lt_of_lt hindex)
  refine ⟨siblings (levels (hashChildren engine.blake2256)
    (chunks.map (hashLeaf engine.blake2256))) index, ?_, ?_⟩
  · have hend : min (index + 1) chunks.length - index = 1 := by omega
    rw [buildMerkleProofs_eq, List.length_map, hend, List.range'_one, List.map_singleton]
  · have hrange : (!decide (index ≥ chunks.length)) = true := by simp [hindex]
    rw [getChunkAtIndex, chunkCount_of_holdsTree h hne hfits, ok_bind, hrange, ensure_true, ok_bind,
      chunkWithProof_of_holdsTree hhashed h hdata]
    rfl

theorem chunkCountFrom_le {root hash : H256} {nodes count total : ℕ}
    (h : chunkCountFrom s root nodes count hash = .ok total) : total ≤ u64Max := by
  induction nodes generalizing count hash with
  | zero => cases h
  | succ nodes ih =>
    simp only [chunkCountFrom, bind_eq_ok] at h
    obtain ⟨node, -, h⟩ := h
    cases node with
    | chunk data =>
      rw [require_eq_ok, checkedAdd_eq_some] at h
      omega
    | internal left right =>
      simp only [bind_eq_ok] at h
      obtain ⟨chunks, -, after, -, h⟩ := h
      exact ih h

/-- The reads of chunks end and agree with the built tree. On every store, whatever graph is under the
root, the loops of `chunk_count` and `chunk_with_proof` use up no passes and overflow nowhere: they
return what the reads return, a value or an error, and a count that fits its type. In every store that
is reached and holds the tree over some chunks, the count is theirs, and the reads of an index or a
range return the chunks there with the proofs that are built for them. -/
theorem reads_agree (engine : Engine) :
    (∀ (s : Store) (root : H256),
      chunkCountLoop s root (maxTreeDepth + 1) 0 root = (chunkCount s root).mapError .failed ∧
      (∀ count, chunkCount s root = .ok count → count ≤ u64Max) ∧
      ∀ count index passes, count ≤ u64Max → 64 < passes →
        chunkWithProofLoop s root passes root count index [] =
          (chunkWithProof s root count index).mapError .failed) ∧
    ∀ (inputs : List StoreInput) (chunks : List Bytes), chunks ≠ [] → chunks.length ≤ u64Max →
      HoldsTree engine (run (storeStep engine) Store.empty inputs) chunks →
        chunkCount (run (storeStep engine) Store.empty inputs)
            (chunkRoot engine.blake2256 chunks) = .ok chunks.length ∧
        (∀ index data, chunks[index]? = some data →
          ∃ proof, buildMerkleProofs engine.blake2256 (chunks.map (hashLeaf engine.blake2256)) index
              (index + 1) = [proof] ∧
            getChunkAtIndex (run (storeStep engine) Store.empty inputs)
              (chunkRoot engine.blake2256 chunks) index = .ok (data, proof)) ∧
        (∀ index, chunks.length ≤ index →
          getChunkAtIndex (run (storeStep engine) Store.empty inputs)
            (chunkRoot engine.blake2256 chunks) index =
              .error (.chunkIndexOutOfRange index chunks.length)) ∧
        ∀ start stop,
          getChunksInRange (run (storeStep engine) Store.empty inputs)
              (chunkRoot engine.blake2256 chunks) start stop =
            .ok (List.zipWith (fun data proof ↦ (hashLeaf engine.blake2256 data, data, proof))
              ((chunks.take stop).drop start) (buildMerkleProofs engine.blake2256
                (chunks.map (hashLeaf engine.blake2256)) start stop)) := by
  constructor
  · intro s root
    refine ⟨chunkCountLoop_eq _ _ _, fun count hcount ↦ chunkCountFrom_le hcount, ?_⟩
    intro count index passes hcount hpasses
    have hbound : u64Max ≤ 2 ^ 64 := by decide
    exact chunkWithProofLoop_eq hpasses le_rfl (hcount.trans hbound) _ _ _
  · intro inputs chunks hne hfits hstored
    have hhashed : NodesHashed engine (run (storeStep engine) Store.empty inputs) :=
      nodesHashed_run nodesHashed_empty inputs
    have hcount := chunkCount_of_holdsTree hstored hne hfits
    refine ⟨hcount, ?_, ?_, getChunksInRange_of_holdsTree hhashed hstored hne hfits⟩
    · intro index data hdata
      exact getChunkAtIndex_of_holdsTree hhashed hstored hfits hdata
    · intro index hindex
      have hrange : (!decide (index ≥ chunks.length)) = false := by simp [hindex]
      rw [getChunkAtIndex, hcount, ok_bind, hrange]
      rfl

/-- Two chunks of one byte and the node over them are stored, and read as a range. -/
theorem reads_agree_pair :
    ∃ proofs, getChunksInRange uploadedStore (chunkRoot blakeEngine.blake2256 [[7], [8]]) 0 5 =
        .ok (List.zipWith (fun data proof ↦ (hashLeaf blakeEngine.blake2256 data, data, proof))
          [[7], [8]] proofs) ∧
      chunkCount uploadedStore (chunkRoot blakeEngine.blake2256 [[7], [8]]) = .ok 2 := by
  have hstored : HoldsTree blakeEngine uploadedStore [[7], [8]] := by
    constructor
    · decide +kernel
    · decide +kernel
  obtain ⟨hcount, -, -, hrange⟩ := (reads_agree blakeEngine).2 _ [[7], [8]] (List.cons_ne_nil _ _)
    (by decide) hstored
  exact ⟨_, hrange 0 5, hcount⟩

end StoredTrees

end Web3Storage.Node
