import Web3Storage.Packages.ProviderHttp

/-!
# Blob reads and the root

What a blob read returns has the root that was asked for, unless one of three things happens that
`readBlob` does not check: the size given is zero, a sibling in a proof does not have 32 bytes, or the
tree that is walked ends with an empty chunk (`readBlob_bound_iff`). The sized read trusts the size for
the shape of the tree, and proofs for all places of this shape pin its root
(`MerkleTree.root_of_climbs`); the walk trusts the nodes for the shape and checks the root itself.

The hash function must not collide on what is hashed for the read (`readPreimages`).
-/

set_option autoImplicit false
set_option relaxedAutoImplicit false

namespace Web3Storage.Packages

open Foundations
open MerkleTree (Reaches Distinguishes climbPairs treePairs levels)
open Primitives (Bytes H256 chunkRoot treePreimages pairPreimage)

variable (blake2b256 : Bytes → H256) (atob : Text → Option Text)

/-! ### The promise and its conditions -/

/-- What a reader relies on: the bytes are not empty, have the root as identifier and are within the
limit. -/
def Bound (root : H256) (opts : ReadBlobOpts) (bytes : Bytes) : Prop :=
  bytes ≠ [] ∧ computeDataRoot blake2b256 bytes = some root ∧
    ∀ maxSize ∈ opts.maxSize, (bytes.length : ℤ) ≤ maxSize

/-- What a read takes from its caller and from the provider without a check: the size is not zero and
every sibling has 32 bytes, or the tree does not end with an empty chunk. -/
def SoundAnswers (provider : Provider) (opts : ReadBlobOpts) : Prop :=
  match opts.size with
  | some size =>
    size ≠ 0 ∧ ∀ chunk ∈ served provider (chunkCount size defaultChunkSize) 0,
      ∀ sibling ∈ chunk.proof, (hexToBytes sibling).length = 32
  | none => ¬ EndsWith atob provider [] []

/-- The nodes on the walks of a chunk proof, as byte arrays. -/
def combineArrays (left right : Bytes) : Bytes := (hashArrays blake2b256 left right).bytes

/-- The pairs that the proofs of some answers combine. -/
def proofPairs (provider : Provider) (total : ℕ) : Set (Bytes × Bytes) :=
  {pair | ∃ (index : ℕ) (chunk : ReadChunk) (data : Bytes),
    (served provider total 0)[index]? = some chunk ∧ base64ToBytes atob chunk.data = some data ∧
      pair ∈ climbPairs (combineArrays blake2b256) (hashLeaf blake2b256 data).bytes index total
        (chunk.proof.map hexToBytes)}

/-- What is hashed for a read and for the identifier of its bytes. A walk hashes their chunks, which an
empty one may follow; a sized read hashes along the proofs. -/
def readPreimages (provider : Provider) (opts : ReadBlobOpts) (bytes : Bytes) : Set Bytes :=
  {preimage | preimage ∈ treePreimages blake2b256 (splitChunks bytes)} ∪
    match opts.size with
    | none => {preimage | preimage ∈ treePreimages blake2b256 (splitChunks bytes ++ [[]])}
    | some size =>
      (fun pair ↦ nodePrefix :: (pair.1 ++ pair.2)) ''
        proofPairs blake2b256 atob provider (chunkCount size defaultChunkSize).toNat

variable {blake2b256 atob} {provider : Provider} {root : H256}

/-! ### Lengths -/

theorem chunkCount_of_nonneg (size : ℕ) :
    chunkCount size defaultChunkSize = ((size + defaultChunkSize - 1) / defaultChunkSize : ℕ) := by
  have hpos := defaultChunkSize_pos
  have hsum : (size : ℤ) + defaultChunkSize - 1 = (size + defaultChunkSize - 1 : ℕ) := by omega
  rw [chunkCount, hsum]
  rfl

/-- As many chunks as the size needs, all but the last full: the last one is not empty. -/
theorem last_ne_nil {chunkSize : ℕ} (hpos : 0 < chunkSize) {chunks : List Bytes}
    (hfull : ∀ chunk ∈ chunks.dropLast, chunk.length = chunkSize) (hsize : 0 < (chunks.map List.length).sum)
    (hcount : chunks.length = ((chunks.map List.length).sum + chunkSize - 1) / chunkSize) {last : Bytes}
    (hlast : chunks.getLast? = some last) : last ≠ [] := by
  intro hnil
  have hsplit := List.dropLast_append_getLast? last hlast
  have hsum : (chunks.map List.length).sum = chunks.dropLast.length * chunkSize := by
    have hsame : ∀ length ∈ chunks.dropLast.map List.length, length = chunkSize := by
      intro length hlength
      obtain ⟨chunk, hchunk, rfl⟩ := List.mem_map.mp hlength
      exact hfull chunk hchunk
    have htotal := List.sum_eq_card_nsmul _ chunkSize hsame
    rw [List.length_map, smul_eq_mul] at htotal
    rw [← hsplit, List.map_append, List.sum_append, htotal, hnil, List.dropLast_concat]
    simp
  have hlength : chunks.length = chunks.dropLast.length + 1 := by
    rw [← hsplit, List.length_append, List.dropLast_concat]
    rfl
  have hquotient : (chunks.dropLast.length * chunkSize + chunkSize - 1) / chunkSize =
      chunks.dropLast.length := by
    apply Nat.div_eq_of_lt_le
    · omega
    · rw [Nat.add_mul]
      omega
  rw [hsum, hquotient] at hcount
  omega

/-- Chunks of the right lengths with a last one that is not empty are those of their bytes. -/
theorem splitChunks_flatten {chunks : List Bytes}
    (hfull : ∀ chunk ∈ chunks.dropLast, chunk.length = defaultChunkSize)
    (hlast : ∀ last, chunks.getLast? = some last → last.length ≤ defaultChunkSize)
    (hne : ∀ last, chunks.getLast? = some last → last ≠ []) :
    splitChunks chunks.flatten = chunks := by
  rw [splitChunks_eq]
  exact chunksOf_flatten defaultChunkSize_pos hfull fun last h ↦ ⟨hne last h, hlast last h⟩

theorem flatten_ne_nil {chunks : List Bytes} {last : Bytes} (hlast : chunks.getLast? = some last)
    (hne : last ≠ []) : chunks.flatten ≠ [] := by
  rw [← List.dropLast_append_getLast? last hlast, List.flatten_append]
  intro hnil
  have hflat := (List.append_eq_nil_iff.mp hnil).2
  rw [List.flatten_cons, List.flatten_nil, List.append_nil] at hflat
  exact hne hflat

/-- Bytes whose chunks are known have their root as identifier. -/
theorem bound_iff {opts : ReadBlobOpts} {bytes : Bytes} (hne : bytes ≠ [])
    (hlimit : ∀ maxSize ∈ opts.maxSize, (bytes.length : ℤ) ≤ maxSize) :
    Bound blake2b256 root opts bytes ↔ chunkRoot blake2b256 (splitChunks bytes) = root := by
  unfold Bound
  rw [computeDataRoot_of_ne_nil hne, Option.some.injEq]
  exact ⟨fun h ↦ h.2.1, fun h ↦ ⟨hne, h, hlimit⟩⟩

/-! ### The sized read -/

section Sized

variable {total : ℕ} {chunks : List Bytes}

/-- Every proof of a sized read is accepted for the chunk of its place. -/
theorem accepted_of_checkChunks
    (h : checkChunks blake2b256 atob root total 0 (served provider total 0) = .ok chunks) {index : ℕ}
    {chunk : ReadChunk} (hchunk : (served provider total 0)[index]? = some chunk) :
    ∃ data, chunks[index]? = some data ∧ base64ToBytes atob chunk.data = some data ∧
      MerkleTree.climb (combineArrays blake2b256) (hashLeaf blake2b256 data).bytes index total
        (chunk.proof.map hexToBytes) = some (root.bytes, []) := by
  obtain ⟨data, hget, hdata, haccepted⟩ := (checkChunks_spec h).2 index chunk hchunk
  rw [Nat.zero_add, verifyChunkProofBytes_iff] at haccepted
  exact ⟨data, hget, hdata, haccepted.2⟩

/-- Two pairs of arrays that are hashed to one node are the same, where one has two hashes and the
other has one at least. -/
theorem pair_eq_of_hash {preimages : Set Bytes} (hfree : Set.InjOn blake2b256 preimages)
    {pair pair' : Bytes × Bytes} (hmem : nodePrefix :: (pair.1 ++ pair.2) ∈ preimages)
    (hmem' : nodePrefix :: (pair'.1 ++ pair'.2) ∈ preimages)
    (hside : pair.1.length = 32 ∨ pair.2.length = 32)
    (hsides' : pair'.1.length = 32 ∧ pair'.2.length = 32)
    (h : combineArrays blake2b256 pair.1 pair.2 = combineArrays blake2b256 pair'.1 pair'.2) :
    pair = pair' := by
  have hsame := hfree hmem hmem' (H256.ext_bytes h)
  rw [List.cons.injEq] at hsame
  have hlength := congrArg List.length hsame.2
  rw [List.length_append, List.length_append, hsides'.1, hsides'.2] at hlength
  have hleft : pair.1.length = pair'.1.length := by
    rw [hsides'.1]
    omega
  obtain ⟨hfirst, hsecond⟩ := List.append_inj hsame.2 hleft
  exact Prod.ext hfirst hsecond

/-- A walk starts from a hash and combines hashes. -/
theorem length_combineArrays (left right : Bytes) :
    (combineArrays blake2b256 left right).length = 32 :=
  H256.length_bytes _

/-- The tree over the chunk hashes, with its nodes as arrays. -/
theorem levels_arrays (chunks : List Bytes) :
    levels (combineArrays blake2b256) ((chunks.map (hashLeaf blake2b256)).map H256.bytes) =
      (levels (Primitives.hashChildren blake2b256) (chunks.map (Primitives.hashLeaf blake2b256))).map
        (List.map H256.bytes) :=
  MerkleTree.levels_map (fun _ _ ↦ rfl) _

theorem getLast_levels_arrays (hne : chunks ≠ []) :
    (levels (combineArrays blake2b256)
      ((chunks.map (hashLeaf blake2b256)).map H256.bytes)).getLast? =
        some [(chunkRoot blake2b256 chunks).bytes] := by
  rw [levels_arrays, List.getLast?_map, Primitives.getLast_levels_chunks hne]
  rfl

/-- Chunks with proofs of 32-byte siblings for all places have the root. -/
theorem root_of_proofs {preimages : Set Bytes} (hfree : Set.InjOn blake2b256 preimages)
    (hhashed : ∀ pair ∈ proofPairs blake2b256 atob provider total,
      nodePrefix :: (pair.1 ++ pair.2) ∈ preimages)
    (hchecked : checkChunks blake2b256 atob root total 0 (served provider total 0) = .ok chunks)
    (htotal : chunks.length = total) (hne : chunks ≠ [])
    (hproofs : ∀ chunk ∈ served provider total 0, ∀ sibling ∈ chunk.proof,
      (hexToBytes sibling).length = 32) : chunkRoot blake2b256 chunks = root := by
  have hcount := (checkChunks_spec hchecked).1
  have hlevels : (levels (combineArrays blake2b256)
      ((chunks.map (hashLeaf blake2b256)).map H256.bytes)).getLast? = some [root.bytes] := by
    have hdistinct : Distinguishes (combineArrays blake2b256)
        {pair | nodePrefix :: (pair.1 ++ pair.2) ∈ preimages ∧ pair.1.length = 32 ∧
          pair.2.length = 32} := by
      intro pair hpair pair' hpair' h
      exact pair_eq_of_hash hfree hpair.1 hpair'.1 (.inl hpair.2.1) hpair'.2 h
    apply MerkleTree.root_of_climbs hdistinct
    · intro hnil
      rw [List.map_eq_nil_iff, List.map_eq_nil_iff] at hnil
      exact hne hnil
    · intro index node hnode
      rw [List.length_map, List.length_map, htotal]
      rw [List.getElem?_map, List.getElem?_map] at hnode
      have hindex : index < (served provider total 0).length := by
        rw [← hcount]
        by_contra hge
        rw [List.getElem?_eq_none (by omega)] at hnode
        cases hnode
      have hserved := List.getElem?_eq_getElem hindex
      obtain ⟨data, hget, hdata, hclimb⟩ := accepted_of_checkChunks hchecked hserved
      rw [hget, Option.map_some, Option.map_some] at hnode
      cases hnode
      refine ⟨_, hclimb, ?_⟩
      intro pair hpair
      refine ⟨hhashed pair ⟨index, _, data, hserved, hdata, hpair⟩, ?_⟩
      apply @MerkleTree.climbPairs_both_sides _ _ (fun bytes : Bytes ↦ bytes.length = 32)
        length_combineArrays _ _ _ _ (H256.length_bytes _) _ pair hpair
      intro sibling hsibling
      obtain ⟨hex, hhex, rfl⟩ := List.mem_map.mp hsibling
      exact hproofs _ (List.getElem_mem hindex) hex hhex
  rw [getLast_levels_arrays hne, Option.some.injEq, List.cons.injEq] at hlevels
  exact H256.ext_bytes hlevels.1

/-- Proofs that are accepted for the chunks of the root have siblings of 32 bytes. -/
theorem siblings_of_root {preimages : Set Bytes} (hfree : Set.InjOn blake2b256 preimages)
    (hhashed : ∀ pair ∈ proofPairs blake2b256 atob provider total,
      nodePrefix :: (pair.1 ++ pair.2) ∈ preimages)
    (htree : ∀ preimage ∈ treePreimages blake2b256 chunks, preimage ∈ preimages)
    (hchecked : checkChunks blake2b256 atob root total 0 (served provider total 0) = .ok chunks)
    (htotal : chunks.length = total) (hne : chunks ≠ [])
    (hroot : chunkRoot blake2b256 chunks = root) :
    ∀ chunk ∈ served provider total 0, ∀ sibling ∈ chunk.proof, (hexToBytes sibling).length = 32 := by
  intro chunk hchunk sibling hsibling
  obtain ⟨index, hserved⟩ := List.getElem?_of_mem hchunk
  obtain ⟨data, hget, hdata, hclimb⟩ := accepted_of_checkChunks hchecked hserved
  have htop := @getLast_levels_arrays blake2b256 _ hne
  rw [hroot] at htop
  have hlength : ((chunks.map (hashLeaf blake2b256)).map H256.bytes).length = total := by
    rw [List.length_map, List.length_map, htotal]
  have hindex : index < total := by
    rw [← htotal]
    exact (List.getElem?_eq_some_iff.mp hget).1
  rw [← hlength] at hclimb hindex
  have hproof := (MerkleTree.eq_siblings_of_climb hindex htop (fun pair hpair pair' hpair' ↦ by
    rw [hlength] at hpair
    rw [MerkleTree.treePairs_map (f := H256.bytes) fun _ _ ↦ rfl] at hpair'
    obtain ⟨nodes, hnodes, rfl⟩ := List.mem_map.mp hpair'
    apply pair_eq_of_hash hfree (hhashed pair ⟨index, chunk, data, hserved, hdata, hpair⟩)
    · exact htree _ (List.mem_append_right _ (List.mem_map_of_mem hnodes))
    · exact @MerkleTree.climbPairs_one_side _ _ (fun bytes : Bytes ↦ bytes.length = 32)
        length_combineArrays _ _ _ _ (H256.length_bytes _) pair hpair
    · exact ⟨H256.length_bytes _, H256.length_bytes _⟩) hclimb).2
  rw [List.append_nil, levels_arrays, MerkleTree.siblings_map] at hproof
  have hmem : hexToBytes sibling ∈ chunk.proof.map hexToBytes := List.mem_map_of_mem hsibling
  rw [hproof] at hmem
  obtain ⟨hash, -, hbytes⟩ := List.mem_map.mp hmem
  rw [← hbytes]
  exact H256.length_bytes hash

end Sized

/-- A sized read that resolves has all chunks of its size, the last not empty where the size is not
zero, and keeps the promise exactly when the size is not zero and the siblings are hashes. -/
theorem sized_bound_iff {size : ℤ} {opts : ReadBlobOpts} (hopts : opts.size = some size)
    {chunks : List Bytes}
    (hfree : Set.InjOn blake2b256 (readPreimages blake2b256 atob provider opts chunks.flatten))
    (hfull : ∀ chunk ∈ chunks.dropLast, chunk.length = defaultChunkSize)
    (hlast : ∀ last, chunks.getLast? = some last → last.length ≤ defaultChunkSize)
    (hlimit : checkLimit opts = .ok ())
    (hread : readBlobWithProofs blake2b256 atob provider root size = .ok chunks) :
    Bound blake2b256 root opts chunks.flatten ↔ SoundAnswers atob provider opts := by
  obtain ⟨hsum, hcount, hchecked⟩ := readBlobWithProofs_spec hread
  have hlength : (chunks.flatten.length : ℤ) = size := by
    rw [List.length_flatten, ← hsum]
  have hsmall : ∀ maxSize ∈ opts.maxSize, (chunks.flatten.length : ℤ) ≤ maxSize := by
    intro maxSize hmax
    rw [Option.mem_def] at hmax
    unfold checkLimit at hlimit
    rw [hmax, hopts] at hlimit
    dsimp only at hlimit
    rw [ensure_eq_ok, decide_eq_true_eq] at hlimit
    rwa [hlength]
  unfold SoundAnswers
  rw [hopts]
  dsimp only
  by_cases hzero : size = 0
  · -- nothing is asked for and nothing is checked
    constructor
    · intro hbound
      have hnil : chunks.flatten = [] := by
        rw [← List.length_eq_zero_iff]
        omega
      exact absurd hnil hbound.1
    · intro hsound
      exact absurd hzero hsound.1
  · obtain ⟨bytesCount, rfl⟩ : ∃ count : ℕ, size = count := ⟨chunks.flatten.length, hlength.symm⟩
    have hsum' : (chunks.map List.length).sum = bytesCount := by
      rw [← List.length_flatten]
      omega
    rw [chunkCount_of_nonneg] at hcount hchecked ⊢
    rw [Int.toNat_natCast] at hcount
    have hne : chunks ≠ [] := by
      rintro rfl
      rw [List.map_nil, List.sum_nil] at hsum'
      omega
    obtain ⟨last, hget⟩ : ∃ last, chunks.getLast? = some last :=
      ⟨_, List.getLast?_eq_some_getLast hne⟩
    have hlastNe : ∀ last, chunks.getLast? = some last → last ≠ [] := by
      intro last hget
      apply last_ne_nil defaultChunkSize_pos hfull (by omega) _ hget
      rw [hsum', hcount]
    rw [bound_iff (flatten_ne_nil hget (hlastNe last hget)) hsmall]
    have hsplit := splitChunks_flatten hfull hlast hlastNe
    rw [hsplit]
    have hproofs : ∀ pair ∈ proofPairs blake2b256 atob provider
        ((bytesCount + defaultChunkSize - 1) / defaultChunkSize),
        nodePrefix :: (pair.1 ++ pair.2) ∈
          readPreimages blake2b256 atob provider opts chunks.flatten := by
      intro pair hpair
      refine Set.mem_union_right _ ?_
      rw [hopts]
      dsimp only
      rw [chunkCount_of_nonneg, Int.toNat_natCast]
      exact ⟨pair, hpair, rfl⟩
    have htree : ∀ preimage ∈ treePreimages blake2b256 chunks,
        preimage ∈ readPreimages blake2b256 atob provider opts chunks.flatten := by
      intro preimage hpreimage
      refine Set.mem_union_left _ ?_
      rw [hsplit]
      exact hpreimage
    constructor
    · intro hroot
      exact ⟨hzero, siblings_of_root hfree hproofs htree hchecked hcount hne hroot⟩
    · intro hsound
      exact root_of_proofs hfree hproofs hchecked hcount hne hsound.2

/-! ### The walk -/

/-- A walk that resolves keeps the promise exactly when the tree does not end with an empty chunk. -/
theorem walk_bound_iff {opts : ReadBlobOpts} (hopts : opts.size = none) {fuel : ℕ}
    {chunks : List Bytes}
    (hfree : Set.InjOn blake2b256 (readPreimages blake2b256 atob provider opts chunks.flatten))
    (hfull : ∀ chunk ∈ chunks.dropLast, chunk.length = defaultChunkSize)
    (hlast : ∀ last, chunks.getLast? = some last → last.length ≤ defaultChunkSize)
    (hread : walkBlob blake2b256 atob fuel provider root opts.maxSize = .ok chunks) :
    Bound blake2b256 root opts chunks.flatten ↔ SoundAnswers atob provider opts := by
  obtain ⟨hroot, hlimit, last, hget, hends⟩ := walkBlob_spec hread
  have hsmall : ∀ maxSize ∈ opts.maxSize, (chunks.flatten.length : ℤ) ≤ maxSize := by
    intro maxSize hmax
    rw [List.length_flatten]
    exact hlimit maxSize hmax
  unfold SoundAnswers
  rw [hopts]
  dsimp only
  by_cases hempty : last = []
  · -- the chunks before the empty one are those of the bytes, and their root is another one
    subst hempty
    have hsplit := List.dropLast_append_getLast? _ hget
    have hflat : chunks.flatten = chunks.dropLast.flatten := by
      conv_lhs => rw [← hsplit]
      simp
    have hbefore : splitChunks chunks.flatten = chunks.dropLast := by
      rw [hflat]
      have hlengths : ∀ last, chunks.dropLast.getLast? = some last → last.length = defaultChunkSize :=
        fun last h ↦ hfull last (List.mem_of_getLast? h)
      apply splitChunks_flatten
      · intro chunk hchunk
        exact hfull chunk (List.mem_of_mem_dropLast hchunk)
      · intro last h
        exact (hlengths last h).le
      · rintro last h rfl
        have hpos := defaultChunkSize_pos
        have hzero := hlengths [] h
        rw [List.length_nil] at hzero
        omega
    constructor
    · rintro ⟨hne, hcid, -⟩
      rw [computeDataRoot_of_ne_nil hne, Option.some.injEq, hbefore, ← hroot] at hcid
      have hdrop : chunks.dropLast ≠ [] := by
        intro hnil
        rw [hflat, hnil] at hne
        exact hne rfl
      have hchunks : chunks ≠ [] := by
        rintro rfl
        cases hget
      have hsame := Primitives.chunks_eq_of_root hfree hdrop hchunks
        (fun preimage h ↦ Set.mem_union_left _ (by
          rw [hbefore]
          exact h))
        (fun preimage h ↦ Set.mem_union_right _ (by
          rw [hopts, hbefore, hsplit]
          exact h)) hcid
      have hlength := congrArg List.length hsplit
      rw [List.length_append, hsame, List.length_singleton] at hlength
      omega
    · intro hsound
      exact absurd hends hsound
  · rw [bound_iff (flatten_ne_nil hget hempty) hsmall]
    have hsplit : splitChunks chunks.flatten = chunks := by
      apply splitChunks_flatten hfull hlast
      intro last' hget'
      rw [hget] at hget'
      cases hget'
      exact hempty
    rw [hsplit]
    constructor
    · intro _ hends'
      exact hempty (hends.unique hends')
    · intro _
      exact hroot

/-! ### Both reads -/

/-- A read that resolves keeps its promise exactly when the size given is not zero and all siblings have
32 bytes, or without a size, when the tree does not end with an empty chunk. Two such reads of one root,
of either kind, return the same bytes. Assumes: the hash function does not collide on what is hashed for
the two reads. -/
theorem readBlob_bound_iff {provider' : Provider} {fuel fuel' : ℕ} {opts opts' : ReadBlobOpts}
    {bytes bytes' : Bytes}
    (hfree : Set.InjOn blake2b256 (readPreimages blake2b256 atob provider opts bytes ∪
      readPreimages blake2b256 atob provider' opts' bytes'))
    (h : readBlob blake2b256 atob fuel provider root opts = .ok bytes)
    (h' : readBlob blake2b256 atob fuel' provider' root opts' = .ok bytes') :
    (Bound blake2b256 root opts bytes ↔ SoundAnswers atob provider opts) ∧
      (SoundAnswers atob provider opts → SoundAnswers atob provider' opts' → bytes = bytes') := by
  have hread {provider : Provider} {fuel : ℕ} {opts : ReadBlobOpts} {bytes : Bytes}
      (hfree : Set.InjOn blake2b256 (readPreimages blake2b256 atob provider opts bytes))
      (h : readBlob blake2b256 atob fuel provider root opts = .ok bytes) :
      Bound blake2b256 root opts bytes ↔ SoundAnswers atob provider opts := by
    obtain ⟨chunks, rfl, hfull, hlast, hlimit, hread⟩ := readBlob_spec h
    unfold readChunks at hread
    cases hopts : opts.size with
    | none =>
      rw [hopts] at hread
      exact walk_bound_iff hopts hfree hfull hlast hread
    | some size =>
      rw [hopts] at hread
      exact sized_bound_iff hopts hfree hfull hlast hlimit hread
  have hfirst := hread (hfree.mono Set.subset_union_left) h
  refine ⟨hfirst, ?_⟩
  intro hsound hsound'
  have hbound := hfirst.mpr hsound
  have hbound' := (hread (hfree.mono Set.subset_union_right) h').mpr hsound'
  have hpos := defaultChunkSize_pos
  have hchunks {bytes : Bytes} (hne : bytes ≠ []) : splitChunks bytes ≠ [] := by
    rw [splitChunks_eq]
    exact fun hnil ↦ hne ((chunksOf_eq_nil_iff hpos bytes).mp hnil)
  have hroot := hbound.2.1.trans hbound'.2.1.symm
  rw [computeDataRoot_of_ne_nil hbound.1, computeDataRoot_of_ne_nil hbound'.1,
    Option.some.injEq] at hroot
  have hsame := Primitives.chunks_eq_of_root hfree (hchunks hbound.1) (hchunks hbound'.1)
    (fun preimage hmem ↦ .inl (.inl hmem)) (fun preimage hmem ↦ .inr (.inl hmem)) hroot
  rw [splitChunks_eq, splitChunks_eq] at hsame
  rw [← flatten_chunksOf hpos bytes, hsame, flatten_chunksOf hpos]

/-- `"YQ=="`, the byte of the letter a. -/
def letterText : Text := [0x59, 0x51, 0x3d, 0x3d]

/-- The decoding of the texts of the runs below. -/
def letterAtob (text : Text) : Option Text :=
  if text = letterText then some [0x61] else if text = [] then some [] else none

/-- The hash of the letter as a chunk. -/
def letterRoot : H256 := hashLeaf Primitives.blake2b256 [0x61]

/-- A provider of the letter. -/
def letterProvider : Provider where
  node path := if path.isEmpty then some ⟨some letterText, none⟩ else none
  read start := if start = 0 then some [⟨letterText, []⟩] else none

/-- No two strings that are hashed for the letter, or for the letter and an empty chunk, collide. -/
private theorem letter_free : Set.InjOn Primitives.blake2b256
    (readPreimages Primitives.blake2b256 letterAtob letterProvider ⟨some 1, some 1⟩ [0x61] ∪
      readPreimages Primitives.blake2b256 letterAtob letterProvider ⟨none, some 1⟩ [0x61]) := by
  have hchunks : splitChunks [0x61] = [[0x61]] := by decide +kernel
  have hlist : ∀ preimage ∈ treePreimages Primitives.blake2b256 [[0x61], []],
      ∀ preimage' ∈ treePreimages Primitives.blake2b256 [[0x61], []],
        Primitives.blake2b256 preimage = Primitives.blake2b256 preimage' → preimage = preimage' := by
    decide +kernel
  have hone : treePreimages Primitives.blake2b256 [[0x61]] ⊆
      treePreimages Primitives.blake2b256 [[0x61], []] := by
    decide +kernel
  -- a proof of one chunk combines nothing
  have hnone : proofPairs Primitives.blake2b256 letterAtob letterProvider 1 = ∅ := by
    apply Set.eq_empty_of_forall_notMem
    rintro pair ⟨index, chunk, data, -, -, hpair⟩
    rw [climbPairs.eq_def, if_neg (by decide)] at hpair
    cases hpair
  have hcount : (chunkCount 1 defaultChunkSize).toNat = 1 := by decide +kernel
  have hall : ∀ preimage ∈
      readPreimages Primitives.blake2b256 letterAtob letterProvider ⟨some 1, some 1⟩ [0x61] ∪
        readPreimages Primitives.blake2b256 letterAtob letterProvider ⟨none, some 1⟩ [0x61],
      preimage ∈ treePreimages Primitives.blake2b256 [[0x61], []] := by
    unfold readPreimages
    dsimp only
    rw [hchunks, hcount, hnone, Set.image_empty, Set.union_empty]
    rintro preimage (hmem | hmem | hmem)
    · exact hone hmem
    · exact hone hmem
    · exact hmem
  intro preimage hmem preimage' hmem'
  exact hlist preimage (hall preimage hmem) preimage' (hall preimage' hmem')

/-! ### Two chunks -/

/-- A text that stands for a full chunk. -/
def fullText : Text := [0x66]

/-- The decoding of a full chunk and of the letter. -/
def twoChunkAtob (text : Text) : Option Text :=
  if text = fullText then some (List.replicate defaultChunkSize 1) else letterAtob text

/-- A full chunk and the letter. -/
def twoChunks : List Bytes := [List.replicate defaultChunkSize 1, [0x61]]

/-- A hash in hexadecimal digits. -/
def hashText (hash : H256) : Text :=
  hash.bytes.flatMap fun byte ↦ [byte / 16, byte % 16].map fun digit ↦
    if digit < 10 then 0x30 + UInt16.ofNat digit.toNat else 0x57 + UInt16.ofNat digit.toNat

/-- The hashes of both chunks and of the node over them. -/
def fullHash : H256 := hashLeaf Primitives.prefixHash (List.replicate defaultChunkSize 1)

def letterHash : H256 := hashLeaf Primitives.prefixHash [0x61]

def twoChunkRoot : H256 := Primitives.hashChildren Primitives.prefixHash fullHash letterHash

/-- A provider of both chunks, each with the hash of the other as its proof. -/
def twoChunkProvider : Provider where
  node
    | [] => some ⟨none, some [hashText fullHash, hashText letterHash]⟩
    | [.left] => some ⟨some fullText, none⟩
    | [.right] => some ⟨some letterText, none⟩
    | _ => none
  read start :=
    if start = 0 then
      some [⟨fullText, [hashText letterHash]⟩, ⟨letterText, [hashText fullHash]⟩]
    else none

private theorem base64ToBytes_fullText :
    base64ToBytes twoChunkAtob fullText = some (List.replicate defaultChunkSize 1) := by
  rw [base64ToBytes, twoChunkAtob, if_pos rfl, Option.map_some, List.map_replicate]
  rfl

private theorem base64ToBytes_letterText : base64ToBytes twoChunkAtob letterText = some [0x61] := by
  rfl

private theorem length_twoChunks : twoChunks.map List.length = [defaultChunkSize, 1] := by
  rw [twoChunks, List.map_cons, List.length_replicate]
  rfl

private theorem chunkCount_twoChunks :
    chunkCount (defaultChunkSize + 1 : ℕ) defaultChunkSize = 2 := by
  decide +kernel

/-- Both chunks are read with their proofs. -/
private theorem readBlobWithProofs_twoChunks :
    readBlobWithProofs Primitives.prefixHash twoChunkAtob twoChunkProvider twoChunkRoot
      (defaultChunkSize + 1 : ℕ) = .ok twoChunks := by
  have hchecked : checkChunks Primitives.prefixHash twoChunkAtob twoChunkRoot 2 0
      [⟨fullText, [hashText letterHash]⟩, ⟨letterText, [hashText fullHash]⟩] = .ok twoChunks := by
    simp only [checkChunks, bind_eq_ok, require_eq_ok, ensure_eq_ok, pure_eq_ok]
    exact ⟨_, base64ToBytes_fullText, (), by decide +kernel, _,
      ⟨_, base64ToBytes_letterText, (), by decide +kernel, _, rfl, rfl⟩, rfl⟩
  have hwindow : readWindows Primitives.prefixHash twoChunkAtob twoChunkProvider twoChunkRoot 2 0 =
      .ok twoChunks := by
    have hend : readWindows Primitives.prefixHash twoChunkAtob twoChunkProvider twoChunkRoot 2
        (0 + readWindowChunks) = .ok [] := by
      rw [readWindows, if_neg (by decide)]
      rfl
    rw [readWindows, if_pos (by decide)]
    simp only [bind_eq_ok, require_eq_ok, ensure_eq_ok, pure_eq_ok]
    exact ⟨_, rfl, (), by decide +kernel, _, hchecked, _, hend, List.append_nil _⟩
  rw [readBlobWithProofs, chunkCount_twoChunks, hwindow, ok_bind, length_twoChunks]
  rfl

/-- A chunk that is served under its hash is walked over. -/
private theorem walk_chunk {path : List Side} {text : Text} {chunk : Bytes} (received : ℤ)
    (hnode : twoChunkProvider.node path = some ⟨some text, none⟩)
    (htext : base64ToBytes twoChunkAtob text = some chunk) :
    walk Primitives.prefixHash twoChunkAtob twoChunkProvider none none 1
      (hashLeaf Primitives.prefixHash chunk).bytes path received =
        .ok ([chunk], received + chunk.length) := by
  have hparse : parseNode twoChunkAtob ⟨some text, none⟩ = some (some (.data chunk)) := by
    simp only [parseNode, htext, Option.map_some]
  simp only [walk, bind_eq_ok, require_eq_ok, ensure_eq_ok]
  exact ⟨(), rfl, _, hnode, _, hparse, _, rfl, (), decide_eq_true rfl, rfl⟩

/-- Both chunks are found by a walk. -/
private theorem walkBlob_twoChunks :
    walkBlob Primitives.prefixHash twoChunkAtob 2 twoChunkProvider twoChunkRoot none =
      .ok twoChunks := by
  have hparse : parseNode twoChunkAtob ⟨none, some [hashText fullHash, hashText letterHash]⟩ =
      some (some (.children fullHash.bytes letterHash.bytes)) := by
    have hhashes : (isHashHex (hashText fullHash) && isHashHex (hashText letterHash)) = true := by
      decide +kernel
    have hfull : hexToBytes (hashText fullHash) = fullHash.bytes := by decide +kernel
    have hletter : hexToBytes (hashText letterHash) = letterHash.bytes := by decide +kernel
    simp only [parseNode, hhashes, hfull, hletter, if_true]
  have hwalk : walk Primitives.prefixHash twoChunkAtob twoChunkProvider none none 2
      twoChunkRoot.bytes [] 0 = .ok (twoChunks, (defaultChunkSize + 1 : ℕ)) := by
    have hleft := @walk_chunk [.left] fullText _ 0 rfl base64ToBytes_fullText
    have hright := @walk_chunk [.right] letterText _ (defaultChunkSize : ℤ) rfl base64ToBytes_letterText
    rw [List.length_replicate, zero_add] at hleft
    rw [walk]
    simp only [bind_eq_ok, require_eq_ok, ensure_eq_ok]
    refine ⟨(), rfl, _, rfl, _, hparse, _, rfl, (), by decide +kernel, ?_⟩
    simp only [bind_eq_ok, pure_eq_ok]
    exact ⟨_, hleft, _, hright, rfl⟩
  simp only [walkBlob, bind_eq_ok, ensure_eq_ok, pure_eq_ok]
  exact ⟨_, hwalk, (), by decide +kernel, rfl⟩

private theorem readBlob_twoChunks {fuel : ℕ} {opts : ReadBlobOpts} (hlimit : checkLimit opts = .ok ())
    (hread : readChunks Primitives.prefixHash twoChunkAtob fuel twoChunkProvider twoChunkRoot opts =
      .ok twoChunks) :
    readBlob Primitives.prefixHash twoChunkAtob fuel twoChunkProvider twoChunkRoot opts =
      .ok twoChunks.flatten := by
  have hlengths : checkLengths 0 twoChunks = .ok () := by
    rw [twoChunks, checkLengths, List.length_replicate]
    · rfl
    · exact List.cons_ne_nil _ _
  simp only [readBlob, bind_eq_ok, pure_eq_ok]
  exact ⟨(), hlimit, _, hread, (), hlengths, rfl⟩

private theorem splitChunks_twoChunks : splitChunks twoChunks.flatten = twoChunks := by
  refine splitChunks_flatten (fun chunk hchunk ↦ ?_) (fun last hlast ↦ ?_) (fun last hlast ↦ ?_)
  · rw [List.mem_singleton.mp hchunk, List.length_replicate]
  · obtain rfl : [0x61] = last := Option.some.inj hlast
    decide
  · obtain rfl : [0x61] = last := Option.some.inj hlast
    decide

private theorem served_twoChunks : served twoChunkProvider 2 0 =
    [⟨fullText, [hashText letterHash]⟩, ⟨letterText, [hashText fullHash]⟩] := by
  have hend : served twoChunkProvider 2 (0 + readWindowChunks) = [] := by
    rw [served, if_neg (by decide)]
  rw [served, if_pos (by decide), hend, List.append_nil]
  rfl

/-- What the proofs of both chunks combine is the pair of their hashes. -/
private theorem proofPairs_twoChunks {pair : Bytes × Bytes}
    (h : pair ∈ proofPairs Primitives.prefixHash twoChunkAtob twoChunkProvider 2) :
    pair = (fullHash.bytes, letterHash.bytes) := by
  obtain ⟨index, chunk, data, hchunk, hdata, hpair⟩ := h
  rw [Nat.cast_ofNat, served_twoChunks] at hchunk
  rcases index with _ | _ | index
  · cases hchunk
    rw [base64ToBytes_fullText] at hdata
    cases hdata
    have hpairs : climbPairs (combineArrays Primitives.prefixHash) fullHash.bytes 0 2
        [hexToBytes (hashText letterHash)] = [(fullHash.bytes, letterHash.bytes)] := by
      decide +kernel
    exact List.mem_singleton.mp (hpairs ▸ hpair)
  · cases hchunk
    rw [base64ToBytes_letterText] at hdata
    cases hdata
    have hpairs : climbPairs (combineArrays Primitives.prefixHash) letterHash.bytes 1 2
        [hexToBytes (hashText fullHash)] = [(fullHash.bytes, letterHash.bytes)] := by
      decide +kernel
    exact List.mem_singleton.mp (hpairs ▸ hpair)
  · cases hchunk

/-- No two strings that are hashed for the two reads collide. -/
private theorem twoChunks_free : Set.InjOn Primitives.prefixHash
    (readPreimages Primitives.prefixHash twoChunkAtob twoChunkProvider
        ⟨some (defaultChunkSize + 1 : ℕ), none⟩ twoChunks.flatten ∪
      readPreimages Primitives.prefixHash twoChunkAtob twoChunkProvider ⟨none, none⟩
        twoChunks.flatten) := by
  have hpairs : treePairs (Primitives.hashChildren Primitives.prefixHash) [fullHash, letterHash] =
      [(fullHash, letterHash)] := by
    decide +kernel
  have hpairs' : treePairs (Primitives.hashChildren Primitives.prefixHash)
      [fullHash, letterHash, hashLeaf Primitives.prefixHash []] =
        [(fullHash, letterHash), (twoChunkRoot, hashLeaf Primitives.prefixHash [])] := by
    decide +kernel
  have htree : treePreimages Primitives.prefixHash twoChunks =
      twoChunks.map (leafPrefix :: ·) ++ [pairPreimage (fullHash, letterHash)] := by
    change _ ++ (treePairs _ [fullHash, letterHash]).map pairPreimage = _
    rw [hpairs]
    rfl
  have htree' : treePreimages Primitives.prefixHash (twoChunks ++ [[]]) =
      (twoChunks.map (leafPrefix :: ·) ++ [[leafPrefix]]) ++ [pairPreimage (fullHash, letterHash),
        pairPreimage (twoChunkRoot, hashLeaf Primitives.prefixHash [])] := by
    change _ ++ (treePairs _ [fullHash, letterHash, hashLeaf Primitives.prefixHash []]).map
      pairPreimage = _
    rw [hpairs']
    rfl
  have hnodup : ((treePreimages Primitives.prefixHash (twoChunks ++ [[]])).map
      Primitives.prefixHash).Nodup := by
    rw [htree']
    decide +kernel
  have hpair : pairPreimage (fullHash, letterHash) ∈
      treePreimages Primitives.prefixHash (twoChunks ++ [[]]) := by
    rw [htree']
    exact List.mem_append_right _ (List.mem_cons_self ..)
  have hmem : ∀ preimage ∈ treePreimages Primitives.prefixHash twoChunks,
      preimage ∈ treePreimages Primitives.prefixHash (twoChunks ++ [[]]) := by
    intro preimage hpreimage
    rw [htree, List.mem_append] at hpreimage
    rcases hpreimage with hleaf | hinner
    · rw [htree']
      exact List.mem_append_left _ (List.mem_append_left _ hleaf)
    · rw [List.mem_singleton.mp hinner]
      exact hpair
  have hall : ∀ preimage ∈
      readPreimages Primitives.prefixHash twoChunkAtob twoChunkProvider
          ⟨some (defaultChunkSize + 1 : ℕ), none⟩ twoChunks.flatten ∪
        readPreimages Primitives.prefixHash twoChunkAtob twoChunkProvider ⟨none, none⟩
          twoChunks.flatten,
      preimage ∈ treePreimages Primitives.prefixHash (twoChunks ++ [[]]) := by
    unfold readPreimages
    dsimp only
    rw [splitChunks_twoChunks, chunkCount_twoChunks]
    rintro preimage ((hmem' | ⟨pair, hproof, rfl⟩) | hmem' | hmem')
    · exact hmem _ hmem'
    · rw [proofPairs_twoChunks hproof]
      exact hpair
    · exact hmem _ hmem'
    · exact hmem'
  intro preimage hpreimage preimage' hpreimage' hsame
  exact List.inj_on_of_nodup_map hnodup (hall preimage hpreimage) (hall preimage' hpreimage') hsame

/-- The letter is read in both ways, and so is a blob of two chunks. -/
theorem readBlob_bound_letter :
    Bound Primitives.blake2b256 letterRoot ⟨some 1, some 1⟩ [0x61] ∧
      Bound Primitives.prefixHash twoChunkRoot ⟨some (defaultChunkSize + 1 : ℕ), none⟩
        twoChunks.flatten := by
  constructor
  · have hsized : (readBlob Primitives.blake2b256 letterAtob 0 letterProvider letterRoot
        ⟨some 1, some 1⟩).toOption = some [0x61] := by
      decide +kernel
    have hwalked : (readBlob Primitives.blake2b256 letterAtob 1 letterProvider letterRoot
        ⟨none, some 1⟩).toOption = some [0x61] := by
      decide +kernel
    have hsound : SoundAnswers letterAtob letterProvider ⟨some 1, some 1⟩ := by
      refine ⟨by decide, ?_⟩
      decide +kernel
    exact (readBlob_bound_iff letter_free (eq_ok_of_toOption hsized)
      (eq_ok_of_toOption hwalked)).1.mpr hsound
  · have hsized : readBlob Primitives.prefixHash twoChunkAtob 0 twoChunkProvider twoChunkRoot
        ⟨some (defaultChunkSize + 1 : ℕ), none⟩ = .ok twoChunks.flatten :=
      readBlob_twoChunks rfl readBlobWithProofs_twoChunks
    have hwalked : readBlob Primitives.prefixHash twoChunkAtob 2 twoChunkProvider twoChunkRoot
        ⟨none, none⟩ = .ok twoChunks.flatten :=
      readBlob_twoChunks rfl walkBlob_twoChunks
    have hsound : SoundAnswers twoChunkAtob twoChunkProvider
        ⟨some (defaultChunkSize + 1 : ℕ), none⟩ := by
      refine ⟨by decide, ?_⟩
      rw [chunkCount_twoChunks, served_twoChunks]
      decide +kernel
    exact (readBlob_bound_iff twoChunks_free hsized hwalked).1.mpr hsound

/-- A provider of one empty chunk. -/
def emptyProvider : Provider where
  node path := if path.isEmpty then some ⟨some [], none⟩ else none
  read _ := none

/-- With size zero, a read of any root, here the zero hash, returns no bytes without a request. A walk
of an empty chunk returns no bytes either. -/
theorem readBlob_unbound :
    (readBlob Primitives.blake2b256 letterAtob 0 emptyProvider H256.zero ⟨some 0, none⟩ = .ok [] ∧
      Set.InjOn Primitives.blake2b256
        (readPreimages Primitives.blake2b256 letterAtob emptyProvider ⟨some 0, none⟩ []) ∧
        ¬ Bound Primitives.blake2b256 H256.zero ⟨some 0, none⟩ []) ∧
      readBlob Primitives.blake2b256 letterAtob 1 emptyProvider
          (hashLeaf Primitives.blake2b256 []) ⟨none, none⟩ = .ok [] ∧
        ¬ Bound Primitives.blake2b256 (hashLeaf Primitives.blake2b256 []) ⟨none, none⟩ [] := by
  have hsized : (readBlob Primitives.blake2b256 letterAtob 0 emptyProvider H256.zero
      ⟨some 0, none⟩).toOption = some [] := by
    decide +kernel
  have hwalked : (readBlob Primitives.blake2b256 letterAtob 1 emptyProvider
      (hashLeaf Primitives.blake2b256 []) ⟨none, none⟩).toOption = some [] := by
    decide +kernel
  have hnothing : treePreimages Primitives.blake2b256 (splitChunks []) = [] := by
    decide +kernel
  refine ⟨⟨eq_ok_of_toOption hsized, ?_, fun h ↦ h.1 rfl⟩, eq_ok_of_toOption hwalked,
    fun h ↦ h.1 rfl⟩
  -- no proofs are asked for
  have hcount : (chunkCount 0 defaultChunkSize).toNat = 0 := by decide +kernel
  have hserved : served emptyProvider (0 : ℕ) 0 = [] := by
    rw [served, if_neg]
    decide
  have hnone : proofPairs Primitives.blake2b256 letterAtob emptyProvider 0 = ∅ := by
    apply Set.eq_empty_of_forall_notMem
    rintro pair ⟨index, chunk, data, hchunk, -, -⟩
    rw [hserved] at hchunk
    cases hchunk
  unfold readPreimages
  dsimp only
  rw [hnothing, hcount, hnone, Set.image_empty, Set.union_empty]
  intro preimage hmem
  cases hmem

end Web3Storage.Packages
