import Web3Storage.Primitives.HashTerms
import Web3Storage.Primitives.MerkleProofs

/-!
# Proofs of a mountain range

A proof that is built for a leaf is accepted, with the number of items that the verifier asks for. An
accepted proof is the built one, leaf and items, when the hash function does not collide on what the
range and the verifier hash: the leaf index and the number of leaves fix the shape of the verifier's
term, so that it can be laid over the term of the root (`agrees_climb` within a mountain,
`agrees_recompute` across the peaks). `mmr_proof_bound` puts both together.
-/

set_option autoImplicit false
set_option relaxedAutoImplicit false

namespace Web3Storage.Primitives

open Foundations HashTerm

variable {blake2256 : Bytes → H256}

/-! ### Laying a proof over a range -/

section Terms

variable {terms : List HashTerm} {items : List H256} {node : HashTerm} {index : ℕ}

/-- A walk that agrees with the root of a mountain starts at the leaf of its index and takes the hashes
of the siblings. -/
theorem agrees_climb {h : ℕ} (hlength : terms.length = 2 ^ h) (hitems : items.length = h)
    (hindex : index < 2 ^ h)
    (hagrees : (MountainRange.treeRoot merge h terms).Agrees blake2256
      (MountainRange.climb merge index node (items.map .given))) :
    ∃ term, terms[index]? = some term ∧ term.Agrees blake2256 node ∧
      items = (MountainRange.siblings merge h terms index).map (·.hash blake2256) := by
  induction h generalizing terms items index with
  | zero =>
    obtain ⟨term, rfl⟩ := List.length_eq_one_iff.mp hlength
    obtain rfl := List.length_eq_zero_iff.mp hitems
    obtain rfl : index = 0 := by omega
    exact ⟨term, rfl, hagrees, rfl⟩
  | succ h ih =>
    have hpow : 2 ^ (h + 1) = 2 ^ h * 2 := pow_succ 2 h
    have hne : items ≠ [] := List.length_pos_iff.mp (by omega)
    obtain ⟨below, top, rfl⟩ : ∃ below top, items = below ++ [top] :=
      ⟨_, _, (List.dropLast_append_getLast hne).symm⟩
    have hbelow : below.length = h := by simpa using hitems
    have hgiven : (below.map HashTerm.given).length = h := by rwa [List.length_map]
    rw [List.map_append, List.map_singleton, MountainRange.climb_concat, hgiven] at hagrees
    by_cases hleft : index < 2 ^ h
    · rw [Nat.div_eq_of_lt hleft, if_pos rfl] at hagrees
      obtain ⟨-, hwalk, htop⟩ := hagrees
      obtain ⟨term, hterm, hnode, hsame⟩ := ih (by rw [List.length_take]; omega) hbelow hleft hwalk
      refine ⟨term, ?_, hnode, ?_⟩
      · rwa [List.getElem?_take_of_lt hleft] at hterm
      · rw [MountainRange.siblings, if_pos hleft, List.map_append, ← hsame, List.map_singleton,
          agrees_given.mp htop]
    · have hbit : index / 2 ^ h = 1 := by
        rw [Nat.div_eq_iff (Nat.two_pow_pos h)]
        omega
      have hshift := MountainRange.climb_add merge (index - 2 ^ h) 1 node (below.map .given)
      rw [hgiven, Nat.mul_one, Nat.sub_add_cancel (Nat.le_of_not_lt hleft)] at hshift
      rw [hbit, if_neg (by decide), hshift] at hagrees
      obtain ⟨-, htop, hwalk⟩ := hagrees
      obtain ⟨term, hterm, hnode, hsame⟩ :=
        ih (by rw [List.length_drop]; omega) hbelow (by omega) hwalk
      refine ⟨term, ?_, hnode, ?_⟩
      · rwa [List.getElem?_drop, Nat.add_sub_cancel' (Nat.le_of_not_lt hleft)] at hterm
      · rw [MountainRange.siblings, if_neg hleft, List.map_append, ← hsame, List.map_singleton,
          agrees_given.mp htop]

/-- A recomputed root that agrees with the root of a range starts at the leaf of its index and takes
the hashes of the proof of that leaf. -/
theorem agrees_recompute {bound : ℕ} {root computed : HashTerm} (hlength : terms.length < 2 ^ bound)
    (hindex : index < terms.length)
    (hitems : items.length = MountainRange.proofLength bound terms.length index)
    (hroot : MountainRange.root merge mergePeaks bound terms = some root)
    (hcomputed : MountainRange.recompute merge mergePeaks bound terms.length index node
      (items.map .given) = some computed)
    (hagrees : root.Agrees blake2256 computed) :
    ∃ term, terms[index]? = some term ∧ term.Agrees blake2256 node ∧
      items = (MountainRange.proof merge mergePeaks bound terms index).map (·.hash blake2256) := by
  induction bound generalizing terms items index root computed with
  | zero =>
    rw [pow_zero] at hlength
    omega
  | succ bound ih =>
    have hpow : 2 ^ (bound + 1) = 2 ^ bound * 2 := pow_succ 2 bound
    have hdrop : (terms.drop (2 ^ bound)).length = terms.length - 2 ^ bound := List.length_drop
    have hbelow : (terms.drop (2 ^ bound)).length < 2 ^ bound := by omega
    have hnone := MountainRange.root_eq_none_iff merge mergePeaks hbelow
    unfold MountainRange.root at hroot
    unfold MountainRange.recompute at hcomputed
    unfold MountainRange.proofLength at hitems
    unfold MountainRange.proof
    by_cases hpeak : 2 ^ bound ≤ terms.length
    · have htake : (terms.take (2 ^ bound)).length = 2 ^ bound := List.length_take_of_le hpeak
      rw [if_pos hpeak] at hroot hcomputed hitems ⊢
      by_cases hleft : index < 2 ^ bound
      · -- the leaf is in this mountain, and at most one item is for the peaks to the right
        rw [if_pos hleft] at hcomputed hitems ⊢
        have hwalk (sibs : List H256) (hsibs : sibs.length = bound)
            (hagree : (MountainRange.treeRoot merge bound (terms.take (2 ^ bound))).Agrees blake2256
              (MountainRange.climb merge index node (sibs.map .given))) :=
          agrees_climb htake hsibs hleft hagree
        by_cases hmore : 2 ^ bound < terms.length
        · rw [if_pos hmore] at hitems
          have hne : items ≠ [] := List.length_pos_iff.mp (by omega)
          obtain ⟨sibs, last, rfl⟩ : ∃ sibs last, items = sibs ++ [last] :=
            ⟨_, _, (List.dropLast_append_getLast hne).symm⟩
          have hsibs : sibs.length = bound := by simpa using hitems
          have hgiven : (sibs.map HashTerm.given).length = bound := by rwa [List.length_map]
          obtain ⟨right, hright⟩ : ∃ right,
              MountainRange.root merge mergePeaks bound (terms.drop (2 ^ bound)) = some right := by
            refine Option.ne_none_iff_exists'.mp fun hnil ↦ ?_
            have hlast := List.drop_eq_nil_iff.mp (hnone.mp hnil)
            omega
          rw [List.map_append, List.drop_append_of_le_length hgiven.ge,
            List.take_append_of_le_length hgiven.ge, List.drop_of_length_le hgiven.le,
            List.take_of_length_le hgiven.le, List.nil_append, List.map_singleton,
            Option.some.injEq] at hcomputed
          rw [hright, Option.some.injEq] at hroot
          subst hcomputed
          subst hroot
          obtain ⟨-, htree, hlast⟩ := hagrees
          obtain ⟨term, hterm, hnode, hsame⟩ := hwalk sibs hsibs htree
          refine ⟨term, ?_, hnode, ?_⟩
          · rwa [List.getElem?_take_of_lt hleft] at hterm
          · rw [hright, List.map_append, ← hsame, Option.toList_some, List.map_singleton,
              agrees_given.mp hlast]
        · rw [if_neg hmore, Nat.add_zero] at hitems
          have hgiven : (items.map HashTerm.given).length = bound := by rwa [List.length_map]
          have hnil : terms.drop (2 ^ bound) = [] := List.drop_eq_nil_iff.mpr (by omega)
          rw [List.drop_of_length_le hgiven.le, List.take_of_length_le hgiven.le,
            Option.some.injEq] at hcomputed
          rw [hnone.mpr hnil, Option.some.injEq] at hroot
          subst hcomputed
          subst hroot
          obtain ⟨term, hterm, hnode, hsame⟩ := hwalk items hitems hagrees
          refine ⟨term, ?_, hnode, ?_⟩
          · rwa [List.getElem?_take_of_lt hleft] at hterm
          · rw [hnone.mpr hnil, List.map_append, ← hsame, Option.toList_none, List.map_nil,
              List.append_nil]
      · -- the first item is the peak of this mountain, and the leaf is to its right
        rw [if_neg hleft] at hcomputed hitems ⊢
        cases items with
        | nil =>
          rw [List.length_nil] at hitems
          omega
        | cons peak rest =>
          rw [List.map_cons] at hcomputed
          obtain ⟨right, hrest, rfl⟩ := Option.map_eq_some_iff.mp hcomputed
          obtain ⟨bagged, hbagged⟩ : ∃ bagged,
              MountainRange.root merge mergePeaks bound (terms.drop (2 ^ bound)) = some bagged := by
            refine Option.ne_none_iff_exists'.mp fun hnil ↦ ?_
            have hlast := List.drop_eq_nil_iff.mp (hnone.mp hnil)
            omega
          rw [hbagged, Option.some.injEq] at hroot
          subst hroot
          obtain ⟨-, htree, hright⟩ := hagrees
          rw [← hdrop] at hrest hitems
          rw [List.length_cons] at hitems
          obtain ⟨term, hterm, hnode, hsame⟩ := ih hbelow (by omega) (by omega) hbagged hrest hright
          refine ⟨term, ?_, hnode, ?_⟩
          · rwa [List.getElem?_drop, Nat.add_sub_cancel' (Nat.le_of_not_lt hleft)] at hterm
          · rw [List.map_cons, ← hsame, agrees_given.mp htree]
    · rw [if_neg hpeak] at hroot hcomputed hitems ⊢
      exact ih (Nat.lt_of_not_le hpeak) hindex hitems hroot hcomputed hagrees

end Terms

/-! ### Accepted proofs -/

section Accepted

variable {mmr : MmrLibrary} {leaves : List MmrLeaf} {root : H256} {leafIndex : ℕ}

/-- An accepted proof has the leaf at its index, and the items of the proof that is built for it. -/
theorem mmrProof_of_accepted (hmmr : mmr.IsStandard) (hne : leaves ≠ [])
    (hlength : leaves.length ≤ maxRangeLeaves) (hroot : mmrRoot blake2256 mmr leaves = some root)
    {proof : MmrProof} {startSeq : ℕ}
    (hfree : Set.InjOn blake2256 {bytes | bytes ∈ rangePreimages blake2256 leaves ∨
      bytes ∈ provenPreimages blake2256 leaves.length leafIndex proof})
    (haccepted : verifyMmrProof blake2256 mmr proof leafIndex ⟨root, startSeq, leaves.length⟩ = true) :
    leaves[leafIndex]? = some proof.leaf ∧
      proof.items = MountainRange.proof (hashChildren blake2256) (storageMerge blake2256).mergePeaks 64
        (leafHashes blake2256 leaves) leafIndex := by
  obtain ⟨hindex, -, hitems, hrecompute⟩ := (verifyMmrProof_iff hmmr proof leafIndex _).mp haccepted
  rw [mmrRoot_eq hmmr hne hlength, ← hash_rangeTerm] at hroot
  rw [← hash_provenTerm] at hrecompute
  obtain ⟨top, htop, rfl⟩ := Option.map_eq_some_iff.mp hroot
  obtain ⟨computed, hcomputed, hsame⟩ := Option.map_eq_some_iff.mp hrecompute
  have hcount : (leafTerms leaves).length = leaves.length := List.length_map _
  have hagrees : top.Agrees blake2256 computed := by
    refine agrees_of_hash hfree (complete_rangeTerm htop) ?_ ?_ hsame.symm
    · intro bytes hbytes
      left
      rwa [rangePreimages, htop]
    · intro bytes hbytes
      right
      rwa [provenPreimages, hcomputed]
  rw [provenTerm, ← hcount] at hcomputed
  rw [← hcount] at hindex hitems
  have hfits : (leafTerms leaves).length < 2 ^ 64 := by
    rw [hcount]
    exact hlength.trans_lt maxRangeLeaves_lt
  obtain ⟨term, hterm, hleaf, hproof⟩ :=
    agrees_recompute hfits hindex hitems htop hcomputed hagrees
  constructor
  · rw [leafTerms, List.getElem?_map] at hterm
    obtain ⟨leaf, hget, rfl⟩ := Option.map_eq_some_iff.mp hterm
    rw [hget, MmrLeaf.encode_inj hleaf]
  · rw [hproof, ← map_hash_leafTerms]
    exact (MountainRange.proof_map HashTerm.hash_merge HashTerm.hash_mergePeaks
      HashTerm.hash_default 64 (leafTerms leaves) leafIndex).symm

/-- The proofs of a range. For every leaf of a range with at most as many leaves as the chain accepts,
a proof is built; it is accepted for the leaf, its index and the number of leaves against the root, and
has the number of items that the verifier predicts. Every accepted proof has this number of items, and
is the built one, its leaf included, unless the hash function collides on what the range and the
verifier hash. -/
theorem mmr_proof_bound (hmmr : mmr.IsStandard) {leaf : MmrLeaf}
    (hlength : leaves.length ≤ maxRangeLeaves) (hleaf : leaves[leafIndex]? = some leaf) :
    ∃ root items, mmrRoot blake2256 mmr leaves = some root ∧
      mmrProof blake2256 mmr leaves leafIndex = some (some (root, ⟨leaf, items⟩)) ∧
      mmrProofLen mmr (mmr.leafIndexToPos leafIndex) (mmr.leafIndexToMmrSize (leaves.length - 1)) =
        some items.length ∧
      ∀ startSeq,
        verifyMmrProof blake2256 mmr ⟨leaf, items⟩ leafIndex ⟨root, startSeq, leaves.length⟩ = true ∧
        ∀ proof,
          verifyMmrProof blake2256 mmr proof leafIndex ⟨root, startSeq, leaves.length⟩ = true →
            proof.items.length = items.length ∧
            (Set.InjOn blake2256 {bytes | bytes ∈ rangePreimages blake2256 leaves ∨
              bytes ∈ provenPreimages blake2256 leaves.length leafIndex proof} →
                proof = ⟨leaf, items⟩) := by
  have hindex : leafIndex < leaves.length := (List.getElem?_eq_some_iff.mp hleaf).1
  have hpos : 0 < leaves.length := Nat.zero_lt_of_lt hindex
  have hne : leaves ≠ [] := List.length_pos_iff.mp hpos
  have hcount : (leafHashes blake2256 leaves).length = leaves.length := List.length_map _
  obtain ⟨root, hroot⟩ := @exists_mmrRoot blake2256 mmr hmmr leaves hlength
  obtain ⟨items, hproof, haccepted⟩ := exists_mmrProof hmmr hlength hleaf hroot
  have hitems := ((verifyMmrProof_iff hmmr _ _ _).mp (haccepted 0)).2.2.1
  refine ⟨root, items, hroot, hproof, ?_, fun startSeq ↦ ⟨haccepted startSeq, ?_⟩⟩
  · rw [hmmr.pos_eq _ (hindex.trans_le hlength), hmmr.mmrSize_eq _ hpos hlength,
      hmmr.mmrProofLen_eq hlength hindex]
    exact congrArg some hitems.symm
  · intro proof hverified
    have hlen := ((verifyMmrProof_iff hmmr _ _ _).mp hverified).2.2.1
    refine ⟨hlen.trans hitems.symm, fun hfree ↦ ?_⟩
    obtain ⟨hget, hsame⟩ := mmrProof_of_accepted hmmr hne hlength hroot hfree hverified
    rw [hleaf, Option.some.injEq] at hget
    -- the built proof lists the standard items
    have hhashes : leafIndex < (leafHashes blake2256 leaves).length := by rwa [hcount]
    have hgen := hmmr.genProof_eq (storageMerge blake2256) (leafHashes blake2256 leaves) leafIndex
      (hcount.trans_le hlength) hhashes
    have hgetRoot := hmmr.getRoot_eq (storageMerge blake2256) (leafHashes blake2256 leaves)
      (hcount.trans_le hlength)
    rw [mmrRoot_eq hmmr hne hlength] at hroot
    have hbuilt : mmrProof blake2256 mmr leaves leafIndex =
        some (some (root, ⟨leaf, proof.items⟩)) := by
      simp only [mmrProof, hleaf, hgetRoot.trans hroot, hmmr.pos_eq _ (hindex.trans_le hlength), hgen,
        hsame]
      rfl
    rw [hproof] at hbuilt
    cases hbuilt
    rw [hget]

end Accepted

/-- Three leaves: two under the first peak, and one that is a peak itself. -/
def threeMmrLeaves : List MmrLeaf :=
  [⟨1, .repeatByte 1, 5, 5⟩, ⟨1, .repeatByte 2, 5, 10⟩, ⟨1, .repeatByte 3, 5, 15⟩]

/-- The peak over the first two leaves. -/
def lastMmrProof : MmrProof :=
  ⟨⟨1, .repeatByte 3, 5, 15⟩,
    (MountainRange.proof (hashChildren blake2b256) (storageMerge blake2b256).mergePeaks 64
      (leafHashes blake2b256 threeMmrLeaves) 2)⟩

theorem mmr_proof_bound_last :
    ∃ root items, mmrProof blake2b256 standardMmr threeMmrLeaves 2 =
        some (some (root, ⟨⟨1, .repeatByte 3, 5, 15⟩, items⟩)) ∧
      items.length = 1 ∧ lastMmrProof = ⟨⟨1, .repeatByte 3, 5, 15⟩, items⟩ := by
  obtain ⟨root, items, hroot, hproof, -, hbound⟩ :=
    @mmr_proof_bound blake2b256 standardMmr threeMmrLeaves 2 standardMmr_isStandard _ (by decide) rfl
  have hverified : ∀ root, mmrRoot blake2b256 standardMmr threeMmrLeaves = some root →
      verifyMmrProof blake2b256 standardMmr lastMmrProof 2 ⟨root, 0, 3⟩ = true := by
    rw [lastMmrProof, blake2b256_eq]
    decide +kernel
  have hfree : ∀ bytes ∈ rangePreimages blake2b256 threeMmrLeaves ++
        provenPreimages blake2b256 3 2 lastMmrProof,
      ∀ bytes' ∈ rangePreimages blake2b256 threeMmrLeaves ++
        provenPreimages blake2b256 3 2 lastMmrProof,
        blake2b256 bytes = blake2b256 bytes' → bytes = bytes' := by
    rw [lastMmrProof, blake2b256_eq]
    decide +kernel
  obtain ⟨hlen, hsame⟩ := (hbound 0).2 lastMmrProof (hverified root hroot)
  have heq := hsame fun bytes hbytes bytes' hbytes' ↦
    hfree bytes (List.mem_append.mpr hbytes) bytes' (List.mem_append.mpr hbytes')
  refine ⟨root, items, hproof, ?_, heq⟩
  rw [← hlen]
  decide +kernel

end Web3Storage.Primitives
