import Web3Storage.Foundations.Chunks
import Web3Storage.Formats.Format
import Web3Storage.Primitives.ChunkTree
import Web3Storage.Primitives.MmrBinding

/-!
# Roots and their content

The identifier of a blob is the root of its chunk tree, and a commitment names the root of a mountain
range. Both roots fix what they are computed from, whatever the sizes: the three prefixes keep chunks,
inner nodes and bagged peaks apart, so that trees of different shapes have different roots
(`chunks_eq_of_root`, `agrees_of_hash`). The zero root stands for a range without leaves, which is why
no hash may be zero. `roots_bind_content` assumes this, and that there are no collisions, of what is
hashed for the two values that are compared.
-/

set_option autoImplicit false
set_option relaxedAutoImplicit false

namespace Web3Storage.Formats

open Foundations Primitives

variable (blake2256 : Bytes → H256)

/-- The leaf hashes of the chunks of some data. Empty data has no chunks. -/
def chunkHashes (data : Bytes) : List Cid := (chunksOf chunkSize data).map (hashLeaf blake2256)

/-- The identifier of a blob. Empty data has the zero hash. -/
def computeCid (data : Bytes) : Cid := merkleRoot blake2256 (chunkHashes blake2256 data)

/-- What is hashed for the identifier of a blob. -/
def cidPreimages (data : Bytes) : List Bytes := treePreimages blake2256 (chunksOf chunkSize data)

variable {blake2256}

theorem chunkSize_pos : 0 < chunkSize := by
  decide

/-- Blobs with one identifier are the same. Assumes: the hash function does not collide on what is
hashed for them. -/
theorem computeCid_inj {data data' : Bytes} (hne : data ≠ []) (hne' : data' ≠ [])
    (hfree : Set.InjOn blake2256
      {bytes | bytes ∈ cidPreimages blake2256 data ∨ bytes ∈ cidPreimages blake2256 data'})
    (h : computeCid blake2256 data = computeCid blake2256 data') : data = data' := by
  have hchunks : chunksOf chunkSize data = chunksOf chunkSize data' := by
    apply chunks_eq_of_root hfree _ _ _ _ h
    · intro hnil
      exact hne ((chunksOf_eq_nil_iff chunkSize_pos data).mp hnil)
    · intro hnil
      exact hne' ((chunksOf_eq_nil_iff chunkSize_pos data').mp hnil)
    · intro bytes hbytes
      exact .inl hbytes
    · intro bytes hbytes
      exact .inr hbytes
  rw [← flatten_chunksOf chunkSize_pos data, hchunks, flatten_chunksOf chunkSize_pos]

section Ranges

variable {mmr : MmrLibrary} {leaves leaves' : List MmrLeaf} {root : H256}

/-- The root of a range with leaves is the hash of its term. -/
theorem exists_rangeTerm (hmmr : mmr.IsStandard) (hne : leaves ≠ [])
    (hlength : leaves.length ≤ maxRangeLeaves) (hroot : mmrRoot blake2256 mmr leaves = some root) :
    ∃ top, rangeTerm leaves = some top ∧ top.hash blake2256 = root ∧
      rangePreimages blake2256 leaves = top.preimages blake2256 := by
  rw [mmrRoot_eq hmmr hne hlength, ← hash_rangeTerm] at hroot
  obtain ⟨top, htop, hhash⟩ := Option.map_eq_some_iff.mp hroot
  exact ⟨top, htop, hhash, by rw [rangePreimages, htop]; rfl⟩

/-- A range with leaves does not have the root of the empty one. -/
theorem mmrRoot_ne_zero (hmmr : mmr.IsStandard) (hne : leaves ≠ [])
    (hlength : leaves.length ≤ maxRangeLeaves) (hroot : mmrRoot blake2256 mmr leaves = some root)
    (hzero : ∀ bytes ∈ rangePreimages blake2256 leaves, blake2256 bytes ≠ H256.zero) :
    root ≠ H256.zero := by
  obtain ⟨top, htop, rfl, hpreimages⟩ := exists_rangeTerm hmmr hne hlength hroot
  obtain ⟨bytes, hbytes, hhash⟩ := @HashTerm.Complete.exists_preimage blake2256 top
    (complete_rangeTerm htop)
  rw [hhash]
  exact hzero bytes (by rwa [hpreimages])

/-- Ranges with one root have the same leaves. Assumes: the hash function does not collide on what is
hashed for them, and none of it has the zero hash. -/
theorem mmrRoot_inj (hmmr : mmr.IsStandard) (hlength : leaves.length ≤ maxRangeLeaves)
    (hlength' : leaves'.length ≤ maxRangeLeaves)
    (hfree : Set.InjOn blake2256
      {bytes | bytes ∈ rangePreimages blake2256 leaves ∨ bytes ∈ rangePreimages blake2256 leaves'})
    (hzero : ∀ bytes, bytes ∈ rangePreimages blake2256 leaves ∨
      bytes ∈ rangePreimages blake2256 leaves' → blake2256 bytes ≠ H256.zero)
    (hroot : mmrRoot blake2256 mmr leaves = some root)
    (hroot' : mmrRoot blake2256 mmr leaves' = some root) : leaves = leaves' := by
  by_cases hne : leaves = []
  · subst hne
    by_contra hother
    have hempty : root = H256.zero := by
      rw [mmrRoot, if_pos rfl, Option.some.injEq] at hroot
      exact hroot.symm
    exact mmrRoot_ne_zero hmmr (Ne.symm hother) hlength' hroot'
      (fun bytes hbytes ↦ hzero bytes (.inr hbytes)) hempty
  · by_cases hne' : leaves' = []
    · subst hne'
      have hempty : root = H256.zero := by
        rw [mmrRoot, if_pos rfl, Option.some.injEq] at hroot'
        exact hroot'.symm
      exact absurd hempty (mmrRoot_ne_zero hmmr hne hlength hroot
        fun bytes hbytes ↦ hzero bytes (.inl hbytes))
    · obtain ⟨top, htop, hhash, hpreimages⟩ := exists_rangeTerm hmmr hne hlength hroot
      obtain ⟨top', htop', hhash', hpreimages'⟩ := exists_rangeTerm hmmr hne' hlength' hroot'
      rw [hpreimages, hpreimages'] at hfree
      have hagrees := HashTerm.agrees_of_hash hfree (complete_rangeTerm htop)
        (fun bytes hbytes ↦ .inl hbytes) (fun bytes hbytes ↦ .inr hbytes) (hhash.trans hhash'.symm)
      have hsame := HashTerm.eq_of_agrees (complete_rangeTerm htop') hagrees
      have hleaves := leaves_rangeTerm (hlength.trans_lt maxRangeLeaves_lt) htop
      rw [hsame, leaves_rangeTerm (hlength'.trans_lt maxRangeLeaves_lt) htop'] at hleaves
      exact (List.map_injective_iff.mpr fun _ _ ↦ MmrLeaf.encode_inj) hleaves.symm

end Ranges

/-- Roots bind content. Assumes: the library is the standard mountain range; on what is hashed for the
two values at hand, the hash function has no collisions and, for ranges, is nowhere zero. The
identifier of a blob that is not empty determines its bytes, and the root of a mountain range its
leaves, of which there are at most as many as the chain accepts. -/
theorem roots_bind_content {mmr : MmrLibrary} (hmmr : mmr.IsStandard) :
    (∀ data data' : Bytes, data ≠ [] → data' ≠ [] →
      Set.InjOn blake2256
        {bytes | bytes ∈ cidPreimages blake2256 data ∨ bytes ∈ cidPreimages blake2256 data'} →
      computeCid blake2256 data = computeCid blake2256 data' → data = data') ∧
    ∀ leaves leaves' : List MmrLeaf, leaves.length ≤ maxRangeLeaves →
      leaves'.length ≤ maxRangeLeaves →
      Set.InjOn blake2256
        {bytes | bytes ∈ rangePreimages blake2256 leaves ∨
          bytes ∈ rangePreimages blake2256 leaves'} →
      (∀ bytes, bytes ∈ rangePreimages blake2256 leaves ∨
        bytes ∈ rangePreimages blake2256 leaves' → blake2256 bytes ≠ H256.zero) →
      mmrRoot blake2256 mmr leaves = mmrRoot blake2256 mmr leaves' → leaves = leaves' := by
  constructor
  · intro data data' hne hne' hfree h
    exact computeCid_inj hne hne' hfree h
  · intro leaves leaves' hlength hlength' hfree hzero h
    obtain ⟨root, hroot⟩ := @exists_mmrRoot blake2256 mmr hmmr leaves hlength
    exact mmrRoot_inj hmmr hlength hlength' hfree hzero hroot (h.symm.trans hroot)

/-- Blobs of one byte each, and ranges of three and of two leaves. -/
theorem roots_bind_content_small :
    computeCid blake2b256 [7] ≠ computeCid blake2b256 [8] ∧
      mmrRoot blake2b256 standardMmr threeMmrLeaves ≠
        mmrRoot blake2b256 standardMmr threeMmrLeaves.dropLast := by
  obtain ⟨hblobs, hranges⟩ := @roots_bind_content blake2b256 standardMmr standardMmr_isStandard
  constructor
  · intro h
    have hfree : ∀ bytes ∈ cidPreimages blake2b256 [7] ++ cidPreimages blake2b256 [8],
        ∀ bytes' ∈ cidPreimages blake2b256 [7] ++ cidPreimages blake2b256 [8],
          blake2b256 bytes = blake2b256 bytes' → bytes = bytes' := by
      rw [blake2b256_eq]
      decide +kernel
    have hsame := hblobs [7] [8] (by decide) (by decide)
      (fun bytes hbytes bytes' hbytes' ↦ hfree bytes (List.mem_append.mpr hbytes) bytes'
        (List.mem_append.mpr hbytes')) h
    revert hsame
    decide
  · intro h
    have hhashes : ∀ bytes ∈ rangePreimages blake2b256 threeMmrLeaves ++
        rangePreimages blake2b256 threeMmrLeaves.dropLast, blake2b256 bytes ≠ H256.zero ∧
        ∀ bytes' ∈ rangePreimages blake2b256 threeMmrLeaves ++
          rangePreimages blake2b256 threeMmrLeaves.dropLast,
            blake2b256 bytes = blake2b256 bytes' → bytes = bytes' := by
      rw [blake2b256_eq]
      decide +kernel
    have hsame := hranges threeMmrLeaves threeMmrLeaves.dropLast (by decide) (by decide)
      (fun bytes hbytes bytes' hbytes' ↦ (hhashes bytes (List.mem_append.mpr hbytes)).2 bytes'
        (List.mem_append.mpr hbytes'))
      (fun bytes hbytes ↦ (hhashes bytes (List.mem_append.mpr hbytes)).1) h
    revert hsame
    decide

end Web3Storage.Formats
