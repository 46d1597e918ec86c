import Web3Storage.Node.StoreAccounting

/-!
# Old commitments of the store

A commitment that the store returned covers a window of its leaves at that moment. Later commits
append leaves and later deletes cut the front, so the window is still there, at another offset, until
a delete moves the start of the bucket past the start of the commitment (`Retains`). As long as it is
there, the store rebuilds the proof of every leaf of the commitment, and the chain accepts it
(`commitments_stay_provable`). The mountain range library is assumed to be a standard one.
-/

set_option autoImplicit false
set_option relaxedAutoImplicit false

namespace Web3Storage.Node

open Foundations Primitives

variable (engine : Engine)

/-- The leaf of a bucket with a global sequence number, if it is held. -/
def Store.leafAt (s : Store) (bucketId seq : ℕ) : Option MmrLeaf :=
  (s.buckets.lookup bucketId).bind fun bucket ↦
    if bucket.startSeq ≤ seq then bucket.leaves[seq - bucket.startSeq]? else none

/-- The commitment that a call returns for a bucket. -/
def returnedCommitment (s : Store) (bucketId : ℕ) : StoreInput → Option Commitment
  | .commit target dataRoots =>
    if target = bucketId then
      (commit engine target dataRoots s).toOption.map fun result ↦ result.1.commitment
    else none
  | .deleteBefore target newStartSeq =>
    if target = bucketId then
      (deleteBefore engine target newStartSeq s).toOption.map fun result ↦ result.1
    else none
  | _ => none

/-- A bucket exists and, unless its start has moved past a sequence number, still holds a window of
leaves from that number on. -/
def Retains (bucketId start : ℕ) (window : List MmrLeaf) (s : Store) : Prop :=
  ∃ bucket, s.buckets.lookup bucketId = some bucket ∧
    (bucket.startSeq ≤ start → window <+: bucket.leaves.drop (start - bucket.startSeq))

variable {engine} {s s' : Store} {input : StoreInput} {bucketId start : ℕ}
  {window : List MmrLeaf}

/-! ### One call -/

/-- A bucket that is written keeps the window of another, and its own when its leaves do. -/
theorem Retains.insert {nodes : FiniteMap H256 ChunkTreeNode} {target : ℕ}
    {old new : BucketState} (hs : Retains bucketId start window s)
    (hold : s.buckets.lookup target = some old)
    (hkeeps : (old.startSeq ≤ start → window <+: old.leaves.drop (start - old.startSeq)) →
      new.startSeq ≤ start → window <+: new.leaves.drop (start - new.startSeq)) :
    Retains bucketId start window ⟨nodes, s.buckets.insert target new⟩ := by
  obtain ⟨bucket, hbucket, hwindow⟩ := hs
  by_cases htarget : bucketId = target
  · subst htarget
    obtain rfl := Option.some.inj (hold.symm.trans hbucket)
    exact ⟨new, Finmap.lookup_insert _, hkeeps hwindow⟩
  · refine ⟨bucket, ?_, hwindow⟩
    rw [FiniteMap.lookup_insert_eq, if_neg htarget]
    exact hbucket

/-- Every call retains a window. -/
theorem Retains.of_effect (h : StoreEffect engine s input s')
    (hs : Retains bucketId start window s) : Retains bucketId start window s' := by
  cases h with
  | kept => exact hs
  | bucketAdded target maxBytes hnew =>
    obtain ⟨bucket, hbucket, hwindow⟩ := hs
    refine ⟨bucket, ?_, hwindow⟩
    have htarget : bucketId ≠ target := by
      rintro rfl
      rw [hnew] at hbucket
      cases hbucket
    unfold Store.putBucket
    rw [FiniteMap.lookup_insert_eq, if_neg htarget]
    exact hbucket
  | nodeAdded target node bucket hchildren hbucket hquota hnew =>
    exact hs.insert hbucket fun hwindow hstart ↦ hwindow hstart
  | leavesAdded target dataRoots bucket added root hbucket hfits hroot =>
    refine hs.insert hbucket fun hwindow hstart ↦ (hwindow hstart).trans ?_
    rw [List.drop_append]
    exact List.prefix_append _ _
  | leavesDropped target newStartSeq bucket root hbucket hstart hend hroot =>
    refine hs.insert hbucket fun hwindow hstart' ↦ ?_
    -- the same leaves, at an offset from the new start
    have hoffset : newStartSeq - bucket.startSeq + (start - newStartSeq) =
        start - bucket.startSeq := by
      simp only at hstart'
      omega
    rw [List.drop_drop, hoffset]
    exact hwindow (hstart.trans hstart')

/-- A run retains a window. -/
theorem Retains.run (hs : Retains bucketId start window s) (inputs : List StoreInput) :
    Retains bucketId start window (run (storeStep engine) s inputs) :=
  invariant_of_every_step (Retains bucketId start window)
    (fun state input hstate ↦ hstate.of_effect (storeEffect_of_step state input)) hs inputs

/-! ### Single leaves -/

/-- A leaf that is held is a window of one. -/
theorem retains_of_leafAt {seq : ℕ} {leaf : MmrLeaf} (h : s.leafAt bucketId seq = some leaf) :
    Retains bucketId seq [leaf] s := by
  obtain ⟨bucket, hbucket, hleaf⟩ := Option.bind_eq_some_iff.mp h
  split_ifs at hleaf with hstart
  refine ⟨bucket, hbucket, fun _ ↦ ?_⟩
  obtain ⟨hlt, rfl⟩ := List.getElem?_eq_some_iff.mp hleaf
  rw [List.drop_eq_getElem_cons hlt]
  exact List.prefix_append [_] _

/-- A retained window gives its leaves while the start of the bucket has not moved past it. -/
theorem Retains.leafAt {index : ℕ} {leaf : MmrLeaf} (hs : Retains bucketId start window s)
    (hstart : ∀ bucket, s.buckets.lookup bucketId = some bucket → bucket.startSeq ≤ start)
    (hleaf : window[index]? = some leaf) : s.leafAt bucketId (start + index) = some leaf := by
  obtain ⟨bucket, hbucket, hwindow⟩ := hs
  have hle := hstart bucket hbucket
  obtain ⟨rest, hrest⟩ := hwindow hle
  have hindex : index < window.length := (List.getElem?_eq_some_iff.mp hleaf).1
  have hoffset : start + index - bucket.startSeq = start - bucket.startSeq + index := by omega
  unfold Store.leafAt
  rw [hbucket, Option.bind_some, if_pos (by omega), hoffset, ← List.getElem?_drop, ← hrest,
    List.getElem?_append_left hindex, hleaf]

/-! ### Commitments -/

/-- A commitment that a call returned is that of the bucket after the call. -/
theorem returnedCommitment_eq {commitment : Commitment}
    (h : returnedCommitment engine s bucketId input = some commitment) :
    ∃ bucket, (storeStep engine s input).buckets.lookup bucketId = some bucket ∧
      commitment = bucket.commitmentOf := by
  cases input with
  | initBucket target maxBytes => cases h
  | storeNode target expectedHash node => cases h
  | commit target dataRoots =>
    simp only [returnedCommitment] at h
    split_ifs at h with htarget
    subst htarget
    obtain ⟨result, hresult, rfl⟩ := Option.map_eq_some_iff.mp h
    have hok := eq_ok_of_toOption hresult
    simp only [storeStep, hok]
    exact (commit_ok hok).2
  | deleteBefore target newStartSeq =>
    simp only [returnedCommitment] at h
    split_ifs at h with htarget
    subst htarget
    obtain ⟨result, hresult, rfl⟩ := Option.map_eq_some_iff.mp h
    have hok := eq_ok_of_toOption hresult
    simp only [storeStep, hok]
    exact (deleteBefore_ok hok).2

theorem maxLeaves_le : maxLeaves ≤ maxRangeLeaves ∧ maxLeaves ≤ u64Max := by
  decide

/-- Assumes: a standard library. A store that retains the leaves of a commitment builds the proof of
each of them, and the chain accepts it. -/
theorem exists_proof_of_retains (hmmr : engine.mmr.IsStandard) {commitment : Commitment}
    {index : ℕ} {leaf : MmrLeaf} (hranges : RangesBuilt engine s)
    (hs : Retains bucketId commitment.startSeq window s)
    (hstart : ∀ bucket, s.buckets.lookup bucketId = some bucket →
      bucket.startSeq ≤ commitment.startSeq)
    (hcount : commitment.leafCount = window.length)
    (hroot : mmrRoot engine.blake2256 engine.mmr window = some commitment.mmrRoot)
    (hleaf : window[index]? = some leaf) :
    ∃ proof, getMmrProofForCommitment engine bucketId commitment index s = .ok proof ∧
      verifyMmrProof engine.blake2256 engine.mmr proof index commitment = true ∧
        proof.leaf = leaf := by
  obtain ⟨bucket, hbucket, hwindow⟩ := hs
  have hle := hstart bucket hbucket
  have hfits := (hranges bucketId bucket hbucket).2
  have hindex : index < window.length := (List.getElem?_eq_some_iff.mp hleaf).1
  have hpre := hwindow hle
  have hlength := hpre.length_le
  rw [List.length_drop] at hlength
  obtain ⟨hrange, hwide⟩ := maxLeaves_le
  have hlast : saturatingAdd u64Max (commitment.startSeq - bucket.startSeq) window.length =
      commitment.startSeq - bucket.startSeq + window.length :=
    saturatingAdd_of_le (by omega)
  have hcut : (bucket.leaves.take (commitment.startSeq - bucket.startSeq + window.length)).drop
      (commitment.startSeq - bucket.startSeq) = window := by
    rw [List.drop_take, Nat.add_sub_cancel_left, ← List.prefix_iff_eq_take.mp hpre]
  obtain ⟨items, hproof, hverify⟩ := exists_mmrProof hmmr (by omega) hleaf hroot
  refine ⟨⟨leaf, items⟩, ?_, ?_, rfl⟩
  · have hheld : commitment.startSeq - bucket.startSeq + window.length ≤ bucket.leaves.length := by
      omega
    simp only [getMmrProofForCommitment, leafProof, hbucket, hlast, hcut, hproof, hcount, hindex,
      hle, hheld, require_some, ok_bind, decide_true, ensure_true]
    rfl
  · have hverify' := hverify commitment.startSeq
    rwa [← hcount] at hverify'

/-- Commitments stay provable. In every run from the empty store, a commitment that a call returned
for a bucket is provable in every later state in which the start of the bucket has not moved past
the start of the commitment: for every leaf index the store builds a proof, the chain accepts it, and
its leaf is the one with that sequence number, now, when the commitment was returned and in every
state of the run that holds the number. -/
theorem commitments_stay_provable (hmmr : engine.mmr.IsStandard) {before after : List StoreInput}
    {commitment : Commitment} {final : Store}
    (hreturned : returnedCommitment engine (run (storeStep engine) Store.empty before) bucketId
      input = some commitment)
    (hfinal : final = run (storeStep engine) Store.empty (before ++ input :: after))
    (hstart : ∀ bucket, final.buckets.lookup bucketId = some bucket →
      bucket.startSeq ≤ commitment.startSeq)
    {index : ℕ} (hindex : index < commitment.leafCount) :
    ∃ proof, getMmrProofForCommitment engine bucketId commitment index final = .ok proof ∧
      verifyMmrProof engine.blake2256 engine.mmr proof index commitment = true ∧
        final.leafAt bucketId (commitment.startSeq + index) = some proof.leaf ∧
          (run (storeStep engine) Store.empty (before ++ [input])).leafAt bucketId
              (commitment.startSeq + index) = some proof.leaf ∧
            ∀ first rest leaf, before ++ input :: after = first ++ rest →
              (run (storeStep engine) Store.empty first).leafAt bucketId
                (commitment.startSeq + index) = some leaf → leaf = proof.leaf := by
  obtain ⟨bucket, hbucket, rfl⟩ := returnedCommitment_eq hreturned
  have hstep : run (storeStep engine) Store.empty (before ++ [input]) =
      storeStep engine (run (storeStep engine) Store.empty before) input := run_concat _ _ _
  rw [← hstep] at hbucket
  have hranges : RangesBuilt engine (run (storeStep engine) Store.empty (before ++ [input])) :=
    rangesBuilt_run _
  have hthen : Retains bucketId bucket.startSeq bucket.leaves
      (run (storeStep engine) Store.empty (before ++ [input])) := by
    refine ⟨bucket, hbucket, fun _ ↦ ?_⟩
    rw [Nat.sub_self, List.drop_zero]
  have hsplit : before ++ input :: after = (before ++ [input]) ++ after := by simp
  have hnow : Retains bucketId bucket.startSeq bucket.leaves final := by
    rw [hfinal, hsplit, run_append]
    exact hthen.run after
  obtain ⟨leaf, hleaf⟩ : ∃ leaf, bucket.leaves[index]? = some leaf :=
    ⟨_, List.getElem?_eq_getElem hindex⟩
  obtain ⟨proof, hproof, hverify, rfl⟩ := exists_proof_of_retains hmmr
    (hfinal ▸ rangesBuilt_run _) hnow hstart rfl (hranges bucketId bucket hbucket).1 hleaf
  have hheld : final.leafAt bucketId (bucket.startSeq + index) = some proof.leaf :=
    hnow.leafAt hstart hleaf
  refine ⟨proof, hproof, hverify, hheld, hthen.leafAt ?_ hleaf, ?_⟩
  · intro stored hstored
    obtain rfl := Option.some.inj (hbucket.symm.trans hstored)
    exact le_rfl
  · intro first rest leaf hfirst hleaf'
    have hkept : Retains bucketId (bucket.startSeq + index) [leaf] final := by
      rw [hfinal, hfirst, run_append]
      exact (retains_of_leafAt hleaf').run rest
    have hsame : final.leafAt bucketId (bucket.startSeq + index + 0) = some leaf :=
      hkept.leafAt (fun stored hstored ↦ (hstart stored hstored).trans (Nat.le_add_right _ _)) rfl
    exact Option.some.inj (hsame.symm.trans hheld)

/-- A commit of a second leaf to the small store. -/
def secondCommit : StoreInput := .commit 1 [(byteChunk 8).hash blakeEngine.blake2256]

/-- A third leaf after it. -/
def thirdCommit : StoreInput := .commit 1 [(byteChunk 7).hash blakeEngine.blake2256]

/-- The commitment to two leaves is provable after a third. -/
theorem commitments_stay_provable_third : ∃ commitment proof,
    returnedCommitment blakeEngine (run (storeStep blakeEngine) Store.empty smallStore) 1
        secondCommit = some commitment ∧
      getMmrProofForCommitment blakeEngine 1 commitment 1 (run (storeStep blakeEngine) Store.empty
        (smallStore ++ secondCommit :: [thirdCommit])) = .ok proof ∧
          verifyMmrProof blakeEngine.blake2256 blakeEngine.mmr proof 1 commitment = true := by
  have hshape : (returnedCommitment blakeEngine (run (storeStep blakeEngine) Store.empty smallStore)
      1 secondCommit).map (fun commitment ↦ (commitment.startSeq, commitment.leafCount)) =
        some (0, 2) := by
    decide +kernel
  have hstart : ((run (storeStep blakeEngine) Store.empty
      (smallStore ++ secondCommit :: [thirdCommit])).buckets.lookup 1).map (·.startSeq) =
        some 0 := by
    decide +kernel
  obtain ⟨commitment, hreturned, hcommitment⟩ := Option.map_eq_some_iff.mp hshape
  obtain ⟨hzero, htwo⟩ := Prod.mk.inj hcommitment
  have hindex : 1 < commitment.leafCount := by
    rw [htwo]
    decide
  obtain ⟨proof, hproof, hverify, -⟩ := commitments_stay_provable
    (show blakeEngine.mmr.IsStandard from standardMmr_isStandard) hreturned rfl
      (fun bucket hbucket ↦ by
        rw [hbucket] at hstart
        exact (Option.some.inj hstart).trans_le (Nat.zero_le _)) hindex
  exact ⟨commitment, proof, hreturned, hproof, hverify⟩

end Web3Storage.Node
