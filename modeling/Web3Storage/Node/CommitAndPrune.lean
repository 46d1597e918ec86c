import Web3Storage.Node.CommitmentHistory

/-!
# Commits and prunes in either order

A leaf carries the running total of the leaf before it. A commit and a prune of one bucket commute as
long as the prune leaves the last leaf in place; a prune of all leaves starts the total of the next one
from zero (`commit_deleteBefore_comm_iff`).
-/

set_option autoImplicit false
set_option relaxedAutoImplicit false

namespace Web3Storage.Node

open Foundations Primitives

/-! ### Appended leaves -/

/-- The running total of the last leaf, zero without leaves. -/
def lastTotal (leaves : List MmrLeaf) : ℕ := (leaves.getLast?.map (·.totalSize.toNat)).getD 0

/-- The leaf of a data root with its size, after a running total. -/
def leafAfter (total : ℕ) (data : H256 × ℕ) : MmrLeaf where
  leafVersion := leafVersion
  dataRoot := data.1
  dataSize := UInt64.ofNat data.2
  totalSize := UInt64.ofNat (saturatingAdd u64Max total data.2)

/-- The leaves of some data roots after a running total. -/
def leavesAfter : ℕ → List (H256 × ℕ) → List MmrLeaf
  | _, [] => []
  | total, data :: rest => leafAfter total data :: leavesAfter (saturatingAdd u64Max total data.2) rest

theorem toNat_ofNat {n : ℕ} (h : n ≤ u64Max) : (UInt64.ofNat n).toNat = n := by
  rw [UInt64.toNat_ofNat']
  exact Nat.mod_eq_of_lt (by unfold u64Max at h; omega)

theorem length_leavesAfter (total : ℕ) (data : List (H256 × ℕ)) :
    (leavesAfter total data).length = data.length := by
  induction data generalizing total with
  | nil => rfl
  | cons first rest ih => rw [leavesAfter, List.length_cons, List.length_cons, ih]

/-- What is appended depends on the last running total only. -/
theorem foldl_pushLeaf_eq (data : List (H256 × ℕ)) (leaves : List MmrLeaf) :
    data.foldl pushLeaf leaves = leaves ++ leavesAfter (lastTotal leaves) data := by
  induction data generalizing leaves with
  | nil => rw [List.foldl_nil, leavesAfter, List.append_nil]
  | cons first rest ih =>
    have hpush : pushLeaf leaves first = leaves ++ [leafAfter (lastTotal leaves) first] := rfl
    have htotal : lastTotal (pushLeaf leaves first) =
        saturatingAdd u64Max (lastTotal leaves) first.2 := by
      unfold lastTotal
      rw [hpush, List.getLast?_concat, Option.map_some, Option.getD_some]
      exact toNat_ofNat (saturatingAdd_le _ _ _)
    rw [List.foldl_cons, ih, htotal, hpush, List.append_assoc]
    rfl

/-- The last leaf stays in place when fewer leaves are dropped than there are. -/
theorem lastTotal_drop {leaves : List MmrLeaf} {count : ℕ} (h : count < leaves.length) :
    lastTotal (leaves.drop count) = lastTotal leaves := by
  unfold lastTotal
  rw [List.getLast?_drop, if_neg (by omega)]

/-- Leaves of data after two totals are the same if and only if there is no data or the totals are the
same. Assumes: sizes below the largest total, and one of the totals is zero. -/
theorem leavesAfter_eq_iff {total : ℕ} {data : List (H256 × ℕ)} (hdata : ∀ d ∈ data, d.2 < u64Max) :
    leavesAfter 0 data = leavesAfter total data ↔ data = [] ∨ total = 0 := by
  cases data with
  | nil => simp [leavesAfter]
  | cons first rest =>
    constructor
    · intro h
      right
      rw [leavesAfter, leavesAfter, List.cons.injEq] at h
      have htotals := congrArg (fun leaf ↦ leaf.totalSize.toNat) h.1
      have hfirst := hdata first List.mem_cons_self
      simp only [leafAfter, toNat_ofNat (saturatingAdd_le _ _ _)] at htotals
      unfold saturatingAdd at htotals
      omega
    · rintro (hnil | rfl)
      · cases hnil
      · rfl

/-! ### Sizes of committed data -/

section Sizes

variable {s s' : Store} {engine : Engine}

theorem Store.nodes_putBucket (s : Store) (bucketId : ℕ) (bucket : BucketState) :
    (s.putBucket bucketId bucket).nodes = s.nodes :=
  rfl

/-- A walk depends on the stored nodes only. -/
theorem walkLeaves_congr (h : s'.nodes = s.nodes) (visits : ℕ) (stack : List H256) :
    walkLeaves s' visits stack = walkLeaves s visits stack := by
  induction visits generalizing stack with
  | zero =>
    cases stack with
    | nil => rfl
    | cons hash stack => rfl
  | succ visits ih =>
    cases stack with
    | nil => rfl
    | cons hash stack => simp only [walkLeaves, h, ih]

theorem canonicalDataSize_congr (h : s'.nodes = s.nodes) (root : H256) :
    canonicalDataSize engine s' root = canonicalDataSize engine s root := by
  unfold canonicalDataSize collectLeaves
  rw [walkLeaves_congr h]

theorem ensureRootsStored_congr (h : s'.nodes = s.nodes) (roots : List H256) :
    ensureRootsStored s' roots = ensureRootsStored s roots := by
  induction roots with
  | nil => rfl
  | cons root rest ih => simp only [ensureRootsStored, Store.hasNode, h, ih]

/-- A walk finds at most one chunk a visit. -/
theorem length_walkLeaves_le {visits : ℕ} {stack : List H256} {leaves : List (H256 × ℕ)}
    (h : walkLeaves s visits stack = .ok leaves) : leaves.length ≤ visits := by
  induction visits generalizing stack leaves with
  | zero =>
    cases stack with
    | nil =>
      cases h
      exact Nat.zero_le _
    | cons hash stack => cases h
  | succ visits ih =>
    cases stack with
    | nil =>
      cases h
      exact Nat.zero_le _
    | cons hash stack =>
      simp only [walkLeaves, bind_eq_ok, require_eq_ok] at h
      obtain ⟨node, -, h⟩ := h
      cases node with
      | chunk data =>
        simp only [bind_eq_ok, pure_eq_ok] at h
        obtain ⟨rest, hrest, rfl⟩ := h
        rw [List.length_cons]
        exact Nat.succ_le_succ (ih hrest)
      | internal left right => exact (ih h).trans (Nat.le_succ _)

/-- Chunks of the default size, up to the last, which is no larger. -/
theorem sum_le_of_fixedSizes {chunkSizes : List ℕ} (h : fixedSizes chunkSizes = true) :
    chunkSizes.sum ≤ chunkSizes.length * defaultChunkSize := by
  have hle : ∀ size ∈ chunkSizes, size ≤ defaultChunkSize := by
    intro size hsize
    unfold fixedSizes at h
    split at h
    · cases h
    · rename_i last hlast
      simp only [Bool.and_eq_true, List.all_eq_true, decide_eq_true_eq] at h
      rw [← List.dropLast_append_getLast? last hlast, List.mem_append, List.mem_singleton] at hsize
      rcases hsize with hinit | rfl
      · exact (h.1.1 size hinit).le
      · exact h.2
  have hsum := List.sum_le_card_nsmul chunkSizes defaultChunkSize hle
  rwa [smul_eq_mul] at hsum

/-- The data under a canonical root is far smaller than a running total can be. -/
theorem canonicalDataSize_lt {root : H256} {size : ℕ}
    (h : canonicalDataSize engine s root = .ok size) : size < u64Max := by
  simp only [canonicalDataSize, collectLeaves, bind_eq_ok, pure_eq_ok, ensure_eq_ok,
    Bool.and_eq_true] at h
  obtain ⟨leaves, hleaves, -, ⟨hfixed, -⟩, rfl⟩ := h
  have hlength := length_walkLeaves_le hleaves
  have hsum := sum_le_of_fixedSizes hfixed
  rw [List.length_map] at hsum
  calc (leaves.map (·.2)).sum ≤ leaves.length * defaultChunkSize := hsum
    _ ≤ maxTreeWalkVisits * defaultChunkSize := Nat.mul_le_mul_right _ hlength
    _ < u64Max := by decide

theorem length_of_mapM {roots : List H256} {sizes : List ℕ}
    (h : roots.mapM (canonicalDataSize engine s) = .ok sizes) : sizes.length = roots.length := by
  induction roots generalizing sizes with
  | nil =>
    rw [List.mapM_nil, pure_eq_ok] at h
    rw [← h]
    rfl
  | cons root rest ih =>
    simp only [List.mapM_cons, bind_eq_ok, pure_eq_ok] at h
    obtain ⟨first, -, others, hothers, rfl⟩ := h
    rw [List.length_cons, List.length_cons, ih hothers]

/-- So are those under each of some roots. -/
theorem mapM_canonicalDataSize_lt {roots : List H256} {sizes : List ℕ}
    (h : roots.mapM (canonicalDataSize engine s) = .ok sizes) : ∀ size ∈ sizes, size < u64Max := by
  induction roots generalizing sizes with
  | nil =>
    rw [List.mapM_nil, pure_eq_ok] at h
    subst h
    nofun
  | cons root rest ih =>
    simp only [List.mapM_cons, bind_eq_ok, pure_eq_ok] at h
    obtain ⟨first, hfirst, others, hothers, rfl⟩ := h
    intro size hsize
    rcases List.mem_cons.mp hsize with rfl | hrest
    · exact canonicalDataSize_lt hfirst
    · exact ih hothers size hrest

end Sizes

/-! ### The two orders -/

section Orders

variable {engine : Engine} {s s' : Store} {bucketId : ℕ} {bucket : BucketState}

/-- A standard library builds the root of every list of leaves that a vector holds. -/
theorem exists_mmrRoot (hmmr : engine.mmr.IsStandard) {leaves : List MmrLeaf}
    (hlength : leaves.length ≤ maxLeaves) :
    ∃ root, mmrRoot engine.blake2256 engine.mmr leaves = some root := by
  by_cases hne : leaves = []
  · rw [hne]
    exact ⟨_, rfl⟩
  · have hrange := hlength.trans maxLeaves_le.1
    rw [mmrRoot_eq hmmr hne hrange, ← Option.ne_none_iff_exists', ne_eq,
      MountainRange.root_eq_none_iff]
    · simpa [leafHashes] using hne
    · rw [leafHashes, List.length_map]
      exact hrange.trans_lt maxRangeLeaves_lt

/-- A commit appends the leaves of stored and canonical roots, if a vector holds them. -/
theorem commit_eq_ok_iff {dataRoots : List H256}
    (hbucket : s.buckets.lookup bucketId = some bucket) :
    (∃ outcome, commit engine bucketId dataRoots s = .ok (outcome, s')) ↔
      ∃ dataSizes root, ensureRootsStored s dataRoots = .ok () ∧
        dataRoots.mapM (canonicalDataSize engine s) = .ok dataSizes ∧
          bucket.leaves.length + dataRoots.length ≤ maxLeaves ∧
            mmrRoot engine.blake2256 engine.mmr
                (bucket.leaves ++ leavesAfter (lastTotal bucket.leaves) (dataRoots.zip dataSizes)) =
              some root ∧
              s' = s.putBucket bucketId { bucket with
                leaves := bucket.leaves ++
                  leavesAfter (lastTotal bucket.leaves) (dataRoots.zip dataSizes)
                mmrRoot := root } := by
  simp only [commit, bind_eq_ok, pure_eq_ok, ensure_eq_ok, require_eq_ok, decide_eq_true_eq,
    Prod.mk.injEq, hbucket, Option.some.injEq, foldl_pushLeaf_eq]
  constructor
  · rintro ⟨outcome, done, hstored, dataSizes, hsizes, found, rfl, -, hfits, root, hroot, -, rfl⟩
    exact ⟨dataSizes, root, hstored, hsizes, hfits, hroot, rfl⟩
  · rintro ⟨dataSizes, root, hstored, hsizes, hfits, hroot, rfl⟩
    exact ⟨_, (), hstored, dataSizes, hsizes, bucket, rfl, (), hfits, root, hroot, rfl, rfl⟩

/-- A prune within the leaves drops those before its start. -/
theorem exists_deleteBefore (hmmr : engine.mmr.IsStandard)
    (hbucket : s.buckets.lookup bucketId = some bucket) (hlength : bucket.leaves.length ≤ maxLeaves)
    {newStartSeq : ℕ} (hstart : bucket.startSeq < newStartSeq)
    (hend : newStartSeq ≤ saturatingAdd u64Max bucket.startSeq bucket.leafCount) :
    ∃ root, deleteBefore engine bucketId newStartSeq s =
      .ok (⟨root, newStartSeq, (bucket.leaves.drop (newStartSeq - bucket.startSeq)).length⟩,
        s.putBucket bucketId { bucket with
          leaves := bucket.leaves.drop (newStartSeq - bucket.startSeq)
          startSeq := newStartSeq
          mmrRoot := root }) ∧
      mmrRoot engine.blake2256 engine.mmr
        (bucket.leaves.drop (newStartSeq - bucket.startSeq)) = some root := by
  have hdropped : (bucket.leaves.drop (newStartSeq - bucket.startSeq)).length ≤ maxLeaves := by
    rw [List.length_drop]
    omega
  obtain ⟨root, hroot⟩ := exists_mmrRoot hmmr hdropped
  have hremove : newStartSeq - bucket.startSeq ≠ 0 := by omega
  refine ⟨root, ?_, hroot⟩
  simp only [deleteBefore, hbucket, require_some, ok_bind, hstart.le, hend, decide_true,
    Bool.and_self, ensure_true, if_neg hremove, hroot]
  rfl

/-- A prune that moves nothing leaves the store as it is. -/
theorem deleteBefore_start (hbucket : s.buckets.lookup bucketId = some bucket) {newStartSeq : ℕ}
    (hsame : bucket.startSeq = newStartSeq) (hclock : newStartSeq ≤ u64Max) :
    deleteBefore engine bucketId newStartSeq s = .ok (bucket.commitmentOf, s) := by
  subst hsame
  have hend : bucket.startSeq ≤ saturatingAdd u64Max bucket.startSeq bucket.leafCount :=
    le_min (Nat.le_add_right _ _) hclock
  simp only [deleteBefore, hbucket, require_some, ok_bind, le_refl, hend, decide_true,
    Bool.and_self, ensure_true, Nat.sub_self, if_true]
  rfl

/-- A prune and a commit of a bucket, in either order, both go through. They reach the same leaves,
start and root if and only if there is nothing to commit, or the prune keeps a leaf, or the last leaf
has no running total. Assumes: a standard library. -/
theorem commit_deleteBefore_comm_iff (hmmr : engine.mmr.IsStandard) {dataRoots : List H256}
    {outcome : CommitOutcome} {committed : Store} {newStartSeq : ℕ}
    (hbucket : s.buckets.lookup bucketId = some bucket)
    (hcommit : commit engine bucketId dataRoots s = .ok (outcome, committed))
    (hstart : bucket.startSeq ≤ newStartSeq)
    (hend : newStartSeq ≤ saturatingAdd u64Max bucket.startSeq bucket.leafCount) :
    ∃ pruned pruneFirst commitFirst commitment commitment' outcome' first last,
      deleteBefore engine bucketId newStartSeq s = .ok (commitment, pruned) ∧
        commit engine bucketId dataRoots pruned = .ok (outcome', pruneFirst) ∧
          deleteBefore engine bucketId newStartSeq committed = .ok (commitment', commitFirst) ∧
            pruneFirst.buckets.lookup bucketId = some first ∧
              commitFirst.buckets.lookup bucketId = some last ∧
                (first.leaves = last.leaves ∧ first.startSeq = last.startSeq ∧
                    first.mmrRoot = last.mmrRoot ↔
                  dataRoots = [] ∨ newStartSeq < bucket.startSeq + bucket.leaves.length ∨
                    lastTotal bucket.leaves = 0) := by
  obtain ⟨dataSizes, root, hstored, hsizes, hfits, hroot, rfl⟩ :=
    (commit_eq_ok_iff hbucket).mp ⟨outcome, hcommit⟩
  have hcommitted : (s.putBucket bucketId { bucket with
      leaves := bucket.leaves ++ leavesAfter (lastTotal bucket.leaves) (dataRoots.zip dataSizes)
      mmrRoot := root }).buckets.lookup bucketId = some { bucket with
        leaves := bucket.leaves ++ leavesAfter (lastTotal bucket.leaves) (dataRoots.zip dataSizes)
        mmrRoot := root } := Finmap.lookup_insert _
  have hbound : newStartSeq ≤ bucket.startSeq + bucket.leaves.length :=
    hend.trans (Nat.min_le_left _ _)
  have hclock : newStartSeq ≤ u64Max := hend.trans (Nat.min_le_right _ _)
  by_cases hsame : newStartSeq = bucket.startSeq
  · -- nothing is pruned in either order
    subst hsame
    refine ⟨s, _, _, _, _, outcome, _, _, deleteBefore_start hbucket rfl hclock, hcommit,
      deleteBefore_start hcommitted rfl hclock, hcommitted, hcommitted, ?_⟩
    constructor
    · rintro -
      by_cases hnone : bucket.leaves = []
      · rw [hnone]
        exact .inr (.inr rfl)
      · have hpos := List.length_pos_iff.mpr hnone
        exact .inr (.inl (by omega))
    · rintro -
      exact ⟨rfl, rfl, rfl⟩
  · have hlt : bucket.startSeq < newStartSeq := lt_of_le_of_ne hstart (Ne.symm hsame)
    have hlength : (bucket.leaves ++
        leavesAfter (lastTotal bucket.leaves) (dataRoots.zip dataSizes)).length ≤ maxLeaves := by
      rw [List.length_append, length_leavesAfter, List.length_zip]
      omega
    have hend' : newStartSeq ≤ saturatingAdd u64Max bucket.startSeq (bucket.leaves ++
        leavesAfter (lastTotal bucket.leaves) (dataRoots.zip dataSizes)).length := by
      rw [List.length_append]
      exact le_min (by omega) hclock
    have hdata : ∀ d ∈ dataRoots.zip dataSizes, d.2 < u64Max := by
      intro d hd
      exact mapM_canonicalDataSize_lt hsizes d.2 (List.of_mem_zip hd).2
    obtain ⟨prunedRoot, hprune, hprunedRoot⟩ :=
      exists_deleteBefore hmmr hbucket (by omega) hlt hend
    obtain ⟨lastRoot, hlast, hlastRoot⟩ :=
      exists_deleteBefore hmmr hcommitted hlength hlt hend'
    dsimp only at hlast hlastRoot
    rw [List.drop_append_of_le_length (by omega)] at hlast hlastRoot
    -- the commit after the prune
    have hpruned : (s.putBucket bucketId { bucket with
        leaves := bucket.leaves.drop (newStartSeq - bucket.startSeq)
        startSeq := newStartSeq
        mmrRoot := prunedRoot }).buckets.lookup bucketId = some { bucket with
          leaves := bucket.leaves.drop (newStartSeq - bucket.startSeq)
          startSeq := newStartSeq
          mmrRoot := prunedRoot } := Finmap.lookup_insert _
    have hshort : (bucket.leaves.drop (newStartSeq - bucket.startSeq) ++
        leavesAfter (lastTotal (bucket.leaves.drop (newStartSeq - bucket.startSeq)))
          (dataRoots.zip dataSizes)).length ≤ maxLeaves := by
      rw [List.length_append, length_leavesAfter, List.length_zip, List.length_drop]
      omega
    obtain ⟨firstRoot, hfirstRoot⟩ := exists_mmrRoot hmmr hshort
    have hsame' : canonicalDataSize engine (s.putBucket bucketId { bucket with
        leaves := bucket.leaves.drop (newStartSeq - bucket.startSeq)
        startSeq := newStartSeq
        mmrRoot := prunedRoot }) = canonicalDataSize engine s :=
      funext fun root ↦ canonicalDataSize_congr (s.nodes_putBucket bucketId _) root
    have hroom : (bucket.leaves.drop (newStartSeq - bucket.startSeq)).length + dataRoots.length ≤
        maxLeaves := by
      rw [List.length_drop]
      omega
    have hstored' : ensureRootsStored (s.putBucket bucketId { bucket with
        leaves := bucket.leaves.drop (newStartSeq - bucket.startSeq)
        startSeq := newStartSeq
        mmrRoot := prunedRoot }) dataRoots = .ok () := by
      rw [ensureRootsStored_congr (s.nodes_putBucket bucketId _)]
      exact hstored
    rw [← hsame'] at hsizes
    obtain ⟨outcome', hfirst⟩ := (commit_eq_ok_iff hpruned).mpr
      ⟨dataSizes, firstRoot, hstored', hsizes, hroom, hfirstRoot, rfl⟩
    refine ⟨_, _, _, _, _, outcome', _, _, hprune, hfirst, hlast, Finmap.lookup_insert _,
      Finmap.lookup_insert _, ?_⟩
    dsimp only at hfirstRoot ⊢
    have htotals : leavesAfter (lastTotal (bucket.leaves.drop (newStartSeq - bucket.startSeq)))
          (dataRoots.zip dataSizes) =
        leavesAfter (lastTotal bucket.leaves) (dataRoots.zip dataSizes) ↔
          dataRoots = [] ∨ newStartSeq < bucket.startSeq + bucket.leaves.length ∨
            lastTotal bucket.leaves = 0 := by
      by_cases hkeeps : newStartSeq < bucket.startSeq + bucket.leaves.length
      · rw [lastTotal_drop (by omega)]
        exact iff_of_true rfl (.inr (.inl hkeeps))
      · have hnone : bucket.leaves.drop (newStartSeq - bucket.startSeq) = [] :=
          List.drop_eq_nil_of_le (by omega)
        have hzip : dataRoots.zip dataSizes = [] ↔ dataRoots = [] := by
          rw [← List.length_eq_zero_iff, List.length_zip, length_of_mapM hsizes, min_self,
            List.length_eq_zero_iff]
        have hzero : lastTotal ([] : List MmrLeaf) = 0 := rfl
        rw [hnone, hzero, leavesAfter_eq_iff hdata, hzip]
        constructor
        · rintro (hroots | htotal)
          · exact .inl hroots
          · exact .inr (.inr htotal)
        · rintro (hroots | hkept | htotal)
          · exact .inl hroots
          · exact (hkeeps hkept).elim
          · exact .inr htotal
    rw [← htotals]
    constructor
    · rintro ⟨hleaves, -, -⟩
      exact List.append_cancel_left hleaves
    · intro hleaves
      rw [hleaves] at hfirstRoot ⊢
      rw [hfirstRoot, Option.some.injEq] at hlastRoot
      exact ⟨rfl, rfl, hlastRoot⟩

/-- A bucket of two leaves, whose first one is pruned. -/
theorem commit_deleteBefore_comm_iff_small :
    ∃ bucket pruned pruneFirst commitFirst commitment commitment' outcome outcome' committed first last,
      (run (storeStep blakeEngine) Store.empty (smallStore ++ [secondCommit])).buckets.lookup 1 =
          some bucket ∧
        commit blakeEngine 1 [(byteChunk 7).hash blakeEngine.blake2256]
            (run (storeStep blakeEngine) Store.empty (smallStore ++ [secondCommit])) =
          .ok (outcome, committed) ∧
        deleteBefore blakeEngine 1 1
            (run (storeStep blakeEngine) Store.empty (smallStore ++ [secondCommit])) =
          .ok (commitment, pruned) ∧
        commit blakeEngine 1 [(byteChunk 7).hash blakeEngine.blake2256] pruned =
          .ok (outcome', pruneFirst) ∧
        deleteBefore blakeEngine 1 1 committed = .ok (commitment', commitFirst) ∧
        pruneFirst.buckets.lookup 1 = some first ∧ commitFirst.buckets.lookup 1 = some last ∧
          (first.leaves = last.leaves ∧ first.startSeq = last.startSeq ∧
              first.mmrRoot = last.mmrRoot ↔
            [(byteChunk 7).hash blakeEngine.blake2256] = [] ∨
              1 < bucket.startSeq + bucket.leaves.length ∨ lastTotal bucket.leaves = 0) := by
  have hok : (commit blakeEngine 1 [(byteChunk 7).hash blakeEngine.blake2256]
      (run (storeStep blakeEngine) Store.empty (smallStore ++ [secondCommit]))).toOption.isSome = true := by
    decide +kernel
  have hstored : ((run (storeStep blakeEngine) Store.empty
      (smallStore ++ [secondCommit])).buckets.lookup 1).any (fun bucket ↦
        bucket.startSeq ≤ 1 && 1 ≤ saturatingAdd u64Max bucket.startSeq bucket.leafCount) = true := by
    decide +kernel
  obtain ⟨⟨outcome, committed⟩, hsome⟩ := Option.isSome_iff_exists.mp hok
  have hcommit := eq_ok_of_toOption hsome
  obtain ⟨bucket, hbucket, hbounds⟩ := (Option.any_eq_true _ _).mp hstored
  rw [Bool.and_eq_true, decide_eq_true_eq, decide_eq_true_eq] at hbounds
  obtain ⟨pruned, pruneFirst, commitFirst, commitment, commitment', outcome', first, last, hprune,
    hfirst, hlast, hlookup, hlookup', hsame⟩ := commit_deleteBefore_comm_iff
      standardMmr_isStandard hbucket hcommit hbounds.1 hbounds.2
  exact ⟨bucket, pruned, pruneFirst, commitFirst, commitment, commitment', outcome, outcome',
    committed, first, last, hbucket, hcommit, hprune, hfirst, hlast, hlookup, hlookup', hsame⟩

/-- A bucket of one leaf: pruned first, the next leaf starts its total again; pruned after the commit,
the next leaf has added to the total of the first. The roots differ. -/
theorem deleteBefore_commit_differ :
    let pruneFirst := run (storeStep blakeEngine) Store.empty
      (smallStore ++ [.deleteBefore 1 1, secondCommit])
    let commitFirst := run (storeStep blakeEngine) Store.empty
      (smallStore ++ [secondCommit, .deleteBefore 1 1])
    (pruneFirst.buckets.lookup 1).map (fun bucket ↦ bucket.leaves.map (·.totalSize.toNat)) =
        some [1] ∧
      (commitFirst.buckets.lookup 1).map (fun bucket ↦ bucket.leaves.map (·.totalSize.toNat)) =
          some [2] ∧
        (pruneFirst.buckets.lookup 1).map (·.mmrRoot) ≠
          (commitFirst.buckets.lookup 1).map (·.mmrRoot) := by
  decide +kernel

end Orders

end Web3Storage.Node
