import Web3Storage.Foundations.Blake2b
import Web3Storage.Node.Store

/-!
# Accounting of the store

Nodes are shared by all buckets while quotas are per bucket. `Sound` says that the two fit: a node
lies under its hash, with its children; every node is charged to one bucket, which exists, and the
usage of a bucket is exactly what is charged to it, within its quota; and the root of a bucket is the
root over its leaves. `store_sound` proves it for every run from the empty store whose nodes together
stay below `2 ^ 64` bytes. That bound is on bytes only: at most 257 nodes are smaller than two bytes,
so the counters of nodes cannot saturate either (`nodeTotal_le`).
-/

set_option autoImplicit false
set_option relaxedAutoImplicit false

namespace Web3Storage.Node

open Foundations Primitives
open FiniteMap (weightedSum countEntries)

variable (engine : Engine)

/-- The sizes of all stored nodes together. -/
def Store.byteTotal (s : Store) : ℕ := weightedSum (fun _ node ↦ node.size) s.nodes

/-- The number of stored nodes. -/
def Store.nodeTotal (s : Store) : ℕ := weightedSum (fun _ _ ↦ 1) s.nodes

/-- Nodes are charged to buckets: each to one that exists, and the usage of a bucket is what is
charged to it. -/
structure Charged (s : Store) (payer : H256 → ℕ) : Prop where
  bucket_isSome : ∀ hash node, s.nodes.lookup hash = some node →
    (s.buckets.lookup (payer hash)).isSome
  usedBytes_eq : ∀ bucketId bucket, s.buckets.lookup bucketId = some bucket →
    bucket.usedBytes =
      weightedSum (fun hash node ↦ if payer hash = bucketId then node.size else 0) s.nodes
  nodeCount_eq : ∀ bucketId bucket, s.buckets.lookup bucketId = some bucket →
    bucket.nodeCount = weightedSum (fun hash _ ↦ if payer hash = bucketId then 1 else 0) s.nodes

/-- The invariant of the store. -/
structure Sound (s : Store) : Prop where
  key_eq : ∀ hash node, s.nodes.lookup hash = some node → node.hash engine.blake2256 = hash
  closed : ∀ hash node, s.nodes.lookup hash = some node →
    ∀ child ∈ node.children, (s.nodes.lookup child).isSome
  charged : ∃ payer, Charged s payer
  bytes_sum : weightedSum (fun _ bucket ↦ bucket.usedBytes) s.buckets = s.byteTotal
  nodes_sum : weightedSum (fun _ bucket ↦ bucket.nodeCount) s.buckets = s.nodeTotal
  quota : ∀ bucketId bucket, s.buckets.lookup bucketId = some bucket →
    bucket.usedBytes ≤ bucket.maxBytes
  root_eq : ∀ bucketId bucket, s.buckets.lookup bucketId = some bucket →
    mmrRoot engine.blake2256 engine.mmr bucket.leaves = some bucket.mmrRoot

variable {engine} {s s' : Store} {payer : H256 → ℕ} {input : StoreInput}

/-! ### Charges -/

/-- What is charged to the buckets is all of the nodes. -/
theorem Charged.bytes_sum (h : Charged s payer) :
    weightedSum (fun _ bucket ↦ bucket.usedBytes) s.buckets = s.byteTotal := by
  have hused : weightedSum (fun _ (bucket : BucketState) ↦ bucket.usedBytes) s.buckets =
      weightedSum (fun bucketId _ ↦ weightedSum
        (fun hash node ↦ if payer hash = bucketId then node.size else 0) s.nodes) s.buckets :=
    FiniteMap.weightedSum_congr h.usedBytes_eq
  rw [hused]
  exact FiniteMap.weightedSum_owned (fun _ node ↦ node.size) payer h.bucket_isSome

theorem Charged.nodes_sum (h : Charged s payer) :
    weightedSum (fun _ bucket ↦ bucket.nodeCount) s.buckets = s.nodeTotal := by
  have hcount : weightedSum (fun _ (bucket : BucketState) ↦ bucket.nodeCount) s.buckets =
      weightedSum (fun bucketId _ ↦ weightedSum
        (fun hash _ ↦ if payer hash = bucketId then 1 else 0) s.nodes) s.buckets :=
    FiniteMap.weightedSum_congr h.nodeCount_eq
  rw [hcount]
  exact FiniteMap.weightedSum_owned (fun _ _ ↦ 1) payer h.bucket_isSome

/-- A charge is at most the whole. -/
theorem weightedSum_charged_le (weight : H256 → ChunkTreeNode → ℕ) (payer : H256 → ℕ)
    (bucketId : ℕ) (nodes : FiniteMap H256 ChunkTreeNode) :
    weightedSum (fun hash node ↦ if payer hash = bucketId then weight hash node else 0) nodes ≤
      weightedSum weight nodes := by
  refine FiniteMap.weightedSum_le_weightedSum fun hash node _ ↦ ?_
  split_ifs
  · exact le_rfl
  · exact Nat.zero_le _

/-- A change of buckets that keeps them and their usage keeps the charges. -/
theorem Charged.putBucket {bucketId : ℕ} {bucket : BucketState} (h : Charged s payer)
    (hused : bucket.usedBytes = weightedSum
      (fun hash node ↦ if payer hash = bucketId then node.size else 0) s.nodes)
    (hcount : bucket.nodeCount = weightedSum
      (fun hash _ ↦ if payer hash = bucketId then 1 else 0) s.nodes) :
    Charged (s.putBucket bucketId bucket) payer := by
  refine { bucket_isSome := ?_, usedBytes_eq := ?_, nodeCount_eq := ?_ }
  · intro hash node hnode
    unfold Store.putBucket
    rw [FiniteMap.lookup_insert_eq]
    split_ifs
    · rfl
    · exact h.bucket_isSome hash node hnode
  · intro other stored hstored
    unfold Store.putBucket at hstored
    rw [FiniteMap.lookup_insert_eq] at hstored
    split_ifs at hstored with hother
    · cases hstored
      rw [hused, hother]
      rfl
    · exact h.usedBytes_eq other stored hstored
  · intro other stored hstored
    unfold Store.putBucket at hstored
    rw [FiniteMap.lookup_insert_eq] at hstored
    split_ifs at hstored with hother
    · cases hstored
      rw [hcount, hother]
      rfl
    · exact h.nodeCount_eq other stored hstored

/-- A new node adds to the charge of its payer only. -/
theorem weightedSum_charged_insert (weight : H256 → ChunkTreeNode → ℕ) (payer : H256 → ℕ)
    {nodes : FiniteMap H256 ChunkTreeNode} {hash : H256} (hnew : nodes.lookup hash = none)
    (node : ChunkTreeNode) (bucketId other : ℕ) :
    weightedSum (fun key stored ↦ if Function.update payer hash bucketId key = other
        then weight key stored else 0) (nodes.insert hash node) =
      (if bucketId = other then weight hash node else 0) +
        weightedSum (fun key stored ↦ if payer key = other then weight key stored else 0) nodes := by
  rw [FiniteMap.weightedSum_insert_new _ hnew, Function.update_self]
  congr 1
  refine FiniteMap.weightedSum_congr fun key stored hstored ↦ ?_
  have hkey : key ≠ hash := by
    rintro rfl
    rw [hnew] at hstored
    cases hstored
  rw [Function.update_of_ne hkey]

/-- Assumes: usage and count of a bucket that do not saturate with a further node. Charging the node
to the bucket keeps the charges. -/
theorem Charged.insertNode {bucketId : ℕ} {bucket : BucketState} {hash : H256}
    {node : ChunkTreeNode} (h : Charged s payer)
    (hbucket : s.buckets.lookup bucketId = some bucket) (hnew : s.nodes.lookup hash = none)
    (hbytes : bucket.usedBytes + node.size ≤ u64Max) (hcount : bucket.nodeCount + 1 ≤ u64Max) :
    Charged
      { nodes := s.nodes.insert hash node
        buckets := s.buckets.insert bucketId { bucket with
          usedBytes := saturatingAdd u64Max bucket.usedBytes node.size
          nodeCount := saturatingAdd u64Max bucket.nodeCount 1 } }
      (Function.update payer hash bucketId) := by
  refine { bucket_isSome := ?_, usedBytes_eq := ?_, nodeCount_eq := ?_ }
  · intro key stored hstored
    rw [FiniteMap.lookup_insert_eq] at hstored ⊢
    by_cases hkey : key = hash
    · rw [hkey, Function.update_self, if_pos rfl]
      rfl
    · rw [if_neg hkey] at hstored
      rw [Function.update_of_ne hkey]
      split_ifs
      · rfl
      · exact h.bucket_isSome key stored hstored
  · intro other stored hstored
    rw [weightedSum_charged_insert (fun _ node ↦ node.size) payer hnew]
    rw [FiniteMap.lookup_insert_eq] at hstored
    split_ifs at hstored with hother
    · cases hstored
      rw [saturatingAdd_of_le hbytes, if_pos hother.symm, hother, ← h.usedBytes_eq _ _ hbucket,
        Nat.add_comm]
    · rw [if_neg (Ne.symm hother), Nat.zero_add]
      exact h.usedBytes_eq other stored hstored
  · intro other stored hstored
    rw [weightedSum_charged_insert (fun _ _ ↦ 1) payer hnew]
    rw [FiniteMap.lookup_insert_eq] at hstored
    split_ifs at hstored with hother
    · cases hstored
      rw [saturatingAdd_of_le hcount, if_pos hother.symm, hother, ← h.nodeCount_eq _ _ hbucket,
        Nat.add_comm]
    · rw [if_neg (Ne.symm hother), Nat.zero_add]
      exact h.nodeCount_eq other stored hstored

/-! ### The number of nodes -/

/-- The hashes of the nodes smaller than two bytes. -/
def smallHashes (blake2256 : Bytes → H256) : Finset H256 :=
  insert (hashLeaf blake2256 [])
    ((Finset.range 256).image fun byte ↦ hashLeaf blake2256 [UInt8.ofNat byte])

theorem card_smallHashes (blake2256 : Bytes → H256) : (smallHashes blake2256).card ≤ 257 := by
  have himage : ((Finset.range 256).image
      fun byte ↦ hashLeaf blake2256 [UInt8.ofNat byte]).card ≤ 256 := by
    have hle := Finset.card_image_le (s := Finset.range 256)
      (f := fun byte ↦ hashLeaf blake2256 [UInt8.ofNat byte])
    rwa [Finset.card_range] at hle
  exact (Finset.card_insert_le _ _).trans (by omega)

theorem hash_mem_smallHashes {node : ChunkTreeNode} (blake2256 : Bytes → H256)
    (h : node.size < 2) : node.hash blake2256 ∈ smallHashes blake2256 := by
  cases node with
  | internal left right =>
    simp only [ChunkTreeNode.size] at h
    omega
  | chunk data =>
    simp only [ChunkTreeNode.size] at h
    match data, h with
    | [], _ => exact Finset.mem_insert_self _ _
    | [byte], _ =>
      refine Finset.mem_insert_of_mem (Finset.mem_image.mpr ⟨byte.toNat, ?_, ?_⟩)
      · exact Finset.mem_range.mpr byte.toNat_lt
      · rw [UInt8.ofNat_toNat]
        rfl

/-- The number of nodes that lie under their hashes is bounded by their bytes: all but a few have at
least two. -/
theorem nodeTotal_le
    (hkey : ∀ hash node, s.nodes.lookup hash = some node → node.hash engine.blake2256 = hash) :
    2 * s.nodeTotal ≤ 514 + s.byteTotal := by
  have hsmall : countEntries (fun _ (node : ChunkTreeNode) ↦ decide (node.size < 2)) s.nodes ≤
      257 := by
    refine (FiniteMap.countEntries_le_card (smallHashes engine.blake2256) ?_).trans
      (card_smallHashes engine.blake2256)
    intro hash node hnode hsize
    rw [← hkey hash node hnode]
    exact hash_mem_smallHashes _ (by simpa using hsize)
  have hweigh : weightedSum (fun _ _ ↦ 1 + 1) s.nodes ≤
      weightedSum (fun _ node ↦ ((if decide (node.size < 2) then 1 else 0) +
        if decide (node.size < 2) then 1 else 0) + node.size) s.nodes := by
    refine FiniteMap.weightedSum_le_weightedSum fun _ node _ ↦ ?_
    by_cases hsize : node.size < 2
    · simp [hsize]
    · simp [hsize]
      omega
  have htwice : weightedSum (fun _ _ ↦ 1 + 1) s.nodes = s.nodeTotal + s.nodeTotal :=
    FiniteMap.weightedSum_add _ _ _
  have hsplit : weightedSum (fun _ node ↦ ((if decide (node.size < 2) then 1 else 0) +
      if decide (node.size < 2) then 1 else 0) + node.size) s.nodes =
        countEntries (fun _ (node : ChunkTreeNode) ↦ decide (node.size < 2)) s.nodes +
          countEntries (fun _ (node : ChunkTreeNode) ↦ decide (node.size < 2)) s.nodes +
            s.byteTotal := by
    unfold countEntries
    rw [← FiniteMap.weightedSum_add]
    exact FiniteMap.weightedSum_add _ _ _
  omega

/-! ### The invariant -/

/-- The store is sound when its nodes are charged; the sums follow. -/
theorem sound_of_charged
    (hkey : ∀ hash node, s.nodes.lookup hash = some node → node.hash engine.blake2256 = hash)
    (hclosed : ∀ hash node, s.nodes.lookup hash = some node →
      ∀ child ∈ node.children, (s.nodes.lookup child).isSome)
    (hcharged : Charged s payer)
    (hquota : ∀ bucketId bucket, s.buckets.lookup bucketId = some bucket →
      bucket.usedBytes ≤ bucket.maxBytes)
    (hranges : RangesBuilt engine s) : Sound engine s :=
  { key_eq := hkey, closed := hclosed, charged := ⟨payer, hcharged⟩
    bytes_sum := hcharged.bytes_sum, nodes_sum := hcharged.nodes_sum, quota := hquota
    root_eq := fun bucketId bucket h ↦ (hranges bucketId bucket h).1 }

theorem sound_empty : Sound engine Store.empty := by
  have hcharged : Charged Store.empty (fun _ ↦ 0) :=
    { bucket_isSome := fun _ _ h ↦ by cases h
      usedBytes_eq := fun _ _ h ↦ by cases h
      nodeCount_eq := fun _ _ h ↦ by cases h }
  refine sound_of_charged ?_ ?_ hcharged ?_ rangesBuilt_empty
  all_goals
    intro key value h
    cases h

/-- Writing a bucket with the usage that is charged to it, within its quota, keeps the store
sound. -/
theorem Sound.putBucket {bucketId : ℕ} {bucket : BucketState} (hs : Sound engine s)
    (hcharged : Charged (s.putBucket bucketId bucket) payer)
    (hquota : bucket.usedBytes ≤ bucket.maxBytes)
    (hranges : RangesBuilt engine (s.putBucket bucketId bucket)) :
    Sound engine (s.putBucket bucketId bucket) := by
  refine sound_of_charged hs.key_eq hs.closed hcharged ?_ hranges
  intro other stored hstored
  unfold Store.putBucket at hstored
  rw [FiniteMap.lookup_insert_eq] at hstored
  split_ifs at hstored
  · cases hstored
    exact hquota
  · exact hs.quota other stored hstored

/-- Writing an existing bucket with other leaves keeps the store sound. -/
theorem Sound.replaceLeaves {bucketId : ℕ} {bucket new : BucketState} (hs : Sound engine s)
    (hbucket : s.buckets.lookup bucketId = some bucket) (hused : new.usedBytes = bucket.usedBytes)
    (hcount : new.nodeCount = bucket.nodeCount) (hmax : new.maxBytes = bucket.maxBytes)
    (hranges : RangesBuilt engine (s.putBucket bucketId new)) :
    Sound engine (s.putBucket bucketId new) := by
  obtain ⟨payer, hcharged⟩ := hs.charged
  have hcharged' : Charged (s.putBucket bucketId new) payer :=
    hcharged.putBucket (hused.trans (hcharged.usedBytes_eq _ _ hbucket))
      (hcount.trans (hcharged.nodeCount_eq _ _ hbucket))
  refine hs.putBucket hcharged' ?_ hranges
  rw [hused, hmax]
  exact hs.quota _ _ hbucket

/-- A bucket that does not exist is charged nothing. -/
theorem Charged.weightedSum_absent {bucketId : ℕ} (h : Charged s payer)
    (habsent : s.buckets.lookup bucketId = none) (weight : H256 → ChunkTreeNode → ℕ) :
    weightedSum (fun hash node ↦ if payer hash = bucketId then weight hash node else 0) s.nodes =
      0 := by
  rw [FiniteMap.weightedSum_eq_zero_iff]
  intro hash node hnode
  refine if_neg fun hpayer ↦ ?_
  have hsome := h.bucket_isSome hash node hnode
  rw [hpayer, habsent] at hsome
  cases hsome

/-- No call removes a node. -/
theorem byteTotal_le_of_effect (h : StoreEffect engine s input s') :
    s.byteTotal ≤ s'.byteTotal := by
  cases h with
  | kept | bucketAdded | leavesAdded | leavesDropped => exact le_rfl
  | nodeAdded bucketId node bucket hchildren hbucket hquota hnew =>
    unfold Store.byteTotal
    rw [FiniteMap.weightedSum_insert_new _ hnew]
    exact Nat.le_add_left _ _

/-- A new node charged to a bucket within its quota keeps the store sound. -/
theorem Sound.insertNode {bucketId : ℕ} {bucket : BucketState} {node : ChunkTreeNode}
    (hs : Sound engine s) (hchildren : ∀ child ∈ node.children, s.hasNode child = true)
    (hbucket : s.buckets.lookup bucketId = some bucket)
    (hquota : saturatingAdd u64Max bucket.usedBytes node.size ≤ bucket.maxBytes)
    (hnew : s.nodes.lookup (node.hash engine.blake2256) = none)
    (hbytes : node.size + s.byteTotal ≤ u64Max)
    (hranges : RangesBuilt engine s) :
    Sound engine
      { nodes := s.nodes.insert (node.hash engine.blake2256) node
        buckets := s.buckets.insert bucketId { bucket with
          usedBytes := saturatingAdd u64Max bucket.usedBytes node.size
          nodeCount := saturatingAdd u64Max bucket.nodeCount 1 } } := by
  obtain ⟨payer, hcharged⟩ := hs.charged
  have hused : bucket.usedBytes ≤ s.byteTotal := by
    rw [hcharged.usedBytes_eq _ _ hbucket]
    exact weightedSum_charged_le _ _ _ _
  have hcount : bucket.nodeCount ≤ s.nodeTotal := by
    rw [hcharged.nodeCount_eq _ _ hbucket]
    exact weightedSum_charged_le _ _ _ _
  have htotal := nodeTotal_le hs.key_eq
  have hfits : 514 + u64Max + 2 ≤ 2 * u64Max := by decide
  have hbytes' : bucket.usedBytes + node.size ≤ u64Max := by omega
  have hcount' : bucket.nodeCount + 1 ≤ u64Max := by omega
  have hcharged' := hcharged.insertNode hbucket hnew hbytes' hcount'
  refine sound_of_charged ?_ ?_ hcharged' ?_ ?_
  · intro hash stored hstored
    rw [FiniteMap.lookup_insert_eq] at hstored
    split_ifs at hstored with hhash
    · cases hstored
      exact hhash.symm
    · exact hs.key_eq hash stored hstored
  · intro hash stored hstored child hchild
    rw [FiniteMap.lookup_insert_eq] at hstored ⊢
    split_ifs with hsame
    · rfl
    · split_ifs at hstored
      · cases hstored
        exact hchildren child hchild
      · exact hs.closed hash stored hstored child hchild
  · intro other stored hstored
    rw [FiniteMap.lookup_insert_eq] at hstored
    split_ifs at hstored
    · cases hstored
      exact hquota
    · exact hs.quota other stored hstored
  · exact hranges.insert (hranges bucketId bucket hbucket).1 (hranges bucketId bucket hbucket).2

/-- A call keeps the store sound while its nodes stay below `2 ^ 64` bytes. -/
theorem sound_of_effect (h : StoreEffect engine s input s') (hs : Sound engine s)
    (hranges : RangesBuilt engine s) (hbytes : s'.byteTotal ≤ u64Max) : Sound engine s' := by
  have hranges' : RangesBuilt engine s' := hranges.of_effect h
  cases h with
  | kept => exact hs
  | bucketAdded bucketId maxBytes hnew =>
    obtain ⟨payer, hcharged⟩ := hs.charged
    have hcharged' : Charged (s.putBucket bucketId (.new maxBytes)) payer :=
      hcharged.putBucket (hcharged.weightedSum_absent hnew _).symm
        (hcharged.weightedSum_absent hnew _).symm
    exact hs.putBucket hcharged' (Nat.zero_le _) hranges'
  | nodeAdded bucketId node bucket hchildren hbucket hquota hnew =>
    unfold Store.byteTotal at hbytes
    rw [FiniteMap.weightedSum_insert_new _ hnew] at hbytes
    exact hs.insertNode hchildren hbucket hquota hnew hbytes hranges
  | leavesAdded bucketId dataRoots bucket added root hbucket hfits hroot =>
    exact hs.replaceLeaves hbucket rfl rfl rfl hranges'
  | leavesDropped bucketId newStartSeq bucket root hbucket hstart hend hroot =>
    exact hs.replaceLeaves hbucket rfl rfl rfl hranges'

/-- The invariant of the store: after any calls from the empty store, failing ones included, whose
nodes together stay below `2 ^ 64` bytes, the store is sound. -/
theorem store_sound (inputs : List StoreInput)
    (hbytes : (run (storeStep engine) Store.empty inputs).byteTotal ≤ u64Max) :
    Sound engine (run (storeStep engine) Store.empty inputs) := by
  induction inputs using List.reverseRecOn with
  | nil => exact sound_empty
  | append_singleton inputs input ih =>
    rw [run_concat] at hbytes ⊢
    have heffect : StoreEffect engine _ input _ :=
      storeEffect_of_step (run (storeStep engine) Store.empty inputs) input
    have hsound := ih ((byteTotal_le_of_effect heffect).trans hbytes)
    exact sound_of_effect heffect hsound (rangesBuilt_run inputs) hbytes

/-- An engine with blake2b-256 and the standard mountain range. -/
def blakeEngine : Engine where
  blake2256 bytes := ⟨Blake2b.digest bytes, Blake2b.length_digest bytes⟩
  mmr := standardMmr

/-- The chunk of one byte. -/
def byteChunk (byte : UInt8) : ChunkTreeNode := .chunk [byte]

/-- Two buckets, two chunks stored through the first, one of them again through the second, an
internal node over both, and a commit of a chunk. -/
def smallStore : List StoreInput :=
  let left := (byteChunk 7).hash blakeEngine.blake2256
  let right := (byteChunk 8).hash blakeEngine.blake2256
  [.initBucket 1 100, .initBucket 2 100, .storeNode 1 left (byteChunk 7),
    .storeNode 1 right (byteChunk 8), .storeNode 2 left (byteChunk 7),
    .storeNode 2 (hashChildren blakeEngine.blake2256 left right) (.internal left right),
    .commit 1 [left]]

theorem store_sound_small :
    Sound blakeEngine (run (storeStep blakeEngine) Store.empty smallStore) ∧
      (run (storeStep blakeEngine) Store.empty smallStore).byteTotal = 66 := by
  have htotal : (run (storeStep blakeEngine) Store.empty smallStore).byteTotal = 66 := by
    decide +kernel
  exact ⟨store_sound smallStore (htotal.trans_le (by decide)), htotal⟩

end Web3Storage.Node
