import Web3Storage.Foundations.FiniteMap
import Web3Storage.Foundations.Run
import Web3Storage.Primitives.Mmr

/-!
# The store of a provider node

A node keeps the nodes of chunk trees under their hashes, shared by all buckets, and for each bucket
its mountain range of leaves and its quota. Every operation runs in one transaction of the engine, so
one that fails changes nothing; `storeStep` is the store as a machine.

The engine bounds a walk of a content tree by a number of visits, and a list of leaves by what a
vector can hold.
-/

set_option autoImplicit false
set_option relaxedAutoImplicit false

namespace Web3Storage.Node

open Foundations Primitives

/-- What the store takes from outside: the hash function and the mountain range library. -/
structure Engine where
  blake2256 : Bytes → H256
  mmr : MmrLibrary

/-- The nodes one walk of a content tree may visit. -/
def maxTreeWalkVisits : ℕ := 2 ^ 22

/-- The leaves a vector can hold: a leaf takes 56 bytes of at most `2 ^ 63 - 1`. -/
def maxLeaves : ℕ := (2 ^ 63 - 1) / 56

/-! ### Records -/

/-- A node of a chunk tree: a chunk, or two children. -/
inductive ChunkTreeNode
  | chunk (data : Bytes)
  | internal (left right : H256)
  deriving DecidableEq

namespace ChunkTreeNode

/-- The bytes a node counts against the quota. -/
def size : ChunkTreeNode → ℕ
  | .chunk data => data.length
  | .internal _ _ => 2 * 32

/-- The content hash of a node. -/
def hash (blake2256 : Bytes → H256) : ChunkTreeNode → H256
  | .chunk data => hashLeaf blake2256 data
  | .internal left right => hashChildren blake2256 left right

/-- The children of a node. -/
def children : ChunkTreeNode → List H256
  | .chunk _ => []
  | .internal left right => [left, right]

end ChunkTreeNode

/-- What the store keeps for a bucket: its mountain range and the usage of its quota. -/
structure BucketState where
  mmrRoot : H256
  startSeq : ℕ
  leaves : List MmrLeaf
  usedBytes : ℕ
  nodeCount : ℕ
  maxBytes : ℕ
  deriving DecidableEq

namespace BucketState

/-- An empty bucket with a quota. -/
def new (maxBytes : ℕ) : BucketState := ⟨H256.zero, 0, [], 0, 0, maxBytes⟩

def leafCount (bucket : BucketState) : ℕ := bucket.leaves.length

/-- The commitment the provider signs for a bucket. -/
def commitmentOf (bucket : BucketState) : Commitment :=
  ⟨bucket.mmrRoot, bucket.startSeq, bucket.leafCount⟩

end BucketState

/-- The stored nodes and buckets. -/
structure Store where
  nodes : FiniteMap H256 ChunkTreeNode
  buckets : FiniteMap ℕ BucketState

namespace Store

def empty : Store := ⟨∅, ∅⟩

def hasNode (s : Store) (hash : H256) : Bool := (s.nodes.lookup hash).isSome

/-- Write a bucket. -/
def putBucket (s : Store) (bucketId : ℕ) (bucket : BucketState) : Store :=
  { s with buckets := s.buckets.insert bucketId bucket }

end Store

/-- Why a commitment cannot be reproduced from local leaves. -/
inductive NotReproducible
  | leafOutside (leafIndex leafCount : ℕ)
  | otherRoot (root : H256)
  deriving DecidableEq

inductive StoreError
  | nodeNotFound (hash : H256)
  | leafNotFound (bucketId leafIndex : ℕ)
  | commitmentNotReproducible (reason : NotReproducible)
  | leavesNotHeld (startSeq leafCount localStartSeq localEnd : ℕ)
  | childrenMissing (children : List H256)
  | quotaExceeded (used max : ℕ)
  | invalidStartSeq (requested current endSeq : ℕ)
  | chunkIndexOutOfRange (chunkIndex chunkCount : ℕ)
  | bucketNotFound (bucketId : ℕ)
  | rootNotFound (root : H256)
  | treeTooLarge (maxNodes : ℕ)
  | invalidHash (expected actual : H256)
  | nonCanonicalTree (root : H256)
  | mmr
  /-- A vector cannot grow further, which stops the operation. -/
  | capacityOverflow
  deriving DecidableEq

/-- What a commit returns. -/
structure CommitOutcome where
  mmrRoot : H256
  startSeq : ℕ
  leafCount : ℕ
  leafIndices : List ℕ
  deriving DecidableEq

/-- The commitment of a committed state. -/
def CommitOutcome.commitment (outcome : CommitOutcome) : Commitment :=
  ⟨outcome.mmrRoot, outcome.startSeq, outcome.leafCount⟩

/-! ### Buckets and nodes -/

/-- Initialise a bucket with a quota. An existing bucket stays as it is. -/
def initBucket (bucketId maxBytes : ℕ) (s : Store) : Store :=
  if (s.buckets.lookup bucketId).isSome then s else s.putBucket bucketId (.new maxBytes)

variable (engine : Engine)

/-- Store a node under the hash the caller claims for it. A node that is there already is not charged
again. -/
def storeNode (bucketId : ℕ) (expectedHash : H256) (node : ChunkTreeNode) (s : Store) :
    Except StoreError Store := do
  let actualHash := node.hash engine.blake2256
  ensure (actualHash = expectedHash) (.invalidHash expectedHash actualHash)
  let missing := node.children.filter fun child ↦ !s.hasNode child
  ensure missing.isEmpty (.childrenMissing missing)
  let bucket ← require (s.buckets.lookup bucketId) (.bucketNotFound bucketId)
  let charge := node.size
  let newSize := saturatingAdd u64Max bucket.usedBytes charge
  ensure (newSize ≤ bucket.maxBytes) (.quotaExceeded bucket.usedBytes bucket.maxBytes)
  if s.hasNode expectedHash then return s
  else return {
    nodes := s.nodes.insert expectedHash node
    buckets := s.buckets.insert bucketId { bucket with
      usedBytes := saturatingAdd u64Max bucket.usedBytes charge
      nodeCount := saturatingAdd u64Max bucket.nodeCount 1 } }

/-! ### Content trees -/

/-- The hash and size of each chunk under the nodes of a stack, in leaf order, within a number of
visits. -/
def walkLeaves (s : Store) : ℕ → List H256 → Except StoreError (List (H256 × ℕ))
  | _, [] => .ok []
  | 0, _ :: _ => .error (.treeTooLarge maxTreeWalkVisits)
  | visits + 1, hash :: stack => do
    let node ← require (s.nodes.lookup hash) (.nodeNotFound hash)
    match node with
    | .chunk data => do
      let leaves ← walkLeaves s visits stack
      return (hash, data.length) :: leaves
    | .internal left right => walkLeaves s visits (left :: right :: stack)

/-- The hash and size of each chunk under a root, in leaf order. -/
def collectLeaves (s : Store) (root : H256) : Except StoreError (List (H256 × ℕ)) :=
  walkLeaves s maxTreeWalkVisits [root]

/-- All chunks but the last have the default size, and the last is not empty and not larger. -/
def fixedSizes (chunkSizes : List ℕ) : Bool :=
  match chunkSizes.getLast? with
  | none => false
  | some last => chunkSizes.dropLast.all (· = defaultChunkSize) && 1 ≤ last &&
      last ≤ defaultChunkSize

/-- The byte size of the data under a root, which must be the tree over its chunks. -/
def canonicalDataSize (s : Store) (root : H256) : Except StoreError ℕ := do
  let leaves ← collectLeaves s root
  let chunkSizes := leaves.map (·.2)
  ensure (fixedSizes chunkSizes && merkleRoot engine.blake2256 (leaves.map (·.1)) = root)
    (.nonCanonicalTree root)
  return chunkSizes.sum

/-! ### The mountain range of a bucket -/

/-- Every root must be stored. -/
def ensureRootsStored (s : Store) : List H256 → Except StoreError Unit
  | [] => .ok ()
  | root :: rest => do
    ensure (s.hasNode root) (.rootNotFound root)
    ensureRootsStored s rest

/-- Append the leaf of a data root with its size. -/
def pushLeaf (leaves : List MmrLeaf) (data : H256 × ℕ) : List MmrLeaf :=
  let before := (leaves.getLast?.map (·.totalSize.toNat)).getD 0
  leaves ++
    [{ leafVersion := leafVersion
       dataRoot := data.1
       dataSize := UInt64.ofNat data.2
       totalSize := UInt64.ofNat (saturatingAdd u64Max before data.2) }]

/-- Commit data roots to the mountain range of a bucket. -/
def commit (bucketId : ℕ) (dataRoots : List H256) (s : Store) :
    Except StoreError (CommitOutcome × Store) := do
  ensureRootsStored s dataRoots
  let dataSizes ← dataRoots.mapM (canonicalDataSize engine s)
  let bucket ← require (s.buckets.lookup bucketId) (.bucketNotFound bucketId)
  let startIndex := bucket.leaves.length
  ensure (startIndex + dataRoots.length ≤ maxLeaves) .capacityOverflow
  let leaves := (dataRoots.zip dataSizes).foldl pushLeaf bucket.leaves
  let root ← require (mmrRoot engine.blake2256 engine.mmr leaves) .mmr
  let bucket := { bucket with leaves := leaves, mmrRoot := root }
  let outcome : CommitOutcome :=
    { mmrRoot := root
      startSeq := bucket.startSeq
      leafCount := bucket.leafCount
      leafIndices := (List.range dataRoots.length).map (startIndex + ·) }
  return (outcome, s.putBucket bucketId bucket)

/-- Delete the leaves before a sequence number. -/
def deleteBefore (bucketId newStartSeq : ℕ) (s : Store) : Except StoreError (Commitment × Store) := do
  let bucket ← require (s.buckets.lookup bucketId) (.bucketNotFound bucketId)
  let endSeq := saturatingAdd u64Max bucket.startSeq bucket.leafCount
  ensure (bucket.startSeq ≤ newStartSeq && newStartSeq ≤ endSeq)
    (.invalidStartSeq newStartSeq bucket.startSeq endSeq)
  let toRemove := newStartSeq - bucket.startSeq
  if toRemove = 0 then return (bucket.commitmentOf, s)
  else
    let leaves := bucket.leaves.drop toRemove
    let root ← require (mmrRoot engine.blake2256 engine.mmr leaves) .mmr
    let bucket := { bucket with leaves := leaves, startSeq := newStartSeq, mmrRoot := root }
    return (bucket.commitmentOf, s.putBucket bucketId bucket)

/-- The root over some leaves and the proof for the leaf at an index. -/
def leafProof (bucketId : ℕ) (leaves : List MmrLeaf) (leafIndex : ℕ) :
    Except StoreError (H256 × MmrProof) := do
  let found ← require (mmrProof engine.blake2256 engine.mmr leaves leafIndex) .mmr
  require found (.leafNotFound bucketId leafIndex)

/-- Rebuild the proof for a leaf of a commitment from the leaves that are held. -/
def getMmrProofForCommitment (bucketId : ℕ) (commitment : Commitment) (leafIndex : ℕ) (s : Store) :
    Except StoreError MmrProof := do
  let bucket ← require (s.buckets.lookup bucketId) (.bucketNotFound bucketId)
  ensure (leafIndex < commitment.leafCount)
    (.commitmentNotReproducible (.leafOutside leafIndex commitment.leafCount))
  let notHeld := StoreError.leavesNotHeld commitment.startSeq commitment.leafCount bucket.startSeq
    (saturatingAdd u64Max bucket.startSeq bucket.leafCount)
  ensure (bucket.startSeq ≤ commitment.startSeq) notHeld
  let offset := commitment.startSeq - bucket.startSeq
  let last := saturatingAdd u64Max offset commitment.leafCount
  ensure (last ≤ bucket.leaves.length) notHeld
  let window := (bucket.leaves.take last).drop offset
  let (root, proof) ← leafProof engine bucketId window leafIndex
  ensure (root = commitment.mmrRoot)
    (.commitmentNotReproducible (.otherRoot commitment.mmrRoot))
  return proof

/-! ### The store as a machine -/

/-- A call of the store. -/
inductive StoreInput
  | initBucket (bucketId maxBytes : ℕ)
  | storeNode (bucketId : ℕ) (expectedHash : H256) (node : ChunkTreeNode)
  | commit (bucketId : ℕ) (dataRoots : List H256)
  | deleteBefore (bucketId newStartSeq : ℕ)

/-- One call. A transaction that fails leaves the store as it was. -/
def storeStep (s : Store) : StoreInput → Store
  | .initBucket bucketId maxBytes => initBucket bucketId maxBytes s
  | .storeNode bucketId expectedHash node =>
    match storeNode engine bucketId expectedHash node s with
    | .ok after => after
    | .error _ => s
  | .commit bucketId dataRoots =>
    match commit engine bucketId dataRoots s with
    | .ok (_, after) => after
    | .error _ => s
  | .deleteBefore bucketId newStartSeq =>
    match deleteBefore engine bucketId newStartSeq s with
    | .ok (_, after) => after
    | .error _ => s

/-! ### What the operations do -/

section Specification

/-- The effect of a call on the store. -/
inductive StoreEffect (s : Store) : StoreInput → Store → Prop
  | kept (input : StoreInput) : StoreEffect s input s
  | bucketAdded (bucketId maxBytes : ℕ) (hnew : s.buckets.lookup bucketId = none) :
      StoreEffect s (.initBucket bucketId maxBytes) (s.putBucket bucketId (.new maxBytes))
  | nodeAdded (bucketId : ℕ) (node : ChunkTreeNode) (bucket : BucketState)
      (hchildren : ∀ child ∈ node.children, s.hasNode child = true)
      (hbucket : s.buckets.lookup bucketId = some bucket)
      (hquota : saturatingAdd u64Max bucket.usedBytes node.size ≤ bucket.maxBytes)
      (hnew : s.nodes.lookup (node.hash engine.blake2256) = none) :
      StoreEffect s (.storeNode bucketId (node.hash engine.blake2256) node)
        { nodes := s.nodes.insert (node.hash engine.blake2256) node
          buckets := s.buckets.insert bucketId { bucket with
            usedBytes := saturatingAdd u64Max bucket.usedBytes node.size
            nodeCount := saturatingAdd u64Max bucket.nodeCount 1 } }
  | leavesAdded (bucketId : ℕ) (dataRoots : List H256) (bucket : BucketState)
      (added : List MmrLeaf) (root : H256) (hbucket : s.buckets.lookup bucketId = some bucket)
      (hfits : (bucket.leaves ++ added).length ≤ maxLeaves)
      (hroot : mmrRoot engine.blake2256 engine.mmr (bucket.leaves ++ added) = some root) :
      StoreEffect s (.commit bucketId dataRoots)
        (s.putBucket bucketId { bucket with leaves := bucket.leaves ++ added, mmrRoot := root })
  | leavesDropped (bucketId newStartSeq : ℕ) (bucket : BucketState) (root : H256)
      (hbucket : s.buckets.lookup bucketId = some bucket) (hstart : bucket.startSeq ≤ newStartSeq)
      (hend : newStartSeq ≤ bucket.startSeq + bucket.leaves.length)
      (hroot : mmrRoot engine.blake2256 engine.mmr
        (bucket.leaves.drop (newStartSeq - bucket.startSeq)) = some root) :
      StoreEffect s (.deleteBefore bucketId newStartSeq)
        (s.putBucket bucketId { bucket with
          leaves := bucket.leaves.drop (newStartSeq - bucket.startSeq)
          startSeq := newStartSeq
          mmrRoot := root })

variable {engine} {s s' : Store} {bucketId : ℕ}

/-- Appended leaves come after those that are there. -/
theorem foldl_pushLeaf (data : List (H256 × ℕ)) (leaves : List MmrLeaf) :
    ∃ added, data.foldl pushLeaf leaves = leaves ++ added ∧ added.length = data.length := by
  induction data generalizing leaves with
  | nil => exact ⟨[], by simp⟩
  | cons first rest ih =>
    obtain ⟨added, hadded, hlength⟩ := ih (pushLeaf leaves first)
    rw [List.foldl_cons, hadded]
    unfold pushLeaf
    exact ⟨_ :: added, by rw [List.append_assoc]; rfl, by simp [hlength]⟩

theorem storeNode_ok {expectedHash : H256} {node : ChunkTreeNode}
    (h : storeNode engine bucketId expectedHash node s = .ok s') :
    StoreEffect engine s (.storeNode bucketId expectedHash node) s' := by
  simp only [storeNode, bind_eq_ok, ensure_eq_ok, require_eq_ok, decide_eq_true_eq] at h
  obtain ⟨-, rfl, -, hmissing, bucket, hbucket, -, hquota, hresult⟩ := h
  have hchildren : ∀ child ∈ node.children, s.hasNode child = true := by
    intro child hchild
    by_contra habsent
    rw [List.isEmpty_iff, List.filter_eq_nil_iff] at hmissing
    exact hmissing child hchild (by simpa using habsent)
  by_cases hstored : s.hasNode (node.hash engine.blake2256) = true
  · rw [if_pos hstored, pure_eq_ok] at hresult
    subst hresult
    exact .kept _
  · rw [if_neg hstored, pure_eq_ok] at hresult
    have hnew : s.nodes.lookup (node.hash engine.blake2256) = none := by
      simpa [Store.hasNode] using hstored
    subst hresult
    exact .nodeAdded bucketId node bucket hchildren hbucket hquota hnew

theorem commit_ok {dataRoots : List H256} {outcome : CommitOutcome}
    (h : commit engine bucketId dataRoots s = .ok (outcome, s')) :
    StoreEffect engine s (.commit bucketId dataRoots) s' ∧
      ∃ bucket, s'.buckets.lookup bucketId = some bucket ∧
        outcome.commitment = bucket.commitmentOf := by
  simp only [commit, bind_eq_ok, pure_eq_ok, ensure_eq_ok, require_eq_ok, decide_eq_true_eq,
    Prod.mk.injEq] at h
  obtain ⟨done, -, dataSizes, hsizes, bucket, hbucket, -, hfits, root, hroot, rfl, rfl⟩ := h
  obtain ⟨added, hadded, hlength⟩ := foldl_pushLeaf (dataRoots.zip dataSizes) bucket.leaves
  rw [hadded] at hroot ⊢
  refine ⟨.leavesAdded bucketId dataRoots bucket added root hbucket ?_ hroot, ?_⟩
  · rw [List.length_append, hlength, List.length_zip]
    omega
  · exact ⟨_, Finmap.lookup_insert _, rfl⟩

theorem deleteBefore_ok {newStartSeq : ℕ} {commitment : Commitment}
    (h : deleteBefore engine bucketId newStartSeq s = .ok (commitment, s')) :
    StoreEffect engine s (.deleteBefore bucketId newStartSeq) s' ∧
      ∃ bucket, s'.buckets.lookup bucketId = some bucket ∧ commitment = bucket.commitmentOf := by
  simp only [deleteBefore, bind_eq_ok, ensure_eq_ok, require_eq_ok, Bool.and_eq_true,
    decide_eq_true_eq] at h
  obtain ⟨bucket, hbucket, -, ⟨hstart, hend⟩, hresult⟩ := h
  have hend' : newStartSeq ≤ bucket.startSeq + bucket.leaves.length :=
    hend.trans (Nat.min_le_left _ _)
  split_ifs at hresult with hnone
  · obtain ⟨rfl, rfl⟩ := Prod.mk.inj ((pure_eq_ok _ _).1 hresult)
    exact ⟨.kept _, bucket, hbucket, rfl⟩
  · simp only [bind_eq_ok, pure_eq_ok, require_eq_ok, Prod.mk.injEq] at hresult
    obtain ⟨root, hroot, rfl, rfl⟩ := hresult
    refine ⟨.leavesDropped bucketId newStartSeq bucket root hbucket hstart hend' hroot, ?_⟩
    exact ⟨_, Finmap.lookup_insert _, rfl⟩

/-- The root of every bucket is the root over its leaves, which a vector holds. -/
def RangesBuilt (engine : Engine) (s : Store) : Prop :=
  ∀ bucketId bucket, s.buckets.lookup bucketId = some bucket →
    mmrRoot engine.blake2256 engine.mmr bucket.leaves = some bucket.mmrRoot ∧
      bucket.leaves.length ≤ maxLeaves

theorem rangesBuilt_empty : RangesBuilt engine Store.empty := by
  intro bucketId bucket h
  cases h

/-- Writing a bucket with the root over its leaves keeps the ranges built. -/
theorem RangesBuilt.insert {bucket : BucketState} {buckets : FiniteMap ℕ BucketState}
    {nodes nodes' : FiniteMap H256 ChunkTreeNode} (hs : RangesBuilt engine ⟨nodes, buckets⟩)
    (hroot : mmrRoot engine.blake2256 engine.mmr bucket.leaves = some bucket.mmrRoot)
    (hfits : bucket.leaves.length ≤ maxLeaves) :
    RangesBuilt engine ⟨nodes', buckets.insert bucketId bucket⟩ := by
  intro other stored hstored
  rw [FiniteMap.lookup_insert_eq] at hstored
  split_ifs at hstored
  · cases hstored
    exact ⟨hroot, hfits⟩
  · exact hs other stored hstored

/-- Every call keeps the ranges built. -/
theorem RangesBuilt.of_effect {input : StoreInput} (h : StoreEffect engine s input s')
    (hs : RangesBuilt engine s) : RangesBuilt engine s' := by
  cases h with
  | kept => exact hs
  | bucketAdded bucketId maxBytes hnew => exact hs.insert rfl (Nat.zero_le _)
  | nodeAdded bucketId node bucket hchildren hbucket hquota hnew =>
    exact hs.insert (hs bucketId bucket hbucket).1 (hs bucketId bucket hbucket).2
  | leavesAdded bucketId dataRoots bucket added root hbucket hfits hroot =>
    exact hs.insert hroot hfits
  | leavesDropped bucketId newStartSeq bucket root hbucket hstart hend hroot =>
    have hfits := (hs bucketId bucket hbucket).2
    refine hs.insert hroot ?_
    rw [List.length_drop]
    omega

/-- Every call has an effect. -/
theorem storeEffect_of_step (s : Store) (input : StoreInput) :
    StoreEffect engine s input (storeStep engine s input) := by
  cases input with
  | initBucket bucketId maxBytes =>
    simp only [storeStep, initBucket]
    split_ifs with hpresent
    · exact .kept _
    · exact .bucketAdded bucketId maxBytes (by simpa using hpresent)
  | storeNode bucketId expectedHash node =>
    simp only [storeStep]
    cases hresult : storeNode engine bucketId expectedHash node s with
    | error error => exact .kept _
    | ok after => exact storeNode_ok hresult
  | commit bucketId dataRoots =>
    simp only [storeStep]
    cases hresult : commit engine bucketId dataRoots s with
    | error error => exact .kept _
    | ok result => exact (commit_ok hresult).1
  | deleteBefore bucketId newStartSeq =>
    simp only [storeStep]
    cases hresult : deleteBefore engine bucketId newStartSeq s with
    | error error => exact .kept _
    | ok result => exact (deleteBefore_ok hresult).1

/-- The ranges are built in every state the store reaches. -/
theorem rangesBuilt_run (inputs : List StoreInput) :
    RangesBuilt engine (run (storeStep engine) Store.empty inputs) :=
  invariant_of_every_step (RangesBuilt engine)
    (fun s input hs ↦ hs.of_effect (storeEffect_of_step s input)) rangesBuilt_empty inputs

end Specification

end Web3Storage.Node
