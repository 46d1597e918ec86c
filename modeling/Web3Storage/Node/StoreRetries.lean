import Web3Storage.Node.ChunkReads
import Web3Storage.Node.StoreAccounting

/-!
# Storing a node again

No call removes a node or a bucket, so a call of `store_node` that succeeded once finds its node, the
children of the node and its bucket in every later state. `ReadyAgain` says this of a state and
`readyAgain_run` follows it through a run. What remains is the quota: `store_node` compares the usage
with the charge of the node before it looks whether the node is stored. `storeNode_again` evaluates
the second call, and `store_again` says for every reachable state when the nodes of an upload can be
sent again: exactly when the quota has room for each of them once more, although none is charged.
`refused_again` is the smallest upload that cannot.
-/

set_option autoImplicit false
set_option relaxedAutoImplicit false

namespace Web3Storage.Node

open Foundations Primitives

variable (engine : Engine)

/-- The usage of a bucket with a further node is within its quota. -/
def BucketState.HasRoomFor (bucket : BucketState) (node : ChunkTreeNode) : Prop :=
  saturatingAdd u64Max bucket.usedBytes node.size ≤ bucket.maxBytes

instance (bucket : BucketState) (node : ChunkTreeNode) : Decidable (bucket.HasRoomFor node) :=
  inferInstanceAs (Decidable (_ ≤ _))

/-- Store the nodes of an upload one after the other, each under its claimed hash. -/
def storeNodes (bucketId : ℕ) : List (H256 × ChunkTreeNode) → Store → Except StoreError Store
  | [], s => .ok s
  | (expectedHash, node) :: rest, s => do
    let s ← storeNode engine bucketId expectedHash node s
    storeNodes bucketId rest s

/-- Some call of a run stored a node, or found it stored. -/
def AcceptedIn (inputs : List StoreInput) (bucketId : ℕ) (entry : H256 × ChunkTreeNode) : Prop :=
  ∃ before after, inputs = before ++ .storeNode bucketId entry.1 entry.2 :: after ∧
    ∃ s, storeNode engine bucketId entry.1 entry.2
      (run (storeStep engine) Store.empty before) = .ok s

/-- The children of every stored node are stored. -/
def Closed (s : Store) : Prop :=
  ∀ hash node, s.nodes.lookup hash = some node → ∀ child ∈ node.children, s.hasNode child = true

/-- A node can be stored again as far as its hash, its children and its bucket go. -/
structure ReadyAgain (s : Store) (bucketId : ℕ) (entry : H256 × ChunkTreeNode) : Prop where
  hash_eq : entry.2.hash engine.blake2256 = entry.1
  stored : s.hasNode entry.1 = true
  children : ∀ child ∈ entry.2.children, s.hasNode child = true
  bucket : (s.buckets.lookup bucketId).isSome

variable {engine} {s s' : Store} {input : StoreInput} {bucketId : ℕ}
  {entry : H256 × ChunkTreeNode}

/-! ### What stays in the store -/

theorem hasNode_iff {hash : H256} :
    s.hasNode hash = true ↔ ∃ node, s.nodes.lookup hash = some node :=
  Option.isSome_iff_exists

/-- No call removes a node. -/
theorem hasNode_of_effect (h : StoreEffect engine s input s') {hash : H256}
    (hstored : s.hasNode hash = true) : s'.hasNode hash = true := by
  obtain ⟨node, hnode⟩ := hasNode_iff.mp hstored
  exact hasNode_iff.mpr ⟨node, lookup_of_effect h hnode⟩

/-- No call removes a bucket. -/
theorem bucket_isSome_of_effect (h : StoreEffect engine s input s')
    (hbucket : (s.buckets.lookup bucketId).isSome) : (s'.buckets.lookup bucketId).isSome := by
  cases h with
  | kept => exact hbucket
  | bucketAdded | nodeAdded | leavesAdded | leavesDropped =>
    simp only [Store.putBucket]
    rw [FiniteMap.lookup_insert_eq]
    split_ifs
    · rfl
    · exact hbucket

theorem closed_empty : Closed Store.empty := by
  intro hash node hnode
  cases hnode

/-- A call keeps the store closed: a node comes after its children. -/
theorem Closed.of_effect (h : StoreEffect engine s input s') (hs : Closed s) : Closed s' := by
  intro hash node hnode child hchild
  by_cases hold : s.nodes.lookup hash = some node
  · exact hasNode_of_effect h (hs hash node hold child hchild)
  · have hchildren : s.hasNode child = true → s'.hasNode child = true := hasNode_of_effect h
    cases h with
    | kept | bucketAdded | leavesAdded | leavesDropped => exact absurd hnode hold
    | nodeAdded bucketId added bucket hadded hbucket hquota hnew =>
      apply hchildren
      rw [FiniteMap.lookup_insert_eq] at hnode
      split_ifs at hnode with hhash
      · cases hnode
        exact hadded child hchild
      · exact absurd hnode hold

/-- The store is closed in every state it reaches. -/
theorem closed_run {start : Store} (hstart : Closed start) (inputs : List StoreInput) :
    Closed (run (storeStep engine) start inputs) :=
  invariant_of_every_step Closed (fun s input hs ↦ hs.of_effect (storeEffect_of_step s input))
    hstart inputs

/-! ### Calls that find everything in place -/

theorem ReadyAgain.of_effect (h : StoreEffect engine s input s')
    (hs : ReadyAgain engine s bucketId entry) : ReadyAgain engine s' bucketId entry where
  hash_eq := hs.hash_eq
  stored := hasNode_of_effect h hs.stored
  children := fun child hchild ↦ hasNode_of_effect h (hs.children child hchild)
  bucket := bucket_isSome_of_effect h hs.bucket

/-- A node that was stored can be stored again in every later state. -/
theorem readyAgain_run (inputs : List StoreInput) (hs : ReadyAgain engine s bucketId entry) :
    ReadyAgain engine (run (storeStep engine) s inputs) bucketId entry :=
  invariant_of_every_step (ReadyAgain engine · bucketId entry)
    (fun s input hs ↦ hs.of_effect (storeEffect_of_step s input)) hs inputs

/-- After a call that succeeds its node is in place. -/
theorem readyAgain_of_ok (h : storeNode engine bucketId entry.1 entry.2 s = .ok s') :
    ReadyAgain engine s' bucketId entry := by
  have heffect := storeNode_ok h
  simp only [storeNode, bind_eq_ok, ensure_eq_ok, require_eq_ok, decide_eq_true_eq] at h
  obtain ⟨-, hhash, -, hmissing, bucket, hbucket, -, hquota, hresult⟩ := h
  rw [List.isEmpty_iff, List.filter_eq_nil_iff] at hmissing
  constructor
  · exact hhash
  · split_ifs at hresult with hstored
    · rw [pure_eq_ok] at hresult
      rw [← hresult]
      exact hstored
    · rw [pure_eq_ok] at hresult
      rw [← hresult]
      exact hasNode_iff.mpr ⟨_, Finmap.lookup_insert _⟩
  · intro child hchild
    apply hasNode_of_effect heffect
    simpa using hmissing child hchild
  · exact bucket_isSome_of_effect heffect (by rw [hbucket]; rfl)

/-- A stored node of a closed store is in place for every bucket there is. -/
theorem readyAgain_of_lookup (hhashed : NodesHashed engine s) (hclosed : Closed s)
    (hbucket : (s.buckets.lookup bucketId).isSome)
    (hnode : s.nodes.lookup entry.1 = some entry.2) : ReadyAgain engine s bucketId entry where
  hash_eq := hhashed _ _ hnode
  stored := hasNode_iff.mpr ⟨_, hnode⟩
  children := hclosed _ _ hnode
  bucket := hbucket

/-- The second call looks at the quota only: it changes nothing, or is refused. -/
theorem storeNode_again (h : ReadyAgain engine s bucketId entry) {bucket : BucketState}
    (hbucket : s.buckets.lookup bucketId = some bucket) :
    storeNode engine bucketId entry.1 entry.2 s =
      if bucket.HasRoomFor entry.2 then .ok s
      else .error (.quotaExceeded bucket.usedBytes bucket.maxBytes) := by
  have hmissing : (entry.2.children.filter fun child ↦ !s.hasNode child).isEmpty = true := by
    rw [List.isEmpty_iff, List.filter_eq_nil_iff]
    intro child hchild
    simp [h.children child hchild]
  unfold storeNode
  simp only [h.hash_eq, decide_true, ensure_true, ok_bind, hmissing, hbucket, require_some]
  by_cases hroom : bucket.HasRoomFor entry.2
  · have hquota : saturatingAdd u64Max bucket.usedBytes entry.2.size ≤ bucket.maxBytes := hroom
    rw [if_pos hroom, decide_eq_true hquota, ensure_true, ok_bind, if_pos h.stored]
    rfl
  · have hquota : ¬ saturatingAdd u64Max bucket.usedBytes entry.2.size ≤ bucket.maxBytes := hroom
    rw [if_neg hroom, decide_eq_false hquota]
    rfl

/-- An upload whose nodes are in place can be sent again exactly when the quota has room for each. -/
theorem storeNodes_again {bucket : BucketState} (hbucket : s.buckets.lookup bucketId = some bucket)
    (upload : List (H256 × ChunkTreeNode))
    (h : ∀ entry ∈ upload, ReadyAgain engine s bucketId entry) :
    storeNodes engine bucketId upload s =
      if ∀ entry ∈ upload, bucket.HasRoomFor entry.2 then .ok s
      else .error (.quotaExceeded bucket.usedBytes bucket.maxBytes) := by
  induction upload with
  | nil => simp [storeNodes]
  | cons entry rest ih =>
    have hrest := ih fun other hother ↦ h other (List.mem_cons_of_mem _ hother)
    have hentry := storeNode_again (h entry List.mem_cons_self) hbucket
    rw [storeNodes, hentry]
    by_cases hroom : bucket.HasRoomFor entry.2
    · rw [if_pos hroom, ok_bind, hrest]
      simp only [List.forall_mem_cons, hroom, true_and]
    · rw [if_neg hroom, error_bind, if_neg]
      intro hall
      exact hroom (hall entry List.mem_cons_self)

/-! ### Uploads that are sent again -/

theorem readyAgain_of_acceptedIn {inputs : List StoreInput}
    (h : AcceptedIn engine inputs bucketId entry) :
    ReadyAgain engine (run (storeStep engine) Store.empty inputs) bucketId entry := by
  obtain ⟨before, after, rfl, s, hs⟩ := h
  have hstep : storeStep engine (run (storeStep engine) Store.empty before)
      (.storeNode bucketId entry.1 entry.2) = s := by
    rw [storeStep, hs]
  rw [run_append, run_cons, hstep]
  exact readyAgain_run after (readyAgain_of_ok hs)

/-- What the second sending of nodes comes to, for every state the store reaches. A stored node can be
stored again through an existing bucket, with no change at all, exactly when the quota of the bucket
has room for it once more, and is refused otherwise. Any part of an upload whose calls succeeded in
the run, whatever came between them, can be sent again exactly when the quota has room for each of
its nodes. -/
theorem store_again (inputs : List StoreInput) (bucketId : ℕ) :
    (∀ bucket hash node,
      (run (storeStep engine) Store.empty inputs).buckets.lookup bucketId = some bucket →
      (run (storeStep engine) Store.empty inputs).nodes.lookup hash = some node →
        (storeNode engine bucketId hash node (run (storeStep engine) Store.empty inputs) =
            .ok (run (storeStep engine) Store.empty inputs) ↔ bucket.HasRoomFor node) ∧
          (¬ bucket.HasRoomFor node →
            storeNode engine bucketId hash node (run (storeStep engine) Store.empty inputs) =
              .error (.quotaExceeded bucket.usedBytes bucket.maxBytes))) ∧
    ∀ first rest : List (H256 × ChunkTreeNode),
      (∀ entry ∈ first ++ rest, AcceptedIn engine inputs bucketId entry) → first ≠ [] →
        ∃ bucket,
          (run (storeStep engine) Store.empty inputs).buckets.lookup bucketId = some bucket ∧
          (storeNodes engine bucketId first (run (storeStep engine) Store.empty inputs) =
              .ok (run (storeStep engine) Store.empty inputs) ↔
            ∀ entry ∈ first, bucket.HasRoomFor entry.2) := by
  constructor
  · intro bucket hash node hbucket hnode
    have hready : ReadyAgain engine (run (storeStep engine) Store.empty inputs) bucketId
        (hash, node) :=
      readyAgain_of_lookup (nodesHashed_run nodesHashed_empty inputs)
        (closed_run closed_empty inputs) (by rw [hbucket]; rfl) hnode
    have hagain := storeNode_again hready hbucket
    by_cases hroom : bucket.HasRoomFor node
    · rw [if_pos hroom] at hagain
      exact ⟨iff_of_true hagain hroom, fun hfull ↦ absurd hroom hfull⟩
    · rw [if_neg hroom] at hagain
      refine ⟨iff_of_false ?_ hroom, fun _ ↦ hagain⟩
      rw [hagain]
      simp
  · intro first rest haccepted hfirst
    have hready : ∀ entry ∈ first,
        ReadyAgain engine (run (storeStep engine) Store.empty inputs) bucketId entry := by
      intro entry hentry
      exact readyAgain_of_acceptedIn (haccepted entry (List.mem_append_left rest hentry))
    obtain ⟨entry, hentry⟩ := List.exists_mem_of_ne_nil first hfirst
    obtain ⟨bucket, hbucket⟩ := Option.isSome_iff_exists.mp (hready entry hentry).bucket
    refine ⟨bucket, hbucket, ?_⟩
    rw [storeNodes_again hbucket first hready]
    by_cases hroom : ∀ entry ∈ first, bucket.HasRoomFor entry.2
    · rw [if_pos hroom]
      exact iff_of_true rfl hroom
    · rw [if_neg hroom]
      exact iff_of_false (by simp) hroom

/-- A bucket with a quota of one byte, and the chunk that fills it. -/
def filledBucket : List StoreInput :=
  [.initBucket 1 1, .storeNode 1 ((byteChunk 7).hash blakeEngine.blake2256) (byteChunk 7)]

/-- The bucket after the chunk was stored. -/
def filled : BucketState := { BucketState.new 1 with usedBytes := 1, nodeCount := 1 }

theorem lookup_filledBucket :
    (run (storeStep blakeEngine) Store.empty filledBucket).buckets.lookup 1 = some filled := by
  decide +kernel

theorem acceptedIn_filledBucket : AcceptedIn blakeEngine filledBucket 1
    ((byteChunk 7).hash blakeEngine.blake2256, byteChunk 7) := by
  refine ⟨[.initBucket 1 1], [], rfl, _, eq_ok_of_toOption (Option.some_get ?_).symm⟩
  decide +kernel

theorem store_again_filled :
    storeNode blakeEngine 1 ((byteChunk 7).hash blakeEngine.blake2256) (byteChunk 7)
        (run (storeStep blakeEngine) Store.empty filledBucket) = .error (.quotaExceeded 1 1) ∧
      storeNodes blakeEngine 1 [((byteChunk 7).hash blakeEngine.blake2256, byteChunk 7)]
        (run (storeStep blakeEngine) Store.empty filledBucket) ≠
          .ok (run (storeStep blakeEngine) Store.empty filledBucket) := by
  have hfull : ¬ filled.HasRoomFor (byteChunk 7) := by decide
  obtain ⟨hnodes, huploads⟩ := @store_again blakeEngine filledBucket 1
  constructor
  · have hnode : (run (storeStep blakeEngine) Store.empty filledBucket).nodes.lookup
        ((byteChunk 7).hash blakeEngine.blake2256) = some (byteChunk 7) := by
      decide +kernel
    exact (hnodes filled _ _ lookup_filledBucket hnode).2 hfull
  · have haccepted : ∀ entry ∈ [((byteChunk 7).hash blakeEngine.blake2256, byteChunk 7)] ++ [],
        AcceptedIn blakeEngine filledBucket 1 entry := by
      intro entry hentry
      rw [List.append_nil, List.mem_singleton] at hentry
      rw [hentry]
      exact acceptedIn_filledBucket
    obtain ⟨bucket, hbucket, hagain⟩ := huploads _ _ haccepted (List.cons_ne_nil _ _)
    intro hsent
    have hroom := hagain.mp hsent _ List.mem_cons_self
    rw [lookup_filledBucket] at hbucket
    cases hbucket
    exact hfull hroom

/-- A call that succeeded need not succeed again: the chunk fills the quota, and its second sending is
refused. -/
theorem refused_again :
    ¬ ∀ (inputs : List StoreInput) (bucketId : ℕ) (entry : H256 × ChunkTreeNode),
      AcceptedIn blakeEngine inputs bucketId entry →
        storeNode blakeEngine bucketId entry.1 entry.2
          (run (storeStep blakeEngine) Store.empty inputs) =
            .ok (run (storeStep blakeEngine) Store.empty inputs) := by
  intro h
  have hagain := storeNode_again (readyAgain_of_acceptedIn acceptedIn_filledBucket)
    lookup_filledBucket
  rw [if_neg (by decide), h filledBucket 1 _ acceptedIn_filledBucket] at hagain
  cases hagain

end Web3Storage.Node
