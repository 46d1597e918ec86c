import Web3Storage.Node.ChunkRanges
import Web3Storage.Node.CommitAndPrune
import Web3Storage.Node.StoreRetries

/-!
# Uploads to a node

A node arrives in a request with its hash and its data or its children, and is stored if its children
are. `Ready` lists requests in stages, each with children that come in an earlier one: requests of a
stage may arrive in any order (`Ready.perm`), and none is refused as long as the quota lasts
(`sendNodes_of_ready`).

When the tree over the chunks of some data is stored, a commit of its root walks it. The walk of a tree
over `n` chunks takes `2 * n - 1` visits (`walkLeaves_of_under`), so that the bound on visits is one on
the size of the data: `commit_of_holdsTree` says what is committed within it, and
`le_maxCommittedBytes_of_commit` that nothing larger ever is.
-/

set_option autoImplicit false
set_option relaxedAutoImplicit false

namespace Web3Storage.Node

open Foundations Primitives

/-! ### Nodes on the wire -/

/-- Why the parts a peer sent are not a node. -/
inductive WireError
  | chunkTooLarge (size : ℕ)
  | invalidChildCount (count : ℕ)
  | invalidNode
  deriving DecidableEq

def WireError.text : WireError → String
  | .chunkTooLarge size =>
    "Chunk too large: " ++ toString size ++ " bytes, max " ++ toString defaultChunkSize
  | .invalidChildCount count => "Invalid child count: expected 2, got " ++ toString count
  | .invalidNode => "A node is either data (a chunk) or children (an internal node)"

/-- Build a node from the data or the children a peer sent. -/
def ChunkTreeNode.fromWire : Option Bytes → Option (List H256) → Except WireError ChunkTreeNode
  | some data, none =>
    if data.length > defaultChunkSize then .error (.chunkTooLarge data.length)
    else .ok (.chunk data)
  | none, some [left, right] => .ok (.internal left right)
  | none, some children => .error (.invalidChildCount children.length)
  | _, _ => .error .invalidNode

/-- The data of a node in a request. -/
def ChunkTreeNode.wireData : ChunkTreeNode → Option Bytes
  | .chunk data => some data
  | .internal _ _ => none

/-- The children of a node in a request. -/
def ChunkTreeNode.wireChildren : ChunkTreeNode → Option (List H256)
  | .chunk _ => none
  | .internal left right => some [left, right]

/-- A node that a request can carry. -/
def ChunkTreeNode.FitsWire : ChunkTreeNode → Prop
  | .chunk data => data.length ≤ defaultChunkSize
  | .internal _ _ => True

theorem ChunkTreeNode.fromWire_wire {node : ChunkTreeNode} (h : node.FitsWire) :
    fromWire node.wireData node.wireChildren = .ok node := by
  cases node with
  | chunk data => exact if_neg (Nat.not_lt.mpr h)
  | internal left right => rfl

/-! ### Requests -/

/-- Why a request to store a node is refused. -/
inductive UploadError
  | wire (error : WireError)
  | store (error : StoreError)
  deriving DecidableEq

variable (engine : Engine)

/-- `PUT /node`. The bucket is there before the node, with the largest quota when it is new. -/
def uploadNode (bucketId : ℕ) (hash : H256) (data : Option Bytes) (children : Option (List H256))
    (s : Store) : Except UploadError Unit × Store :=
  match ChunkTreeNode.fromWire data children with
  | .error error => (.error (.wire error), s)
  | .ok node =>
    match storeNode engine bucketId hash node (initBucket bucketId u64Max s) with
    | .error error => (.error (.store error), initBucket bucketId u64Max s)
    | .ok stored => (.ok (), stored)

/-- Handle requests for nodes in their order of arrival, until one is refused. -/
def sendNodes (bucketId : ℕ) : List (H256 × ChunkTreeNode) → Store → Except UploadError Unit × Store
  | [], s => (.ok (), s)
  | entry :: rest, s =>
    match uploadNode engine bucketId entry.1 entry.2.wireData entry.2.wireChildren s with
    | (.error error, s) => (.error error, s)
    | (.ok (), s) => sendNodes bucketId rest s

/-- A bucket as a request finds it. -/
def Store.bucketAt (s : Store) (bucketId : ℕ) : BucketState :=
  (s.buckets.lookup bucketId).getD (.new u64Max)

/-- The quota of a bucket lasts for some requests in their order: at each of them there is room for its
node next to the different nodes before it. -/
def BucketState.LastsFor (bucket : BucketState) (entries : List (H256 × ChunkTreeNode)) : Prop :=
  ∀ before entry after, entries = before ++ entry :: after →
    saturatingAdd u64Max (bucket.usedBytes + ∑ sent ∈ before.toFinset, sent.2.size) entry.2.size ≤
      bucket.maxBytes

/-- Stages of requests, each with children that are known or come in a stage before. -/
def Ready (known : List H256) : List (List (H256 × ChunkTreeNode)) → Prop
  | [] => True
  | stage :: rest =>
    (∀ entry ∈ stage, ∀ child ∈ entry.2.children, child ∈ known) ∧
      Ready (known ++ stage.map (·.1)) rest

/-- What handling some requests, all accepted, does to the store. -/
structure Sent (bucketId : ℕ) (s : Store) (entries : List (H256 × ChunkTreeNode)) (s' : Store) :
    Prop where
  kept : ∀ hash node, s.nodes.lookup hash = some node → s'.nodes.lookup hash = some node
  added : ∀ hash node, s'.nodes.lookup hash = some node →
    s.nodes.lookup hash = some node ∨ (hash, node) ∈ entries
  stored : ∀ entry ∈ entries, s'.hasNode entry.1 = true
  usedBytes_le : (s'.bucketAt bucketId).usedBytes ≤
    (s.bucketAt bucketId).usedBytes + ∑ sent ∈ entries.toFinset, sent.2.size
  maxBytes_eq : (s'.bucketAt bucketId).maxBytes = (s.bucketAt bucketId).maxBytes
  leaves_eq : (s'.bucketAt bucketId).leaves = (s.bucketAt bucketId).leaves
  bucket : entries ≠ [] → (s'.buckets.lookup bucketId).isSome

section Requests

variable {engine} {bucketId : ℕ} {s s' : Store} {entries before : List (H256 × ChunkTreeNode)}
  {entry : H256 × ChunkTreeNode}

theorem lookup_initBucket (bucketId : ℕ) (s : Store) :
    (initBucket bucketId u64Max s).buckets.lookup bucketId = some (s.bucketAt bucketId) := by
  unfold initBucket Store.bucketAt
  cases hbucket : s.buckets.lookup bucketId with
  | none => exact Finmap.lookup_insert _
  | some bucket => exact hbucket

theorem nodes_initBucket (bucketId maxBytes : ℕ) (s : Store) :
    (initBucket bucketId maxBytes s).nodes = s.nodes := by
  unfold initBucket
  split_ifs
  · rfl
  · rfl

theorem hasNode_initBucket (bucketId maxBytes : ℕ) (s : Store) (hash : H256) :
    (initBucket bucketId maxBytes s).hasNode hash = s.hasNode hash := by
  rw [Store.hasNode, Store.hasNode, nodes_initBucket]

theorem bucketAt_of_lookup {bucket : BucketState} (h : s.buckets.lookup bucketId = some bucket) :
    s.bucketAt bucketId = bucket := by
  rw [Store.bucketAt, h]
  rfl

/-- A quota of the largest number never runs out. -/
theorem BucketState.lastsFor_of_max {bucket : BucketState} (h : bucket.maxBytes = u64Max)
    (entries : List (H256 × ChunkTreeNode)) : bucket.LastsFor entries := by
  intro before entry after _
  rw [h]
  exact saturatingAdd_le _ _ _

/-- A node with its children stored, and room for it, is stored. -/
theorem storeNode_of_room {expectedHash : H256} {node : ChunkTreeNode} {bucket : BucketState}
    (hhash : node.hash engine.blake2256 = expectedHash)
    (hchildren : ∀ child ∈ node.children, s.hasNode child = true)
    (hbucket : s.buckets.lookup bucketId = some bucket) (hroom : bucket.HasRoomFor node) :
    storeNode engine bucketId expectedHash node s =
      if s.hasNode expectedHash then .ok s
      else .ok {
        nodes := s.nodes.insert expectedHash node
        buckets := s.buckets.insert bucketId { bucket with
          usedBytes := saturatingAdd u64Max bucket.usedBytes node.size
          nodeCount := saturatingAdd u64Max bucket.nodeCount 1 } } := by
  have hmissing : (node.children.filter fun child ↦ !s.hasNode child).isEmpty = true := by
    rw [List.isEmpty_iff, List.filter_eq_nil_iff]
    intro child hchild
    simp [hchildren child hchild]
  have hquota : saturatingAdd u64Max bucket.usedBytes node.size ≤ bucket.maxBytes := hroom
  unfold storeNode
  simp only [hhash, decide_true, ensure_true, ok_bind, hmissing, hbucket, require_some,
    decide_eq_true hquota]
  rfl

theorem sent_nil (bucketId : ℕ) (s : Store) : Sent bucketId s [] s where
  kept := fun _ _ hnode ↦ hnode
  added := fun _ _ hnode ↦ .inl hnode
  stored := by simp
  usedBytes_le := Nat.le_add_right _ _
  maxBytes_eq := rfl
  leaves_eq := rfl
  bucket := by simp

/-- A further request whose children are stored is accepted, while the quota lasts. -/
theorem Sent.snoc (h : Sent bucketId s before s')
    (hhash : entry.2.hash engine.blake2256 = entry.1) (hfits : entry.2.FitsWire)
    (hchildren : ∀ child ∈ entry.2.children, s'.hasNode child = true)
    (hroom : saturatingAdd u64Max ((s.bucketAt bucketId).usedBytes +
      ∑ sent ∈ before.toFinset, sent.2.size) entry.2.size ≤ (s.bucketAt bucketId).maxBytes) :
    ∃ s'', uploadNode engine bucketId entry.1 entry.2.wireData entry.2.wireChildren s' =
        (.ok (), s'') ∧ Sent bucketId s (before ++ [entry]) s'' := by
  have hbucket := lookup_initBucket bucketId s'
  have hquota : (s'.bucketAt bucketId).HasRoomFor entry.2 := by
    have hused := h.usedBytes_le
    unfold BucketState.HasRoomFor
    rw [h.maxBytes_eq]
    refine le_trans ?_ hroom
    exact min_le_min (Nat.add_le_add_right hused _) le_rfl
  have hput := @storeNode_of_room engine bucketId (initBucket bucketId u64Max s') entry.1 entry.2 _
    hhash (fun child hchild ↦ by rw [hasNode_initBucket]; exact hchildren child hchild) hbucket hquota
  rw [hasNode_initBucket] at hput
  have hunion : (before ++ [entry]).toFinset = insert entry before.toFinset := by
    ext other
    simp
  unfold uploadNode
  rw [ChunkTreeNode.fromWire_wire hfits]
  by_cases hstored : s'.hasNode entry.1 = true
  · -- a node that is there is not charged again
    rw [if_pos hstored] at hput
    dsimp only
    rw [hput]
    refine ⟨_, rfl, ?_⟩
    have hsame : (initBucket bucketId u64Max s').bucketAt bucketId = s'.bucketAt bucketId :=
      bucketAt_of_lookup hbucket
    constructor
    · intro hash node hnode
      rw [nodes_initBucket]
      exact h.kept hash node hnode
    · intro hash node hnode
      rw [nodes_initBucket] at hnode
      rcases h.added hash node hnode with hold | hnew
      · exact .inl hold
      · exact .inr (List.mem_append_left _ hnew)
    · intro other hother
      rw [hasNode_initBucket]
      rcases List.mem_append.mp hother with hearlier | hlast
      · exact h.stored other hearlier
      · rw [List.mem_singleton.mp hlast]
        exact hstored
    · rw [hsame, hunion]
      refine h.usedBytes_le.trans (Nat.add_le_add_left ?_ _)
      exact Finset.sum_le_sum_of_subset (Finset.subset_insert _ _)
    · rw [hsame, h.maxBytes_eq]
    · rw [hsame, h.leaves_eq]
    · intro _
      rw [hbucket]
      rfl
  · rw [if_neg hstored] at hput
    dsimp only
    rw [hput]
    refine ⟨_, rfl, ?_⟩
    have hnew : s'.nodes.lookup entry.1 = none := by simpa [Store.hasNode] using hstored
    have hlookup (hash : H256) (node : ChunkTreeNode) :
        ((initBucket bucketId u64Max s').nodes.insert entry.1 entry.2).lookup hash = some node ↔
          s'.nodes.lookup hash = some node ∨ hash = entry.1 ∧ entry.2 = node := by
      rw [nodes_initBucket, FiniteMap.lookup_insert_eq]
      by_cases hsame : hash = entry.1
      · rw [if_pos hsame, hsame, hnew]
        simp
      · rw [if_neg hsame]
        simp [hsame]
    have hentry : entry ∉ before.toFinset := by
      intro hmem
      exact hstored (h.stored entry (List.mem_toFinset.mp hmem))
    constructor
    · intro hash node hnode
      exact (hlookup hash node).mpr (.inl (h.kept hash node hnode))
    · intro hash node hnode
      rcases (hlookup hash node).mp hnode with hold | ⟨rfl, rfl⟩
      · rcases h.added hash node hold with hstart | hsent
        · exact .inl hstart
        · exact .inr (List.mem_append_left _ hsent)
      · exact .inr (List.mem_append_right _ List.mem_cons_self)
    · intro other hother
      rcases List.mem_append.mp hother with hearlier | hlast
      · obtain ⟨node, hnode⟩ := hasNode_iff.mp (h.stored other hearlier)
        exact hasNode_iff.mpr ⟨node, (hlookup _ _).mpr (.inl hnode)⟩
      · rw [List.mem_singleton.mp hlast]
        exact hasNode_iff.mpr ⟨entry.2, (hlookup _ _).mpr (.inr ⟨rfl, rfl⟩)⟩
    · rw [bucketAt_of_lookup (Finmap.lookup_insert _), hunion, Finset.sum_insert hentry]
      have hused := h.usedBytes_le
      have hsum : saturatingAdd u64Max (s'.bucketAt bucketId).usedBytes entry.2.size ≤
          (s'.bucketAt bucketId).usedBytes + entry.2.size := Nat.min_le_left _ _
      dsimp only
      omega
    · rw [bucketAt_of_lookup (Finmap.lookup_insert _)]
      exact h.maxBytes_eq
    · rw [bucketAt_of_lookup (Finmap.lookup_insert _)]
      exact h.leaves_eq
    · intro _
      dsimp only
      rw [Finmap.lookup_insert]
      rfl

theorem sendNodes_append (before after : List (H256 × ChunkTreeNode)) (s : Store) :
    sendNodes engine bucketId (before ++ after) s =
      match sendNodes engine bucketId before s with
      | (.error error, s) => (.error error, s)
      | (.ok (), s) => sendNodes engine bucketId after s := by
  induction before generalizing s with
  | nil => rfl
  | cons entry rest ih =>
    rw [List.cons_append, sendNodes, sendNodes]
    rcases uploadNode engine bucketId entry.1 entry.2.wireData entry.2.wireChildren s with
      ⟨outcome, s'⟩
    cases outcome with
    | error error => rfl
    | ok done => exact ih s'

theorem BucketState.LastsFor.of_append {bucket : BucketState}
    {after : List (H256 × ChunkTreeNode)} (h : bucket.LastsFor (before ++ after)) :
    bucket.LastsFor before := by
  intro first entry rest hsplit
  apply h first entry (rest ++ after)
  rw [hsplit, List.append_assoc, List.cons_append]

/-- Requests whose children came before them are all accepted, while the quota lasts. -/
theorem Sent.append (h : Sent bucketId s before s')
    (hhash : ∀ entry ∈ entries, entry.2.hash engine.blake2256 = entry.1)
    (hfits : ∀ entry ∈ entries, entry.2.FitsWire)
    (hchildren : ∀ entry ∈ entries, ∀ child ∈ entry.2.children, child ∈ before.map (·.1))
    (hlasts : (s.bucketAt bucketId).LastsFor (before ++ entries)) :
    ∃ s'', sendNodes engine bucketId entries s' = (.ok (), s'') ∧
      Sent bucketId s (before ++ entries) s'' := by
  induction entries generalizing before s' with
  | nil =>
    rw [List.append_nil]
    exact ⟨s', rfl, h⟩
  | cons entry rest ih =>
    have hstored : ∀ child ∈ entry.2.children, s'.hasNode child = true := by
      intro child hchild
      obtain ⟨earlier, hearlier, rfl⟩ :=
        List.mem_map.mp (hchildren entry List.mem_cons_self child hchild)
      exact h.stored earlier hearlier
    obtain ⟨next, hput, hnext⟩ := h.snoc (hhash entry List.mem_cons_self)
      (hfits entry List.mem_cons_self) hstored (hlasts before entry rest rfl)
    rw [List.append_cons] at hlasts ⊢
    obtain ⟨s'', hrest, hsent⟩ := ih hnext
      (fun other hother ↦ hhash other (List.mem_cons_of_mem _ hother))
      (fun other hother ↦ hfits other (List.mem_cons_of_mem _ hother))
      (fun other hother child hchild ↦ by
        rw [List.map_append]
        exact List.mem_append_left _
          (hchildren other (List.mem_cons_of_mem _ hother) child hchild)) hlasts
    refine ⟨s'', ?_, hsent⟩
    rw [sendNodes, hput]
    exact hrest

/-! ### Stages -/

theorem Ready.mono {known known' : List H256} (hknown : known ⊆ known')
    {stages : List (List (H256 × ChunkTreeNode))} (h : Ready known stages) : Ready known' stages := by
  induction stages generalizing known known' with
  | nil => trivial
  | cons stage rest ih =>
    refine ⟨fun entry hentry child hchild ↦ hknown (h.1 entry hentry child hchild), ih ?_ h.2⟩
    intro hash hmem
    rcases List.mem_append.mp hmem with hold | hnew
    · exact List.mem_append_left _ (hknown hold)
    · exact List.mem_append_right _ hnew

/-- The order within the stages does not matter. -/
theorem Ready.perm {known : List H256} {orders stages : List (List (H256 × ChunkTreeNode))}
    (h : Ready known stages) (hperm : List.Forall₂ List.Perm orders stages) :
    Ready known orders := by
  induction hperm generalizing known with
  | nil => trivial
  | cons hstage _ ih =>
    obtain ⟨hchildren, hrest⟩ := h
    refine ⟨fun entry hentry ↦ hchildren entry (hstage.mem_iff.mp hentry), ih (hrest.mono ?_)⟩
    intro hash hmem
    rcases List.mem_append.mp hmem with hold | hnew
    · exact List.mem_append_left _ hold
    · exact List.mem_append_right _ ((hstage.map _).mem_iff.mpr hnew)

theorem ready_append {known : List H256} {earlier later : List (List (H256 × ChunkTreeNode))} :
    Ready known (earlier ++ later) ↔
      Ready known earlier ∧ Ready (known ++ earlier.flatten.map (·.1)) later := by
  induction earlier generalizing known with
  | nil =>
    rw [List.flatten_nil, List.map_nil, List.append_nil]
    exact ⟨fun h ↦ ⟨trivial, h⟩, fun h ↦ h.2⟩
  | cons stage rest ih =>
    rw [List.flatten_cons, List.map_append, ← List.append_assoc, List.cons_append, Ready, Ready, ih,
      and_assoc]

/-- Requests in stages are all accepted, while the quota lasts. -/
theorem sendNodes_of_ready {orders : List (List (H256 × ChunkTreeNode))}
    (hready : Ready (before.map (·.1)) orders) (hsent : Sent bucketId s before s')
    (hhash : ∀ entry ∈ orders.flatten, entry.2.hash engine.blake2256 = entry.1)
    (hfits : ∀ entry ∈ orders.flatten, entry.2.FitsWire)
    (hlasts : (s.bucketAt bucketId).LastsFor (before ++ orders.flatten)) :
    ∃ s'', sendNodes engine bucketId orders.flatten s' = (.ok (), s'') ∧
      Sent bucketId s (before ++ orders.flatten) s'' := by
  induction orders generalizing before s' with
  | nil =>
    rw [List.flatten_nil, List.append_nil]
    exact ⟨s', rfl, hsent⟩
  | cons stage rest ih =>
    rw [List.flatten_cons] at hhash hfits hlasts ⊢
    rw [← List.append_assoc] at hlasts ⊢
    obtain ⟨next, hstage, hnext⟩ := hsent.append
      (fun entry hentry ↦ hhash entry (List.mem_append_left _ hentry))
      (fun entry hentry ↦ hfits entry (List.mem_append_left _ hentry)) hready.1 hlasts.of_append
    have hrest : Ready ((before ++ stage).map (·.1)) rest := by
      rw [List.map_append]
      exact hready.2
    obtain ⟨s'', hlater, hdone⟩ := ih hrest hnext
      (fun entry hentry ↦ hhash entry (List.mem_append_right _ hentry))
      (fun entry hentry ↦ hfits entry (List.mem_append_right _ hentry)) hlasts
    refine ⟨s'', ?_, hdone⟩
    rw [sendNodes_append, hstage]
    exact hlater

/-- When a request of a stage is sent, the children of its node are stored. -/
theorem children_stored_of_ready {orders earlier later : List (List (H256 × ChunkTreeNode))}
    {arrived : List (H256 × ChunkTreeNode)} (hready : Ready [] orders)
    (hsplit : orders = earlier ++ arrived :: later)
    (hhash : ∀ entry ∈ orders.flatten, entry.2.hash engine.blake2256 = entry.1)
    (hfits : ∀ entry ∈ orders.flatten, entry.2.FitsWire)
    (hlasts : (s.bucketAt bucketId).LastsFor orders.flatten) (hentry : entry ∈ arrived) :
    ∀ child ∈ entry.2.children,
      (sendNodes engine bucketId earlier.flatten s).2.hasNode child = true := by
  subst hsplit
  obtain ⟨hearlier, hstage, -⟩ := ready_append.mp hready
  rw [List.flatten_append] at hhash hfits hlasts
  have hstart : Ready (([] : List (H256 × ChunkTreeNode)).map (·.1)) earlier := hearlier
  obtain ⟨s', hsend, hsent⟩ := sendNodes_of_ready hstart (sent_nil bucketId s)
    (fun other hother ↦ hhash other (List.mem_append_left _ hother))
    (fun other hother ↦ hfits other (List.mem_append_left _ hother)) hlasts.of_append
  intro child hchild
  obtain ⟨sent, hmem, rfl⟩ := List.mem_map.mp (hstage entry hentry child hchild)
  rw [hsend]
  exact hsent.stored sent hmem

end Requests

/-! ### Commits of a stored tree -/

/-- The largest data whose tree a walk gets through: `2 ^ 21` chunks. -/
def maxCommittedBytes : ℕ := maxTreeWalkVisits / 2 * defaultChunkSize

/-- A commit of a data root succeeds, and its new leaf has this root and this size. -/
def CommitsAs (engine : Engine) (bucketId : ℕ) (s : Store) (dataRoot : H256) (size : ℕ) : Prop :=
  ∃ outcome s' leaf, commit engine bucketId [dataRoot] s = .ok (outcome, s') ∧
    (s'.bucketAt bucketId).leaves = (s.bucketAt bucketId).leaves ++ [leaf] ∧
    leaf.dataRoot = dataRoot ∧ leaf.dataSize.toNat = size

section Commits

variable {engine : Engine} {bucketId : ℕ} {s : Store} {data : Bytes} {dataRoot : H256}

theorem Under.length_pos {hash : H256} {chunks : List (H256 × Bytes)} (h : Under s hash chunks) :
    0 < chunks.length := by
  induction h with
  | chunk => exact Nat.zero_lt_one
  | internal hash left right before after hnode hleft hright ihleft ihright =>
    rw [List.length_append]
    omega

theorem Under.hasNode {hash : H256} {chunks : List (H256 × Bytes)} (h : Under s hash chunks) :
    s.hasNode hash = true := by
  cases h with
  | chunk hash data hnode => exact hasNode_iff.mpr ⟨_, hnode⟩
  | internal hash left right before after hnode => exact hasNode_iff.mpr ⟨_, hnode⟩

theorem Canonical.under {hash : H256} {chunks : List (H256 × Bytes)} (h : Canonical s hash chunks) :
    Under s hash chunks := by
  induction h with
  | chunk hash data hnode => exact .chunk hash data hnode
  | internal hash left right chunks hnode hlong hleft hright ihleft ihright =>
    have hunder := Under.internal hash left right _ _ hnode ihleft ihright
    rwa [List.take_append_drop] at hunder

/-- A walk of the tree over some chunks makes a visit for each chunk and each pair, or runs out. -/
theorem walkLeaves_of_under {hash : H256} {chunks : List (H256 × Bytes)} (h : Under s hash chunks)
    (visits : ℕ) (stack : List H256) :
    walkLeaves s visits (hash :: stack) =
      if 2 * chunks.length ≤ visits + 1 then
        (walkLeaves s (visits + 1 - 2 * chunks.length) stack).map fun leaves ↦
          chunks.map (fun chunk ↦ (chunk.1, chunk.2.length)) ++ leaves
      else .error (.treeTooLarge maxTreeWalkVisits) := by
  induction h generalizing visits stack with
  | chunk hash data hnode =>
    cases visits with
    | zero => rfl
    | succ visits =>
      have hroom : 2 * [(hash, data)].length ≤ visits + 1 + 1 := by
        rw [List.length_singleton]
        omega
      have hleft : visits + 1 + 1 - 2 * [(hash, data)].length = visits := by
        rw [List.length_singleton]
        omega
      rw [if_pos hroom, hleft, walkLeaves, hnode, require_some, ok_bind]
      cases walkLeaves s visits stack with
      | error error => rfl
      | ok leaves => rfl
  | internal hash left right before after hnode hleft hright ihleft ihright =>
    have hbefore := hleft.length_pos
    have hafter := hright.length_pos
    have hlength : (before ++ after).length = before.length + after.length := List.length_append
    cases visits with
    | zero =>
      rw [if_neg (by omega)]
      rfl
    | succ visits =>
      rw [walkLeaves, hnode, require_some, ok_bind]
      dsimp only
      rw [ihleft]
      by_cases hroom : 2 * before.length ≤ visits + 1
      · rw [if_pos hroom, ihright]
        by_cases hrest : 2 * after.length ≤ visits + 1 - 2 * before.length + 1
        · have hvisits : visits + 1 - 2 * before.length + 1 - 2 * after.length =
              visits + 1 + 1 - 2 * (before ++ after).length := by omega
          rw [if_pos hrest, if_pos (by omega), hvisits]
          cases walkLeaves s (visits + 1 + 1 - 2 * (before ++ after).length) stack with
          | error error => rfl
          | ok leaves =>
            simp only [Except.map, List.map_append, List.append_assoc]
        · rw [if_neg hrest, if_neg (by omega)]
          rfl
      · rw [if_neg hroom, if_neg (by omega)]

theorem fixedSizes_chunksOf (hdata : data ≠ []) :
    fixedSizes ((chunksOf defaultChunkSize data).map List.length) = true := by
  have hpos : 0 < defaultChunkSize := by decide
  have hne : chunksOf defaultChunkSize data ≠ [] := by
    rwa [ne_eq, chunksOf_eq_nil_iff hpos]
  obtain ⟨hfull, hshort⟩ := length_of_mem_chunksOf hpos data
  obtain ⟨last, hlast⟩ : ∃ last, (chunksOf defaultChunkSize data).getLast? = some last :=
    ⟨_, List.getLast?_eq_some_getLast hne⟩
  obtain ⟨hlong, hle⟩ := hshort last hlast
  unfold fixedSizes
  rw [List.getLast?_map, hlast, ← List.map_dropLast]
  simp only [Option.map_some, Bool.and_eq_true, List.all_eq_true, decide_eq_true_eq]
  refine ⟨⟨?_, List.length_pos_iff.mpr hlong⟩, hle⟩
  intro size hsize
  obtain ⟨chunk, hchunk, rfl⟩ := List.mem_map.mp hsize
  exact hfull chunk hchunk

theorem two_mul_chunks_le_iff :
    2 * (chunksOf defaultChunkSize data).length ≤ maxTreeWalkVisits + 1 ↔
      data.length ≤ maxCommittedBytes := by
  rw [length_chunksOf (by decide)]
  unfold maxCommittedBytes maxTreeWalkVisits defaultChunkSize
  omega

/-- The size of a stored tree over the chunks of some data is that of the data, or a walk of the tree
is too long. -/
theorem canonicalDataSize_of_holdsTree
    (hstored : HoldsTree engine s (chunksOf defaultChunkSize data)) (hdata : data ≠ []) :
    canonicalDataSize engine s (chunkRoot engine.blake2256 (chunksOf defaultChunkSize data)) =
      if data.length ≤ maxCommittedBytes then .ok data.length
      else .error (.treeTooLarge maxTreeWalkVisits) := by
  have hpos : 0 < defaultChunkSize := by decide
  have hne : chunksOf defaultChunkSize data ≠ [] := by
    rwa [ne_eq, chunksOf_eq_nil_iff hpos]
  have hwalk := walkLeaves_of_under (canonical_of_holdsTree hstored hne).under maxTreeWalkVisits []
  rw [List.length_map] at hwalk
  rw [List.map_map] at hwalk
  have hsizes : ((chunksOf defaultChunkSize data).map
      ((fun chunk ↦ (chunk.1, chunk.2.length)) ∘ hashedChunk engine)).map (·.2) =
        (chunksOf defaultChunkSize data).map List.length := by
    rw [List.map_map]
    rfl
  have hroot : merkleRoot engine.blake2256 (((chunksOf defaultChunkSize data).map
      ((fun chunk ↦ (chunk.1, chunk.2.length)) ∘ hashedChunk engine)).map (·.1)) =
        chunkRoot engine.blake2256 (chunksOf defaultChunkSize data) := by
    rw [List.map_map]
    rfl
  unfold canonicalDataSize collectLeaves
  rw [hwalk]
  by_cases hsize : data.length ≤ maxCommittedBytes
  · have hrest : walkLeaves s (maxTreeWalkVisits + 1 -
        2 * (chunksOf defaultChunkSize data).length) [] = .ok [] := by
      rw [walkLeaves]
    have hsum : ((chunksOf defaultChunkSize data).map List.length).sum = data.length := by
      rw [← List.length_flatten, flatten_chunksOf hpos]
    rw [if_pos (two_mul_chunks_le_iff.mpr hsize), if_pos hsize, hrest, Except.map, List.append_nil,
      ok_bind]
    dsimp only
    rw [hsizes, hroot, fixedSizes_chunksOf hdata, hsum, decide_eq_true rfl]
    rfl
  · rw [if_neg hsize, if_neg]
    · rfl
    · rwa [two_mul_chunks_le_iff]

/-- A commit of the root of a stored tree has the size of the data, within the bound. Assumes: a
standard library, and a mountain range with room for a leaf. -/
theorem commit_of_holdsTree (hmmr : engine.mmr.IsStandard)
    (hstored : HoldsTree engine s (chunksOf defaultChunkSize data)) (hdata : data ≠ [])
    (hbucket : (s.buckets.lookup bucketId).isSome)
    (hleaves : (s.bucketAt bucketId).leaves.length < maxLeaves) :
    (data.length ≤ maxCommittedBytes →
      CommitsAs engine bucketId s (chunkRoot engine.blake2256 (chunksOf defaultChunkSize data))
        data.length) ∧
    (maxCommittedBytes < data.length →
      commit engine bucketId [chunkRoot engine.blake2256 (chunksOf defaultChunkSize data)] s =
        .error (.treeTooLarge maxTreeWalkVisits)) := by
  have hsize := canonicalDataSize_of_holdsTree hstored hdata
  have hne : chunksOf defaultChunkSize data ≠ [] := by
    rwa [ne_eq, chunksOf_eq_nil_iff (by decide)]
  have hroot := (canonical_of_holdsTree hstored hne).under.hasNode
  generalize chunkRoot engine.blake2256 (chunksOf defaultChunkSize data) = dataRoot at hsize hroot ⊢
  have hensured : ensureRootsStored s [dataRoot] = .ok () := by
    rw [ensureRootsStored, hroot]
    rfl
  constructor
  · intro hwithin
    obtain ⟨bucket, hlookup⟩ := Option.isSome_iff_exists.mp hbucket
    rw [bucketAt_of_lookup hlookup] at hleaves
    rw [if_pos hwithin] at hsize
    have hfits : data.length ≤ u64Max := hwithin.trans (by decide)
    have hsizes : [dataRoot].mapM (canonicalDataSize engine s) = .ok [data.length] := by
      rw [List.mapM_cons, hsize, List.mapM_nil]
      rfl
    have hlength : (bucket.leaves ++ leavesAfter (lastTotal bucket.leaves)
        ([dataRoot].zip [data.length])).length ≤ maxLeaves := by
      rw [List.length_append, length_leavesAfter]
      exact hleaves
    obtain ⟨root, hmmrRoot⟩ := exists_mmrRoot hmmr hlength
    obtain ⟨outcome, hcommit⟩ := (commit_eq_ok_iff hlookup).mpr
      ⟨[data.length], root, hensured, hsizes, hleaves, hmmrRoot, rfl⟩
    refine ⟨outcome, _, leafAfter (lastTotal bucket.leaves) (dataRoot, data.length), hcommit, ?_, rfl,
      toNat_ofNat hfits⟩
    rw [bucketAt_of_lookup hlookup, Store.putBucket, bucketAt_of_lookup (Finmap.lookup_insert _)]
    rfl
  · intro hbeyond
    rw [if_neg (by omega)] at hsize
    rw [commit, hensured, ok_bind, List.mapM_cons, hsize]
    rfl

/-- A walk finds at most half as many chunks as it makes visits. -/
theorem two_mul_length_walkLeaves {visits : ℕ} {stack : List H256} {leaves : List (H256 × ℕ)}
    (h : walkLeaves s visits stack = .ok leaves) :
    2 * leaves.length ≤ visits + stack.length := by
  induction visits generalizing stack leaves with
  | zero =>
    cases stack with
    | nil =>
      cases h
      exact Nat.zero_le _
    | cons hash stack => cases h
  | succ visits ih =>
    cases stack with
    | nil =>
      cases h
      exact Nat.zero_le _
    | cons hash stack =>
      simp only [walkLeaves, bind_eq_ok, require_eq_ok] at h
      obtain ⟨node, -, h⟩ := h
      cases node with
      | chunk data =>
        simp only [bind_eq_ok, pure_eq_ok] at h
        obtain ⟨rest, hrest, rfl⟩ := h
        have hle := ih hrest
        rw [List.length_cons, List.length_cons]
        omega
      | internal left right =>
        have hle := ih h
        rw [List.length_cons, List.length_cons] at hle
        rw [List.length_cons]
        omega

/-- No data above the bound is committed, whatever the store holds. -/
theorem le_maxCommittedBytes_of_commitsAs {size : ℕ}
    (h : CommitsAs engine bucketId s dataRoot size) : size ≤ maxCommittedBytes := by
  obtain ⟨outcome, s', leaf, hcommit, hleaves, -, rfl⟩ := h
  have hbucket : ∃ bucket, s.buckets.lookup bucketId = some bucket := by
    simp only [commit, bind_eq_ok, require_eq_ok] at hcommit
    obtain ⟨-, -, -, -, bucket, hlookup, -⟩ := hcommit
    exact ⟨bucket, hlookup⟩
  obtain ⟨bucket, hlookup⟩ := hbucket
  obtain ⟨sizes, root, -, hsizes, -, -, rfl⟩ := (commit_eq_ok_iff hlookup).mp ⟨outcome, hcommit⟩
  rw [bucketAt_of_lookup hlookup, Store.putBucket, bucketAt_of_lookup (Finmap.lookup_insert _)]
    at hleaves
  simp only [List.mapM_cons, List.mapM_nil, bind_eq_ok, pure_eq_ok] at hsizes
  obtain ⟨size, hsize, -, rfl, rfl⟩ := hsizes
  have hfits : size ≤ u64Max := (canonicalDataSize_lt hsize).le
  have hleaf : leaf = leafAfter (lastTotal bucket.leaves) (dataRoot, size) := by
    have hlast : [leafAfter (lastTotal bucket.leaves) (dataRoot, size)] = [leaf] :=
      List.append_cancel_left hleaves
    rw [List.cons.injEq] at hlast
    exact hlast.1.symm
  simp only [canonicalDataSize, bind_eq_ok, pure_eq_ok, ensure_eq_ok, Bool.and_eq_true] at hsize
  obtain ⟨leaves, hwalk, -, ⟨hfixed, -⟩, rfl⟩ := hsize
  have hcount := two_mul_length_walkLeaves hwalk
  have hsum := sum_le_of_fixedSizes hfixed
  rw [List.length_singleton] at hcount
  rw [List.length_map] at hsum
  have hhalf : leaves.length ≤ maxTreeWalkVisits / 2 := by
    unfold maxTreeWalkVisits at hcount ⊢
    omega
  rw [hleaf]
  calc (leafAfter (lastTotal bucket.leaves) (dataRoot, (leaves.map (·.2)).sum)).dataSize.toNat
      = (leaves.map (·.2)).sum := toNat_ofNat hfits
    _ ≤ leaves.length * defaultChunkSize := hsum
    _ ≤ maxCommittedBytes := Nat.mul_le_mul_right _ hhalf

end Commits

/-! ### Uploads of data -/

/-- The nodes of the tree over some chunks. -/
def blobNodes (blake2256 : Bytes → H256) (chunks : List Bytes) : List ChunkTreeNode :=
  chunks.map .chunk ++ (merkleTree blake2256 (chunks.map (hashLeaf blake2256))).2.map fun node ↦
    .internal node.left node.right

/-- No two nodes among those stored and those of the tree over some chunks have the same hash. -/
def NoCollision (engine : Engine) (s : Store) (chunks : List Bytes) : Prop :=
  Set.InjOn (ChunkTreeNode.hash engine.blake2256)
    {node | (∃ hash, s.nodes.lookup hash = some node) ∨ node ∈ blobNodes engine.blake2256 chunks}

/-- Stages of requests that upload the tree over the chunks of some data. -/
structure UploadStages (engine : Engine) (data : Bytes)
    (stages : List (List (H256 × ChunkTreeNode))) : Prop where
  ready : Ready [] stages
  hash_eq : ∀ entry ∈ stages.flatten, entry.2.hash engine.blake2256 = entry.1
  sound : ∀ entry ∈ stages.flatten,
    entry.2 ∈ blobNodes engine.blake2256 (chunksOf defaultChunkSize data)
  complete : ∀ node ∈ blobNodes engine.blake2256 (chunksOf defaultChunkSize data),
    node.hash engine.blake2256 ∈ stages.flatten.map (·.1)

/-- Requests in stages can be sent and their data committed: no node is sent before its children are
stored, no request is refused, and a commit of the root of the data takes the data up to the bound on
its size, while it refuses larger data. -/
structure Committable (engine : Engine) (bucketId : ℕ) (s : Store) (data : Bytes)
    (orders : List (List (H256 × ChunkTreeNode))) : Prop where
  children_stored : ∀ earlier arrived later, orders = earlier ++ arrived :: later →
    ∀ entry ∈ arrived, ∀ child ∈ entry.2.children,
      (sendNodes engine bucketId earlier.flatten s).2.hasNode child = true
  accepted : (sendNodes engine bucketId orders.flatten s).1 = .ok ()
  commits : NoCollision engine s (chunksOf defaultChunkSize data) → data.length ≤ maxCommittedBytes →
    CommitsAs engine bucketId (sendNodes engine bucketId orders.flatten s).2
      (chunkRoot engine.blake2256 (chunksOf defaultChunkSize data)) data.length
  refused : NoCollision engine s (chunksOf defaultChunkSize data) → maxCommittedBytes < data.length →
    commit engine bucketId [chunkRoot engine.blake2256 (chunksOf defaultChunkSize data)]
        (sendNodes engine bucketId orders.flatten s).2 = .error (.treeTooLarge maxTreeWalkVisits)

section Uploads

variable {engine : Engine} {bucketId : ℕ} {s s' : Store} {data : Bytes}
  {orders stages : List (List (H256 × ChunkTreeNode))}

/-- The order within the stages does not matter. -/
theorem UploadStages.perm (h : UploadStages engine data stages)
    (hperm : List.Forall₂ List.Perm orders stages) : UploadStages engine data orders := by
  have hflat : orders.flatten.Perm stages.flatten := List.Perm.flatten_congr hperm
  constructor
  · exact h.ready.perm hperm
  · intro entry hentry
    exact h.hash_eq entry (hflat.mem_iff.mp hentry)
  · intro entry hentry
    exact h.sound entry (hflat.mem_iff.mp hentry)
  · intro node hnode
    exact (hflat.map _).mem_iff.mpr (h.complete node hnode)

theorem fitsWire_of_mem_blobNodes {node : ChunkTreeNode}
    (h : node ∈ blobNodes engine.blake2256 (chunksOf defaultChunkSize data)) : node.FitsWire := by
  cases node with
  | internal left right => trivial
  | chunk chunk =>
    obtain ⟨hfull, hshort⟩ := @length_of_mem_chunksOf _ defaultChunkSize (by decide) data
    have hchunk : chunk ∈ chunksOf defaultChunkSize data := by
      rcases List.mem_append.mp h with hleaf | hinner
      · obtain ⟨found, hfound, heq⟩ := List.mem_map.mp hleaf
        cases heq
        exact hfound
      · obtain ⟨inner, -, heq⟩ := List.mem_map.mp hinner
        cases heq
    have hne : chunksOf defaultChunkSize data ≠ [] := List.ne_nil_of_mem hchunk
    rw [← List.dropLast_append_getLast hne, List.mem_append, List.mem_singleton] at hchunk
    rcases hchunk with hearlier | rfl
    · exact (hfull chunk hearlier).le
    · exact (hshort _ (List.getLast?_eq_some_getLast hne)).2

/-- After an upload without collisions the tree is stored. -/
theorem holdsTree_of_sent (hhashed : NodesHashed engine s) (h : UploadStages engine data orders)
    (hsent : Sent bucketId s orders.flatten s')
    (hfree : NoCollision engine s (chunksOf defaultChunkSize data)) :
    HoldsTree engine s' (chunksOf defaultChunkSize data) := by
  have hlookup : ∀ node ∈ blobNodes engine.blake2256 (chunksOf defaultChunkSize data),
      s'.nodes.lookup (node.hash engine.blake2256) = some node := by
    intro node hnode
    obtain ⟨entry, hentry, hhash⟩ := List.mem_map.mp (h.complete node hnode)
    obtain ⟨found, hfound⟩ := hasNode_iff.mp (hsent.stored entry hentry)
    rw [hhash] at hfound
    have hsame : found.hash engine.blake2256 = node.hash engine.blake2256 ∧
        ((∃ hash, s.nodes.lookup hash = some found) ∨
          found ∈ blobNodes engine.blake2256 (chunksOf defaultChunkSize data)) := by
      rcases hsent.added _ _ hfound with hold | hnew
      · exact ⟨hhashed _ _ hold, .inl ⟨_, hold⟩⟩
      · exact ⟨h.hash_eq _ hnew, .inr (h.sound _ hnew)⟩
    rw [hfound, hfree hsame.2 (.inr hnode) hsame.1]
  have hshape (leaves : List H256) : ∀ node ∈ (merkleTree engine.blake2256 leaves).2,
      node.hash = hashChildren engine.blake2256 node.left node.right := by
    intro node hnode
    exact (childrenFirst_nodesOver (List.Subset.refl leaves)).hash_eq node hnode
  constructor
  · intro chunk hchunk
    exact hlookup (.chunk chunk) (List.mem_append_left _ (List.mem_map_of_mem hchunk))
  · intro node hnode
    rw [hshape _ node hnode]
    exact hlookup (.internal node.left node.right)
      (List.mem_append_right _ (List.mem_map.mpr ⟨node, hnode, rfl⟩))

/-- Requests of an upload, each stage in any order, can be sent and their data committed while the
quota lasts. Assumes: a store that was reached, a standard library, and a mountain range with room for
a leaf. -/
theorem committable_of_stages (hmmr : engine.mmr.IsStandard) (hhashed : NodesHashed engine s)
    (hdata : data ≠ []) (h : UploadStages engine data stages)
    (hperm : List.Forall₂ List.Perm orders stages)
    (hlasts : (s.bucketAt bucketId).LastsFor orders.flatten)
    (hleaves : (s.bucketAt bucketId).leaves.length < maxLeaves) :
    Committable engine bucketId s data orders := by
  have horders := h.perm hperm
  have hfits : ∀ entry ∈ orders.flatten, entry.2.FitsWire := by
    intro entry hentry
    exact fitsWire_of_mem_blobNodes (horders.sound entry hentry)
  have hstart : Ready (([] : List (H256 × ChunkTreeNode)).map (·.1)) orders := horders.ready
  obtain ⟨s', hsend, hsent⟩ := sendNodes_of_ready hstart (sent_nil bucketId s) horders.hash_eq hfits
    hlasts
  rw [List.nil_append] at hsent
  have hbucket : (s'.buckets.lookup bucketId).isSome := by
    apply hsent.bucket
    intro hnone
    have hne : chunksOf defaultChunkSize data ≠ [] := by
      rwa [ne_eq, chunksOf_eq_nil_iff (by decide)]
    obtain ⟨chunk, hchunk⟩ := List.exists_mem_of_ne_nil _ hne
    have hsome := horders.complete (.chunk chunk) (List.mem_append_left _ (List.mem_map_of_mem hchunk))
    rw [hnone] at hsome
    cases hsome
  have hroom : (s'.bucketAt bucketId).leaves.length < maxLeaves := by
    rwa [hsent.leaves_eq]
  constructor
  · intro earlier arrived later hsplit entry hentry
    exact children_stored_of_ready horders.ready hsplit horders.hash_eq hfits hlasts hentry
  · rw [hsend]
  · intro hfree hsize
    rw [hsend]
    exact (commit_of_holdsTree hmmr (holdsTree_of_sent hhashed horders hsent hfree) hdata hbucket
      hroom).1 hsize
  · intro hfree hsize
    rw [hsend]
    exact (commit_of_holdsTree hmmr (holdsTree_of_sent hhashed horders hsent hfree) hdata hbucket
      hroom).2 hsize

end Uploads

end Web3Storage.Node
