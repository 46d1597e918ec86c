import Web3Storage.Client.Base
import Web3Storage.Node.NodeUploads
import Web3Storage.Packages.CoreNodes

/-!
# The two uploads

Both clients send the chunks of some data and then the inner nodes of its tree. `upload` waits for the
answer to each request before the next. `uploadBlob` sends a stage at a time, the chunks and then each
level of the tree, the requests of a stage together; it cuts the levels out of one list of nodes by
their widths, and sends each hash once. `levelStages_spec` says that the cuts are the levels, and that
what is left out was sent before. `uploads_committable` puts both together, for every order in which
the requests of a stage may arrive.

A root whose tree is larger than a commit walks is sent like any other and refused by the commit:
`large_upload_refused`.
-/

set_option autoImplicit false
set_option relaxedAutoImplicit false

namespace Web3Storage.Client

open Foundations Node Primitives

/-! ### The package -/

/-- The items with a hash that was not sent, and all hashes sent with them. -/
def once {α : Type} (hashOf : α → H256) : List H256 → List α → List α × List H256
  | sent, [] => ([], sent)
  | sent, item :: rest =>
    if hashOf item ∈ sent then once hashOf sent rest
    else
      let later := once hashOf (hashOf item :: sent) rest
      (item :: later.1, later.2)

/-- What is sent of a blob, in stages: the requests of a stage are sent together once those of the
stage before are answered. -/
structure BlobUpload where
  stages : List (List (H256 × ChunkTreeNode))
  dataRoot : H256
  size : ℕ
  chunkHashes : List H256

/-- The stages for the nodes from an offset on, where a level with a number of hashes starts. -/
def levelStages (nodes : List MerkleNode) (sent : List H256) (offset width : ℕ) :
    List (List (H256 × ChunkTreeNode)) :=
  if width > 1 then
    let count := width / 2
    let level := once (·.hash) sent ((nodes.drop offset).take count)
    level.1.map (fun node ↦ (node.hash, .internal node.left node.right)) ::
      levelStages nodes level.2 (offset + count) ((width + 1) / 2)
  else []
termination_by width

/-- Store a blob of any size: every chunk, then the internal nodes of its tree, bottom-up. -/
def uploadBlob (blake2b256 : Bytes → H256) (bytes : Bytes) : Except String BlobUpload :=
  if bytes.length = 0 then .error "empty data has no chunk tree"
  else
    let chunks := Packages.splitChunks bytes
    let hashes := chunks.map (Packages.hashLeaf blake2b256)
    let tree := Packages.merkleTree blake2b256 hashes
    let leaves := once (·.1) [] (hashes.zip chunks)
    .ok
      { stages := leaves.1.map (fun leaf ↦ (leaf.1, .chunk leaf.2)) ::
          levelStages tree.2 leaves.2 0 hashes.length
        dataRoot := tree.1
        size := bytes.length
        chunkHashes := hashes }

/-! ### The crate -/

/-- Chunking strategy for data upload. Content-defined chunking is not implemented and uses the
default. -/
inductive ChunkingStrategy
  | fixed (chunkSize : ℕ)
  | contentDefined

def ChunkingStrategy.default : ChunkingStrategy := .fixed defaultChunkSize

/-- A client that uploads, with its providers and the encryption of its cipher, if it has one. -/
structure UploadClient where
  providerUrls : List String
  encrypt : Option (Bytes → Except ClientError Bytes)

def chunkData (data : Bytes) : ChunkingStrategy → List Bytes
  | .fixed chunkSize => chunksOf chunkSize data
  | .contentDefined => chunksOf defaultChunkSize data

/-- The data that is uploaded for some data. -/
def UploadClient.uploadData (client : UploadClient) (data : Bytes) : Except ClientError Bytes :=
  match client.encrypt with
  | some encrypt => encrypt data
  | none => .ok data

/-- A provider rejects a chunk above the default size, and no chunk has the size zero. -/
def checkStrategy : ChunkingStrategy → Except ClientError Unit
  | .fixed chunkSize =>
    ensure (!(chunkSize = 0 || chunkSize > defaultChunkSize)) (.config
      s!"chunk size must be between 1 and {defaultChunkSize} bytes, got {chunkSize}")
  | .contentDefined => .ok ()

/-- The request for a node. -/
def nodeRequest (blake2256 : Bytes → H256) (node : ChunkTreeNode) : H256 × ChunkTreeNode :=
  (node.hash blake2256, node)

/-- Upload data to the first provider: the requests one after the other, and the data root. -/
def UploadClient.upload (client : UploadClient) (blake2256 : Bytes → H256) (data : Bytes)
    (strategy : ChunkingStrategy) : Except ClientError (List (H256 × ChunkTreeNode) × H256) := do
  checkStrategy strategy
  let _ ← require client.providerUrls.head? (.config "No provider URLs configured")
  let uploadData ← client.uploadData data
  ensure (!uploadData.isEmpty) (.config "empty data has no chunk tree")
  let chunks := chunkData uploadData strategy
  let chunkHashes := chunks.map (hashLeaf blake2256)
  let tree := merkleTree blake2256 chunkHashes
  return (chunks.map (fun chunk ↦ nodeRequest blake2256 (.chunk chunk)) ++
    tree.2.map (fun node ↦ nodeRequest blake2256 (.internal node.left node.right)), tree.1)

/-! ### What is sent once -/

section Once

variable {α : Type} {hashOf : α → H256} {sent : List H256} {items : List α}

/-- The items that are kept are new, and different. -/
theorem once_spec (hashOf : α → H256) (sent : List H256) (items : List α) :
    (∀ item ∈ (once hashOf sent items).1, item ∈ items ∧ hashOf item ∉ sent) ∧
      ((once hashOf sent items).1.map hashOf).Nodup ∧
      ∀ hash, hash ∈ (once hashOf sent items).2 ↔
        hash ∈ sent ∨ hash ∈ (once hashOf sent items).1.map hashOf := by
  induction items generalizing sent with
  | nil =>
    refine ⟨by simp [once], List.nodup_nil, fun hash ↦ ?_⟩
    simp [once]
  | cons item rest ih =>
    rw [once]
    by_cases hsent : hashOf item ∈ sent
    · rw [if_pos hsent]
      obtain ⟨hnew, hnodup, hall⟩ := ih sent
      refine ⟨fun other hother ↦ ?_, hnodup, hall⟩
      exact ⟨List.mem_cons_of_mem _ (hnew other hother).1, (hnew other hother).2⟩
    · rw [if_neg hsent]
      obtain ⟨hnew, hnodup, hall⟩ := ih (hashOf item :: sent)
      dsimp only
      refine ⟨?_, ?_, ?_⟩
      · intro other hother
        rcases List.mem_cons.mp hother with rfl | hlater
        · exact ⟨List.mem_cons_self, hsent⟩
        · obtain ⟨hmem, hfresh⟩ := hnew other hlater
          exact ⟨List.mem_cons_of_mem _ hmem, fun hold ↦ hfresh (List.mem_cons_of_mem _ hold)⟩
      · rw [List.map_cons, List.nodup_cons]
        refine ⟨fun hmem ↦ ?_, hnodup⟩
        obtain ⟨other, hother, hsame⟩ := List.mem_map.mp hmem
        apply (hnew other hother).2
        rw [hsame]
        exact List.mem_cons_self
      · intro hash
        rw [hall, List.mem_cons, List.map_cons, List.mem_cons]
        tauto

/-- The hash of every item is sent. -/
theorem mem_sent_once {item : α} (hitem : item ∈ items) :
    hashOf item ∈ (once hashOf sent items).2 := by
  induction items generalizing sent with
  | nil => cases hitem
  | cons first rest ih =>
    rw [once]
    have hkept (sent' : List H256) (h : hashOf item ∈ sent') :
        hashOf item ∈ (once hashOf sent' rest).2 := by
      rw [(once_spec hashOf sent' rest).2.2]
      exact .inl h
    by_cases hsent : hashOf first ∈ sent
    · rw [if_pos hsent]
      rcases List.mem_cons.mp hitem with rfl | hlater
      · exact hkept sent hsent
      · exact ih hlater
    · rw [if_neg hsent]
      dsimp only
      rcases List.mem_cons.mp hitem with rfl | hlater
      · exact hkept _ List.mem_cons_self
      · exact ih hlater

end Once

/-! ### The stages of a blob -/

/-- Stages for the levels above some hashes that were sent: each has its children in an earlier one,
together they send every node once, and leave out only what was sent. -/
structure LevelStages (blake2256 : Bytes → H256) (leaves sent : List H256)
    (stages : List (List (H256 × ChunkTreeNode))) : Prop where
  ready : ∀ known, sent ⊆ known → Ready known stages
  sound : ∀ entry ∈ stages.flatten, ∃ node ∈ nodesOver blake2256 leaves,
    entry = (node.hash, .internal node.left node.right)
  complete : ∀ node ∈ nodesOver blake2256 leaves,
    node.hash ∈ sent ∨ node.hash ∈ stages.flatten.map (·.1)
  nodup : (stages.flatten.map (·.1)).Nodup
  fresh : ∀ hash ∈ stages.flatten.map (·.1), hash ∉ sent

section Levels

variable {blake2256 : Bytes → H256}

theorem mem_levelNodes {leaves : List H256} {node : MerkleNode}
    (h : node ∈ levelNodes leaves (MerkleTree.nextLevel (Primitives.hashChildren blake2256) leaves)) :
    node.left ∈ leaves ∧ node.right ∈ leaves := by
  induction leaves using MerkleTree.nextLevel.induct with
  | case1 => cases h
  | case2 last => cases h
  | case3 left right rest ih =>
    rw [MerkleTree.nextLevel, levelNodes] at h
    rcases List.mem_cons.mp h with rfl | hlater
    · exact ⟨List.mem_cons_self, List.mem_cons_of_mem _ List.mem_cons_self⟩
    · obtain ⟨hleft, hright⟩ := ih hlater
      exact ⟨List.mem_cons_of_mem _ (List.mem_cons_of_mem _ hleft),
        List.mem_cons_of_mem _ (List.mem_cons_of_mem _ hright)⟩

theorem levelStages_nil {leaves sent : List H256} (h : nodesOver blake2256 leaves = []) :
    LevelStages blake2256 leaves sent [] where
  ready := fun _ _ ↦ trivial
  sound := by simp
  complete := by simp [h]
  nodup := by simp
  fresh := by simp

/-- The stage of the lowest level before those of the levels above. -/
theorem LevelStages.cons {leaves sent : List H256} {rest : List (List (H256 × ChunkTreeNode))}
    (h : LevelStages blake2256 (MerkleTree.nextLevel (Primitives.hashChildren blake2256) leaves)
      (once (·.hash) sent (levelNodes leaves
        (MerkleTree.nextLevel (Primitives.hashChildren blake2256) leaves))).2 rest)
    (hsent : leaves ⊆ sent) :
    LevelStages blake2256 leaves sent
      ((once (·.hash) sent (levelNodes leaves (MerkleTree.nextLevel
          (Primitives.hashChildren blake2256) leaves))).1.map
        (fun node ↦ (node.hash, ChunkTreeNode.internal node.left node.right)) :: rest) := by
  have hsplit := @nodesOver_nextLevel blake2256 leaves
  have hchildren := @mem_levelNodes blake2256 leaves
  generalize levelNodes leaves (MerkleTree.nextLevel (Primitives.hashChildren blake2256) leaves) =
    level at h hsplit hchildren ⊢
  obtain ⟨hkept, hnodup, hall⟩ := once_spec (·.hash) sent level
  have hevery := @mem_sent_once _ (·.hash) sent level
  generalize (once (·.hash) sent level).2 = later at h hall hevery
  generalize (once (·.hash) sent level).1 = now at hkept hnodup hall ⊢
  have hhashes : (now.map fun node ↦ (node.hash, ChunkTreeNode.internal node.left node.right)).map
      (·.1) = now.map (·.hash) := by
    rw [List.map_map]
    rfl
  constructor
  · intro known hknown
    constructor
    · intro entry hentry child hchild
      obtain ⟨node, hnode, rfl⟩ := List.mem_map.mp hentry
      obtain ⟨hleft, hright⟩ := hchildren (hkept node hnode).1
      apply hknown
      apply hsent
      rcases List.mem_cons.mp hchild with rfl | hother
      · exact hleft
      · rw [List.mem_singleton.mp hother]
        exact hright
    · apply h.ready
      intro hash hmem
      rw [hhashes]
      rcases (hall hash).mp hmem with hold | hnew
      · exact List.mem_append_left _ (hknown hold)
      · exact List.mem_append_right _ hnew
  · intro entry hentry
    rw [List.flatten_cons, List.mem_append] at hentry
    rw [hsplit]
    rcases hentry with hnow | habove
    · obtain ⟨node, hnode, rfl⟩ := List.mem_map.mp hnow
      exact ⟨node, List.mem_append_left _ (hkept node hnode).1, rfl⟩
    · obtain ⟨node, hnode, heq⟩ := h.sound entry habove
      exact ⟨node, List.mem_append_right _ hnode, heq⟩
  · intro node hnode
    rw [List.flatten_cons, List.map_append, hhashes, List.mem_append, ← or_assoc, ← hall]
    rw [hsplit, List.mem_append] at hnode
    rcases hnode with hhere | habove
    · exact .inl (hevery hhere)
    · exact h.complete node habove
  · rw [List.flatten_cons, List.map_append, hhashes, List.nodup_append]
    refine ⟨hnodup, h.nodup, ?_⟩
    rintro hash hnow _ habove rfl
    exact h.fresh hash habove ((hall hash).mpr (.inr hnow))
  · intro hash hmem hold
    rw [List.flatten_cons, List.map_append, hhashes, List.mem_append] at hmem
    rcases hmem with hnow | habove
    · obtain ⟨node, hnode, rfl⟩ := List.mem_map.mp hnow
      exact (hkept node hnode).2 hold
    · exact h.fresh hash habove ((hall hash).mpr (.inl hold))

/-- The levels are cut out of the list of nodes where they start. -/
theorem levelStages_spec {nodes : List MerkleNode} {sent leaves : List H256} {offset : ℕ}
    (hnodes : nodes.drop offset = nodesOver blake2256 leaves) (hsent : leaves ⊆ sent) :
    LevelStages blake2256 leaves sent (levelStages nodes sent offset leaves.length) := by
  induction leaves using MerkleTree.levels.induct (Primitives.hashChildren blake2256)
    generalizing sent offset with
  | case1 leaves hlong ih =>
    have hcut : (nodes.drop offset).take (leaves.length / 2) =
        levelNodes leaves (MerkleTree.nextLevel (Primitives.hashChildren blake2256) leaves) := by
      rw [hnodes, nodesOver_nextLevel, List.take_left' (length_levelNodes leaves)]
    have hrest : nodes.drop (offset + leaves.length / 2) =
        nodesOver blake2256 (MerkleTree.nextLevel (Primitives.hashChildren blake2256) leaves) := by
      rw [← List.drop_drop, hnodes, nodesOver_nextLevel leaves, List.drop_left' (length_levelNodes leaves)]
    rw [levelStages, if_pos hlong]
    dsimp only
    rw [hcut, ← MerkleTree.length_nextLevel (Primitives.hashChildren blake2256)]
    have hnext : MerkleTree.nextLevel (Primitives.hashChildren blake2256) leaves ⊆
        (once (·.hash) sent (levelNodes leaves
          (MerkleTree.nextLevel (Primitives.hashChildren blake2256) leaves))).2 := by
      intro hash hmem
      rcases mem_nextLevel hmem with hleaf | hnode
      · rw [(once_spec _ _ _).2.2]
        exact .inl (hsent hleaf)
      · obtain ⟨node, hlevel, rfl⟩ := List.mem_map.mp hnode
        exact @mem_sent_once _ (·.hash) sent _ node hlevel
    exact (ih hrest hnext).cons hsent
  | case2 hshort =>
    rw [levelStages, if_neg (by simp)]
    exact levelStages_nil (by rw [nodesOver, MerkleTree.levels_nil]; rfl)
  | case3 leaves hshort _ =>
    rw [levelStages, if_neg hshort]
    rcases leaves with _ | ⟨leaf, _ | _⟩
    · exact levelStages_nil (by rw [nodesOver, MerkleTree.levels_nil]; rfl)
    · exact levelStages_nil (nodesOver_singleton leaf)
    · simp at hshort

theorem mem_blobNodes {chunks : List Bytes} {node : ChunkTreeNode} :
    node ∈ blobNodes blake2256 chunks ↔ (∃ chunk ∈ chunks, node = .chunk chunk) ∨
      ∃ inner ∈ nodesOver blake2256 (chunks.map (Primitives.hashLeaf blake2256)),
        node = .internal inner.left inner.right := by
  rw [blobNodes, List.mem_append, List.mem_map, List.mem_map]
  constructor
  · rintro (⟨chunk, hchunk, rfl⟩ | ⟨inner, hinner, rfl⟩)
    · exact .inl ⟨chunk, hchunk, rfl⟩
    · exact .inr ⟨inner, hinner, rfl⟩
  · rintro (⟨chunk, hchunk, rfl⟩ | ⟨inner, hinner, rfl⟩)
    · exact .inl ⟨chunk, hchunk, rfl⟩
    · exact .inr ⟨inner, hinner, rfl⟩

/-- The chunks, each hash once, and then the levels above them are an upload. -/
theorem uploadStages_of_levels {engine : Engine} {data : Bytes} {leaves : List (H256 × Bytes)}
    {sent : List H256} {levels : List (List (H256 × ChunkTreeNode))}
    (hleaves : ∀ leaf ∈ leaves, leaf.2 ∈ chunksOf defaultChunkSize data ∧
      leaf.1 = Primitives.hashLeaf engine.blake2256 leaf.2)
    (hnodup : (leaves.map (·.1)).Nodup) (hall : ∀ hash, hash ∈ sent ↔ hash ∈ leaves.map (·.1))
    (hevery : ∀ chunk ∈ chunksOf defaultChunkSize data,
      Primitives.hashLeaf engine.blake2256 chunk ∈ sent)
    (hlevels : LevelStages engine.blake2256
      ((chunksOf defaultChunkSize data).map (Primitives.hashLeaf engine.blake2256)) sent levels) :
    UploadStages engine data (leaves.map (fun leaf ↦ (leaf.1, .chunk leaf.2)) :: levels) ∧
      ((leaves.map (fun leaf ↦ (leaf.1, ChunkTreeNode.chunk leaf.2)) :: levels).flatten.map
        (·.1)).Nodup := by
  have hhashes : (leaves.map fun leaf ↦ (leaf.1, ChunkTreeNode.chunk leaf.2)).map (·.1) =
      leaves.map (·.1) := by
    rw [List.map_map]
    rfl
  have hinner : ∀ node ∈ nodesOver engine.blake2256 ((chunksOf defaultChunkSize data).map
      (Primitives.hashLeaf engine.blake2256)),
        node.hash = Primitives.hashChildren engine.blake2256 node.left node.right :=
    (childrenFirst_nodesOver (List.Subset.refl _)).hash_eq
  refine ⟨⟨⟨?_, ?_⟩, ?_, ?_, ?_⟩, ?_⟩
  · intro entry hentry child hchild
    obtain ⟨leaf, -, rfl⟩ := List.mem_map.mp hentry
    cases hchild
  · apply hlevels.ready
    intro hash hmem
    rw [hhashes]
    exact (hall hash).mp hmem
  · intro entry hentry
    rw [List.flatten_cons, List.mem_append] at hentry
    rcases hentry with hleaf | hlevel
    · obtain ⟨leaf, hmem, rfl⟩ := List.mem_map.mp hleaf
      exact (hleaves leaf hmem).2.symm
    · obtain ⟨node, hnode, rfl⟩ := hlevels.sound entry hlevel
      exact (hinner node hnode).symm
  · intro entry hentry
    rw [List.flatten_cons, List.mem_append] at hentry
    rw [mem_blobNodes]
    rcases hentry with hleaf | hlevel
    · obtain ⟨leaf, hmem, rfl⟩ := List.mem_map.mp hleaf
      exact .inl ⟨leaf.2, (hleaves leaf hmem).1, rfl⟩
    · obtain ⟨node, hnode, rfl⟩ := hlevels.sound entry hlevel
      exact .inr ⟨node, hnode, rfl⟩
  · intro node hnode
    rw [List.flatten_cons, List.map_append, hhashes, List.mem_append, ← hall]
    rcases mem_blobNodes.mp hnode with ⟨chunk, hchunk, rfl⟩ | ⟨inner, hmem, rfl⟩
    · exact .inl (hevery chunk hchunk)
    · have hhash : (ChunkTreeNode.internal inner.left inner.right).hash engine.blake2256 =
          inner.hash := (hinner inner hmem).symm
      rw [hhash]
      exact hlevels.complete inner hmem
  · rw [List.flatten_cons, List.map_append, hhashes, List.nodup_append]
    refine ⟨hnodup, hlevels.nodup, ?_⟩
    rintro hash hleaf _ hlevel rfl
    exact hlevels.fresh hash hlevel ((hall hash).mpr hleaf)

/-- The stages of a blob upload its tree, each hash once. -/
theorem uploadBlob_spec (engine : Engine) {bytes : Bytes} (hbytes : bytes ≠ []) :
    ∃ upload, uploadBlob engine.blake2256 bytes = .ok upload ∧
      upload.dataRoot = chunkRoot engine.blake2256 (chunksOf defaultChunkSize bytes) ∧
      upload.size = bytes.length ∧ UploadStages engine bytes upload.stages ∧
      (upload.stages.flatten.map (·.1)).Nodup := by
  have hlength : ¬ bytes.length = 0 := by
    rwa [List.length_eq_zero_iff]
  have hchunks : Packages.splitChunks bytes = chunksOf defaultChunkSize bytes :=
    Packages.splitChunks_eq bytes
  have hzip : ((chunksOf defaultChunkSize bytes).map
      (Packages.hashLeaf engine.blake2256)).zip (chunksOf defaultChunkSize bytes) =
        (chunksOf defaultChunkSize bytes).map fun chunk ↦
          (Primitives.hashLeaf engine.blake2256 chunk, chunk) := by
    rw [List.zip, List.zipWith_map_left, List.zipWith_self]
    rfl
  have hevery : ∀ chunk ∈ chunksOf defaultChunkSize bytes,
      Primitives.hashLeaf engine.blake2256 chunk ∈
        (once (·.1) [] ((chunksOf defaultChunkSize bytes).map fun chunk ↦
          (Primitives.hashLeaf engine.blake2256 chunk, chunk))).2 := by
    intro chunk hchunk
    have hitem := List.mem_map_of_mem (f := fun chunk ↦
      (Primitives.hashLeaf engine.blake2256 chunk, chunk)) hchunk
    exact @mem_sent_once _ (·.1) [] _ _ hitem
  obtain ⟨hkept, hnodup, hall⟩ := once_spec (·.1) [] ((chunksOf defaultChunkSize bytes).map
    fun chunk ↦ (Primitives.hashLeaf engine.blake2256 chunk, chunk))
  rw [uploadBlob, if_neg hlength]
  dsimp only
  rw [hchunks, Packages.merkleTree_eq, hzip]
  refine ⟨_, rfl, rfl, rfl, ?_⟩
  dsimp only
  refine uploadStages_of_levels ?_ hnodup ?_ hevery ?_
  · intro leaf hleaf
    obtain ⟨chunk, hchunk, rfl⟩ := List.mem_map.mp (hkept leaf hleaf).1
    exact ⟨hchunk, rfl⟩
  · intro hash
    rw [hall hash]
    simp
  · apply levelStages_spec
    · rfl
    · intro hash hmem
      obtain ⟨chunk, hchunk, rfl⟩ := List.mem_map.mp hmem
      exact hevery chunk hchunk

/-! ### The requests of the crate -/

theorem ready_chunks (known : List H256) (chunks : List Bytes) :
    Ready known (chunks.map fun chunk ↦ [nodeRequest blake2256 (.chunk chunk)]) := by
  induction chunks generalizing known with
  | nil => trivial
  | cons chunk rest ih =>
    refine ⟨?_, ih _⟩
    intro entry hentry child hchild
    rw [List.mem_singleton.mp hentry] at hchild
    cases hchild

/-- Nodes that come after their children are requested in an order that the provider accepts. -/
theorem ready_nodes {known : List H256} {nodes : List MerkleNode}
    (h : ChildrenFirst blake2256 known nodes) :
    Ready known (nodes.map fun node ↦ [nodeRequest blake2256 (.internal node.left node.right)]) := by
  induction nodes generalizing known with
  | nil => trivial
  | cons node rest ih =>
    obtain ⟨⟨hhash, hleft, hright⟩, hrest⟩ := h
    rw [hhash] at hrest
    refine ⟨?_, ih hrest⟩
    intro entry hentry child hchild
    rw [List.mem_singleton.mp hentry] at hchild
    rcases List.mem_cons.mp hchild with rfl | hother
    · exact hleft
    · rw [List.mem_singleton.mp hother]
      exact hright

theorem flatten_singletons {α : Type} (items : List α) : (items.map ([·])).flatten = items := by
  induction items with
  | nil => rfl
  | cons item rest ih => rw [List.map_cons, List.flatten_cons, ih, List.singleton_append]

/-- The requests of the crate upload the tree over the data that is uploaded. -/
theorem upload_spec (engine : Engine) {client : UploadClient} (hurls : client.providerUrls ≠ [])
    {data bytes : Bytes} (hdata : client.uploadData data = .ok bytes) (hbytes : bytes ≠ []) :
    ∃ requests, client.upload engine.blake2256 data .default =
        .ok (requests, chunkRoot engine.blake2256 (chunksOf defaultChunkSize bytes)) ∧
      UploadStages engine bytes (requests.map ([·])) := by
  have hstrategy : checkStrategy .default = .ok () := by
    rw [ChunkingStrategy.default, checkStrategy, ensure_eq_ok]
    decide
  obtain ⟨url, hurl⟩ : ∃ url, client.providerUrls.head? = some url :=
    ⟨_, List.head?_eq_some_head hurls⟩
  have hsome : (!bytes.isEmpty) = true := by
    simpa using hbytes
  rw [UploadClient.upload, hstrategy, ok_bind, hurl, require_some, ok_bind, hdata, ok_bind, hsome,
    ensure_true, ok_bind]
  refine ⟨_, rfl, ?_⟩
  have hnodes := @childrenFirst_nodesOver engine.blake2256 _ _ (List.Subset.refl
    ((chunksOf defaultChunkSize bytes).map (Primitives.hashLeaf engine.blake2256)))
  constructor
  · rw [List.map_append, List.map_map, List.map_map]
    refine ready_append.mpr ⟨ready_chunks _ _, ?_⟩
    apply (ready_nodes hnodes).mono
    intro hash hmem
    obtain ⟨chunk, hchunk, rfl⟩ := List.mem_map.mp hmem
    refine List.mem_map.mpr ⟨nodeRequest engine.blake2256 (.chunk chunk), ?_, rfl⟩
    exact List.mem_flatten.mpr ⟨_, List.mem_map_of_mem hchunk, List.mem_cons_self⟩
  · intro entry hentry
    rw [flatten_singletons, List.mem_append] at hentry
    rcases hentry with hleaf | hinner
    · obtain ⟨chunk, -, rfl⟩ := List.mem_map.mp hleaf
      rfl
    · obtain ⟨node, -, rfl⟩ := List.mem_map.mp hinner
      rfl
  · intro entry hentry
    rw [flatten_singletons, List.mem_append] at hentry
    rw [mem_blobNodes]
    rcases hentry with hleaf | hinner
    · obtain ⟨chunk, hchunk, rfl⟩ := List.mem_map.mp hleaf
      exact .inl ⟨chunk, hchunk, rfl⟩
    · obtain ⟨node, hnode, rfl⟩ := List.mem_map.mp hinner
      exact .inr ⟨node, hnode, rfl⟩
  · intro node hnode
    rw [flatten_singletons, List.map_append, List.map_map, List.map_map, List.mem_append]
    rcases mem_blobNodes.mp hnode with ⟨chunk, hchunk, rfl⟩ | ⟨inner, hinner, rfl⟩
    · exact .inl (List.mem_map.mpr ⟨chunk, hchunk, rfl⟩)
    · exact .inr (List.mem_map.mpr ⟨inner, hinner, rfl⟩)

end Levels

/-! ### Both uploads -/

/-- Both uploads of some data can be committed, on every store that is reached. The package sends each
hash of the tree once, and in every order in which the requests of a stage arrive no node comes before
its children; so it is with the requests of the crate, one after the other. While the quota lasts no
request is refused, and a commit of the root takes the data with its size, up to the bound of a commit.
Assumes: a standard library, and a mountain range with room for a leaf. -/
theorem uploads_committable (engine : Engine) (hmmr : engine.mmr.IsStandard)
    (inputs : List StoreInput) (bucketId : ℕ) (bytes : Bytes) (hbytes : bytes ≠ [])
    (hleaves : ((run (storeStep engine) Store.empty inputs).bucketAt bucketId).leaves.length <
      maxLeaves) :
    (∃ upload, uploadBlob engine.blake2256 bytes = .ok upload ∧
      upload.dataRoot = chunkRoot engine.blake2256 (chunksOf defaultChunkSize bytes) ∧
      upload.size = bytes.length ∧ (upload.stages.flatten.map (·.1)).Nodup ∧
      (∀ node ∈ blobNodes engine.blake2256 (chunksOf defaultChunkSize bytes),
        node.hash engine.blake2256 ∈ upload.stages.flatten.map (·.1)) ∧
      ∀ orders, List.Forall₂ List.Perm orders upload.stages →
        ((run (storeStep engine) Store.empty inputs).bucketAt bucketId).LastsFor orders.flatten →
          Committable engine bucketId (run (storeStep engine) Store.empty inputs) bytes orders) ∧
    ∀ (client : UploadClient) (data : Bytes), client.providerUrls ≠ [] →
      client.uploadData data = .ok bytes →
        ∃ requests, client.upload engine.blake2256 data .default =
            .ok (requests, chunkRoot engine.blake2256 (chunksOf defaultChunkSize bytes)) ∧
          (((run (storeStep engine) Store.empty inputs).bucketAt bucketId).LastsFor requests →
            Committable engine bucketId (run (storeStep engine) Store.empty inputs) bytes
              (requests.map ([·]))) := by
  have hhashed : NodesHashed engine (run (storeStep engine) Store.empty inputs) :=
    nodesHashed_run nodesHashed_empty inputs
  constructor
  · obtain ⟨upload, hupload, hroot, hsize, hstages, hnodup⟩ := uploadBlob_spec engine hbytes
    refine ⟨upload, hupload, hroot, hsize, hnodup, hstages.complete, fun orders hperm hlasts ↦ ?_⟩
    exact committable_of_stages hmmr hhashed hbytes hstages hperm hlasts hleaves
  · intro client data hurls hdata
    obtain ⟨requests, hrequests, hstages⟩ := upload_spec engine hurls hdata hbytes
    refine ⟨requests, hrequests, fun hlasts ↦ ?_⟩
    have hperm : List.Forall₂ List.Perm (requests.map ([·])) (requests.map ([·])) :=
      List.forall₂_same.mpr fun stage _ ↦ List.Perm.refl stage
    rw [← flatten_singletons requests] at hlasts
    exact committable_of_stages hmmr hhashed hbytes hstages hperm hlasts hleaves

/-- A client with one provider and no cipher. -/
def plainUploadClient : UploadClient := ⟨["http://localhost:3000"], none⟩

/-- The nodes of a blob of one byte have different hashes. -/
private theorem noCollision_byte (byte : UInt8) :
    NoCollision blakeEngine Store.empty (chunksOf defaultChunkSize [byte]) := by
  have hpos : 0 < defaultChunkSize := by decide
  have hchunks : chunksOf defaultChunkSize [byte] = [[byte]] :=
    chunksOf_of_length_le hpos (List.cons_ne_nil _ _) hpos
  have hnodes : blobNodes blakeEngine.blake2256 [[byte]] = [.chunk [byte]] := by
    rw [blobNodes, List.map_singleton, List.map_singleton]
    change _ ++ (nodesOver blakeEngine.blake2256 _).map _ = _
    rw [nodesOver_singleton]
    rfl
  rw [NoCollision, hchunks, hnodes]
  rintro first (⟨hash, hfirst⟩ | hfirst) second (⟨hash, hsecond⟩ | hsecond) _
  · cases hfirst
  · cases hfirst
  · cases hsecond
  · rw [List.mem_singleton.mp hfirst, List.mem_singleton.mp hsecond]

/-- A full chunk and a byte. -/
def twoChunks : List Bytes := [List.replicate defaultChunkSize 0, [7]]

private theorem chunksOf_twoChunks : chunksOf defaultChunkSize twoChunks.flatten = twoChunks := by
  refine chunksOf_flatten (by decide) (fun chunk hchunk ↦ ?_) (fun last hlast ↦ ?_)
  · rw [List.mem_singleton.mp hchunk, List.length_replicate]
  · obtain rfl : [7] = last := Option.some.inj hlast
    exact ⟨List.cons_ne_nil _ _, by rw [List.length_singleton]; decide⟩

/-- The tree over two chunks has an inner node. -/
private theorem mem_blobNodes_twoChunks :
    .internal (hashLeaf blakeEngine.blake2256 (List.replicate defaultChunkSize 0))
        (hashLeaf blakeEngine.blake2256 [7]) ∈
      blobNodes blakeEngine.blake2256 (chunksOf defaultChunkSize twoChunks.flatten) := by
  have hpair (left right : H256) :
      ⟨hashChildren blakeEngine.blake2256 left right, left, right⟩ ∈
        nodesOver blakeEngine.blake2256 [left, right] := by
    rw [nodesOver_nextLevel]
    exact List.mem_append_left _ (List.mem_cons_self ..)
  rw [chunksOf_twoChunks, mem_blobNodes, twoChunks, List.map_cons, List.map_singleton]
  exact .inr ⟨_, hpair _ _, rfl⟩

/-- A blob of one byte is uploaded to an empty store and committed, by the package and by the crate.
Of a blob of two chunks both send the node over them too, after the chunks. -/
theorem uploads_committable_byte :
    (∃ upload, uploadBlob blakeEngine.blake2256 [7] = .ok upload ∧
      (upload.stages.flatten.map (·.1)).Nodup ∧
      CommitsAs blakeEngine 1 (sendNodes blakeEngine 1 upload.stages.flatten Store.empty).2
        upload.dataRoot 1) ∧
    (∃ requests dataRoot, plainUploadClient.upload blakeEngine.blake2256 [7] .default =
        .ok (requests, dataRoot) ∧
      CommitsAs blakeEngine 1
        (sendNodes blakeEngine 1 (requests.map ([·])).flatten Store.empty).2 dataRoot 1) ∧
    (∃ upload, uploadBlob blakeEngine.blake2256 twoChunks.flatten = .ok upload ∧
      ChunkTreeNode.hash blakeEngine.blake2256
          (.internal (hashLeaf blakeEngine.blake2256 (List.replicate defaultChunkSize 0))
            (hashLeaf blakeEngine.blake2256 [7])) ∈ upload.stages.flatten.map (·.1) ∧
      Committable blakeEngine 1 Store.empty twoChunks.flatten upload.stages) ∧
    ∃ requests dataRoot, plainUploadClient.upload blakeEngine.blake2256 twoChunks.flatten .default =
        .ok (requests, dataRoot) ∧
      Committable blakeEngine 1 Store.empty twoChunks.flatten (requests.map ([·])) := by
  have hlasts (entries : List (H256 × ChunkTreeNode)) :
      (Store.empty.bucketAt 1).LastsFor entries := BucketState.lastsFor_of_max rfl _
  have hsame (stages : List (List (H256 × ChunkTreeNode))) :
      List.Forall₂ List.Perm stages stages := List.forall₂_same.mpr fun stage _ ↦ List.Perm.refl stage
  have hurls : plainUploadClient.providerUrls ≠ [] := List.cons_ne_nil _ _
  obtain ⟨⟨upload, hupload, hroot, -, hnodup, -, horders⟩, hcrate⟩ := uploads_committable blakeEngine
    standardMmr_isStandard [] 1 [7] (List.cons_ne_nil _ _) (by decide)
  obtain ⟨requests, hrequests, hcommittable⟩ := hcrate plainUploadClient [7] hurls rfl
  have hlong : twoChunks.flatten ≠ [] := by
    rw [twoChunks, List.flatten_cons]
    exact List.append_ne_nil_of_right_ne_nil _ (List.cons_ne_nil _ _)
  obtain ⟨⟨long, hlongUpload, -, -, -, hcomplete, hlongOrders⟩, hlongCrate⟩ := uploads_committable
    blakeEngine standardMmr_isStandard [] 1 twoChunks.flatten hlong (by decide)
  obtain ⟨longRequests, hlongRequests, hlongCommittable⟩ :=
    hlongCrate plainUploadClient twoChunks.flatten hurls rfl
  refine ⟨⟨upload, hupload, hnodup, ?_⟩, ⟨requests, _, hrequests, ?_⟩,
    ⟨long, hlongUpload, hcomplete _ mem_blobNodes_twoChunks, hlongOrders _ (hsame _) (hlasts _)⟩,
    ⟨longRequests, _, hlongRequests, hlongCommittable (hlasts _)⟩⟩
  · rw [hroot]
    exact (horders upload.stages (hsame _) (hlasts _)).commits (noCollision_byte 7) (by decide)
  · exact (hcommittable (hlasts _)).commits (noCollision_byte 7) (by decide)

/-- A byte more than a commit takes. -/
def largeBlob : Bytes := List.replicate (maxCommittedBytes + 1) 0

/-- Not every upload can be committed: a larger one is sent, and refused by the commit. -/
theorem large_upload_refused :
    ¬ ∀ data requests dataRoot, data ≠ [] →
      plainUploadClient.upload blakeEngine.blake2256 data .default = .ok (requests, dataRoot) →
        (Store.empty.bucketAt 1).LastsFor requests →
          CommitsAs blakeEngine 1 (sendNodes blakeEngine 1 requests Store.empty).2 dataRoot
            data.length := by
  intro h
  have hlength : largeBlob.length = maxCommittedBytes + 1 := List.length_replicate
  have hne : largeBlob ≠ [] := by
    rw [← List.length_pos_iff, hlength]
    exact Nat.succ_pos _
  obtain ⟨requests, hrequests, -⟩ := @upload_spec blakeEngine plainUploadClient (List.cons_ne_nil _ _)
    largeBlob largeBlob rfl hne
  have hlasts : (Store.empty.bucketAt 1).LastsFor requests := BucketState.lastsFor_of_max rfl _
  have hle := le_maxCommittedBytes_of_commitsAs (h largeBlob requests _ hne hrequests hlasts)
  omega

end Web3Storage.Client
