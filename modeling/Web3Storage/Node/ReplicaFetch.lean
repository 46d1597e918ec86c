import Web3Storage.Node.NodeUploads

/-!
# Fetching a subtree from another provider

A replica fetches the tree under a hash from a source it does not trust. The source, the storage
engine's failures and the calls of other tasks on the store while an answer is awaited are a
`SyncWorld`, an arbitrary machine. `fetchSubtree` checks each answer against the hash it asked for
before it follows the children, and stores a node after its children. The tree may be of any depth, so
the function takes the depth it may go to; with more depth a finished fetch is the same
(`fetchSubtree_of_le`).

A fetch only makes calls of the store, and each node it stores hashes to the hash that was asked for
(`progress_fetchSubtree`). The store therefore stays closed at any point where the fetch stops, and
that is why a node that is there already may be skipped: its whole tree is there. `fetch_safe` puts
this together.
-/

set_option autoImplicit false
set_option relaxedAutoImplicit false

namespace Web3Storage.Node

open Foundations Primitives

/-! ### Answers of a source -/

/-- The body of an answer: the data in base64, or the children. -/
structure NodeBody where
  data : Option String
  children : Option (List H256)

/-- The answer of a source to the request for a node: none, or a status and a body that reads or not. -/
inductive NodeReply
  | failed (reason : String)
  | answered (status : ℕ) (body : Except String NodeBody)

inductive SyncError
  | backend (error : StoreError)
  /-- The storage engine failed. -/
  | engine
  | decode (what reason : String)
  | nodeHashMismatch (expected actual : H256)
  | sourceRequest (what reason : String)
  | sourceUnavailable (what : String) (status : ℕ)
  deriving DecidableEq

/-! ### The fetch -/

/-- What a fetch meets: whether the storage engine fails at a use, and the answer of the source to a
request, with the calls that other tasks make on the store while it is awaited. -/
structure SyncWorld (σ : Type) where
  engineFails : σ → Bool × σ
  answer : σ → H256 → NodeReply × List StoreInput × σ

/-- A fetch under way, with what it requested and what it stored. -/
structure FetchState (σ : Type) where
  store : Store
  world : σ
  requested : List H256
  stored : List (H256 × ChunkTreeNode)

/-- How a fetch stops early: it returns an error, or it may not go deeper. -/
inductive FetchStop
  | unfinished
  | failed (error : SyncError)
  deriving DecidableEq

abbrev FetchResult (σ : Type) := Except FetchStop Unit × FetchState σ

section Fetch

variable (engine : Engine) (decodeBase64 : String → Except String Bytes)

/-- The data of a body, which is sent in base64. -/
def NodeBody.decodeData (body : NodeBody) : Except SyncError (Option Bytes) :=
  match body.data with
  | none => .ok none
  | some data => ((decodeBase64 data).mapError (.decode "node data")).map some

/-- Read the answer to the request for a node, which must hash to the requested hash. -/
def readNode (rootHash : H256) : NodeReply → Except SyncError ChunkTreeNode
  | .failed reason => .error (.sourceRequest "node" reason)
  | .answered status body => do
    ensure (200 ≤ status && status ≤ 299) (.sourceUnavailable "node" status)
    let body ← body.mapError (.decode "node response")
    let data ← body.decodeData decodeBase64
    let node ← (ChunkTreeNode.fromWire data body.children).mapError fun error ↦
      .decode "node" error.text
    let actual := node.hash engine.blake2256
    ensure (actual = rootHash) (.nodeHashMismatch rootHash actual)
    return node

variable {σ : Type} (world : SyncWorld σ) (bucketId : ℕ)

/-- Whether a node is found. A failing read finds nothing. -/
def holdsNode (rootHash : H256) (st : FetchState σ) : Bool × FetchState σ :=
  let turn := world.engineFails st.world
  (!turn.1 && st.store.hasNode rootHash, { st with world := turn.2 })

/-- Request a node from the source. -/
def requestNode (rootHash : H256) (st : FetchState σ) :
    Except SyncError ChunkTreeNode × FetchState σ :=
  let turn := world.answer st.world rootHash
  (readNode engine decodeBase64 rootHash turn.1,
    { st with
      store := run (storeStep engine) st.store turn.2.1
      world := turn.2.2
      requested := st.requested ++ [rootHash] })

/-- Store a node that was fetched. -/
def putNode (rootHash : H256) (node : ChunkTreeNode) (st : FetchState σ) : FetchResult σ :=
  let turn := world.engineFails st.world
  if turn.1 then (.error (.failed .engine), { st with world := turn.2 })
  else
    match storeNode engine bucketId rootHash node st.store with
    | .error error => (.error (.failed (.backend error)), { st with world := turn.2 })
    | .ok store =>
      (.ok (), { st with
        store := store
        world := turn.2
        stored := st.stored ++ [(rootHash, node)] })

/-- Fetch the children of a node one after the other. -/
def fetchAll (fetch : H256 → FetchState σ → FetchResult σ) :
    List H256 → FetchState σ → FetchResult σ
  | [], st => (.ok (), st)
  | child :: rest, st =>
    match fetch child st with
    | (.error stop, st) => (.error stop, st)
    | (.ok (), st) => fetchAll fetch rest st

/-- Fetch the tree under a hash, down to some depth. -/
def fetchSubtree : ℕ → H256 → FetchState σ → FetchResult σ
  | 0, _, st => (.error .unfinished, st)
  | depth + 1, rootHash, st =>
    match holdsNode world rootHash st with
    | (true, st) => (.ok (), st)
    | (false, st) =>
      match requestNode engine decodeBase64 world rootHash st with
      | (.error error, st) => (.error (.failed error), st)
      | (.ok node, st) =>
        match fetchAll (fetchSubtree depth) node.children st with
        | (.error stop, st) => (.error stop, st)
        | (.ok (), st) => putNode engine world bucketId rootHash node st

end Fetch

/-! ### Progress of a fetch -/

/-- A hash is that of a node in the tree under another. -/
inductive Below (s : Store) : H256 → H256 → Prop
  | refl (hash : H256) : Below s hash hash
  | child (hash child below : H256) (node : ChunkTreeNode)
      (hnode : s.nodes.lookup hash = some node) (hchild : child ∈ node.children)
      (hbelow : Below s child below) : Below s hash below

/-- The whole tree under a hash is stored, each node under its hash. -/
def HoldsWhole (engine : Engine) (s : Store) (rootHash : H256) : Prop :=
  ∀ hash, Below s rootHash hash →
    ∃ node, s.nodes.lookup hash = some node ∧ node.hash engine.blake2256 = hash

/-- The store invariant: each node is stored under its hash, after its children. -/
structure NodesSound (engine : Engine) (s : Store) : Prop where
  hashed : NodesHashed engine s
  closed : Closed s

/-- What a fetch may have done: made calls of the store, sent requests, and stored nodes that hash to
a hash it requested. -/
structure Progress (engine : Engine) {σ : Type} (st st' : FetchState σ) : Prop where
  calls : ∃ calls, st'.store = run (storeStep engine) st.store calls
  requested : st.requested <+: st'.requested
  stored : ∃ new, st'.stored = st.stored ++ new ∧
    ∀ entry ∈ new, entry.2.hash engine.blake2256 = entry.1 ∧ entry.1 ∈ st'.requested

section Laws

variable {engine : Engine} {decodeBase64 : String → Except String Bytes} {σ : Type}
  {world : SyncWorld σ} {bucketId : ℕ} {s : Store} {st st' st'' : FetchState σ} {rootHash : H256}

theorem NodesSound.run (hs : NodesSound engine s) (calls : List StoreInput) :
    NodesSound engine (run (storeStep engine) s calls) :=
  ⟨nodesHashed_run hs.hashed calls, closed_run hs.closed calls⟩

theorem hasNode_run {hash : H256} (calls : List StoreInput) (h : s.hasNode hash = true) :
    (run (storeStep engine) s calls).hasNode hash = true := by
  obtain ⟨node, hnode⟩ := hasNode_iff.mp h
  exact hasNode_iff.mpr ⟨node, lookup_run calls hnode⟩

/-- In a sound store the whole tree under a stored node is stored. -/
theorem NodesSound.holdsWhole (hs : NodesSound engine s) (h : s.hasNode rootHash = true) :
    HoldsWhole engine s rootHash := by
  intro hash hbelow
  induction hbelow with
  | refl hash =>
    obtain ⟨node, hnode⟩ := hasNode_iff.mp h
    exact ⟨node, hnode, hs.hashed hash node hnode⟩
  | child hash child below node hnode hchild _ ih => exact ih (hs.closed hash node hnode child hchild)

theorem Progress.refl (st : FetchState σ) : Progress engine st st where
  calls := ⟨[], rfl⟩
  requested := List.prefix_refl _
  stored := ⟨[], (List.append_nil _).symm, by simp⟩

theorem Progress.trans (h : Progress engine st st') (h' : Progress engine st' st'') :
    Progress engine st st'' := by
  obtain ⟨calls, hcalls⟩ := h.calls
  obtain ⟨calls', hcalls'⟩ := h'.calls
  obtain ⟨new, hnew, hgood⟩ := h.stored
  obtain ⟨new', hnew', hgood'⟩ := h'.stored
  refine ⟨⟨calls ++ calls', ?_⟩, h.requested.trans h'.requested, new ++ new', ?_, ?_⟩
  · rw [hcalls', hcalls, run_append]
  · rw [hnew', hnew, List.append_assoc]
  · intro entry hentry
    rcases List.mem_append.mp hentry with hfirst | hsecond
    · exact ⟨(hgood entry hfirst).1, h'.requested.subset (hgood entry hfirst).2⟩
    · exact hgood' entry hsecond

theorem Progress.hasNode (h : Progress engine st st') {hash : H256}
    (hstored : st.store.hasNode hash = true) : st'.store.hasNode hash = true := by
  obtain ⟨calls, hcalls⟩ := h.calls
  rw [hcalls]
  exact hasNode_run calls hstored

/-- The answer that is accepted hashes to the requested hash. -/
theorem hash_of_readNode {reply : NodeReply} {node : ChunkTreeNode}
    (h : readNode engine decodeBase64 rootHash reply = .ok node) :
    node.hash engine.blake2256 = rootHash := by
  cases reply with
  | failed reason => cases h
  | answered status body =>
    simp only [readNode, bind_eq_ok, ensure_eq_ok, pure_eq_ok, decide_eq_true_eq] at h
    obtain ⟨-, -, body, -, data, -, node, -, -, hhash, rfl⟩ := h
    exact hhash

theorem progress_holdsNode : Progress engine st (holdsNode world rootHash st).2 := by
  have h : Progress engine st st := .refl st
  exact ⟨h.calls, h.requested, h.stored⟩

theorem progress_requestNode :
    Progress engine st (requestNode engine decodeBase64 world rootHash st).2 where
  calls := ⟨_, rfl⟩
  requested := List.prefix_append _ _
  stored := ⟨[], (List.append_nil _).symm, by simp⟩

/-- Storing a node that was requested and hashes to the requested hash. -/
theorem progress_putNode {node : ChunkTreeNode} (hhash : node.hash engine.blake2256 = rootHash)
    (hrequested : rootHash ∈ st.requested) :
    Progress engine st (putNode engine world bucketId rootHash node st).2 ∧
      ((putNode engine world bucketId rootHash node st).1 = .ok () →
        (putNode engine world bucketId rootHash node st).2.store.hasNode rootHash = true) := by
  have hsame (turn : Bool × σ) : Progress engine st { st with world := turn.2 } :=
    ⟨⟨[], rfl⟩, List.prefix_refl _, [], (List.append_nil _).symm, by simp⟩
  unfold putNode
  dsimp only
  split_ifs with hfails
  · exact ⟨hsame _, by simp⟩
  · cases hstore : storeNode engine bucketId rootHash node st.store with
    | error error => exact ⟨hsame _, by simp⟩
    | ok store =>
      have hstep : storeStep engine st.store (.storeNode bucketId rootHash node) = store := by
        rw [storeStep, hstore]
      refine ⟨⟨⟨[.storeNode bucketId rootHash node], hstep.symm⟩, List.prefix_refl _,
        [(rootHash, node)], rfl, ?_⟩, fun _ ↦ ?_⟩
      · intro entry hentry
        rw [List.mem_singleton] at hentry
        rw [hentry]
        exact ⟨hhash, hrequested⟩
      · exact (@readyAgain_of_ok engine st.store store bucketId (rootHash, node) hstore).stored

/-- What each fetch of a child does, the fetch of all children does. -/
theorem progress_fetchAll {fetch : H256 → FetchState σ → FetchResult σ}
    (hfetch : ∀ child st, Progress engine st (fetch child st).2 ∧
      ((fetch child st).1 = .ok () → (fetch child st).2.store.hasNode child = true))
    (children : List H256) (st : FetchState σ) :
    Progress engine st (fetchAll fetch children st).2 ∧
      ((fetchAll fetch children st).1 = .ok () →
        ∀ child ∈ children, (fetchAll fetch children st).2.store.hasNode child = true) := by
  induction children generalizing st with
  | nil => exact ⟨.refl st, by simp⟩
  | cons child rest ih =>
    obtain ⟨hprogress, hheld⟩ := hfetch child st
    rw [fetchAll]
    rcases hresult : fetch child st with ⟨outcome, st'⟩
    rw [hresult] at hprogress hheld
    cases outcome with
    | error stop => exact ⟨hprogress, by simp⟩
    | ok done =>
      obtain ⟨hrest, hall⟩ := ih st'
      refine ⟨hprogress.trans hrest, fun hok other hother ↦ ?_⟩
      rcases List.mem_cons.mp hother with rfl | hlater
      · exact hrest.hasNode (hheld rfl)
      · exact hall hok other hlater

/-- A fetch makes progress only, and when it succeeds its node is stored. -/
theorem progress_fetchSubtree (depth : ℕ) (rootHash : H256) (st : FetchState σ) :
    Progress engine st (fetchSubtree engine decodeBase64 world bucketId depth rootHash st).2 ∧
      ((fetchSubtree engine decodeBase64 world bucketId depth rootHash st).1 = .ok () →
        (fetchSubtree engine decodeBase64 world bucketId depth rootHash st).2.store.hasNode
          rootHash = true) := by
  induction depth generalizing rootHash st with
  | zero => exact ⟨.refl st, by simp [fetchSubtree]⟩
  | succ depth ih =>
    rw [fetchSubtree]
    have hlook := @progress_holdsNode engine σ world st rootHash
    rcases hpresent : holdsNode world rootHash st with ⟨present, st₁⟩
    rw [hpresent] at hlook
    cases present with
    | true =>
      refine ⟨hlook, fun _ ↦ hlook.hasNode ?_⟩
      unfold holdsNode at hpresent
      rw [Prod.mk.injEq, Bool.and_eq_true] at hpresent
      exact hpresent.1.2
    | false =>
      dsimp only
      have hask := @progress_requestNode engine decodeBase64 σ world st₁ rootHash
      rcases hreply : requestNode engine decodeBase64 world rootHash st₁ with ⟨answer, st₂⟩
      rw [hreply] at hask
      cases answer with
      | error error => exact ⟨hlook.trans hask, by simp⟩
      | ok node =>
        have hhash : node.hash engine.blake2256 = rootHash := by
          rw [requestNode, Prod.mk.injEq] at hreply
          exact hash_of_readNode hreply.1
        have hrequested : rootHash ∈ st₂.requested := by
          rw [requestNode, Prod.mk.injEq] at hreply
          rw [← hreply.2]
          exact List.mem_append_right _ List.mem_cons_self
        obtain ⟨hchildren, -⟩ := progress_fetchAll ih node.children st₂
        dsimp only
        rcases hall : fetchAll (fetchSubtree engine decodeBase64 world bucketId depth) node.children
          st₂ with ⟨outcome, st₃⟩
        rw [hall] at hchildren
        cases outcome with
        | error stop => exact ⟨(hlook.trans hask).trans hchildren, by simp⟩
        | ok done =>
          obtain ⟨hput, hheld⟩ := @progress_putNode engine σ world bucketId st₃ rootHash node hhash
            (hchildren.requested.subset hrequested)
          exact ⟨((hlook.trans hask).trans hchildren).trans hput, hheld⟩

/-- Two ways to fetch a child that agree where the first finishes. -/
theorem fetchAll_of_agree {fetch deeper : H256 → FetchState σ → FetchResult σ}
    (hagree : ∀ child st, (fetch child st).1 ≠ .error .unfinished → deeper child st = fetch child st)
    (children : List H256) (st : FetchState σ)
    (hfinished : (fetchAll fetch children st).1 ≠ .error .unfinished) :
    fetchAll deeper children st = fetchAll fetch children st := by
  induction children generalizing st with
  | nil => rfl
  | cons child rest ih =>
    rw [fetchAll] at hfinished ⊢
    have hchild : (fetch child st).1 ≠ .error .unfinished := by
      intro hstopped
      rcases hresult : fetch child st with ⟨outcome, st'⟩
      rw [hresult] at hstopped hfinished
      dsimp only at hstopped
      subst hstopped
      exact hfinished rfl
    rw [fetchAll, hagree child st hchild]
    rcases hresult : fetch child st with ⟨outcome, st'⟩
    rw [hresult] at hfinished
    cases outcome with
    | error stop => rfl
    | ok done => exact ih st' hfinished

/-- A fetch that finishes does the same with more depth. -/
theorem fetchSubtree_of_le {depth deeper : ℕ} (hle : depth ≤ deeper) (rootHash : H256)
    (st : FetchState σ)
    (hfinished : (fetchSubtree engine decodeBase64 world bucketId depth rootHash st).1 ≠
      .error .unfinished) :
    fetchSubtree engine decodeBase64 world bucketId deeper rootHash st =
      fetchSubtree engine decodeBase64 world bucketId depth rootHash st := by
  induction depth generalizing deeper rootHash st with
  | zero => exact absurd rfl hfinished
  | succ depth ih =>
    obtain ⟨deeper, rfl⟩ := Nat.exists_eq_add_of_lt hle
    rw [fetchSubtree] at hfinished
    rw [fetchSubtree, fetchSubtree]
    rcases hpresent : holdsNode world rootHash st with ⟨present, st₁⟩
    rw [hpresent] at hfinished
    cases present with
    | true => rfl
    | false =>
      dsimp only at hfinished ⊢
      rcases hreply : requestNode engine decodeBase64 world rootHash st₁ with ⟨answer, st₂⟩
      rw [hreply] at hfinished
      cases answer with
      | error error => rfl
      | ok node =>
        dsimp only at hfinished ⊢
        have hchildren : (fetchAll (fetchSubtree engine decodeBase64 world bucketId depth)
            node.children st₂).1 ≠ .error .unfinished := by
          intro hstopped
          rcases hall : fetchAll (fetchSubtree engine decodeBase64 world bucketId depth)
            node.children st₂ with ⟨outcome, st₃⟩
          rw [hall] at hstopped hfinished
          dsimp only at hstopped
          subst hstopped
          exact hfinished rfl
        have hsame := fetchAll_of_agree
          (fun child st hchild ↦ ih (Nat.le_add_right depth deeper) child st hchild)
          node.children st₂ hchildren
        rw [hsame]

end Laws

/-! ### Safety -/

section Safety

variable {engine : Engine} {σ : Type}

/-- A fetch that starts on a store. -/
def FetchState.start (store : Store) (world : σ) : FetchState σ where
  store := store
  world := world
  requested := []
  stored := []

/-- A fetch on a sound store, from any source, with any failures and any calls of other tasks. Each
node it stores hashes to a hash it requested and is stored under it. When it succeeds, the whole tree
under the hash is in the store. However it ends, the store is sound. -/
theorem fetch_safe (decodeBase64 : String → Except String Bytes) (world : SyncWorld σ)
    (bucketId depth : ℕ) (rootHash : H256) (store : Store) (start : σ)
    (hstore : NodesSound engine store) :
    (∀ entry ∈ (fetchSubtree engine decodeBase64 world bucketId depth rootHash
        (.start store start)).2.stored,
      entry.2.hash engine.blake2256 = entry.1 ∧
        entry.1 ∈ (fetchSubtree engine decodeBase64 world bucketId depth rootHash
          (.start store start)).2.requested) ∧
    ((fetchSubtree engine decodeBase64 world bucketId depth rootHash (.start store start)).1 =
        .ok () →
      HoldsWhole engine (fetchSubtree engine decodeBase64 world bucketId depth rootHash
        (.start store start)).2.store rootHash) ∧
    NodesSound engine (fetchSubtree engine decodeBase64 world bucketId depth rootHash
      (.start store start)).2.store := by
  obtain ⟨hprogress, hheld⟩ := @progress_fetchSubtree engine decodeBase64 σ world bucketId depth
    rootHash (.start store start)
  have hsound : NodesSound engine (fetchSubtree engine decodeBase64 world bucketId depth rootHash
      (.start store start)).2.store := by
    obtain ⟨calls, hcalls⟩ := hprogress.calls
    rw [hcalls]
    exact hstore.run calls
  refine ⟨?_, ?_, hsound⟩
  · intro entry hentry
    obtain ⟨new, hnew, hgood⟩ := hprogress.stored
    rw [hnew] at hentry
    exact hgood entry hentry
  · intro hok
    exact hsound.holdsWhole (hheld hok)

end Safety

/-! ### A fetch of two chunks -/

/-- Base64 of the two bytes the source below sends. -/
def decodeBase64Byte (text : String) : Except String Bytes :=
  if text = "Bw==" then .ok [7] else if text = "CA==" then .ok [8] else .error "Invalid padding"

/-- The internal node over two chunks. -/
def chunkPair : ChunkTreeNode :=
  .internal ((byteChunk 7).hash blakeEngine.blake2256) ((byteChunk 8).hash blakeEngine.blake2256)

/-- A source that serves two chunks and the internal node over them, with no failure. -/
def pairSource : SyncWorld Unit where
  engineFails _ := (false, ())
  answer _ hash :=
    let body : NodeBody :=
      if hash = (byteChunk 7).hash blakeEngine.blake2256 then ⟨some "Bw==", none⟩
      else if hash = (byteChunk 8).hash blakeEngine.blake2256 then ⟨some "CA==", none⟩
      else ⟨none, some chunkPair.children⟩
    (.answered 200 (.ok body), [], ())

/-- A store with a bucket and no nodes. -/
def emptyBucket : Store := run (storeStep blakeEngine) Store.empty [.initBucket 1 100]

theorem nodesSound_emptyBucket : NodesSound blakeEngine emptyBucket :=
  ⟨nodesHashed_run nodesHashed_empty _, closed_run closed_empty _⟩

theorem fetch_safe_pair :
    (fetchSubtree blakeEngine decodeBase64Byte pairSource 1 2 (chunkPair.hash blakeEngine.blake2256)
        (.start emptyBucket ())).2.stored.length = 3 ∧
      HoldsWhole blakeEngine (fetchSubtree blakeEngine decodeBase64Byte pairSource 1 2
        (chunkPair.hash blakeEngine.blake2256) (.start emptyBucket ())).2.store
        (chunkPair.hash blakeEngine.blake2256) := by
  constructor
  · decide +kernel
  · have hsafe := fetch_safe decodeBase64Byte pairSource 1 2 (chunkPair.hash blakeEngine.blake2256)
      emptyBucket () nodesSound_emptyBucket
    apply hsafe.2.1
    decide +kernel

end Web3Storage.Node
