import Web3Storage.Packages.CoreNodes

/-!
# Blob reads over the provider's HTTP API

`readBlob` reads a blob by its identifier in one of two ways: with a known size, the chunks with their
proofs from `GET /read`, and without one, the nodes of the tree from `GET /node`. The provider may
answer each request with anything. The rules say what a read that resolves has checked: the sized read,
every chunk against its proof (`readBlobWithProofs_spec`); the walk, every node against its hash and the
chunks against the root (`walkBlob_spec`).

Retries and the number of requests at a time are left out: an answer is the one after the last attempt.
The walk asks for the children of a node at the same time and counts the bytes as they arrive; the model
counts them from left to right. Which error comes first depends on the order, but whether the walk
resolves does not: it does when all requests succeed and the sum is within the limit.
-/

set_option autoImplicit false
set_option relaxedAutoImplicit false

namespace Web3Storage.Packages

open Foundations
open Primitives (Bytes H256 chunkRoot)

/-- The most chunks in one request. -/
def readWindowChunks : ℕ := 16

/-! ### Requests and answers -/

/-- A chunk of an answer to `GET /read`. -/
structure ReadChunk where
  data : Text
  proof : List Text

/-- A child of an inner node. -/
inductive Side where
  | left
  | right

/-- What the provider answers during a read. None is a request that throws, or a body without what is
read of it. A node is named by the way to it from the root, a window of chunks by its start. -/
structure Provider where
  node : List Side → Option NodeBody
  read : ℕ → Option (List ReadChunk)

structure ReadBlobOpts where
  size : Option ℤ
  maxSize : Option ℤ

inductive ReadError where
  /-- A request or the decoding of its answer threw. -/
  | request
  /-- The fuel ran out: the walk goes on. -/
  | unfinished
  | sizeOverLimit (size maxSize : ℤ)
  | chunkLength (index length : ℕ)
  | windowCount (got count start : ℕ)
  | proofMismatch (index : ℕ)
  | totalMismatch (expected actual : ℤ)
  | treeTooDeep (maxSize : Option ℤ)
  | nodeMismatch (hash : Bytes)
  | overLimit (maxSize : Option ℤ)
  | rootMismatch

/-! ### Reading with proofs -/

variable (blake2b256 : Bytes → H256) (atob : Text → Option Text)

/-- The chunks of an answer, each checked against its proof. -/
def checkChunks (root : H256) (total : ℤ) : ℕ → List ReadChunk → Except ReadError (List Bytes)
  | _, [] => return []
  | index, chunk :: rest => do
    let data ← require (base64ToBytes atob chunk.data) .request
    let siblings := chunk.proof.map hexToBytes
    ensure (verifyChunkProofBytes blake2b256 (hashLeaf blake2b256 data) index siblings root total)
      (.proofMismatch index)
    let out ← checkChunks root total (index + 1) rest
    return data :: out

/-- The windows from a start on. -/
def readWindows (provider : Provider) (root : H256) (total : ℤ) (start : ℕ) :
    Except ReadError (List Bytes) :=
  if start < total then do
    let count := min readWindowChunks (total - start).toNat
    let got ← require (provider.read start) .request
    ensure (got.length = count) (.windowCount got.length count start)
    let window ← checkChunks blake2b256 atob root total start got
    let out ← readWindows provider root total (start + readWindowChunks)
    return window ++ out
  else return []
termination_by (total - start).toNat
decreasing_by
  have hpos : 0 < readWindowChunks := by decide
  omega

def readBlobWithProofs (provider : Provider) (root : H256) (size : ℤ) :
    Except ReadError (List Bytes) := do
  let total := chunkCount size defaultChunkSize
  let out ← readWindows blake2b256 atob provider root total 0
  let actual : ℤ := (out.map List.length).sum
  ensure (actual = size) (.totalMismatch size actual)
  return out

/-! ### Walking the tree -/

/-- The depth of a tree over some chunks, from a depth that is not enough. -/
def treeDepth (maxChunks : ℤ) (depth : ℕ) : ℕ :=
  if (2 : ℤ) ^ depth < maxChunks then treeDepth maxChunks (depth + 1) else depth
termination_by maxChunks.toNat - depth
decreasing_by
  rename_i h
  have hlt : depth < 2 ^ depth := Nat.lt_two_pow_self
  zify at hlt
  omega

/-- The chunks under a node, and the bytes of all chunks so far. -/
def walk (provider : Provider) (maxSize : Option ℤ) (maxDepth : Option ℕ) :
    ℕ → Bytes → List Side → ℤ → Except ReadError (List Bytes × ℤ)
  | 0, _, _, _ => .error .unfinished
  | fuel + 1, hash, path, received => do
    ensure (maxDepth.all (path.length ≤ ·)) (.treeTooDeep maxSize)
    let body ← require (provider.node path) .request
    let node? ← require (parseNode atob body) .request
    let node ← require node? (.nodeMismatch hash)
    ensure ((nodeHash blake2b256 node).bytes = hash) (.nodeMismatch hash)
    match node with
    | .data data =>
      let received := received + data.length
      ensure (maxSize.all (received ≤ ·)) (.overLimit maxSize)
      return ([data], received)
    | .children left right =>
      let before ← walk provider maxSize maxDepth fuel left (path ++ [.left]) received
      let after ← walk provider maxSize maxDepth fuel right (path ++ [.right]) before.2
      return (before.1 ++ after.1, after.2)

def walkBlob (fuel : ℕ) (provider : Provider) (root : H256) (maxSize : Option ℤ) :
    Except ReadError (List Bytes) := do
  let maxDepth := maxSize.map fun maxSize ↦ treeDepth (chunkCount maxSize defaultChunkSize) 0
  let walked ← walk blake2b256 atob provider maxSize maxDepth fuel root.bytes [] 0
  ensure (merkleRoot blake2b256 (walked.1.map (hashLeaf blake2b256)) = root) .rootMismatch
  return walked.1

/-! ### Reading a blob -/

/-- Every chunk but the last is full, and the last is not too long. -/
def checkLengths : ℕ → List Bytes → Except ReadError Unit
  | _, [] => return ()
  | index, [last] => ensure (last.length ≤ defaultChunkSize) (.chunkLength index last.length)
  | index, chunk :: rest => do
    ensure (chunk.length = defaultChunkSize) (.chunkLength index chunk.length)
    checkLengths (index + 1) rest

/-- A size that is known is within the limit. -/
def checkLimit (opts : ReadBlobOpts) : Except ReadError Unit :=
  match opts.maxSize, opts.size with
  | some maxSize, some size => ensure (size ≤ maxSize) (.sizeOverLimit size maxSize)
  | _, _ => return ()

/-- The chunks in the way that the options choose. -/
def readChunks (fuel : ℕ) (provider : Provider) (root : H256) (opts : ReadBlobOpts) :
    Except ReadError (List Bytes) :=
  match opts.size with
  | none => walkBlob blake2b256 atob fuel provider root opts.maxSize
  | some size => readBlobWithProofs blake2b256 atob provider root size

def readBlob (fuel : ℕ) (provider : Provider) (root : H256) (opts : ReadBlobOpts) :
    Except ReadError Bytes := do
  checkLimit opts
  let chunks ← readChunks blake2b256 atob fuel provider root opts
  checkLengths 0 chunks
  return chunks.flatten

/-! ### What a sized read has checked -/

/-- The chunks of all answers to `GET /read` from a window on. -/
def served (provider : Provider) (total : ℤ) (start : ℕ) : List ReadChunk :=
  if start < total then
    (provider.read start).getD [] ++ served provider total (start + readWindowChunks)
  else []
termination_by (total - start).toNat
decreasing_by
  have hpos : 0 < readWindowChunks := by decide
  omega

variable {blake2b256 atob} {provider : Provider} {root : H256}

/-- A list of chunks is checked part by part. -/
theorem checkChunks_append {total : ℤ} {index : ℕ} {first second : List ReadChunk}
    {out out' : List Bytes}
    (h : checkChunks blake2b256 atob root total index first = .ok out)
    (h' : checkChunks blake2b256 atob root total (index + first.length) second = .ok out') :
    checkChunks blake2b256 atob root total index (first ++ second) = .ok (out ++ out') := by
  induction first generalizing index out with
  | nil =>
    cases h
    exact h'
  | cons chunk rest ih =>
    simp only [checkChunks, bind_eq_ok, require_eq_ok, ensure_eq_ok, pure_eq_ok] at h
    obtain ⟨data, hdata, _, haccepted, after, hafter, rfl⟩ := h
    have hsum : index + (chunk :: rest).length = index + 1 + rest.length := by
      rw [List.length_cons]
      omega
    rw [hsum] at h'
    rw [List.cons_append, checkChunks, hdata, require_some, ok_bind]
    dsimp only
    rw [haccepted, ensure_true, ok_bind, ih hafter h']
    rfl

/-- The windows together are one list of as many chunks as there should be. -/
theorem readWindows_spec {total : ℤ} {start : ℕ} {out : List Bytes}
    (h : readWindows blake2b256 atob provider root total start = .ok out) :
    (served provider total start).length = (total - start).toNat ∧
      checkChunks blake2b256 atob root total start (served provider total start) = .ok out := by
  induction start using served.induct total generalizing out with
  | case1 start hlt ih =>
    rw [readWindows, if_pos hlt] at h
    simp only [bind_eq_ok, require_eq_ok, ensure_eq_ok, pure_eq_ok, decide_eq_true_eq] at h
    obtain ⟨got, hgot, _, hcount, window, hwindow, rest, hrest, rfl⟩ := h
    obtain ⟨hlength, hchecked⟩ := ih hrest
    rw [served, if_pos hlt, hgot, Option.getD_some, List.length_append, hlength, hcount]
    refine ⟨by omega, ?_⟩
    by_cases hmore : start + readWindowChunks < total
    · refine checkChunks_append hwindow ?_
      have hfull : start + got.length = start + readWindowChunks := by omega
      rw [hfull]
      exact hchecked
    · have hnone : served provider total (start + readWindowChunks) = [] := by
        rw [served, if_neg]
        push_cast
        exact hmore
      rw [hnone, checkChunks] at hchecked
      cases hchecked
      rw [hnone, List.append_nil, List.append_nil]
      exact hwindow
  | case2 start hge =>
    rw [readWindows, if_neg hge] at h
    cases h
    rw [served, if_neg hge]
    refine ⟨?_, rfl⟩
    rw [List.length_nil]
    omega

/-- Every chunk is the decoded data of an answer, and its proof is accepted for its place. -/
theorem checkChunks_spec {total : ℤ} {index : ℕ} {chunks : List ReadChunk} {out : List Bytes}
    (h : checkChunks blake2b256 atob root total index chunks = .ok out) :
    out.length = chunks.length ∧
      ∀ (k : ℕ) (chunk : ReadChunk), chunks[k]? = some chunk →
        ∃ data, out[k]? = some data ∧ base64ToBytes atob chunk.data = some data ∧
          verifyChunkProofBytes blake2b256 (hashLeaf blake2b256 data) (index + k : ℕ)
            (chunk.proof.map hexToBytes) root total = true := by
  induction chunks generalizing index out with
  | nil =>
    cases h
    refine ⟨rfl, ?_⟩
    intro k chunk hchunk
    cases hchunk
  | cons first rest ih =>
    simp only [checkChunks, bind_eq_ok, require_eq_ok, ensure_eq_ok, pure_eq_ok] at h
    obtain ⟨data, hdata, _, haccepted, after, hafter, rfl⟩ := h
    obtain ⟨hlength, hrest⟩ := ih hafter
    refine ⟨by rw [List.length_cons, List.length_cons, hlength], ?_⟩
    intro k chunk hchunk
    cases k with
    | zero =>
      cases hchunk
      exact ⟨data, rfl, hdata, haccepted⟩
    | succ k =>
      obtain ⟨data', hget, hdata', haccepted'⟩ := hrest k chunk hchunk
      refine ⟨data', hget, hdata', ?_⟩
      have hsum : index + (k + 1) = index + 1 + k := by omega
      rw [hsum]
      exact haccepted'

/-- A sized read has as many chunks as the size needs, and the bytes of the size. -/
theorem readBlobWithProofs_spec {size : ℤ} {out : List Bytes}
    (h : readBlobWithProofs blake2b256 atob provider root size = .ok out) :
    ((out.map List.length).sum : ℤ) = size ∧
      out.length = (chunkCount size defaultChunkSize).toNat ∧
        checkChunks blake2b256 atob root (chunkCount size defaultChunkSize) 0
          (served provider (chunkCount size defaultChunkSize) 0) = .ok out := by
  simp only [readBlobWithProofs, bind_eq_ok, ensure_eq_ok, pure_eq_ok, decide_eq_true_eq] at h
  obtain ⟨out', hread, _, htotal, rfl⟩ := h
  obtain ⟨hlength, hchecked⟩ := readWindows_spec hread
  refine ⟨htotal, ?_, hchecked⟩
  rw [(checkChunks_spec hchecked).1, hlength]
  rw [Nat.cast_zero, sub_zero]

/-! ### What a walk has checked -/

variable (atob) in
/-- The chunk at the right end of the tree that the provider serves below a node. -/
inductive EndsWith (provider : Provider) : List Side → Bytes → Prop where
  | data (path : List Side) (body : NodeBody) (chunk : Bytes) (hbody : provider.node path = some body)
      (hnode : parseNode atob body = some (some (.data chunk))) : EndsWith provider path chunk
  | children (path : List Side) (body : NodeBody) (left right chunk : Bytes)
      (hbody : provider.node path = some body)
      (hnode : parseNode atob body = some (some (.children left right)))
      (hright : EndsWith provider (path ++ [.right]) chunk) : EndsWith provider path chunk

/-- A tree has one right end. -/
theorem EndsWith.unique {path : List Side} {chunk chunk' : Bytes}
    (h : EndsWith atob provider path chunk) (h' : EndsWith atob provider path chunk') :
    chunk = chunk' := by
  induction h with
  | data path body chunk hbody hnode =>
    cases h' with
    | data _ body' _ hbody' hnode' =>
      rw [hbody] at hbody'
      cases hbody'
      rw [hnode] at hnode'
      cases hnode'
      rfl
    | children _ body' _ _ _ hbody' hnode' =>
      rw [hbody] at hbody'
      cases hbody'
      rw [hnode] at hnode'
      cases hnode'
  | children path body left right chunk hbody hnode _ ih =>
    cases h' with
    | data _ body' _ hbody' hnode' =>
      rw [hbody] at hbody'
      cases hbody'
      rw [hnode] at hnode'
      cases hnode'
    | children _ _ _ _ _ _ _ hright' => exact ih hright'

/-- The walk below a node: the chunks end with the right end of the tree, their bytes are counted, and
the count is within the limit. -/
theorem walk_spec {maxSize : Option ℤ} {maxDepth : Option ℕ} {fuel : ℕ} {hash : Bytes}
    {path : List Side} {received : ℤ} {walked : List Bytes × ℤ}
    (h : walk blake2b256 atob provider maxSize maxDepth fuel hash path received = .ok walked) :
    walked.2 = received + (walked.1.map List.length).sum ∧
      (∀ limit ∈ maxSize, walked.2 ≤ limit) ∧
        ∃ last, walked.1.getLast? = some last ∧ EndsWith atob provider path last := by
  induction fuel generalizing hash path received walked with
  | zero => cases h
  | succ fuel ih =>
    simp only [walk, bind_eq_ok, ensure_eq_ok, require_eq_ok] at h
    obtain ⟨_, _, body, hbody, node?, hparse, node, hnode, _, _, h⟩ := h
    subst hnode
    cases node with
    | data chunk =>
      simp only [bind_eq_ok, ensure_eq_ok, pure_eq_ok] at h
      obtain ⟨_, hlimit, rfl⟩ := h
      refine ⟨?_, ?_, chunk, rfl, .data path body chunk hbody hparse⟩
      · simp
      · intro limit hmem
        rw [Option.mem_def] at hmem
        rw [hmem] at hlimit
        simpa using hlimit
    | children left right =>
      simp only [bind_eq_ok, pure_eq_ok] at h
      obtain ⟨before, hbefore, after, hafter, rfl⟩ := h
      obtain ⟨hcount, -, -⟩ := ih hbefore
      obtain ⟨hcount', hlimit, last, hlast, hends⟩ := ih hafter
      refine ⟨?_, hlimit, last, ?_, .children path body left right last hbody hparse hends⟩
      · rw [hcount', hcount, List.map_append, List.sum_append]
        push_cast
        ring
      · rw [List.getLast?_append, hlast]
        rfl

/-- A walk rebuilds the root from the chunks. -/
theorem walkBlob_spec {maxSize : Option ℤ} {fuel : ℕ} {chunks : List Bytes}
    (h : walkBlob blake2b256 atob fuel provider root maxSize = .ok chunks) :
    chunkRoot blake2b256 chunks = root ∧
      (∀ limit ∈ maxSize, ((chunks.map List.length).sum : ℤ) ≤ limit) ∧
        ∃ last, chunks.getLast? = some last ∧ EndsWith atob provider [] last := by
  simp only [walkBlob, bind_eq_ok, ensure_eq_ok, pure_eq_ok, decide_eq_true_eq] at h
  obtain ⟨walked, hwalk, _, hroot, rfl⟩ := h
  obtain ⟨hcount, hlimit, hends⟩ := walk_spec hwalk
  rw [merkleRoot_chunks] at hroot
  rw [zero_add] at hcount
  rw [hcount] at hlimit
  exact ⟨hroot, hlimit, hends⟩

/-! ### What every read has checked -/

theorem checkLengths_spec {index : ℕ} {chunks : List Bytes} (h : checkLengths index chunks = .ok ()) :
    (∀ chunk ∈ chunks.dropLast, chunk.length = defaultChunkSize) ∧
      ∀ last, chunks.getLast? = some last → last.length ≤ defaultChunkSize := by
  induction chunks generalizing index with
  | nil => simp
  | cons first rest ih =>
    cases rest with
    | nil =>
      rw [checkLengths, ensure_eq_ok] at h
      simpa using h
    | cons second rest =>
      simp only [checkLengths, bind_eq_ok, ensure_eq_ok, decide_eq_true_eq] at h
      obtain ⟨_, hfirst, hrest⟩ := h
      obtain ⟨hfull, hlast⟩ := ih hrest
      constructor
      · intro chunk hchunk
        rw [List.dropLast_cons_cons] at hchunk
        rcases List.mem_cons.mp hchunk with rfl | hmem
        · exact hfirst
        · exact hfull chunk hmem
      · intro last hget
        rw [List.getLast?_cons_cons] at hget
        exact hlast last hget

/-- The bytes of a read are chunks of the right lengths, read in one of the two ways. -/
theorem readBlob_spec {fuel : ℕ} {opts : ReadBlobOpts} {bytes : Bytes}
    (h : readBlob blake2b256 atob fuel provider root opts = .ok bytes) :
    ∃ chunks : List Bytes, bytes = chunks.flatten ∧
      (∀ chunk ∈ chunks.dropLast, chunk.length = defaultChunkSize) ∧
        (∀ last, chunks.getLast? = some last → last.length ≤ defaultChunkSize) ∧
          checkLimit opts = .ok () ∧
            readChunks blake2b256 atob fuel provider root opts = .ok chunks := by
  simp only [readBlob, bind_eq_ok, pure_eq_ok] at h
  obtain ⟨_, hlimit, chunks, hread, _, hlengths, rfl⟩ := h
  obtain ⟨hfull, hlast⟩ := checkLengths_spec hlengths
  exact ⟨chunks, rfl, hfull, hlast, hlimit, hread⟩

end Web3Storage.Packages
