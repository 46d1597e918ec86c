import Web3Storage.Formats.Drive

/-!
# Writes that are in progress

A write of the tree is a sequence of requests to the store: the commitment of the bucket, the proof of its
last leaf, the directories along the path, an upload for each blob, and the commit. `WritePhase` is where a
write is between two of them, so that the requests of several writers can come in any order. A commit that
comes between the first two requests makes the proof one of a later range: the write asks once more for
both, and fails when that happens again. A writer on its own does what the write does: it is refused by the
checks before the first request (`changeOf_of_checks`), or makes its requests to the end (`apply_eq_finish`).
-/

set_option autoImplicit false
set_option relaxedAutoImplicit false

namespace Web3Storage.Formats

open Foundations Primitives

/-! ### What comes before the reads -/

namespace StoredTree

variable {σ : Type} (blake2256 : Bytes → H256) (tree : StoredTree σ)

/-- What a write checks before it reads anything. -/
def checks (op : FsOp) : Except TreeError Unit :=
  match op with
  | .putFile path data contentType userMetadata _ _ => do
    let names ← (parsePath path).mapError .read
    let _ ← require names.getLast? (.notAFile path)
    let _ ← (FileManifest.forContent blake2256 tree.bucketId data contentType
      userMetadata).mapError (.format path)
    return ()
  | .mkdir path _ => do
    let names ← (parsePath path).mapError .read
    let _ ← require names.getLast? (.entryExists path)
    return ()
  | .delete path _ _ => do
    let names ← (parsePath path).mapError .read
    let _ ← require names.getLast? (.read (.invalidPath path))
    return ()
  | .rename source target _ _ => do
    let sourceNames ← (parsePath source).mapError .read
    let targetNames ← (parsePath target).mapError .read
    let _ ← require sourceNames.getLast? (.read (.invalidPath [slash]))
    let _ ← require targetNames.getLast? (.read (.invalidPath [slash]))
    ensure (!sourceNames.isPrefixOf targetNames) (.read (.invalidPath target))

/-- The tree for a write that has read the last leaf: a commitment with the proof of its last leaf, or that
there is none. The requests for them are answered as they were. -/
def recorded (last : Option (Commitment × MmrProof)) : StoredTree σ :=
  { tree with
    store := { tree.store with
      commitment := fun _ _ ↦ .ok (last.map Prod.fst)
      mmrProof := fun s bucketId leafIndex ↦ match last with
        | none => tree.store.mmrProof s bucketId leafIndex
        | some (_, proof) => .ok proof } }

end StoredTree

/-! ### Requests of a write -/

/-- A write between its reads and its commit: what it uploaded, what it is still to upload, and what it
commits. -/
structure OpenWrite where
  uploaded : List Cid
  rest : List Bytes
  change : Change (Option FileStat)

/-- What a write asks the store for next. -/
inductive WritePhase where
  /-- The commitment of the bucket, the second time if the first proof was invalid. -/
  | atCommitment (op : StoredTree.FsOp) (retried : Bool)
  /-- The proof of the last leaf of a commitment. -/
  | atProof (op : StoredTree.FsOp) (retried : Bool) (commitment : Commitment)
  /-- The directories that the write reads, from the last leaf. -/
  | atDirectories (op : StoredTree.FsOp) (last : Option (Commitment × MmrProof))
  /-- An upload or the commit. -/
  | atUpload (write : OpenWrite)

section Requests

variable {σ : Type} (blake2256 : Bytes → H256) (mmr : MmrLibrary) (tree : StoredTree σ)

/-- Upload the next blob, or commit when none is left, which ends the write. -/
def OpenWrite.advance (write : OpenWrite) (s : σ) :
    (OpenWrite ⊕ Except TreeError (Cid × Option FileStat)) × σ :=
  match write.rest with
  | blob :: rest => match tree.uploadEach blake2256 write.uploaded [blob] s with
    | (.error error, s) => (.inr (.error error), s)
    | (.ok (), s) => (.inl ⟨write.uploaded.insert (computeCid blake2256 blob), rest, write.change⟩, s)
  | [] =>
    let rootCid := computeCid blake2256 write.change.root
    let cids := write.change.blobs.map (computeCid blake2256) ++ [rootCid]
    match tree.store.commit tree.bucketId (commitOrder cids) s with
    | (.error message, s) => (.inr (.error (storeError message)), s)
    | (.ok (), s) => (.inr (.ok (rootCid, write.change.result)), s)

/-- Ask for the commitment. Without leaves there is no proof to ask for. -/
def StoredTree.askCommitment (op : StoredTree.FsOp) (retried : Bool) (s : σ) :
    WritePhase ⊕ Except TreeError (Cid × Option FileStat) :=
  match tree.store.commitment s tree.bucketId with
  | .error message => .inr (.error (storeError message))
  | .ok none => .inl (.atDirectories op none)
  | .ok (some commitment) =>
    if commitment.leafCount = 0 then .inl (.atDirectories op none)
    else .inl (.atProof op retried commitment)

/-- Ask for the proof of the last leaf. An invalid one is asked for once more, with the commitment. -/
def StoredTree.askProof (op : StoredTree.FsOp) (retried : Bool) (commitment : Commitment) (s : σ) :
    WritePhase ⊕ Except TreeError (Cid × Option FileStat) :=
  let leafIndex := commitment.leafCount - 1
  match tree.store.mmrProof s tree.bucketId leafIndex with
  | .error message => .inr (.error (storeError message))
  | .ok proof =>
    if verifyMmrProof blake2256 mmr proof leafIndex commitment then
      .inl (.atDirectories op (some (commitment, proof)))
    else if retried then .inr (.error (.invalidMmrProof tree.bucketId.1))
    else .inl (.atCommitment op true)

/-- Read the directories along the path and work out what to write. They are one step: they are found by
identifiers, whose blobs no step of another writer changes. -/
def StoredTree.readDirectories (op : StoredTree.FsOp) (last : Option (Commitment × MmrProof)) (s : σ) :
    WritePhase ⊕ Except TreeError (Cid × Option FileStat) :=
  match (tree.recorded last).changeOf blake2256 mmr op s with
  | .error error => .inr (.error error)
  | .ok change => .inl (.atUpload ⟨[], change.blobs ++ [change.root], change⟩)

/-- The next request of a write: what it is to ask for then, or how it ends. -/
def WritePhase.advance (phase : WritePhase) (s : σ) :
    (WritePhase ⊕ Except TreeError (Cid × Option FileStat)) × σ :=
  match phase with
  | .atCommitment op retried => (tree.askCommitment op retried s, s)
  | .atProof op retried commitment => (tree.askProof blake2256 mmr op retried commitment s, s)
  | .atDirectories op last => (tree.readDirectories blake2256 mmr op last s, s)
  | .atUpload write => match write.advance blake2256 tree s with
    | (.inl write, s) => (.inl (.atUpload write), s)
    | (.inr answer, s) => (.inr answer, s)

/-- Go on with a write without a break for a number of requests. -/
def WritePhase.finish : ℕ → WritePhase → σ → Option (Except TreeError (Cid × Option FileStat)) × σ
  | 0, _, s => (none, s)
  | steps + 1, phase, s => match phase.advance blake2256 mmr tree s with
    | (.inl phase, s) => WritePhase.finish steps phase s
    | (.inr answer, s) => (some answer, s)

end Requests

/-! ### A writer on its own -/

section Alone

variable {σ : Type} {blake2256 : Bytes → H256} {mmr : MmrLibrary} {tree : StoredTree σ}

/-- A write that its checks refuse is refused, whatever is stored. -/
theorem changeOf_of_checks {op : StoredTree.FsOp} {error : TreeError}
    (h : tree.checks blake2256 op = .error error) (s : σ) :
    tree.changeOf blake2256 mmr op s = .error error := by
  cases op with
  | putFile path data contentType userMetadata entryTime dirTime =>
    refine (bind_eq_error _ _ _).mpr (.inl ?_)
    exact bind_error_of_rest h fun names h ↦ bind_error_of_rest h fun name h ↦
      bind_error_of_rest h fun manifest h ↦ by cases h
  | mkdir path now =>
    refine (bind_eq_error _ _ _).mpr (.inl ?_)
    exact bind_error_of_rest h fun names h ↦ bind_error_of_rest h fun name h ↦ by cases h
  | delete path emptyParents now =>
    refine (bind_eq_error _ _ _).mpr (.inl ?_)
    exact bind_error_of_rest h fun names h ↦ bind_error_of_rest h fun name h ↦ by cases h
  | rename source target sourceTime targetTime =>
    refine (bind_eq_error _ _ _).mpr (.inl ?_)
    exact bind_error_of_rest h fun sourceNames h ↦ bind_error_of_rest h fun targetNames h ↦
      bind_error_of_rest h fun sourceName h ↦ bind_error_of_rest h fun targetName h ↦ by
        rw [h]
        rfl

/-- A write that passes its checks fails as the read of the last leaf fails. -/
theorem changeOf_of_lastLeaf {op : StoredTree.FsOp} {error : TreeError} {s : σ}
    (h : tree.checks blake2256 op = .ok ()) (hleaf : tree.lastLeaf blake2256 mmr s = .error error) :
    tree.changeOf blake2256 mmr op s = .error error := by
  have hload : tree.loadRoot blake2256 mmr s = .error error := (bind_eq_error _ _ _).mpr (.inl hleaf)
  have hrest : ∀ (α : Type) (rest : DirectoryNode → Except TreeError α),
      (tree.loadRoot blake2256 mmr s >>= rest) = .error error := fun α rest ↦
    (bind_eq_error _ _ _).mpr (.inl hload)
  cases op with
  | putFile path data contentType userMetadata entryTime dirTime =>
    refine (bind_eq_error _ _ _).mpr (.inl ?_)
    exact bind_error_of_ok h fun names h ↦ bind_error_of_ok h fun name h ↦
      bind_error_of_ok h fun manifest _ ↦ hrest _ _
  | mkdir path now =>
    refine (bind_eq_error _ _ _).mpr (.inl ?_)
    exact bind_error_of_ok h fun names h ↦ bind_error_of_ok h fun name _ ↦ hrest _ _
  | delete path emptyParents now =>
    refine (bind_eq_error _ _ _).mpr (.inl ?_)
    exact bind_error_of_ok h fun names h ↦ bind_error_of_ok h fun name _ ↦ hrest _ _
  | rename source target sourceTime targetTime =>
    refine (bind_eq_error _ _ _).mpr (.inl ?_)
    exact bind_error_of_ok h fun sourceNames h ↦ bind_error_of_ok h fun targetNames h ↦
      bind_error_of_ok h fun sourceName h ↦ bind_error_of_ok h fun targetName h ↦ by
        rw [h]
        exact hrest _ _

/-- The file system refuses the same writes. -/
theorem FileSystem.change_of_checks {op : StoredTree.FsOp} {error : TreeError}
    (h : tree.checks blake2256 op = .error error) (fs : FileSystem) :
    fs.change blake2256 tree.bucketId op = .error error := by
  cases op with
  | putFile path data contentType userMetadata entryTime dirTime =>
    exact bind_error_of_rest h fun names h ↦ bind_error_of_rest h fun name h ↦
      bind_error_of_rest h fun manifest h ↦ by cases h
  | mkdir path now =>
    exact bind_error_of_rest h fun names h ↦ bind_error_of_rest h fun name h ↦ by cases h
  | delete path emptyParents now =>
    exact bind_error_of_rest h fun names h ↦ bind_error_of_rest h fun name h ↦ by cases h
  | rename source target sourceTime targetTime =>
    exact bind_error_of_rest h fun sourceNames h ↦ bind_error_of_rest h fun targetNames h ↦
      bind_error_of_rest h fun sourceName h ↦ bind_error_of_rest h fun targetName h ↦ by
        rw [h]
        rfl

theorem recorded_extendFrom (last : Option (Commitment × MmrProof)) (s : σ) (createMissing : Bool)
    (passed : List Bytes) (dir : DirectoryNode) (names : List Bytes) :
    (tree.recorded last).extendFrom blake2256 s createMissing passed dir names =
      tree.extendFrom blake2256 s createMissing passed dir names := by
  induction names generalizing passed dir with
  | nil => rfl
  | cons name rest ih =>
    unfold StoredTree.extendFrom
    simp only [ih]
    rfl

theorem recorded_extendChain (last : Option (Commitment × MmrProof)) (s : σ) (chain : List DirectoryNode)
    (names : List Bytes) (createMissing : Bool) :
    (tree.recorded last).extendChain blake2256 s chain names createMissing =
      tree.extendChain blake2256 s chain names createMissing := by
  unfold StoredTree.extendChain
  simp only [recorded_extendFrom]

/-- Directories are read from the same blobs, so that a write does the same when its last leaf is the same. -/
theorem recorded_changeOf {last : Option (Commitment × MmrProof)} {op : StoredTree.FsOp} {s : σ}
    (h : (tree.recorded last).lastLeaf blake2256 mmr s = tree.lastLeaf blake2256 mmr s) :
    (tree.recorded last).changeOf blake2256 mmr op s = tree.changeOf blake2256 mmr op s := by
  have hload : (tree.recorded last).loadRoot blake2256 mmr s = tree.loadRoot blake2256 mmr s := by
    unfold StoredTree.loadRoot
    rw [h]
    rfl
  cases op with
  | putFile path data contentType userMetadata entryTime dirTime =>
    simp only [StoredTree.changeOf, StoredTree.putChange, StoredTree.dirChain, hload, recorded_extendChain]
    rfl
  | mkdir path now =>
    simp only [StoredTree.changeOf, StoredTree.mkdirChange, StoredTree.dirChain, hload, recorded_extendChain]
    rfl
  | delete path emptyParents now =>
    simp only [StoredTree.changeOf, StoredTree.deleteChange, StoredTree.dirChain, hload, recorded_extendChain]
    rfl
  | rename source target sourceTime targetTime =>
    simp only [StoredTree.changeOf, StoredTree.renameChange, StoredTree.dirChain, hload, recorded_extendChain]

/-- Blobs are uploaded one after the other. -/
theorem uploadEach_cons (uploaded : List Cid) (blob : Bytes) (rest : List Bytes) {s s' : σ} :
    (tree.uploadEach blake2256 uploaded [blob] s = (.ok (), s') →
      tree.uploadEach blake2256 uploaded (blob :: rest) s =
        tree.uploadEach blake2256 (uploaded.insert (computeCid blake2256 blob)) rest s') ∧
    ∀ error, tree.uploadEach blake2256 uploaded [blob] s = (.error error, s') →
      tree.uploadEach blake2256 uploaded (blob :: rest) s = (.error error, s') := by
  simp only [StoredTree.uploadEach]
  by_cases hmem : computeCid blake2256 blob ∈ uploaded
  · rw [if_pos hmem, if_pos hmem, List.insert_of_mem hmem]
    refine ⟨fun hok ↦ ?_, fun error herror ↦ ?_⟩
    · cases hok
      rfl
    · cases herror
  · rw [if_neg hmem, if_neg hmem, List.insert_of_not_mem hmem]
    rcases tree.store.putBlob tree.bucketId blob s with ⟨message | got, s''⟩
    · refine ⟨fun hok ↦ ?_, fun error herror ↦ herror⟩
      cases hok
    · dsimp only
      by_cases hgot : got ≠ computeCid blake2256 blob
      · rw [if_pos hgot, if_pos hgot]
        refine ⟨fun hok ↦ ?_, fun error herror ↦ herror⟩
        cases hok
      · rw [if_neg hgot, if_neg hgot]
        refine ⟨fun hok ↦ ?_, fun error herror ↦ ?_⟩
        · cases hok
          rfl
        · cases herror

theorem finish_of_advance (phase : WritePhase) (next : WritePhase ⊕ Except TreeError (Cid × Option FileStat))
    (s s' : σ) (steps : ℕ) : phase.advance blake2256 mmr tree s = (next, s') →
      phase.finish blake2256 mmr tree (steps + 1) s = match next with
        | .inl phase => phase.finish blake2256 mmr tree steps s'
        | .inr answer => (some answer, s') := by
  intro h
  rw [WritePhase.finish, h]
  cases next with
  | inl phase => rfl
  | inr answer => rfl

/-- Uploads and a commit that nobody interrupts write the change. -/
theorem finish_atUpload (uploaded : List Cid) (rest : List Bytes) (change : Change (Option FileStat))
    (s : σ) :
    (∀ error s', tree.uploadEach blake2256 uploaded rest s = (.error error, s') →
      (WritePhase.atUpload ⟨uploaded, rest, change⟩).finish blake2256 mmr tree (rest.length + 1) s =
        (some (.error error), s')) ∧
    ∀ s', tree.uploadEach blake2256 uploaded rest s = (.ok (), s') → ∀ result s'',
      tree.store.commit tree.bucketId (commitOrder (change.blobs.map (computeCid blake2256) ++
        [computeCid blake2256 change.root])) s' = (result, s'') →
      (WritePhase.atUpload ⟨uploaded, rest, change⟩).finish blake2256 mmr tree (rest.length + 1) s =
        (some ((result.mapError storeError).map fun _ ↦ (computeCid blake2256 change.root, change.result)),
          s'') := by
  induction rest generalizing uploaded s with
  | nil =>
    refine ⟨fun error s' herror ↦ (by cases herror), fun s' hok result s'' hcommit ↦ ?_⟩
    cases hok
    unfold WritePhase.finish WritePhase.advance OpenWrite.advance
    dsimp only
    rw [hcommit]
    cases result with
    | error message => rfl
    | ok _ => rfl
  | cons blob rest ih =>
    rcases hfirst : tree.uploadEach blake2256 uploaded [blob] s with ⟨error | ⟨⟩, s₁⟩
    · have hall := (uploadEach_cons uploaded blob rest).2 error hfirst
      refine ⟨fun error' s' herror ↦ ?_, fun s' hok ↦ ?_⟩
      · rw [hall] at herror
        cases herror
        unfold WritePhase.finish WritePhase.advance OpenWrite.advance
        dsimp only
        rw [hfirst]
      · rw [hall] at hok
        cases hok
    · have hstep : (WritePhase.atUpload ⟨uploaded, blob :: rest, change⟩).finish blake2256 mmr tree
          ((blob :: rest).length + 1) s =
            (WritePhase.atUpload ⟨uploaded.insert (computeCid blake2256 blob), rest, change⟩).finish blake2256
              mmr tree (rest.length + 1) s₁ := by
        rw [List.length_cons, WritePhase.finish, WritePhase.advance, OpenWrite.advance]
        dsimp only
        rw [hfirst]
      rw [(uploadEach_cons uploaded blob rest).1 hfirst, hstep]
      exact ih _ _

/-- A write that has read the last leaf does what is left of it. -/
theorem finish_atDirectories {op : StoredTree.FsOp} {last : Option (Commitment × MmrProof)} {s : σ}
    (h : (tree.recorded last).lastLeaf blake2256 mmr s = tree.lastLeaf blake2256 mmr s) :
    ∃ steps, (WritePhase.atDirectories op last).finish blake2256 mmr tree steps s =
      (some (tree.apply blake2256 mmr op s).1, (tree.apply blake2256 mmr op s).2) := by
  unfold StoredTree.apply StoredTree.writeChange StoredTree.write
  have hread : tree.readDirectories blake2256 mmr op last s =
      match tree.changeOf blake2256 mmr op s with
      | .error error => .inr (.error error)
      | .ok change => .inl (.atUpload ⟨[], change.blobs ++ [change.root], change⟩) := by
    rw [StoredTree.readDirectories, recorded_changeOf h]
  rcases hchange : tree.changeOf blake2256 mmr op s with error | change
  · refine ⟨1, ?_⟩
    unfold WritePhase.finish WritePhase.advance
    dsimp only
    rw [hread, hchange]
  · refine ⟨(change.blobs ++ [change.root]).length + 1 + 1, ?_⟩
    rw [WritePhase.finish, WritePhase.advance, hread, hchange]
    dsimp only
    obtain ⟨hfailed, hdone⟩ :=
      @finish_atUpload σ blake2256 mmr tree [] (change.blobs ++ [change.root]) change s
    rcases hupload : tree.uploadEach blake2256 [] (change.blobs ++ [change.root]) s with ⟨error | ⟨⟩, s'⟩
    · exact hfailed error s' hupload
    · rcases hcommit : tree.store.commit tree.bucketId
        (commitOrder (change.blobs.map (computeCid blake2256) ++ [computeCid blake2256 change.root])) s' with
        ⟨message | ⟨⟩, s''⟩
      · rw [hdone s' hupload _ s'' hcommit]
        dsimp only
        rw [hcommit]
        rfl
      · rw [hdone s' hupload _ s'' hcommit]
        dsimp only
        rw [hcommit]
        rfl

/-- Nothing changes between the two reads of a write on its own. -/
theorem lastLeaf_eq (s : σ) : tree.lastLeaf blake2256 mmr s = tree.readLastLeaf blake2256 mmr s := by
  unfold StoredTree.lastLeaf
  split
  · rfl
  · rfl

/-- The requests for the last leaf read it, or fail as the read of it does. The first time the write may
ask for it again instead. -/
theorem finish_atCommitment (op : StoredTree.FsOp) (retried : Bool) (s : σ) :
    (∃ last, (tree.recorded last).lastLeaf blake2256 mmr s = tree.readLastLeaf blake2256 mmr s ∧
      ∃ steps, ∀ more, (WritePhase.atCommitment op retried).finish blake2256 mmr tree (more + steps) s =
        (WritePhase.atDirectories op last).finish blake2256 mmr tree more s) ∨
    ∃ error steps, tree.readLastLeaf blake2256 mmr s = .error error ∧
      ((WritePhase.atCommitment op retried).finish blake2256 mmr tree steps s = (some (.error error), s) ∨
        retried = false ∧
          ∀ more, (WritePhase.atCommitment op retried).finish blake2256 mmr tree (more + steps) s =
            (WritePhase.atCommitment op true).finish blake2256 mmr tree more s) := by
  have hnone : (tree.recorded none).lastLeaf blake2256 mmr s = .ok none := rfl
  have hstep : ∀ steps, (WritePhase.atCommitment op retried).finish blake2256 mmr tree (steps + 1) s =
      match tree.askCommitment op retried s with
      | .inl phase => phase.finish blake2256 mmr tree steps s
      | .inr answer => (some answer, s) := fun steps ↦ finish_of_advance _ _ s s steps rfl
  rcases hcommitment : tree.store.commitment s tree.bucketId with message | _ | commitment
  · refine .inr ⟨storeError message, 1, ?_, .inl ?_⟩
    · rw [StoredTree.readLastLeaf, hcommitment]
      rfl
    · rw [hstep 0, StoredTree.askCommitment, hcommitment]
  · refine .inl ⟨none, ?_, 1, fun more ↦ ?_⟩
    · rw [hnone, StoredTree.readLastLeaf, hcommitment]
      rfl
    · rw [hstep more, StoredTree.askCommitment, hcommitment]
  by_cases hempty : commitment.leafCount = 0
  · refine .inl ⟨none, ?_, 1, fun more ↦ ?_⟩
    · rw [hnone, StoredTree.readLastLeaf, hcommitment]
      exact (if_pos hempty).symm
    · rw [hstep more, StoredTree.askCommitment, hcommitment]
      dsimp only
      rw [if_pos hempty]
  · have hproof : ∀ steps, (WritePhase.atCommitment op retried).finish blake2256 mmr tree (steps + 2) s =
        match tree.askProof blake2256 mmr op retried commitment s with
        | .inl phase => phase.finish blake2256 mmr tree steps s
        | .inr answer => (some answer, s) := by
      intro steps
      rw [hstep (steps + 1), StoredTree.askCommitment, hcommitment]
      dsimp only
      rw [if_neg hempty]
      exact finish_of_advance _ _ s s steps rfl
    have hread : tree.readLastLeaf blake2256 mmr s =
        (tree.store.mmrProof s tree.bucketId (commitment.leafCount - 1)).mapError storeError >>= fun proof ↦
          ensure (verifyMmrProof blake2256 mmr proof (commitment.leafCount - 1) commitment)
            (.invalidMmrProof tree.bucketId.1) >>= fun _ ↦ .ok (some proof.leaf.dataRoot) := by
      rw [StoredTree.readLastLeaf, hcommitment]
      exact if_neg hempty
    rw [hread]
    rcases hget : tree.store.mmrProof s tree.bucketId (commitment.leafCount - 1) with message | proof
    · refine .inr ⟨storeError message, 2, rfl, .inl ?_⟩
      rw [hproof 0, StoredTree.askProof, hget]
    · by_cases hverify : verifyMmrProof blake2256 mmr proof (commitment.leafCount - 1) commitment = true
      · refine .inl ⟨some (commitment, proof), ?_, 2, fun more ↦ ?_⟩
        · rw [lastLeaf_eq]
          exact if_neg hempty
        · rw [hproof more, StoredTree.askProof, hget]
          dsimp only
          rw [if_pos hverify]
      · refine .inr ⟨.invalidMmrProof tree.bucketId.1, 2, ?_, ?_⟩
        · refine (bind_eq_error _ _ _).mpr (.inr ⟨proof, rfl, (bind_eq_error _ _ _).mpr (.inl ?_)⟩)
          exact (ensure_eq_error _ _ _).mpr ⟨Bool.eq_false_iff.mpr hverify, rfl⟩
        · cases retried with
          | true =>
            refine .inl ?_
            rw [hproof 0, StoredTree.askProof, hget]
            dsimp only
            rw [if_neg hverify]
            rfl
          | false =>
            refine .inr ⟨rfl, fun more ↦ ?_⟩
            rw [hproof more, StoredTree.askProof, hget]
            dsimp only
            rw [if_neg hverify]
            rfl

/-- A writer that nobody interrupts does what the write does. -/
theorem apply_eq_finish {op : StoredTree.FsOp} (s : σ) (h : tree.checks blake2256 op = .ok ()) :
    ∃ steps, (WritePhase.atCommitment op false).finish blake2256 mmr tree steps s =
      (some (tree.apply blake2256 mmr op s).1, (tree.apply blake2256 mmr op s).2) := by
  have hread : ∀ last, (tree.recorded last).lastLeaf blake2256 mmr s = tree.readLastLeaf blake2256 mmr s →
      ∃ steps, (WritePhase.atDirectories op last).finish blake2256 mmr tree steps s =
        (some (tree.apply blake2256 mmr op s).1, (tree.apply blake2256 mmr op s).2) := fun last hlast ↦
    finish_atDirectories (hlast.trans (lastLeaf_eq s).symm)
  have hfailed : ∀ error, tree.readLastLeaf blake2256 mmr s = .error error →
      tree.apply blake2256 mmr op s = (.error error, s) := by
    intro error herror
    unfold StoredTree.apply
    rw [changeOf_of_lastLeaf h ((lastLeaf_eq s).trans herror)]
    rfl
  rcases finish_atCommitment op false s with ⟨last, hlast, steps, hsteps⟩ | ⟨error, steps, herror, hfinish⟩
  · obtain ⟨more, hmore⟩ := hread last hlast
    exact ⟨more + steps, (hsteps more).trans hmore⟩
  · rcases hfinish with hfinish | ⟨-, hsteps⟩
    · refine ⟨steps, ?_⟩
      rw [hfinish, hfailed error herror]
    · -- the second read is the last one
      rcases finish_atCommitment op true s with ⟨last, hlast, steps', hsteps'⟩ |
        ⟨error', steps', herror', hfinish⟩
      · obtain ⟨more, hmore⟩ := hread last hlast
        exact ⟨more + steps' + steps, (hsteps _).trans ((hsteps' more).trans hmore)⟩
      · rcases hfinish with hfinish | ⟨hfalse, -⟩
        · refine ⟨steps' + steps, (hsteps steps').trans ?_⟩
          rw [hfinish, hfailed error' herror']
        · cases hfalse

end Alone

end Web3Storage.Formats
