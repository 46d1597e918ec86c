import Web3Storage.Formats.OpenWrites

/-!
# Writers that share a drive

Every writer asks the store for one thing after the other, and the requests of several writers come in any
order. `SharedFiles` is what the writers do to each other: a write starts from the file system that was
current when it read the commitment, and what it makes of it becomes current when it commits. A write that
other commits overtook between its two requests for the last leaf asks again, and is refused when they do so
twice. `writers_refine` says that a drive under any writers is no worse: it holds a whole file system after
every step, and the last commit wins.
-/

set_option autoImplicit false
set_option relaxedAutoImplicit false

namespace Web3Storage.Formats

open Foundations Primitives

/-! ### Writers of one bucket -/

/-- A store with the write that each writer has in progress. -/
structure SharedDrive (σ ι : Type) where
  store : σ
  writes : ι → Option WritePhase

/-- A store without a write in progress. -/
def SharedDrive.idle (ι : Type) {σ : Type} (s : σ) : SharedDrive σ ι := ⟨s, fun _ ↦ none⟩

/-- A writer starts a write, or goes on with the one it started. -/
inductive WriterStep (ι : Type) where
  | start (writer : ι) (op : StoredTree.FsOp)
  | advance (writer : ι)

section Steps

variable {σ ι : Type} [DecidableEq ι] (blake2256 : Bytes → H256) (mmr : MmrLibrary) (tree : StoredTree σ)

namespace SharedDrive

variable (drive : SharedDrive σ ι)

def setWrite (writer : ι) (phase : Option WritePhase) (s : σ) : SharedDrive σ ι :=
  ⟨s, Function.update drive.writes writer phase⟩

/-- A writer that has no write in progress starts one, if it passes its checks. -/
def start (writer : ι) (op : StoredTree.FsOp) :
    Option (Except TreeError (Cid × Option FileStat)) × SharedDrive σ ι :=
  match drive.writes writer with
  | some _ => (none, drive)
  | none => match tree.checks blake2256 op with
    | .error error => (some (.error error), drive)
    | .ok () => (none, drive.setWrite writer (some (.atCommitment op false)) drive.store)

/-- A write goes on where a request left it, or ends. -/
def settle (writer : ι) : (WritePhase ⊕ Except TreeError (Cid × Option FileStat)) × σ →
    Option (Except TreeError (Cid × Option FileStat)) × SharedDrive σ ι
  | (.inl phase, s) => (none, drive.setWrite writer (some phase) s)
  | (.inr answer, s) => (some answer, drive.setWrite writer none s)

/-- A writer makes the next request of its write. -/
def advance (writer : ι) : Option (Except TreeError (Cid × Option FileStat)) × SharedDrive σ ι :=
  match drive.writes writer with
  | none => (none, drive)
  | some phase => drive.settle writer (phase.advance blake2256 mmr tree drive.store)

/-- One step of a writer: its answer, if the write ends with it, and what is after it. -/
def step : WriterStep ι → Option (Except TreeError (Cid × Option FileStat)) × SharedDrive σ ι
  | .start writer op => drive.start blake2256 tree writer op
  | .advance writer => drive.advance blake2256 mmr tree writer

/-- The blob that a step uploads. -/
def uploads : WriterStep ι → List Bytes
  | .start _ _ => []
  | .advance writer => match drive.writes writer with
    | some (.atUpload write) => write.rest.take 1
    | _ => []

/-- The blobs that a step commits. -/
def commits : WriterStep ι → List Bytes
  | .start _ _ => []
  | .advance writer => match drive.writes writer with
    | some (.atUpload write) => if write.rest = [] then write.change.blobs ++ [write.change.root] else []
    | _ => []

end SharedDrive

/-- A run of steps of the writers: their answers and what is after them. -/
def SharedDrive.run : List (WriterStep ι) → SharedDrive σ ι →
    List (Option (Except TreeError (Cid × Option FileStat))) × SharedDrive σ ι
  | [], drive => ([], drive)
  | action :: rest, drive =>
    let (answer, drive) := drive.step blake2256 mmr tree action
    let (answers, drive) := SharedDrive.run rest drive
    (answer :: answers, drive)

/-- What the steps of a run upload or commit. -/
def SharedDrive.along (sent : SharedDrive σ ι → WriterStep ι → List Bytes) :
    List (WriterStep ι) → SharedDrive σ ι → List Bytes
  | [], _ => []
  | action :: rest, drive =>
    sent drive action ++ SharedDrive.along sent rest (drive.step blake2256 mmr tree action).2

end Steps

/-! ### The last commit wins -/

/-- A write in progress, as the file systems have it. -/
inductive PendingWrite where
  /-- It is to look at the file system. -/
  | waiting (op : StoredTree.FsOp) (retried : Bool)
  /-- It looked at a file system, after a number of commits, and is to check that it was the last one. -/
  | looking (op : StoredTree.FsOp) (retried : Bool) (seen : FileSystem) (commits : ℕ)
  /-- It starts from a file system. -/
  | reading (op : StoredTree.FsOp) (seen : FileSystem)
  /-- It is to return a result and to make a file system current. -/
  | writing (done : Option FileStat × FileSystem)

/-- The current file system, the number of commits, and the write in progress of each writer. -/
structure SharedFiles (ι : Type) where
  current : FileSystem
  commits : ℕ
  pending : ι → Option PendingWrite

def SharedFiles.idle (ι : Type) (fs : FileSystem) : SharedFiles ι := ⟨fs, 0, fun _ ↦ none⟩

section Files

variable {ι : Type} [DecidableEq ι]

/-- A write in progress goes on, or ends. -/
def SharedFiles.setPending (files : SharedFiles ι) (writer : ι) (pending : Option PendingWrite) :
    SharedFiles ι :=
  { files with pending := Function.update files.pending writer pending }

/-- A writer makes a file system current, and ends its write. -/
def SharedFiles.commit (files : SharedFiles ι) (writer : ι) (fs : FileSystem) : SharedFiles ι :=
  ⟨fs, files.commits + 1, Function.update files.pending writer none⟩

variable (fails : TreeError → Prop) (overtaken : TreeError)
  (change : FileSystem → StoredTree.FsOp → Except TreeError (Option FileStat × FileSystem))

/-- A write starts from the file system that is current when it looks. What it makes of it becomes current
when it commits, whatever was committed since. If others commit between its look and the check of it, it may
look again, and may fail when that happens twice. -/
inductive SharedFiles.Step (files : SharedFiles ι) :
    WriterStep ι → Option (Except TreeError (Option FileStat)) → SharedFiles ι → Prop
  | busy (writer : ι) (op : StoredTree.FsOp) (hbusy : files.pending writer ≠ none) :
    Step files (.start writer op) none files
  | started (writer : ι) (op : StoredTree.FsOp) (hidle : files.pending writer = none) :
    Step files (.start writer op) none (files.setPending writer (some (.waiting op false)))
  | invalid (writer : ι) (op : StoredTree.FsOp) (error : TreeError) (hidle : files.pending writer = none)
      (hrefused : ∀ fs, change fs op = .error error) :
    Step files (.start writer op) (some (.error error)) files
  | idle (writer : ι) (hidle : files.pending writer = none) : Step files (.advance writer) none files
  | looked (writer : ι) (op : StoredTree.FsOp) (retried : Bool)
      (hwaiting : files.pending writer = some (.waiting op retried)) :
    Step files (.advance writer) none
      (files.setPending writer (some (.looking op retried files.current files.commits)))
  | lookedEmpty (writer : ι) (op : StoredTree.FsOp) (retried : Bool)
      (hwaiting : files.pending writer = some (.waiting op retried)) :
    Step files (.advance writer) none (files.setPending writer (some (.reading op files.current)))
  | checked (writer : ι) (op : StoredTree.FsOp) (retried : Bool) (seen : FileSystem) (commits : ℕ)
      (hlooking : files.pending writer = some (.looking op retried seen commits)) :
    Step files (.advance writer) none (files.setPending writer (some (.reading op seen)))
  | overtaken (writer : ι) (op : StoredTree.FsOp) (seen : FileSystem) (commits : ℕ)
      (hlooking : files.pending writer = some (.looking op false seen commits))
      (hovertaken : commits < files.commits) :
    Step files (.advance writer) none (files.setPending writer (some (.waiting op true)))
  | overtakenAgain (writer : ι) (op : StoredTree.FsOp) (seen : FileSystem) (commits : ℕ)
      (hlooking : files.pending writer = some (.looking op true seen commits))
      (hovertaken : commits < files.commits) :
    Step files (.advance writer) (some (.error overtaken)) (files.setPending writer none)
  | read (writer : ι) (op : StoredTree.FsOp) (seen : FileSystem) (done : Option FileStat × FileSystem)
      (hreading : files.pending writer = some (.reading op seen)) (hdone : change seen op = .ok done) :
    Step files (.advance writer) none (files.setPending writer (some (.writing done)))
  | refused (writer : ι) (op : StoredTree.FsOp) (seen : FileSystem) (error : TreeError)
      (hreading : files.pending writer = some (.reading op seen))
      (hrefused : change seen op = .error error) :
    Step files (.advance writer) (some (.error error)) (files.setPending writer none)
  | uploaded (writer : ι) (done : Option FileStat × FileSystem)
      (hwriting : files.pending writer = some (.writing done)) : Step files (.advance writer) none files
  | failed (writer : ι) (error : TreeError) (hbusy : files.pending writer ≠ none) (hfails : fails error) :
    Step files (.advance writer) (some (.error error)) (files.setPending writer none)
  | committed (writer : ι) (done : Option FileStat × FileSystem)
      (hwriting : files.pending writer = some (.writing done)) :
    Step files (.advance writer) (some (.ok done.1)) (files.commit writer done.2)
  | committedFailed (writer : ι) (done : Option FileStat × FileSystem) (error : TreeError)
      (hwriting : files.pending writer = some (.writing done)) (hfails : fails error) :
    Step files (.advance writer) (some (.error error)) (files.commit writer done.2)

/-- A run of steps with their answers. -/
inductive SharedFiles.Run : SharedFiles ι → List (WriterStep ι) →
    List (Option (Except TreeError (Option FileStat))) → SharedFiles ι → Prop
  | nil (files : SharedFiles ι) : Run files [] [] files
  | cons {files files' files'' : SharedFiles ι} {action : WriterStep ι} {actions : List (WriterStep ι)}
      {answer : Option (Except TreeError (Option FileStat))}
      {answers : List (Option (Except TreeError (Option FileStat)))}
      (hstep : files.Step fails overtaken change action answer files')
      (hrest : Run files' actions answers files'') :
    Run files (action :: actions) (answer :: answers) files''

end Files

/-! ### What a write in progress has seen -/

/-- An open write commits what its writer is to make: each of its blobs is stored or still to be uploaded. -/
structure OpenWrite.Makes (blake2256 : Bytes → H256) (bucketId : Word 8) (stored : Set Bytes)
    (write : OpenWrite) (done : Option FileStat × FileSystem) : Prop where
  yields : write.change.Yields blake2256 bucketId stored done id
  sent : ∀ item ∈ write.change.blobs ++ [write.change.root], item ∈ stored ∨ item ∈ write.rest
  uploaded : ∀ cid ∈ write.uploaded, cid ∈ computeCid blake2256 '' stored

/-- A last leaf that was read: that of some leaves, with a proof that was accepted. -/
structure StoredTree.Recorded {σ : Type} (tree : StoredTree σ) (blake2256 : Bytes → H256) (mmr : MmrLibrary)
    (earlier : List MmrLeaf) (last : Option (Commitment × MmrProof)) : Prop where
  nil_of_none : last = none → earlier = []
  accepted : ∀ commitment proof, last = some (commitment, proof) →
    commitment.leafCount ≠ 0 ∧ earlier.getLast? = some proof.leaf ∧
      verifyMmrProof blake2256 mmr proof (commitment.leafCount - 1) commitment = true

section Phases

variable {σ : Type} (blake2256 : Bytes → H256) (mmr : MmrLibrary) (tree : StoredTree σ)
  (stored : Set Bytes) (leaves : List MmrLeaf) (commits : ℕ)

/-- A write is where the file systems have it. What it looked at is held by leaves that the bucket had then,
and that it still has if nobody committed since. -/
inductive WritePhase.Follows : WritePhase → PendingWrite → Prop
  | waiting (op : StoredTree.FsOp) (retried : Bool) : Follows (.atCommitment op retried) (.waiting op retried)
  | looking (op : StoredTree.FsOp) (retried : Bool) (seen : FileSystem) (seenCommits : ℕ)
      (commitment : Commitment) (earlier : List MmrLeaf) (hne : earlier ≠ [])
      (hbegins : earlier <+: leaves) (hseen : Represents blake2256 tree.bucketId stored earlier seen)
      (hroot : mmrRoot blake2256 mmr earlier = some commitment.mmrRoot)
      (hcount : commitment.leafCount = earlier.length) (hcommits : seenCommits ≤ commits)
      (hsame : seenCommits = commits → leaves = earlier) :
    Follows (.atProof op retried commitment) (.looking op retried seen seenCommits)
  | reading (op : StoredTree.FsOp) (seen : FileSystem) (last : Option (Commitment × MmrProof))
      (earlier : List MmrLeaf) (hbegins : earlier <+: leaves)
      (hseen : Represents blake2256 tree.bucketId stored earlier seen)
      (hlast : tree.Recorded blake2256 mmr earlier last) :
    Follows (.atDirectories op last) (.reading op seen)
  | writing (write : OpenWrite) (done : Option FileStat × FileSystem)
      (hmakes : write.Makes blake2256 tree.bucketId stored done) :
    Follows (.atUpload write) (.writing done)

end Phases

/-- A shared drive holds the current file system, and each write in progress is where the file systems have
it. -/
structure SharedFiles.Tracks {σ ι : Type} (blake2256 : Bytes → H256) (mmr : MmrLibrary) (tree : StoredTree σ)
    (blobs : σ → Set Bytes) (leaves : σ → List MmrLeaf) (drive : SharedDrive σ ι)
    (files : SharedFiles ι) : Prop where
  holds : Represents blake2256 tree.bucketId (blobs drive.store) (leaves drive.store) files.current
  idle : ∀ writer, drive.writes writer = none ↔ files.pending writer = none
  follows : ∀ writer phase pending, drive.writes writer = some phase → files.pending writer = some pending →
    phase.Follows blake2256 mmr tree (blobs drive.store) (leaves drive.store) files.commits pending

section Refines

variable {σ ι : Type} [DecidableEq ι] {blake2256 : Bytes → H256} {mmr : MmrLibrary} {reliable : Prop}
  {tree : StoredTree σ} {blobs : σ → Set Bytes} {leaves : σ → List MmrLeaf} {drive : SharedDrive σ ι}
  {files : SharedFiles ι} {known : Set Bytes}

theorem OpenWrite.Makes.mono {bucketId : Word 8} {stored stored' : Set Bytes} {write : OpenWrite}
    {done : Option FileStat × FileSystem} (h : write.Makes blake2256 bucketId stored done)
    (hsub : stored ⊆ stored') : write.Makes blake2256 bucketId stored' done where
  yields := ⟨h.yields.root.mono (Set.union_subset_union_left _ hsub), h.yields.result⟩
  sent item hitem := (h.sent item hitem).imp_left fun hstored ↦ hsub hstored
  uploaded cid hcid := Set.image_mono hsub (h.uploaded cid hcid)

/-- What a write in progress has seen stays so when the store grows. -/
theorem WritePhase.Follows.mono {stored stored' : Set Bytes} {earlier later : List MmrLeaf}
    {commits commits' : ℕ} {phase : WritePhase} {pending : PendingWrite}
    (h : phase.Follows blake2256 mmr tree stored earlier commits pending) (hgrows : stored ⊆ stored')
    (hbegins : earlier <+: later) (hcommits : commits ≤ commits')
    (hsame : commits' = commits → later = earlier) :
    phase.Follows blake2256 mmr tree stored' later commits' pending := by
  cases h with
  | waiting op retried => exact .waiting op retried
  | looking op retried seen seenCommits commitment seenLeaves hne hpre hseen hroot hcount hle hunchanged =>
    refine .looking op retried seen seenCommits commitment seenLeaves hne (hpre.trans hbegins)
      (hseen.mono hgrows) hroot hcount (hle.trans hcommits) fun hequal ↦ ?_
    have hboth : commits' = commits := le_antisymm (hequal.ge.trans hle) hcommits
    rw [hsame hboth, hunchanged (hequal.trans hboth)]
  | reading op seen last seenLeaves hpre hseen hlast =>
    exact .reading op seen last seenLeaves (hpre.trans hbegins) (hseen.mono hgrows) hlast
  | writing write done hmakes => exact .writing write done (hmakes.mono hgrows)

namespace SharedFiles

/-- A writer that goes on with its write or ends it leaves the others alone. -/
theorem Tracks.update {s : σ} {fs : FileSystem} {commits : ℕ} {writer : ι} {phase : Option WritePhase}
    {pending : Option PendingWrite} (h : files.Tracks blake2256 mmr tree blobs leaves drive)
    (hgrows : blobs drive.store ⊆ blobs s) (hbegins : leaves drive.store <+: leaves s)
    (hcommits : files.commits ≤ commits) (hsame : commits = files.commits → leaves s = leaves drive.store)
    (hholds : Represents blake2256 tree.bucketId (blobs s) (leaves s) fs)
    (hidle : phase = none ↔ pending = none)
    (hfollows : ∀ phase' pending', phase = some phase' → pending = some pending' →
      phase'.Follows blake2256 mmr tree (blobs s) (leaves s) commits pending') :
    Tracks blake2256 mmr tree blobs leaves (drive.setWrite writer phase s)
      ⟨fs, commits, Function.update files.pending writer pending⟩ where
  holds := hholds
  idle other := by
    change Function.update drive.writes writer phase other = none ↔
      Function.update files.pending writer pending other = none
    by_cases hother : other = writer
    · rw [hother, Function.update_self, Function.update_self]
      exact hidle
    · rw [Function.update_of_ne hother, Function.update_of_ne hother]
      exact h.idle other
  follows other phase' pending' hphase hpending := by
    change Function.update drive.writes writer phase other = some phase' at hphase
    change Function.update files.pending writer pending other = some pending' at hpending
    by_cases hother : other = writer
    · rw [hother, Function.update_self] at hphase hpending
      exact hfollows phase' pending' hphase hpending
    · rw [Function.update_of_ne hother] at hphase hpending
      exact (h.follows other phase' pending' hphase hpending).mono hgrows hbegins hcommits hsame

/-- A write that goes on while the leaves stay. -/
theorem Tracks.goesOn {s : σ} {writer : ι} {phase : WritePhase} {pending : PendingWrite}
    (h : files.Tracks blake2256 mmr tree blobs leaves drive) (hgrows : blobs drive.store ⊆ blobs s)
    (hleaves : leaves s = leaves drive.store)
    (hfollows : phase.Follows blake2256 mmr tree (blobs s) (leaves s) files.commits pending) :
    (files.setPending writer (some pending)).Tracks blake2256 mmr tree blobs leaves
      (drive.setWrite writer (some phase) s) := by
  refine h.update hgrows (hleaves ▸ List.prefix_refl _) le_rfl (fun _ ↦ hleaves) ?_ (by simp) ?_
  · rw [hleaves]
    exact h.holds.mono hgrows
  · intro phase' pending' hphase hpending
    obtain rfl := Option.some.inj hphase
    obtain rfl := Option.some.inj hpending
    exact hfollows

/-- A write that ends without a commit. -/
theorem Tracks.ends {s : σ} {writer : ι} (h : files.Tracks blake2256 mmr tree blobs leaves drive)
    (hgrows : blobs drive.store ⊆ blobs s) (hleaves : leaves s = leaves drive.store) :
    (files.setPending writer none).Tracks blake2256 mmr tree blobs leaves
      (drive.setWrite writer none s) := by
  refine h.update hgrows (hleaves ▸ List.prefix_refl _) le_rfl (fun _ ↦ hleaves) ?_
    (iff_of_true rfl rfl) fun _ _ hnone ↦ by cases hnone
  rw [hleaves]
  exact h.holds.mono hgrows

/-- A write that ends with a commit. -/
theorem Tracks.commits {s : σ} {fs : FileSystem} {writer : ι}
    (h : files.Tracks blake2256 mmr tree blobs leaves drive) (hgrows : blobs drive.store ⊆ blobs s)
    (hbegins : leaves drive.store <+: leaves s)
    (hholds : Represents blake2256 tree.bucketId (blobs s) (leaves s) fs) :
    (files.commit writer fs).Tracks blake2256 mmr tree blobs leaves (drive.setWrite writer none s) :=
  h.update hgrows hbegins (Nat.le_succ _) (fun hequal ↦ absurd hequal (Nat.succ_ne_self _)) hholds
    (iff_of_true rfl rfl) fun _ _ hnone ↦ by cases hnone

omit [DecidableEq ι] in
/-- The write that a writer has in progress. -/
theorem Tracks.cases (h : files.Tracks blake2256 mmr tree blobs leaves drive) (writer : ι) :
    (drive.writes writer = none ∧ files.pending writer = none) ∨
      ∃ phase pending, drive.writes writer = some phase ∧ files.pending writer = some pending ∧
        phase.Follows blake2256 mmr tree (blobs drive.store) (leaves drive.store) files.commits pending := by
  cases hphase : drive.writes writer with
  | none => exact .inl ⟨rfl, (h.idle writer).mp hphase⟩
  | some phase =>
    cases hpending : files.pending writer with
    | none => exact absurd ((h.idle writer).mpr hpending) (by rw [hphase]; exact Option.some_ne_none _)
    | some pending => exact .inr ⟨phase, pending, rfl, rfl, h.follows writer phase pending hphase hpending⟩

end SharedFiles

/-- A step of a shared drive that the file systems take as well. -/
def SharedFiles.Simulates (blake2256 : Bytes → H256) (mmr : MmrLibrary) (reliable : Prop)
    (tree : StoredTree σ) (blobs : σ → Set Bytes) (leaves : σ → List MmrLeaf) (files : SharedFiles ι)
    (action : WriterStep ι)
    (result : Option (Except TreeError (Cid × Option FileStat)) × SharedDrive σ ι) : Prop :=
  ∃ files', files.Step (StoreFails reliable) (.invalidMmrProof tree.bucketId.1)
      (FileSystem.change blake2256 tree.bucketId) action (result.1.map (Except.map Prod.snd)) files' ∧
    files'.Tracks blake2256 mmr tree blobs leaves result.2

/-- A writer that starts a write passes its checks, or is refused whatever the file system is. -/
theorem start_refines (htracks : files.Tracks blake2256 mmr tree blobs leaves drive) (writer : ι)
    (op : StoredTree.FsOp) :
    (drive.start blake2256 tree writer op).2.store = drive.store ∧
      files.Simulates blake2256 mmr reliable tree blobs leaves (.start writer op)
        (drive.start blake2256 tree writer op) := by
  unfold SharedDrive.start
  rcases htracks.cases writer with ⟨hphase, hidle⟩ | ⟨phase, pending, hphase, hpending, -⟩
  · rw [hphase]
    dsimp only
    rcases hchecks : tree.checks blake2256 op with error | ⟨⟩
    · exact ⟨rfl, files, .invalid writer op error hidle (FileSystem.change_of_checks hchecks), htracks⟩
    · exact ⟨rfl, _, .started writer op hidle,
        htracks.goesOn (subset_refl _) rfl (.waiting op false)⟩
  · rw [hphase]
    exact ⟨rfl, files, .busy writer op (by rw [hpending]; exact Option.some_ne_none _), htracks⟩

variable (h : tree.store.Serves blake2256 mmr tree.bucketId reliable blobs leaves)

include h

/-- A tree whose last leaf was read reads from that leaf. -/
theorem StoredTree.Recorded.reads {earlier : List MmrLeaf} {last : Option (Commitment × MmrProof)}
    (hlast : tree.Recorded blake2256 mmr earlier last) :
    (tree.recorded last).Reads blake2256 mmr reliable blobs fun _ ↦ earlier where
  getBlob_spec := h.getBlob_spec
  lastLeaf_spec s _ := by
    cases last with
    | none =>
      rw [hlast.nil_of_none rfl]
      exact .ok rfl
    | some found =>
      obtain ⟨commitment, proof⟩ := found
      obtain ⟨hcount, hleaf, hverify⟩ := hlast.accepted commitment proof rfl
      have hread : (tree.recorded (some (commitment, proof))).lastLeaf blake2256 mmr s =
          .ok (some proof.leaf.dataRoot) := by
        rw [lastLeaf_eq]
        refine (if_neg hcount).trans ?_
        change (ensure (verifyMmrProof blake2256 mmr proof _ commitment) _ >>= fun _ ↦ _) = _
        rw [hverify]
        rfl
      rw [hread, hleaf]
      exact .ok rfl

variable {writer : ι} (htracks : files.Tracks blake2256 mmr tree blobs leaves drive)
  {op : StoredTree.FsOp} {retried : Bool}

include htracks

/-- A write that asks for the commitment looks at the current file system. -/
theorem askCommitment_refines (hcount : (leaves drive.store).length ≤ maxRangeLeaves)
    (hwaiting : files.pending writer = some (.waiting op retried)) :
    files.Simulates blake2256 mmr reliable tree blobs leaves (.advance writer)
      (drive.settle writer (tree.askCommitment op retried drive.store, drive.store)) := by
  have hempty : leaves drive.store = [] →
      files.Simulates blake2256 mmr reliable tree blobs leaves (.advance writer)
        (drive.settle writer (.inl (.atDirectories op none), drive.store)) := fun hnil ↦
    ⟨_, .lookedEmpty writer op retried hwaiting, htracks.goesOn (subset_refl _) rfl
      (.reading op _ none _ (List.prefix_refl _) htracks.holds
        ⟨fun _ ↦ hnil, fun _ _ hsome ↦ by cases hsome⟩)⟩
  unfold StoredTree.askCommitment
  rcases h.commitment_spec drive.store hcount with ⟨hnil, hcommitment⟩ |
    ⟨root, startSeq, hroot, hcommitment⟩ | ⟨hfails, message, hcommitment⟩
  · rw [hcommitment]
    exact hempty hnil
  · rw [hcommitment]
    dsimp only
    by_cases hnil : leaves drive.store = []
    · rw [if_pos (List.length_eq_zero_iff.mpr hnil)]
      exact hempty hnil
    · rw [if_neg fun hzero ↦ hnil (List.length_eq_zero_iff.mp hzero)]
      exact ⟨_, .looked writer op retried hwaiting, htracks.goesOn (subset_refl _) rfl
        (.looking op retried _ _ _ _ hnil (List.prefix_refl _) htracks.holds hroot rfl le_rfl fun _ ↦ rfl)⟩
  · rw [hcommitment]
    exact ⟨_, .failed writer _ (by rw [hwaiting]; exact Option.some_ne_none _) ⟨hfails, message, rfl⟩,
      htracks.ends (subset_refl _) rfl⟩

/-- A write that asks for the proof starts from what it looked at, unless others committed since. -/
theorem askProof_refines (hmmr : mmr.IsStandard) (hcount : (leaves drive.store).length ≤ maxRangeLeaves)
    {seen : FileSystem} {seenCommits : ℕ} {commitment : Commitment}
    (hlooking : files.pending writer = some (.looking op retried seen seenCommits))
    (hfollows : (WritePhase.atProof op retried commitment).Follows blake2256 mmr tree (blobs drive.store)
      (leaves drive.store) files.commits (.looking op retried seen seenCommits)) :
    files.Simulates blake2256 mmr reliable tree blobs leaves (.advance writer)
      (drive.settle writer (tree.askProof blake2256 mmr op retried commitment drive.store, drive.store)) := by
  cases hfollows with
  | looking _ _ _ _ _ earlier hne hbegins hseen hroot hleafCount hcommits hsame =>
    obtain ⟨last, hlast⟩ : ∃ last, earlier.getLast? = some last :=
      Option.isSome_iff_exists.mp (by simpa using hne)
    have hpos : 0 < earlier.length := List.length_pos_iff.mpr hne
    have hindex : commitment.leafCount - 1 < (leaves drive.store).length := by
      have hle := hbegins.length_le
      omega
    have hleaf : (leaves drive.store)[commitment.leafCount - 1]? = some last := by
      obtain ⟨rest, hrest⟩ := hbegins
      rw [← hrest, List.getElem?_append_left (by omega), hleafCount, ← List.getLast?_eq_getElem?, hlast]
    unfold StoredTree.askProof
    dsimp only
    rcases h.mmrProof_spec drive.store hcount _ hindex with ⟨root, proof, hproof, hget⟩ |
      ⟨hfails, message, hget⟩
    · have hproofLeaf : proof.leaf = last := by
        unfold Primitives.mmrProof at hproof
        rw [hleaf] at hproof
        simp only [Option.bind_eq_bind, Option.bind_eq_some_iff] at hproof
        obtain ⟨_, -, items, -, hpair⟩ := hproof
        cases hpair
        rfl
      rw [hget]
      dsimp only
      by_cases hverify : verifyMmrProof blake2256 mmr proof (commitment.leafCount - 1) commitment = true
      · rw [if_pos hverify]
        refine ⟨_, .checked writer op retried seen seenCommits hlooking,
          htracks.goesOn (subset_refl _) rfl (.reading op seen _ earlier hbegins hseen ⟨?_, ?_⟩)⟩
        · intro hnone
          cases hnone
        · rintro _ _ ⟨⟩
          exact ⟨by omega, by rw [hproofLeaf]; exact hlast, hverify⟩
      · -- the proof of the leaves that were seen would have been accepted
        have hovertaken : seenCommits < files.commits := by
          refine lt_of_le_of_ne hcommits fun hequal ↦ hverify ?_
          have hleaves := hsame hequal
          rw [hleaves] at hleaf hproof hcount
          obtain ⟨items, hbuilt, haccepted⟩ := exists_mmrProof hmmr hcount hleaf hroot
          rw [hbuilt, Option.some.injEq, Option.some.injEq, Prod.mk.injEq] at hproof
          have hthis := haccepted commitment.startSeq
          rw [hproof.2, ← hleafCount] at hthis
          exact hthis
        rw [if_neg hverify]
        cases retried with
        | false =>
          exact ⟨_, .overtaken writer op seen seenCommits hlooking hovertaken,
            htracks.goesOn (subset_refl _) rfl (.waiting op true)⟩
        | true =>
          exact ⟨_, .overtakenAgain writer op seen seenCommits hlooking hovertaken,
            htracks.ends (subset_refl _) rfl⟩
    · rw [hget]
      exact ⟨_, .failed writer _ (by rw [hlooking]; exact Option.some_ne_none _) ⟨hfails, message, rfl⟩,
        htracks.ends (subset_refl _) rfl⟩

/-- A write that reads the directories works out what to make of the file system that it starts from. -/
theorem readDirectories_refines (hcount : (leaves drive.store).length ≤ maxRangeLeaves)
    (hfree : CollisionFree blake2256 (blobs drive.store)) {seen : FileSystem}
    {last : Option (Commitment × MmrProof)}
    (hreading : files.pending writer = some (.reading op seen))
    (hfollows : (WritePhase.atDirectories op last).Follows blake2256 mmr tree (blobs drive.store)
      (leaves drive.store) files.commits (.reading op seen)) :
    files.Simulates blake2256 mmr reliable tree blobs leaves (.advance writer)
      (drive.settle writer (tree.readDirectories blake2256 mmr op last drive.store, drive.store)) := by
  cases hfollows with
  | reading _ _ _ earlier hbegins hseen hlast =>
    have hrefines := changeOf_refines (hlast.reads h) (hbegins.length_le.trans hcount) hfree hseen op
    unfold StoredTree.readDirectories
    generalize (tree.recorded last).changeOf blake2256 mmr op drive.store = change at hrefines
    generalize hchange : seen.change blake2256 (tree.recorded last).bucketId op = expected at hrefines
    cases hrefines with
    | failed _ hfails =>
      exact ⟨_, .failed writer _ (by rw [hreading]; exact Option.some_ne_none _) hfails,
        htracks.ends (subset_refl _) rfl⟩
    | error error =>
      exact ⟨_, .refused writer op seen error hreading hchange, htracks.ends (subset_refl _) rfl⟩
    | @ok change done hyields =>
      exact ⟨_, .read writer op seen done hreading hchange, htracks.goesOn (subset_refl _) rfl
        (.writing _ done ⟨hyields, fun _ hitem ↦ .inr hitem, List.forall_mem_nil _⟩)⟩

omit htracks

/-- An open write that uploads a blob stays open, unless the store fails. -/
theorem OpenWrite.upload_spec (hfree : CollisionFree blake2256 known) {s : σ} (hstored : blobs s ⊆ known)
    {uploaded : List Cid} {blob : Bytes} {rest : List Bytes} {change : Change (Option FileStat)}
    {done : Option FileStat × FileSystem} (hblob : blob ∈ known)
    (hmakes : (OpenWrite.mk uploaded (blob :: rest) change).Makes blake2256 tree.bucketId (blobs s) done) :
    ∃ next s', (OpenWrite.mk uploaded (blob :: rest) change).advance blake2256 tree s = (next, s') ∧
      leaves s' = leaves s ∧ Adds blobs [blob] s s' ∧
      ((∃ write, next = .inl write ∧ write.Makes blake2256 tree.bucketId (blobs s') done) ∨
        ∃ error, StoreFails reliable error ∧ next = .inr (.error error)) := by
  have hitems : ∀ item ∈ [blob], item ∈ known := List.forall_mem_singleton.mpr hblob
  obtain ⟨result, s', hupload, hleaves, hadds, hresult⟩ :=
    uploadEach_spec h hfree hstored hitems hmakes.uploaded
  unfold OpenWrite.advance
  dsimp only
  rw [hupload]
  rcases hresult with ⟨rfl, hall⟩ | ⟨error, hfails, rfl⟩
  · refine ⟨_, s', rfl, hleaves, hadds, .inl ⟨_, rfl, ?_⟩⟩
    have hstoredBlob : blob ∈ blobs s' := hall blob (List.mem_singleton.mpr rfl)
    have hmakes' := hmakes.mono hadds.grows
    refine ⟨hmakes'.yields, fun item hitem ↦ ?_, fun cid hcid ↦ ?_⟩
    · rcases hmakes'.sent item hitem with hitem | hitem
      · exact .inl hitem
      · rcases List.mem_cons.mp hitem with rfl | hrest
        · exact .inl hstoredBlob
        · exact .inr hrest
    · rcases List.mem_insert_iff.mp hcid with rfl | hcid
      · exact ⟨blob, hstoredBlob, rfl⟩
      · exact hmakes'.uploaded cid hcid
  · exact ⟨_, s', rfl, hleaves, hadds, .inr ⟨error, hfails, rfl⟩⟩

/-- An open write that commits makes its file system the one that the drive holds. If the store fails, it may
have done so or not. -/
theorem OpenWrite.commit_spec {s : σ} {uploaded : List Cid} {change : Change (Option FileStat)}
    {done : Option FileStat × FileSystem}
    (hmakes : (OpenWrite.mk uploaded [] change).Makes blake2256 tree.bucketId (blobs s) done) :
    ∃ answer s', (OpenWrite.mk uploaded [] change).advance blake2256 tree s = (.inr answer, s') ∧
      blobs s' = blobs s ∧ leaves s <+: leaves s' ∧
      (leaves s').length ≤ (leaves s).length + (change.blobs ++ [change.root]).length ∧
      ((answer.map Prod.snd = .ok done.1 ∨ ∃ error, StoreFails reliable error ∧ answer = .error error) ∧
          Represents blake2256 tree.bucketId (blobs s') (leaves s') done.2 ∨
        (∃ error, StoreFails reliable error ∧ answer = .error error) ∧ leaves s' = leaves s) := by
  have hall : ∀ item ∈ change.blobs ++ [change.root], item ∈ blobs s := fun item hitem ↦
    (hmakes.sent item hitem).resolve_right List.not_mem_nil
  obtain ⟨result, s', hcommit, hblobs, hresult⟩ := commit_stored h hall
  unfold OpenWrite.advance
  dsimp only
  rw [hcommit]
  rcases hresult with ⟨hresult, added, hadded, hroots⟩ | ⟨⟨hfails, message, rfl⟩, hsame⟩
  · have hafter : Represents blake2256 tree.bucketId (blobs s') (leaves s') done.2 := by
      rw [hadded]
      exact (represents_of_commit _ hmakes.yields.root hblobs.ge (hblobs ▸ hall) hroots).2
    have hbegins : leaves s <+: leaves s' := ⟨added, hadded.symm⟩
    have hlength : (leaves s').length ≤ (leaves s).length + (change.blobs ++ [change.root]).length := by
      rw [hadded, List.length_append]
      exact Nat.add_le_add_left (length_added_le hroots) _
    rcases hresult with rfl | ⟨hfails, message, rfl⟩
    · have hstat : change.result = done.1 := hmakes.yields.result
      exact ⟨_, s', rfl, hblobs, hbegins, hlength, .inl ⟨.inl (congrArg Except.ok hstat), hafter⟩⟩
    · exact ⟨_, s', rfl, hblobs, hbegins, hlength, .inl ⟨.inr ⟨_, ⟨hfails, message, rfl⟩, rfl⟩, hafter⟩⟩
  · exact ⟨_, s', rfl, hblobs, hsame ▸ List.prefix_refl _,
      (congrArg List.length hsame).le.trans (Nat.le_add_right _ _),
      .inr ⟨⟨_, ⟨hfails, message, rfl⟩, rfl⟩, hsame⟩⟩

/-- What a step leaves of the store: blobs that are known, and as many leaves as it may have added. -/
structure SharedDrive.Bounded (drive drive' : SharedDrive σ ι) (blobs : σ → Set Bytes)
    (leaves : σ → List MmrLeaf) (known : Set Bytes) (committed : List Bytes) : Prop where
  stored : blobs drive'.store ⊆ known
  length_le : (leaves drive'.store).length ≤ (leaves drive.store).length + committed.length

/-- A write that uploads or commits makes its file system the current one with the commit. -/
theorem upload_refines (hfree : CollisionFree blake2256 known) (hstored : blobs drive.store ⊆ known)
    {writer : ι} (htracks : files.Tracks blake2256 mmr tree blobs leaves drive) {write : OpenWrite}
    (hsent : ∀ item ∈ write.rest.take 1, item ∈ known) {done : Option FileStat × FileSystem}
    (hwriting : files.pending writer = some (.writing done))
    (hmakes : write.Makes blake2256 tree.bucketId (blobs drive.store) done) :
    drive.Bounded (drive.settle writer ((WritePhase.atUpload write).advance blake2256 mmr tree drive.store)).2
        blobs leaves known (if write.rest = [] then write.change.blobs ++ [write.change.root] else []) ∧
      files.Simulates blake2256 mmr reliable tree blobs leaves (.advance writer)
        (drive.settle writer ((WritePhase.atUpload write).advance blake2256 mmr tree drive.store)) := by
  have hbusy : files.pending writer ≠ none := by
    rw [hwriting]
    exact Option.some_ne_none _
  obtain ⟨uploaded, rest, change⟩ := write
  unfold WritePhase.advance
  dsimp only
  cases rest with
  | cons blob rest =>
    obtain ⟨next, s', hnext, hleaves, hadds, hresult⟩ :=
      OpenWrite.upload_spec h hfree hstored (hsent blob List.mem_cons_self) hmakes
    have hstored' : blobs s' ⊆ known := hadds.within.trans (Set.union_subset hstored hsent)
    have hlength : (leaves s').length ≤ (leaves drive.store).length := (congrArg List.length hleaves).le
    rw [hnext]
    rcases hresult with ⟨write, rfl, hmakes'⟩ | ⟨error, hfails, rfl⟩
    · refine ⟨⟨hstored', hlength⟩, _, .uploaded writer done hwriting, ?_⟩
      have hsame : files = files.setPending writer (some (.writing done)) := by
        rw [SharedFiles.setPending, ← hwriting, Function.update_eq_self]
      rw [hsame]
      exact htracks.goesOn hadds.grows hleaves (.writing write done hmakes')
    · exact ⟨⟨hstored', hlength⟩, _, .failed writer error hbusy hfails, htracks.ends hadds.grows hleaves⟩
  | nil =>
    obtain ⟨answer, s', hnext, hblobs, hbegins, hlength, hresult⟩ := OpenWrite.commit_spec h hmakes
    have hstored' : blobs s' ⊆ known := hblobs.le.trans hstored
    rw [hnext]
    refine ⟨⟨hstored', hlength⟩, ?_⟩
    rcases hresult with ⟨hanswer | ⟨error, hfails, rfl⟩, hafter⟩ | ⟨⟨error, hfails, rfl⟩, hsame⟩
    · refine ⟨_, ?_, htracks.commits hblobs.ge hbegins hafter⟩
      change files.Step _ _ _ _ (some (answer.map Prod.snd)) _
      rw [hanswer]
      exact .committed writer done hwriting
    · exact ⟨_, .committedFailed writer done error hwriting hfails, htracks.commits hblobs.ge hbegins hafter⟩
    · exact ⟨_, .failed writer error hbusy hfails, htracks.ends hblobs.ge hsame⟩

/-- A writer that goes on makes its next request, as the file systems have it. -/
theorem advance_refines (hmmr : mmr.IsStandard) (hcount : (leaves drive.store).length ≤ maxRangeLeaves)
    (hfree : CollisionFree blake2256 known) (hstored : blobs drive.store ⊆ known) {writer : ι}
    (hsent : ∀ item ∈ drive.uploads (.advance writer), item ∈ known)
    (htracks : files.Tracks blake2256 mmr tree blobs leaves drive) :
    drive.Bounded (drive.advance blake2256 mmr tree writer).2 blobs leaves known
        (drive.commits (.advance writer)) ∧
      files.Simulates blake2256 mmr reliable tree blobs leaves (.advance writer)
        (drive.advance blake2256 mmr tree writer) := by
  have hsame : ∀ next : WritePhase ⊕ Except TreeError (Cid × Option FileStat),
      drive.Bounded (drive.settle writer (next, drive.store)).2 blobs leaves known [] := by
    intro next
    cases next with
    | inl phase => exact ⟨hstored, le_rfl⟩
    | inr answer => exact ⟨hstored, le_rfl⟩
  unfold SharedDrive.uploads at hsent
  unfold SharedDrive.advance SharedDrive.commits
  dsimp only at hsent ⊢
  rcases htracks.cases writer with ⟨hphase, hidle⟩ | ⟨phase, pending, hphase, hpending, hfollows⟩
  · rw [hphase]
    exact ⟨⟨hstored, le_rfl⟩, files, .idle writer hidle, htracks⟩
  · rw [hphase] at hsent ⊢
    cases hfollows with
    | waiting op retried => exact ⟨hsame _, askCommitment_refines h htracks hcount hpending⟩
    | looking op retried seen commits commitment earlier hne hbegins hseen hroot hleafCount hle hunchanged =>
      exact ⟨hsame _, askProof_refines h htracks hmmr hcount hpending
        (.looking op retried seen commits commitment earlier hne hbegins hseen hroot hleafCount hle
          hunchanged)⟩
    | reading op seen last earlier hbegins hseen hlast =>
      exact ⟨hsame _, readDirectories_refines h htracks hcount (hfree.mono hstored) hpending
        (.reading op seen last earlier hbegins hseen hlast)⟩
    | writing write done hmakes => exact upload_refines h hfree hstored htracks hsent hpending hmakes

/-- Every step does what it does to the file systems. -/
theorem run_refines (hmmr : mmr.IsStandard) (hfree : CollisionFree blake2256 known)
    {actions : List (WriterStep ι)} (hstored : blobs drive.store ⊆ known)
    (hsent : ∀ item ∈ SharedDrive.along blake2256 mmr tree SharedDrive.uploads actions drive, item ∈ known)
    (hcount : (leaves drive.store).length +
      (SharedDrive.along blake2256 mmr tree SharedDrive.commits actions drive).length ≤ maxRangeLeaves)
    (htracks : files.Tracks blake2256 mmr tree blobs leaves drive) :
    ∃ files', files.Run (StoreFails reliable) (.invalidMmrProof tree.bucketId.1)
        (FileSystem.change blake2256 tree.bucketId) actions
        ((SharedDrive.run blake2256 mmr tree actions drive).1.map (Option.map (Except.map Prod.snd))) files' ∧
      files'.Tracks blake2256 mmr tree blobs leaves (SharedDrive.run blake2256 mmr tree actions drive).2 := by
  induction actions generalizing drive files with
  | nil => exact ⟨files, .nil files, htracks⟩
  | cons action rest ih =>
    unfold SharedDrive.along at hsent hcount
    rw [List.forall_mem_append] at hsent
    rw [List.length_append, ← Nat.add_assoc] at hcount
    have hleaves : (leaves drive.store).length ≤ maxRangeLeaves :=
      (Nat.le_add_right _ _).trans ((Nat.le_add_right _ _).trans hcount)
    have hstep : drive.Bounded (drive.step blake2256 mmr tree action).2 blobs leaves known
          (drive.commits action) ∧
        files.Simulates blake2256 mmr reliable tree blobs leaves action
          (drive.step blake2256 mmr tree action) := by
      cases action with
      | start writer op =>
        obtain ⟨hstore, hstep⟩ :=
          @start_refines _ _ _ _ _ reliable _ _ _ _ _ htracks writer op
        refine ⟨⟨?_, ?_⟩, hstep⟩
        · exact (congrArg blobs hstore).le.trans hstored
        · exact (congrArg (fun s ↦ (leaves s).length) hstore).le
      | advance writer => exact advance_refines h hmmr hleaves hfree hstored hsent.1 htracks
    obtain ⟨⟨hstored', hlength⟩, files', hdone, htracks'⟩ := hstep
    obtain ⟨files'', hrest, htracks''⟩ :=
      ih hstored' hsent.2 ((Nat.add_le_add_right hlength _).trans hcount) htracks'
    exact ⟨files'', .cons hdone hrest, htracks''⟩

/-- **The last commit wins.** Whatever requests the writers of a bucket make in whatever order, each write is
answered as one that starts from the file system current when it read the commitment and replaces the current
one when it commits, or fails because the store does, or because others committed twice between its requests
for the commitment and the proof. The drive holds a whole file system after every step, the one that was
committed last. -/
theorem writers_refine (hmmr : mmr.IsStandard) (actions : List (WriterStep ι)) (s : σ) (fs : FileSystem)
    (hdrive : Represents blake2256 tree.bucketId (blobs s) (leaves s) fs)
    (hfree : CollisionFree blake2256 (blobs s ∪
      {item | item ∈ SharedDrive.along blake2256 mmr tree SharedDrive.uploads actions (.idle ι s)}))
    (hcount : (leaves s).length +
      (SharedDrive.along blake2256 mmr tree SharedDrive.commits actions (.idle ι s)).length ≤
        maxRangeLeaves) :
    ∃ answers drive' files', SharedDrive.run blake2256 mmr tree actions (.idle ι s) = (answers, drive') ∧
      SharedFiles.Run (StoreFails reliable) (.invalidMmrProof tree.bucketId.1)
        (FileSystem.change blake2256 tree.bucketId) (.idle ι fs) actions
        (answers.map (Option.map (Except.map Prod.snd))) files' ∧
      Represents blake2256 tree.bucketId (blobs drive'.store) (leaves drive'.store) files'.current := by
  have htracks : SharedFiles.Tracks blake2256 mmr tree blobs leaves (.idle ι s) (.idle ι fs) :=
    ⟨hdrive, fun _ ↦ iff_of_true rfl rfl, fun _ _ _ hnone ↦ by cases hnone⟩
  have hstored : blobs (SharedDrive.idle ι s).store ⊆ blobs s ∪
      {item | item ∈ SharedDrive.along blake2256 mmr tree SharedDrive.uploads actions (.idle ι s)} :=
    Set.subset_union_left
  obtain ⟨files', hrun, htracks'⟩ :=
    run_refines h hmmr hfree hstored (fun _ hitem ↦ .inr hitem) hcount htracks
  exact ⟨_, _, files', rfl, hrun, htracks'.holds⟩

end Refines

/-- Move the entry at a path of one letter to another one. -/
def renameLetter (source target : UInt8) : StoredTree.FsOp :=
  .rename [slash, source] [slash, target] testTime testTime

/-- The writer `true` looks at the drive twice, and each time the writer `false` moves a directory and
commits before the other asks for the proof. -/
def writerSteps : List (WriterStep Bool) :=
  let requests : List (WriterStep Bool) := List.replicate 5 (.advance false)
  [.start false mkdirSmall] ++ requests ++
    [.start true putSmall, .advance true, .start false (renameLetter 0x62 0x63)] ++ requests ++
    [.advance true, .advance true, .start false (renameLetter 0x63 0x64)] ++ requests ++ [.advance true]

theorem run_writerSteps :
    ((SharedDrive.along blake2b256 standardMmr MemoryStore.tree SharedDrive.uploads writerSteps
        (.idle Bool .new)).map (computeCid blake2b256)).Nodup ∧
      (SharedDrive.along blake2b256 standardMmr MemoryStore.tree SharedDrive.commits writerSteps
        (.idle Bool .new)).length = 4 ∧
      (SharedDrive.run blake2b256 standardMmr MemoryStore.tree writerSteps (.idle Bool .new)).1.getLast? =
        some (some (.error (.invalidMmrProof 7))) := by
  rw [blake2b256_eq]
  decide +kernel

/-- The write that others overtook twice is refused, and the drive holds what the others committed. -/
theorem writers_refine_small :
    (SharedDrive.run blake2b256 standardMmr MemoryStore.tree writerSteps (.idle Bool .new)).1.getLast? =
        some (some (.error (.invalidMmrProof 7))) ∧
      ∃ answers drive' files',
        SharedDrive.run blake2b256 standardMmr MemoryStore.tree writerSteps (.idle Bool .new) =
          (answers, drive') ∧
        SharedFiles.Run (StoreFails True) (.invalidMmrProof MemoryStore.tree.bucketId.1)
          (FileSystem.change blake2b256 MemoryStore.tree.bucketId) (.idle Bool .empty) writerSteps
          (answers.map (Option.map (Except.map Prod.snd))) files' ∧
        Represents blake2b256 MemoryStore.tree.bucketId {blob | blob ∈ drive'.store.blobs}
          drive'.store.leaves files'.current :=
  ⟨run_writerSteps.2.2, writers_refine MemoryStore.tree_serves standardMmr_isStandard writerSteps
    MemoryStore.new .empty (represents_empty _ _) (collisionFree_of_nodup run_writerSteps.1)
    (by rw [run_writerSteps.2.1]; decide)⟩

end Web3Storage.Formats
