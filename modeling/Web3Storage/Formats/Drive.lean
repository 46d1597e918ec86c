import Web3Storage.Formats.DriveWrites
import Web3Storage.Formats.MemoryStore

/-!
# A drive is a file system

A write uploads its blobs before it commits the identifier of its new root, so that the drive goes from
one whole file system to the next (`writeChange_spec`). `drive_refines` follows a run of writes: each is
answered as the file system answers it, or fails with the store and was then done or not, as a whole.
-/

set_option autoImplicit false
set_option relaxedAutoImplicit false

namespace Web3Storage.Formats

open Foundations Primitives

/-! ### Commit order -/

theorem mem_firstPlaces {seen cids : List Cid} {cid : Cid} (h : cid ∈ firstPlaces seen cids) :
    cid ∈ cids := by
  induction cids generalizing seen with
  | nil => exact h
  | cons first rest ih =>
    unfold firstPlaces at h
    split_ifs at h with hseen
    · exact List.mem_cons_of_mem _ (ih h)
    · rcases List.mem_cons.mp h with rfl | hrest
      · exact List.mem_cons_self
      · exact List.mem_cons_of_mem _ (ih hrest)

theorem length_firstPlaces_le (seen cids : List Cid) : (firstPlaces seen cids).length ≤ cids.length := by
  induction cids generalizing seen with
  | nil => exact le_rfl
  | cons cid rest ih =>
    unfold firstPlaces
    split_ifs
    · exact (ih seen).trans (Nat.le_succ _)
    · exact Nat.succ_le_succ (ih _)

/-- The root is committed last, and only what was uploaded is committed. -/
theorem commitOrder_concat (cids : List Cid) (root : Cid) :
    commitOrder (cids ++ [root]) = firstPlaces [root] cids ++ [root] := by
  unfold commitOrder
  rw [List.getLast?_concat, List.dropLast_concat]

section Stores

variable {σ : Type} {blake2256 : Bytes → H256} {mmr : MmrLibrary} {reliable : Prop} {tree : StoredTree σ}
  {blobs : σ → Set Bytes} {leaves : σ → List MmrLeaf}

/-- A store that was given blobs of a list. -/
structure Adds (blobs : σ → Set Bytes) (items : List Bytes) (s s' : σ) : Prop where
  grows : blobs s ⊆ blobs s'
  within : blobs s' ⊆ blobs s ∪ {item | item ∈ items}

theorem Adds.refl (items : List Bytes) (s : σ) : Adds blobs items s s :=
  ⟨subset_refl _, Set.subset_union_left⟩

theorem Adds.trans {items : List Bytes} {s s' s'' : σ} (h : Adds blobs items s s')
    (h' : Adds blobs items s' s'') : Adds blobs items s s'' :=
  ⟨h.grows.trans h'.grows, h'.within.trans (Set.union_subset h.within Set.subset_union_right)⟩

theorem Adds.mono {items items' : List Bytes} {s s' : σ} (h : Adds blobs items s s')
    (hsub : items ⊆ items') : Adds blobs items' s s' :=
  ⟨h.grows, h.within.trans (Set.union_subset_union_right _ fun _ hitem ↦ hsub hitem)⟩

theorem Adds.of_insert {item : Bytes} {items : List Bytes} (hitem : item ∈ items) {s s' : σ}
    (h : blobs s' = blobs s ∨ blobs s' = insert item (blobs s)) : Adds blobs items s s' := by
  rcases h with hblobs | hblobs
  · exact ⟨hblobs.ge, hblobs.le.trans Set.subset_union_left⟩
  · refine ⟨hblobs ▸ Set.subset_insert _ _, hblobs.le.trans ?_⟩
    exact Set.insert_subset (.inr hitem) Set.subset_union_left

/-- A store after a write of blobs of a list: its leaves were extended by at most one for each. -/
structure Writes (blobs : σ → Set Bytes) (leaves : σ → List MmrLeaf) (items : List Bytes) (s s' : σ) : Prop
    extends Adds blobs items s s' where
  extends_leaves : leaves s <+: leaves s'
  length_le : (leaves s').length ≤ (leaves s).length + items.length

theorem Writes.trans {items items' : List Bytes} {s s' s'' : σ} (h : Writes blobs leaves items s s')
    (h' : Writes blobs leaves items' s' s'') : Writes blobs leaves (items ++ items') s s'' := by
  refine ⟨(h.toAdds.mono (List.subset_append_left _ _)).trans (h'.toAdds.mono (List.subset_append_right _ _)),
    h.extends_leaves.trans h'.extends_leaves, h'.length_le.trans ?_⟩
  rw [List.length_append, ← Nat.add_assoc]
  exact Nat.add_le_add_right h.length_le _

theorem Writes.refl (items : List Bytes) (s : σ) : Writes blobs leaves items s s :=
  ⟨.refl items s, List.prefix_refl _, Nat.le_add_right _ _⟩

/-- A commit of stored blobs adds a leaf for each, the root last. If the store fails, it adds all or none. -/
theorem commit_stored (h : tree.store.Serves blake2256 mmr tree.bucketId reliable blobs leaves)
    {items : List Bytes} {root : Bytes} {s : σ} (hall : ∀ item ∈ items ++ [root], item ∈ blobs s) :
    ∃ result s', tree.store.commit tree.bucketId
        (commitOrder (items.map (computeCid blake2256) ++ [computeCid blake2256 root])) s = (result, s') ∧
      blobs s' = blobs s ∧
      (((result = .ok () ∨ ¬ reliable ∧ ∃ message, result = .error message) ∧
          ∃ added, leaves s' = leaves s ++ added ∧ added.map MmrLeaf.dataRoot =
            firstPlaces [computeCid blake2256 root] (items.map (computeCid blake2256)) ++
              [computeCid blake2256 root]) ∨
        (¬ reliable ∧ ∃ message, result = .error message) ∧ leaves s' = leaves s) := by
  rw [commitOrder_concat]
  have hcids : ∀ cid ∈ firstPlaces [computeCid blake2256 root] (items.map (computeCid blake2256)) ++
      [computeCid blake2256 root], cid ∈ computeCid blake2256 '' blobs s := by
    intro cid hcid
    rcases List.mem_append.mp hcid with hcid | hcid
    · obtain ⟨item, hitem, rfl⟩ := List.mem_map.mp (mem_firstPlaces hcid)
      exact ⟨item, hall item (List.mem_append_left _ hitem), rfl⟩
    · rw [List.mem_singleton.mp hcid]
      exact ⟨root, hall root (List.mem_append_right _ (List.mem_singleton.mpr rfl)), rfl⟩
  obtain ⟨hblobs, hcommit⟩ := h.commit_spec _ s hcids
  refine ⟨_, _, rfl, hblobs, ?_⟩
  rcases hcommit with ⟨hok, hadded⟩ | ⟨hfails, hsame | hadded⟩
  · exact .inl ⟨.inl hok, hadded⟩
  · exact .inr ⟨hfails, hsame⟩
  · exact .inl ⟨.inr hfails, hadded⟩

/-- After its root was committed the drive holds what a change yields. -/
theorem represents_of_commit {blake2256 : Bytes → H256} {bucketId : Word 8} {known known' : Set Bytes}
    {items : List Bytes} {root : Bytes} {fs : FileSystem} (earlier : List MmrLeaf) {added : List MmrLeaf}
    {cids : List Cid}
    (hroot : Roots blake2256 bucketId known items root fs) (hknown : known ⊆ known')
    (hall : ∀ item ∈ items ++ [root], item ∈ known')
    (hadded : added.map MmrLeaf.dataRoot = cids ++ [computeCid blake2256 root]) :
    (earlier ++ added).getLast?.map MmrLeaf.dataRoot = some (computeCid blake2256 root) ∧
      Represents blake2256 bucketId known' (earlier ++ added) fs := by
  obtain ⟨node, hnode, hholds⟩ := hroot
  have hne : added ≠ [] := by
    rintro rfl
    exact absurd hadded (by simp)
  have hlast : (earlier ++ added).getLast?.map MmrLeaf.dataRoot = some (computeCid blake2256 root) := by
    rw [List.getLast?_append_of_ne_nil _ hne, ← List.getLast?_map, hadded, List.getLast?_concat]
  refine ⟨hlast, ?_⟩
  obtain ⟨leaf, hleaf, hcid⟩ := Option.map_eq_some_iff.mp hlast
  have hsub : known ∪ {blob | blob ∈ items} ⊆ known' :=
    Set.union_subset hknown fun blob hblob ↦ hall blob (List.mem_append_left _ hblob)
  refine ⟨node, hholds.mono hsub, .inr ⟨leaf, hleaf, ?_, ?_⟩⟩
  · rw [hcid, hnode]
  · rw [← hnode]
    exact hall _ (List.mem_append_right _ (List.mem_singleton.mpr rfl))

/-- A commit adds at most one leaf for each blob of a change. -/
theorem length_added_le {items : List Bytes} {root : Bytes} {added : List MmrLeaf}
    (hadded : added.map MmrLeaf.dataRoot =
      firstPlaces [computeCid blake2256 root] (items.map (computeCid blake2256)) ++
        [computeCid blake2256 root]) :
    added.length ≤ (items ++ [root]).length := by
  have hmap : (added.map MmrLeaf.dataRoot).length = added.length := List.length_map _
  rw [← hmap, hadded, List.length_append, List.length_append, List.length_singleton, List.length_singleton]
  refine Nat.succ_le_succ ((length_firstPlaces_le _ _).trans ?_)
  rw [List.length_map]

variable (h : tree.store.Serves blake2256 mmr tree.bucketId reliable blobs leaves) {known : Set Bytes}
  (hfree : CollisionFree blake2256 known)

include h hfree

/-- Uploads add blobs of the list, all of them unless the store fails. -/
theorem uploadEach_spec {items : List Bytes} {uploaded : List Cid} {s : σ} (hstored : blobs s ⊆ known)
    (hitems : ∀ item ∈ items, item ∈ known)
    (huploaded : ∀ cid ∈ uploaded, cid ∈ computeCid blake2256 '' blobs s) :
    ∃ result s', tree.uploadEach blake2256 uploaded items s = (result, s') ∧ leaves s' = leaves s ∧
      Adds blobs items s s' ∧ ((result = .ok () ∧ ∀ item ∈ items, item ∈ blobs s') ∨
        ∃ error, StoreFails reliable error ∧ result = .error error) := by
  induction items generalizing uploaded s with
  | nil => exact ⟨_, s, rfl, rfl, .refl _ s, .inl ⟨rfl, List.forall_mem_nil _⟩⟩
  | cons item rest ih =>
    rw [List.forall_mem_cons] at hitems
    unfold StoredTree.uploadEach
    dsimp only
    by_cases hmem : computeCid blake2256 item ∈ uploaded
    · rw [if_pos hmem]
      obtain ⟨result, s', hrest, hleaves, hadds, hresult⟩ := ih hstored hitems.2 huploaded
      refine ⟨result, s', hrest, hleaves, hadds.mono (List.subset_cons_self _ _),
        hresult.imp_left fun hok ↦ ⟨hok.1, List.forall_mem_cons.mpr ⟨hadds.grows ?_, hok.2⟩⟩⟩
      obtain ⟨other, hother, hcid⟩ := huploaded _ hmem
      rwa [← hfree (hstored hother) hitems.1 hcid]
    · rw [if_neg hmem]
      obtain ⟨hleaves, hput⟩ := h.putBlob_spec item s
      rcases hstep : tree.store.putBlob tree.bucketId item s with ⟨result, s'⟩
      rw [hstep] at hleaves hput
      dsimp only at hleaves hput ⊢
      rcases hput with ⟨rfl, hblobs⟩ | ⟨⟨hfails, message, rfl⟩, hblobs⟩
      · have hstored' : blobs s' ⊆ known := by
          rw [hblobs]
          exact Set.insert_subset hitems.1 hstored
        have huploaded' : ∀ cid ∈ computeCid blake2256 item :: uploaded,
            cid ∈ computeCid blake2256 '' blobs s' := by
          rw [hblobs, List.forall_mem_cons]
          refine ⟨⟨item, Set.mem_insert _ _, rfl⟩, fun cid hcid ↦ ?_⟩
          exact Set.image_mono (Set.subset_insert _ _) (huploaded cid hcid)
        obtain ⟨result, s'', hrest, hleaves', hadds, hresult⟩ := ih hstored' hitems.2 huploaded'
        dsimp only
        rw [if_neg (not_not.mpr rfl)]
        have hfirst : Adds blobs (item :: rest) s s' := .of_insert List.mem_cons_self (.inr hblobs)
        refine ⟨result, s'', hrest, hleaves'.trans hleaves,
          hfirst.trans (hadds.mono (List.subset_cons_self _ _)),
          hresult.imp_left fun hok ↦ ⟨hok.1, List.forall_mem_cons.mpr ⟨hadds.grows ?_, hok.2⟩⟩⟩
        rw [hblobs]
        exact Set.mem_insert _ _
      · exact ⟨_, s', rfl, hleaves, .of_insert List.mem_cons_self hblobs,
          .inr ⟨_, ⟨hfails, message, rfl⟩, rfl⟩⟩

/-- A write commits its root last, after all its blobs are stored. If the store fails, everything was
committed or nothing. -/
theorem write_spec {items : List Bytes} {root : Bytes} {s : σ} (hstored : blobs s ⊆ known)
    (hitems : ∀ item ∈ items ++ [root], item ∈ known) :
    ∃ result s', tree.write blake2256 items root s = (result, s') ∧ Adds blobs (items ++ [root]) s s' ∧
      (((result = .ok (computeCid blake2256 root) ∨
            ∃ error, StoreFails reliable error ∧ result = .error error) ∧
          (∀ item ∈ items ++ [root], item ∈ blobs s') ∧
          ∃ added, leaves s' = leaves s ++ added ∧ added.map MmrLeaf.dataRoot =
            firstPlaces [computeCid blake2256 root] (items.map (computeCid blake2256)) ++
              [computeCid blake2256 root]) ∨
        (∃ error, StoreFails reliable error ∧ result = .error error) ∧ leaves s' = leaves s) := by
  have hnone : ∀ cid ∈ ([] : List Cid), cid ∈ computeCid blake2256 '' blobs s := List.forall_mem_nil _
  obtain ⟨result, s', hupload, hleaves, hadds, hresult⟩ :=
    uploadEach_spec h hfree hstored hitems hnone
  unfold StoredTree.write
  dsimp only
  rw [hupload]
  rcases hresult with ⟨rfl, hall⟩ | ⟨error, hfails, rfl⟩
  · obtain ⟨result, s'', hcommit, hblobs, hresult⟩ := commit_stored h hall
    dsimp only
    rw [hcommit]
    have hadds' : Adds blobs (items ++ [root]) s s'' := ⟨hblobs ▸ hadds.grows, hblobs ▸ hadds.within⟩
    have hall' : ∀ item ∈ items ++ [root], item ∈ blobs s'' := hblobs ▸ hall
    rcases hresult with ⟨rfl | ⟨hfails, message, rfl⟩, hadded⟩ | ⟨⟨hfails, message, rfl⟩, hsame⟩
    · exact ⟨_, s'', rfl, hadds', .inl ⟨.inl rfl, hall', hleaves ▸ hadded⟩⟩
    · exact ⟨_, s'', rfl, hadds', .inl ⟨.inr ⟨_, ⟨hfails, message, rfl⟩, rfl⟩, hall', hleaves ▸ hadded⟩⟩
    · exact ⟨_, s'', rfl, hadds', .inr ⟨⟨_, ⟨hfails, message, rfl⟩, rfl⟩, hsame.trans hleaves⟩⟩
  · exact ⟨_, s', rfl, hadds, .inr ⟨⟨error, hfails, rfl⟩, hleaves⟩⟩

end Stores

/-! ### One write -/

/-- A write puts, creates, deletes or moves as its own operation of the tree does. -/
theorem StoredTree.apply_eq {σ : Type} (blake2256 : Bytes → H256) (mmr : MmrLibrary) (tree : StoredTree σ)
    (s : σ) :
    (∀ path data contentType userMetadata entryTime dirTime,
      tree.apply blake2256 mmr (.putFile path data contentType userMetadata entryTime dirTime) s =
        (tree.putFile blake2256 mmr path data contentType userMetadata entryTime dirTime s).map
          (Except.map fun done ↦ (done.1, some done.2)) id) ∧
    (∀ path now, tree.apply blake2256 mmr (.mkdir path now) s =
      (tree.mkdir blake2256 mmr path now s).map (Except.map fun done ↦ (done.1, none)) id) ∧
    (∀ path emptyParents now, tree.apply blake2256 mmr (.delete path emptyParents now) s =
      (tree.delete blake2256 mmr path emptyParents now s).map (Except.map fun done ↦ (done.1, none)) id) ∧
    ∀ source target sourceTime targetTime,
      tree.apply blake2256 mmr (.rename source target sourceTime targetTime) s =
        (tree.rename blake2256 mmr source target sourceTime targetTime s).map
          (Except.map fun done ↦ (done.1, none)) id := by
  have hmap : ∀ (α : Type) (change : Except TreeError (Change α)) (f : α → Option FileStat),
      tree.writeChange blake2256 (change >>= fun change ↦ .ok (change.map f)) s =
        (tree.writeChange blake2256 change s).map (Except.map fun done ↦ (done.1, f done.2)) id := by
    intro α change f
    cases change with
    | error error => rfl
    | ok change =>
      unfold StoredTree.writeChange
      dsimp only [ok_bind, Change.map]
      rcases tree.write blake2256 change.blobs change.root s with ⟨result, s'⟩
      cases result with
      | error error => rfl
      | ok cid => rfl
  exact ⟨fun _ _ _ _ _ _ ↦ hmap _ _ _, fun _ _ ↦ hmap _ _ _, fun _ _ _ ↦ hmap _ _ _,
    fun _ _ _ _ ↦ hmap _ _ _⟩

/-- The blobs that a write is to upload. -/
def StoredTree.written {σ : Type} (blake2256 : Bytes → H256) (mmr : MmrLibrary) (tree : StoredTree σ)
    (op : StoredTree.FsOp) (s : σ) : List Bytes :=
  match tree.changeOf blake2256 mmr op s with
  | .error _ => []
  | .ok change => change.blobs ++ [change.root]

section Steps

variable {σ : Type} {blake2256 : Bytes → H256} {mmr : MmrLibrary} {reliable : Prop} {tree : StoredTree σ}
  {blobs : σ → Set Bytes} {leaves : σ → List MmrLeaf} {s : σ} {fs fs' : FileSystem}

theorem Represents.mono {blake2256 : Bytes → H256} {bucketId : Word 8} {known known' : Set Bytes}
    {leaves : List MmrLeaf} {fs : FileSystem} (h : Represents blake2256 bucketId known leaves fs)
    (hsub : known ⊆ known') : Represents blake2256 bucketId known' leaves fs := by
  obtain ⟨root, hroot, hlast⟩ := h
  refine ⟨root, hroot.mono hsub, hlast.imp_right ?_⟩
  rintro ⟨leaf, hleaf, hcid, hblob⟩
  exact ⟨leaf, hleaf, hcid, hsub hblob⟩

/-- Every write does what the file system says, whichever it is. -/
theorem changeOf_refines (h : tree.Reads blake2256 mmr reliable blobs leaves)
    (hcount : (leaves s).length ≤ maxRangeLeaves)
    (hfree : CollisionFree blake2256 (blobs s))
    (hdrive : Represents blake2256 tree.bucketId (blobs s) (leaves s) fs) (op : StoredTree.FsOp) :
    Refines (StoreFails reliable)
      (fun change done ↦ change.Yields blake2256 tree.bucketId (blobs s) done id)
      (tree.changeOf blake2256 mmr op s) (fs.change blake2256 tree.bucketId op) := by
  cases op with
  | putFile path data contentType userMetadata entryTime dirTime =>
    exact (putChange_refines h hcount hfree hdrive path data contentType userMetadata entryTime
      dirTime).map fun _ _ hyields ↦ ⟨hyields.root, hyields.result⟩
  | mkdir path now =>
    exact (mkdirChange_refines h hcount hfree hdrive path now).map fun _ _ hyields ↦
      ⟨hyields.root, hyields.result⟩
  | delete path emptyParents now =>
    exact (deleteChange_refines h hcount hfree hdrive path emptyParents now).map fun _ _ hyields ↦
      ⟨hyields.root, hyields.result⟩
  | rename source target sourceTime targetTime =>
    exact (renameChange_refines h hcount hfree hdrive source target sourceTime targetTime).map
      fun _ _ hyields ↦ ⟨hyields.root, hyields.result⟩

/-- The store after a change was to be written: the drive is what it was, or holds what the change yields.
It is the latter when the write returns. -/
theorem writeChange_spec (h : tree.store.Serves blake2256 mmr tree.bucketId reliable blobs leaves)
    {change : Change (Option FileStat)} {known : Set Bytes} (hfree : CollisionFree blake2256 known)
    (hstored : blobs s ⊆ known) (hwritten : ∀ item ∈ change.blobs ++ [change.root], item ∈ known)
    (hdrive : Represents blake2256 tree.bucketId (blobs s) (leaves s) fs)
    (hroot : Roots blake2256 tree.bucketId (blobs s) change.blobs change.root fs') :
    ∃ result s', tree.writeChange blake2256 (.ok change) s = (result, s') ∧
      Writes blobs leaves (change.blobs ++ [change.root]) s s' ∧
      ((∃ cid, result = .ok (cid, change.result) ∧
          (leaves s').getLast?.map MmrLeaf.dataRoot = some cid ∧
          Represents blake2256 tree.bucketId (blobs s') (leaves s') fs') ∨
        ∃ error, StoreFails reliable error ∧ result = .error error ∧
          (Represents blake2256 tree.bucketId (blobs s') (leaves s') fs ∨
            Represents blake2256 tree.bucketId (blobs s') (leaves s') fs')) := by
  obtain ⟨result, s', hwrite, hadds, hresult⟩ := write_spec h hfree hstored hwritten
  unfold StoredTree.writeChange
  dsimp only
  rw [hwrite]
  rcases hresult with ⟨hresult, hall, added, hadded, hroots⟩ | ⟨⟨error, hfails, rfl⟩, hsame⟩
  · obtain ⟨hlast, hafter⟩ := represents_of_commit (leaves s) hroot hadds.grows hall hroots
    rw [← hadded] at hlast hafter
    have hwrites : Writes blobs leaves (change.blobs ++ [change.root]) s s' := by
      refine ⟨hadds, ⟨added, hadded.symm⟩, ?_⟩
      rw [hadded, List.length_append]
      exact Nat.add_le_add_left (length_added_le hroots) _
    rcases hresult with rfl | ⟨error, hfails, rfl⟩
    · exact ⟨_, s', rfl, hwrites, .inl ⟨_, rfl, hlast, hafter⟩⟩
    · exact ⟨_, s', rfl, hwrites, .inr ⟨error, hfails, rfl, .inr hafter⟩⟩
  · refine ⟨_, s', rfl, ⟨hadds, ?_, ?_⟩, .inr ⟨error, hfails, rfl, .inl ?_⟩⟩
    · rw [hsame]
    · rw [hsame]
      exact Nat.le_add_right _ _
    · rw [hsame]
      exact hdrive.mono hadds.grows

/-- A write is answered as the file system answers it. The identifier that it returns is that of the last
leaf. -/
theorem apply_spec (h : tree.store.Serves blake2256 mmr tree.bucketId reliable blobs leaves)
    (hmmr : mmr.IsStandard) (hcount : (leaves s).length ≤ maxRangeLeaves) {op : StoredTree.FsOp}
    {known : Set Bytes} (hfree : CollisionFree blake2256 known) (hstored : blobs s ⊆ known)
    (hwritten : ∀ item ∈ tree.written blake2256 mmr op s, item ∈ known)
    (hdrive : Represents blake2256 tree.bucketId (blobs s) (leaves s) fs) :
    ∃ result s' fs', tree.apply blake2256 mmr op s = (result, s') ∧
      Writes blobs leaves (tree.written blake2256 mmr op s) s s' ∧
      Answers (StoreFails reliable) (FileSystem.change blake2256 tree.bucketId) fs op
        (result.map Prod.snd) fs' ∧
      (∀ cid stat, result = .ok (cid, stat) → (leaves s').getLast?.map MmrLeaf.dataRoot = some cid) ∧
      Represents blake2256 tree.bucketId (blobs s') (leaves s') fs' := by
  have hrefines := changeOf_refines (h.reads hmmr) hcount (hfree.mono hstored) hdrive op
  unfold StoredTree.apply StoredTree.written at *
  generalize tree.changeOf blake2256 mmr op s = change at hrefines hwritten ⊢
  generalize hchange : fs.change blake2256 tree.bucketId op = expected at hrefines
  cases hrefines with
  | failed _ hfails =>
    exact ⟨_, s, fs, rfl, .refl _ s, .failed _ fs hfails (.inl rfl),
      fun _ _ hok ↦ (by cases hok), hdrive⟩
  | error error =>
    exact ⟨_, s, fs, rfl, .refl _ s, .refused error hchange,
      fun _ _ hok ↦ (by cases hok), hdrive⟩
  | @ok change done hyields =>
    obtain ⟨stat, fs'⟩ := done
    obtain ⟨hroot, hstat⟩ := hyields
    obtain ⟨result, s', hwrite, hwrites, hresult⟩ :=
      writeChange_spec h hfree hstored hwritten hdrive hroot
    rcases hresult with ⟨cid, rfl, hlast, hafter⟩ | ⟨error, hfails, rfl, hbefore | hafter⟩
    · have hsame : change.result = stat := hstat
      refine ⟨_, s', fs', hwrite, hwrites, .done _ fs' (hsame ▸ hchange), ?_, hafter⟩
      intro cid' stat' hok
      cases hok
      exact hlast
    · exact ⟨_, s', fs, hwrite, hwrites, .failed error fs hfails (.inl rfl),
        fun _ _ hok ↦ (by cases hok), hbefore⟩
    · exact ⟨_, s', fs', hwrite, hwrites, .failed error fs' hfails (.inr ⟨stat, hchange⟩),
        fun _ _ hok ↦ (by cases hok), hafter⟩

end Steps

/-! ### Runs -/

/-- The blobs that a sequence of writes is to upload. -/
def StoredTree.writtenAll {σ : Type} (blake2256 : Bytes → H256) (mmr : MmrLibrary) (tree : StoredTree σ) :
    List StoredTree.FsOp → σ → List Bytes
  | [], _ => []
  | op :: ops, s =>
    tree.written blake2256 mmr op s ++ writtenAll blake2256 mmr tree ops (tree.apply blake2256 mmr op s).2

/-- The blobs of two writes of the tests, and their results. -/
theorem writtenAll_small :
    ((MemoryStore.tree.writtenAll blake2b256 standardMmr [putSmall, mkdirSmall] .new).map
        (computeCid blake2b256)).Nodup ∧
      (MemoryStore.tree.writtenAll blake2b256 standardMmr [putSmall, mkdirSmall] .new).length = 5 ∧
      (MemoryStore.tree.applyAll blake2b256 standardMmr [putSmall, mkdirSmall] .new).1.map Except.isOk =
        [true, true] := by
  rw [blake2b256_eq]
  decide +kernel

/-- Blobs of a list with different identifiers. -/
theorem collisionFree_of_nodup {blake2256 : Bytes → H256} {items : List Bytes}
    (h : (items.map (computeCid blake2256)).Nodup) :
    CollisionFree blake2256 ({blob | blob ∈ MemoryStore.new.blobs} ∪ {item | item ∈ items}) := by
  have hmem : ∀ item, item ∈ {blob | blob ∈ MemoryStore.new.blobs} ∪ {item | item ∈ items} →
      item ∈ items := by
    rintro item (hnew | hitem)
    · cases hnew
    · exact hitem
  exact fun first hfirst second hsecond ↦
    List.inj_on_of_nodup_map h (hmem first hfirst) (hmem second hsecond)

/-- The drive after a sequence of writes, and how they were answered. -/
theorem applyAll_spec {σ : Type} {blake2256 : Bytes → H256} {mmr : MmrLibrary} {reliable : Prop}
    {tree : StoredTree σ} {blobs : σ → Set Bytes} {leaves : σ → List MmrLeaf}
    (h : tree.store.Serves blake2256 mmr tree.bucketId reliable blobs leaves) (hmmr : mmr.IsStandard)
    {ops : List StoredTree.FsOp} {s : σ} {fs : FileSystem} {known : Set Bytes}
    (hfree : CollisionFree blake2256 known) (hstored : blobs s ⊆ known)
    (hwritten : ∀ item ∈ tree.writtenAll blake2256 mmr ops s, item ∈ known)
    (hcount : (leaves s).length + (tree.writtenAll blake2256 mmr ops s).length ≤ maxRangeLeaves)
    (hdrive : Represents blake2256 tree.bucketId (blobs s) (leaves s) fs) :
    ∃ results s' fs', tree.applyAll blake2256 mmr ops s = (results, s') ∧
      Writes blobs leaves (tree.writtenAll blake2256 mmr ops s) s s' ∧
      AnswersAll (StoreFails reliable) (FileSystem.change blake2256 tree.bucketId) fs ops
        (results.map (Except.map Prod.snd)) fs' ∧
      Represents blake2256 tree.bucketId (blobs s') (leaves s') fs' := by
  induction ops generalizing s fs with
  | nil => exact ⟨[], s, fs, rfl, .refl _ s, .nil fs, hdrive⟩
  | cons op ops ih =>
    unfold StoredTree.writtenAll at hwritten hcount ⊢
    rw [List.forall_mem_append] at hwritten
    rw [List.length_append] at hcount
    obtain ⟨result, s', fs', happly, hwrites, hanswers, -, hdrive'⟩ :=
      apply_spec h hmmr ((Nat.le_add_right _ _).trans hcount) hfree hstored hwritten.1 hdrive
    rw [happly] at hwritten hcount ⊢
    have hstored' : blobs s' ⊆ known := hwrites.within.trans (Set.union_subset hstored hwritten.1)
    have hcount' : (leaves s').length + (tree.writtenAll blake2256 mmr ops s').length ≤ maxRangeLeaves := by
      have hlength := hwrites.length_le
      dsimp only at hcount
      omega
    obtain ⟨results, s'', fs'', hall, hwrites', hanswersAll, hdrive''⟩ :=
      ih hstored' hwritten.2 hcount' hdrive'
    refine ⟨result :: results, s'', fs'', ?_, hwrites.trans hwrites', .cons hanswers hanswersAll, hdrive''⟩
    unfold StoredTree.applyAll
    rw [happly]
    dsimp only
    rw [hall]

/-- **A drive is a file system.** Any sequence of writes to a drive in a store that serves its bucket is
answered as the file system that the drive holds answers it: each write returns or refuses as described
there, or fails because the store does, and was then done as a whole or not at all. The drive holds the file
system after the writes. -/
theorem drive_refines {σ : Type} {blake2256 : Bytes → H256} {mmr : MmrLibrary} {reliable : Prop}
    {tree : StoredTree σ} {blobs : σ → Set Bytes} {leaves : σ → List MmrLeaf}
    (h : tree.store.Serves blake2256 mmr tree.bucketId reliable blobs leaves) (hmmr : mmr.IsStandard)
    (ops : List StoredTree.FsOp) (s : σ) (fs : FileSystem)
    (hdrive : Represents blake2256 tree.bucketId (blobs s) (leaves s) fs)
    (hfree : CollisionFree blake2256
      (blobs s ∪ {item | item ∈ tree.writtenAll blake2256 mmr ops s}))
    (hcount : (leaves s).length + (tree.writtenAll blake2256 mmr ops s).length ≤ maxRangeLeaves) :
    ∃ results s' fs', tree.applyAll blake2256 mmr ops s = (results, s') ∧
      AnswersAll (StoreFails reliable) (FileSystem.change blake2256 tree.bucketId) fs ops
        (results.map (Except.map Prod.snd)) fs' ∧
      Represents blake2256 tree.bucketId (blobs s') (leaves s') fs' := by
  obtain ⟨results, s', fs', hall, -, hanswers, hdrive'⟩ :=
    applyAll_spec h hmmr hfree Set.subset_union_left (fun _ hitem ↦ .inr hitem) hcount hdrive
  exact ⟨results, s', fs', hall, hanswers, hdrive'⟩

/-- Two writes of the tests on an empty drive. -/
theorem drive_refines_small :
    ∃ results s' fs',
      MemoryStore.tree.applyAll blake2b256 standardMmr [putSmall, mkdirSmall] MemoryStore.new =
        (results, s') ∧
      AnswersAll (StoreFails True) (FileSystem.change blake2b256 MemoryStore.tree.bucketId) .empty
        [putSmall, mkdirSmall] (results.map (Except.map Prod.snd)) fs' ∧
      Represents blake2b256 MemoryStore.tree.bucketId {blob | blob ∈ s'.blobs} s'.leaves fs' :=
  drive_refines MemoryStore.tree_serves standardMmr_isStandard _ MemoryStore.new .empty
    (represents_empty _ _) (collisionFree_of_nodup writtenAll_small.1)
    (by rw [writtenAll_small.2.1]; decide)

end Web3Storage.Formats
