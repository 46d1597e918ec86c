import Web3Storage.Formats.Drive

/-!
# All entries below a directory

`entriesUnder` walks the directories below one with a stack. What is on the stack is listed before what is
under it, each directory with everything below (`Walked`), so that the walk ends and every place below the
directory is listed exactly once: `entriesUnder_refines`. With the other reads, `drive_reads`: what a drive
answers is what the file system it represents holds.
-/

set_option autoImplicit false
set_option relaxedAutoImplicit false

namespace Web3Storage.Formats

open Foundations Primitives

/-- All entries below the directory at a path: one for each place where something stands, with the names
that lead to it. -/
structure FileSystem.ListsBelow (fs : FileSystem) (blake2256 : Bytes → H256)
    (items : List (List Bytes × DirectoryEntry)) : Prop where
  nodup : (items.map Prod.fst).Nodup
  valid : ∀ item ∈ items, ∀ name ∈ item.1, validateEntryName name = .ok ()
  shown : ∀ item ∈ items, ∃ dir node, item.1 = dir ++ [item.2.name.1] ∧ fs item.1 = some node ∧
    node.Shown blake2256 item.2
  complete : ∀ path, path ≠ [] → fs path ≠ none → ∃ item ∈ items, item.1 = path

/-- An entry with its path behind the path of a directory. -/
def render (dir : Bytes) (item : List Bytes × DirectoryEntry) : Bytes × DirectoryEntry :=
  (dir ++ List.intercalate [slash] item.1, item.2)

section Walk

variable {σ : Type} (blake2256 : Bytes → H256) (reliable : Prop) (tree : StoredTree σ) (s : σ)

/-- The walk lists the directories on top of the stack with everything below and goes on with the others,
or the store fails. -/
def Walked (stack : List (Bytes × DirectoryNode)) (listed : List (Bytes × DirectoryEntry) → Prop) : Prop :=
  ∃ steps, (∃ entries, listed entries ∧ ∀ more pending,
      tree.collectEntries blake2256 s (steps + more) (stack ++ pending) =
        (tree.collectEntries blake2256 s more pending).map fun later ↦ later.map (entries ++ ·)) ∨
    ∃ error, StoreFails reliable error ∧ ∀ more pending,
      tree.collectEntries blake2256 s (steps + more) (stack ++ pending) = some (.error error)

/-- The walk lists what is below a directory. -/
def WalksBelow (node : DirectoryNode) (fs : FileSystem) : Prop :=
  ∀ dir, Walked blake2256 reliable tree s [(dir, node)] fun entries ↦
    ∃ items, fs.ListsBelow blake2256 items ∧ entries = items.map (render dir)

variable {blake2256 reliable tree s}

theorem walked_nil : Walked blake2256 reliable tree s [] (· = []) := by
  refine ⟨0, .inl ⟨[], rfl, fun more pending ↦ ?_⟩⟩
  rw [Nat.zero_add, List.nil_append]
  cases tree.collectEntries blake2256 s more pending with
  | none => rfl
  | some later =>
    cases later with
    | error error => rfl
    | ok entries => rfl

/-- What is on top of the stack is listed first. -/
theorem Walked.append {stack stack' : List (Bytes × DirectoryNode)}
    {listed listed' : List (Bytes × DirectoryEntry) → Prop}
    (h : Walked blake2256 reliable tree s stack listed)
    (h' : Walked blake2256 reliable tree s stack' listed') :
    Walked blake2256 reliable tree s (stack ++ stack') fun entries ↦
      ∃ first later, listed first ∧ listed' later ∧ entries = first ++ later := by
  obtain ⟨steps, ⟨first, hfirst, hwalk⟩ | ⟨error, hfails, hwalk⟩⟩ := h
  · obtain ⟨steps', ⟨later, hlater, hwalk'⟩ | ⟨error, hfails, hwalk'⟩⟩ := h'
    · refine ⟨steps + steps',
        .inl ⟨first ++ later, ⟨first, later, hfirst, hlater, rfl⟩, fun more pending ↦ ?_⟩⟩
      rw [List.append_assoc, Nat.add_assoc, hwalk, hwalk', Option.map_map]
      congr 1
      funext result
      cases result with
      | error error => rfl
      | ok entries => exact congrArg _ (List.append_assoc _ _ _).symm
    · refine ⟨steps + steps', .inr ⟨error, hfails, fun more pending ↦ ?_⟩⟩
      rw [List.append_assoc, Nat.add_assoc, hwalk, hwalk']
      rfl
  · refine ⟨steps, .inr ⟨error, hfails, fun more pending ↦ ?_⟩⟩
    rw [List.append_assoc, hwalk]

theorem Walked.mono {stack : List (Bytes × DirectoryNode)}
    {listed listed' : List (Bytes × DirectoryEntry) → Prop}
    (h : Walked blake2256 reliable tree s stack listed)
    (hmono : ∀ entries, listed entries → listed' entries) :
    Walked blake2256 reliable tree s stack listed' := by
  obtain ⟨steps, ⟨entries, hlisted, hwalk⟩ | hfails⟩ := h
  · exact ⟨steps, .inl ⟨entries, hmono entries hlisted, hwalk⟩⟩
  · exact ⟨steps, .inr hfails⟩

/-! ### Below the directories of some names -/

/-- All entries below the directories of some names. -/
structure FileSystem.ListsUnder (fs : FileSystem) (blake2256 : Bytes → H256) (names : List Bytes)
    (items : List (List Bytes × DirectoryEntry)) : Prop where
  nodup : (items.map Prod.fst).Nodup
  valid : ∀ item ∈ items, ∀ name ∈ item.1, validateEntryName name = .ok ()
  shown : ∀ item ∈ items, ∃ dir node, item.1 = dir ++ [item.2.name.1] ∧ fs item.1 = some node ∧
    node.Shown blake2256 item.2
  within : ∀ item ∈ items, ∃ name ∈ names, ∃ rest, rest ≠ [] ∧ item.1 = name :: rest
  complete : ∀ name ∈ names, ∀ rest, rest ≠ [] → fs (name :: rest) ≠ none →
    ∃ item ∈ items, item.1 = name :: rest

theorem listsUnder_nil (fs : FileSystem) : fs.ListsUnder blake2256 [] [] where
  nodup := List.nodup_nil
  valid := List.forall_mem_nil _
  shown := List.forall_mem_nil _
  within := List.forall_mem_nil _
  complete := List.forall_mem_nil _

/-- An item below the directory of a name. -/
def behind (name : Bytes) (item : List Bytes × DirectoryEntry) : List Bytes × DirectoryEntry :=
  (name :: item.1, item.2)

theorem render_behind (dir name : Bytes) {item : List Bytes × DirectoryEntry} (h : item.1 ≠ []) :
    render dir (behind name item) = render (dir ++ name ++ [slash]) item := by
  obtain ⟨first, rest, hcons⟩ := List.exists_cons_of_ne_nil h
  unfold render behind
  rw [hcons, List.intercalate_cons_cons, List.append_assoc, List.append_assoc, List.append_assoc]

theorem FileSystem.ListsBelow.ne_nil {fs : FileSystem} {items : List (List Bytes × DirectoryEntry)}
    (h : fs.ListsBelow blake2256 items) {item : List Bytes × DirectoryEntry} (hitem : item ∈ items) :
    item.1 ≠ [] := by
  obtain ⟨dir, node, hpath, -⟩ := h.shown item hitem
  rw [hpath]
  exact List.append_ne_nil_of_right_ne_nil _ (List.cons_ne_nil _ _)

/-- What is below a first name before what is below other names. -/
theorem FileSystem.ListsBelow.cons {fs : FileSystem} {name : Bytes} {names : List Bytes}
    {first later : List (List Bytes × DirectoryEntry)}
    (h : FileSystem.ListsBelow (fs.below [name]) blake2256 first)
    (hlater : fs.ListsUnder blake2256 names later)
    (hvalid : validateEntryName name = .ok ()) (hnew : name ∉ names) :
    fs.ListsUnder blake2256 (name :: names) (first.map (behind name) ++ later) where
  nodup := by
    rw [List.map_append, List.map_map, List.nodup_append]
    refine ⟨?_, hlater.nodup, ?_⟩
    · have hmap : Prod.fst ∘ behind name = (name :: ·) ∘ Prod.fst := rfl
      rw [hmap, ← List.map_map]
      exact h.nodup.map fun _ _ hcons ↦ (List.cons.inj hcons).2
    · rintro path hfirst _ hlate rfl
      obtain ⟨item, -, rfl⟩ := List.mem_map.mp hfirst
      obtain ⟨other, hother, hpath⟩ := List.mem_map.mp hlate
      obtain ⟨name', hname', rest, -, hwithin⟩ := hlater.within other hother
      rw [hwithin] at hpath
      exact hnew ((List.cons.inj hpath).1 ▸ hname')
  valid := by
    rw [List.forall_mem_append, List.forall_mem_map]
    exact ⟨fun item hitem ↦ List.forall_mem_cons.mpr ⟨hvalid, h.valid item hitem⟩, hlater.valid⟩
  shown := by
    rw [List.forall_mem_append, List.forall_mem_map]
    refine ⟨fun item hitem ↦ ?_, hlater.shown⟩
    obtain ⟨dir, node, hpath, hnode, hshown⟩ := h.shown item hitem
    exact ⟨name :: dir, node, congrArg _ hpath, hnode, hshown⟩
  within := by
    rw [List.forall_mem_append, List.forall_mem_map]
    refine ⟨fun item hitem ↦ ⟨name, List.mem_cons_self, item.1, h.ne_nil hitem, rfl⟩, fun item hitem ↦ ?_⟩
    obtain ⟨name', hname', hrest⟩ := hlater.within item hitem
    exact ⟨name', List.mem_cons_of_mem _ hname', hrest⟩
  complete := by
    rw [List.forall_mem_cons]
    refine ⟨fun rest hne hsome ↦ ?_, fun name' hname' rest hne hsome ↦ ?_⟩
    · obtain ⟨item, hitem, rfl⟩ := h.complete rest hne hsome
      exact ⟨behind name item, List.mem_append_left _ (List.mem_map_of_mem hitem), rfl⟩
    · obtain ⟨item, hitem, hpath⟩ := hlater.complete name' hname' rest hne hsome
      exact ⟨item, List.mem_append_right _ hitem, hpath⟩

/-- Directories on the stack are listed with everything below. -/
theorem walked_subdirectories {fs : FileSystem} {children : List (Bytes × DirectoryNode)}
    (hvalid : ∀ child ∈ children, validateEntryName child.1 = .ok ())
    (hwalks : ∀ child ∈ children, WalksBelow blake2256 reliable tree s child.2 (fs.below [child.1]))
    (hnodup : (children.map Prod.fst).Nodup) (dir : Bytes) :
    Walked blake2256 reliable tree s (children.map fun child ↦ (dir ++ child.1 ++ [slash], child.2))
      fun entries ↦ ∃ items, fs.ListsUnder blake2256 (children.map Prod.fst) items ∧
        entries = items.map (render dir) := by
  induction children with
  | nil => exact walked_nil.mono fun entries hnil ↦ ⟨[], listsUnder_nil fs, hnil⟩
  | cons child children ih =>
    rw [List.forall_mem_cons] at hvalid hwalks
    rw [List.map_cons, List.nodup_cons] at hnodup
    refine ((hwalks.1 (dir ++ child.1 ++ [slash])).append (ih hvalid.2 hwalks.2 hnodup.2)).mono ?_
    rintro _ ⟨_, _, ⟨first, hfirst, rfl⟩, ⟨later, hlater, rfl⟩, rfl⟩
    refine ⟨_, hfirst.cons hlater hvalid.1 hnodup.1, ?_⟩
    rw [List.map_append, List.map_map]
    congr 1
    refine List.map_congr_left fun item hitem ↦ (render_behind dir child.1 (hfirst.ne_nil hitem)).symm

/-! ### The walk -/

/-- An entry that is a directory is read, and what is below it is listed. -/
def EntryWalks (blake2256 : Bytes → H256) (reliable : Prop) (tree : StoredTree σ) (s : σ)
    (blobs : Set Bytes) (found : Option DirectoryEntry) (fs : FileSystem) : Prop :=
  ∀ entry, found = some entry → entry.isDirectory = true → ∃ node : DirectoryNode,
    entry.cid = computeCid blake2256 node.toBlob ∧ node.toBlob ∈ blobs ∧ node.validate = .ok () ∧
      WalksBelow blake2256 reliable tree s node fs

section Reads

variable {mmr : MmrLibrary} {blobs : σ → Set Bytes} {leaves : σ → List MmrLeaf}
  (h : tree.Reads blake2256 mmr reliable blobs leaves)
  (hfree : CollisionFree blake2256 (blobs s))

include h hfree

/-- The directories among some entries are read, or the store fails. -/
theorem readSubdirectories_spec {fs : FileSystem} {entries : List DirectoryEntry}
    (hwalks : ∀ entry ∈ entries,
      EntryWalks blake2256 reliable tree s (blobs s) (some entry) (fs.below [entry.name.1])) (dir : Bytes) :
    (∃ children : List (Bytes × DirectoryNode),
      children.map Prod.fst = (entries.filter DirectoryEntry.isDirectory).map (·.name.1) ∧
      (∀ child ∈ children, WalksBelow blake2256 reliable tree s child.2 (fs.below [child.1])) ∧
      tree.readSubdirectories blake2256 s dir entries =
        .ok (children.map fun child ↦ (dir ++ child.1 ++ [slash], child.2))) ∨
    ∃ error, StoreFails reliable error ∧ tree.readSubdirectories blake2256 s dir entries = .error error := by
  induction entries with
  | nil => exact .inl ⟨[], rfl, List.forall_mem_nil _, rfl⟩
  | cons entry entries ih =>
    rw [List.forall_mem_cons] at hwalks
    unfold StoredTree.readSubdirectories
    dsimp only
    by_cases hdir : entry.isDirectory = true
    · rw [if_pos hdir, List.filter_cons_of_pos hdir]
      obtain ⟨node, hcid, hnode, hvalid, hbelow⟩ := hwalks.1 entry rfl hdir
      have hread := readDir_refines h hfree hnode hvalid (dir ++ entry.nameStr)
      rw [← hcid] at hread
      generalize tree.readDir blake2256 s (dir ++ entry.nameStr) entry.cid = found at hread
      cases hread with
      | failed _ hfails => exact .inr ⟨_, hfails, rfl⟩
      | ok hsame =>
        rcases ih hwalks.2 with ⟨children, hnames, hchildren, hrest⟩ | ⟨error, hfails, hrest⟩
        · refine .inl ⟨(entry.name.1, node) :: children, ?_, ?_, ?_⟩
          · rw [List.map_cons, List.map_cons, hnames]
          · exact List.forall_mem_cons.mpr ⟨hbelow, hchildren⟩
          · rw [hrest, hsame]
            rfl
        · refine .inr ⟨error, hfails, ?_⟩
          rw [hrest]
          rfl
    · rw [if_neg hdir, List.filter_cons_of_neg hdir]
      exact ih hwalks.2

omit h hfree in
/-- The entries of a directory and what is below the directories among them. -/
theorem listsBelow_of_entries {node : DirectoryNode} {fs : FileSystem} {bucketId : Word 8}
    {known : Set Bytes} (hvalid : node.validate = .ok ())
    (hholds : ∀ name, HoldsEntry blake2256 bucketId known (node.childMap.lookup name) (fs.below [name]))
    {names : List Bytes} {items : List (List Bytes × DirectoryEntry)}
    (hnames : ∀ entry ∈ node.children.1, entry.isDirectory = true → entry.name.1 ∈ names)
    (hitems : fs.ListsUnder blake2256 names items) :
    fs.ListsBelow blake2256 (node.children.1.map (fun entry ↦ ([entry.name.1], entry)) ++ items) := by
  have hsound := DirectoryNode.sound_of_validate hvalid
  constructor
  · rw [List.map_append, List.map_map, List.nodup_append]
    refine ⟨?_, hitems.nodup, ?_⟩
    · have hmap : (Prod.fst ∘ fun entry : DirectoryEntry ↦ ([entry.name.1], entry)) =
          (fun name ↦ [name]) ∘ fun entry ↦ entry.name.1 := rfl
      rw [hmap, ← List.map_map]
      exact hsound.unique.map fun _ _ hsame ↦ (List.cons.inj hsame).1
    · rintro path hentry _ hitem rfl
      obtain ⟨entry, -, rfl⟩ := List.mem_map.mp hentry
      obtain ⟨item, hitem, hpath⟩ := List.mem_map.mp hitem
      obtain ⟨name, -, rest, hne, hwithin⟩ := hitems.within item hitem
      rw [hwithin] at hpath
      exact hne (List.cons.inj hpath).2
  · rw [List.forall_mem_append, List.forall_mem_map]
    refine ⟨fun entry hentry ↦ ?_, hitems.valid⟩
    exact List.forall_mem_singleton.mpr (hsound.legal entry hentry)
  · rw [List.forall_mem_append, List.forall_mem_map]
    refine ⟨fun entry hentry ↦ ?_, hitems.shown⟩
    have hplace := hholds entry.name.1
    rw [(DirectoryNode.lookup_childMap hsound).mpr ⟨hentry, rfl⟩] at hplace
    obtain ⟨found, hfound, hshown⟩ := hplace.shown
    exact ⟨[], found, rfl, hfound, hshown⟩
  · intro path hne hsome
    obtain ⟨name, rest, rfl⟩ := List.exists_cons_of_ne_nil hne
    have hplace := hholds name
    generalize hfound : node.childMap.lookup name = found at hplace
    have hmem : ∀ entry, found = some entry → entry ∈ node.children.1 ∧ entry.name.1 = name := by
      rintro entry rfl
      exact (DirectoryNode.lookup_childMap hsound).mp hfound
    by_cases hnil : rest = []
    · subst hnil
      obtain ⟨entry, hentry⟩ := Option.ne_none_iff_exists'.mp fun hnone ↦ hsome (hplace.eq_none_iff.mp hnone)
      obtain ⟨hchild, hname⟩ := hmem entry hentry
      refine ⟨([entry.name.1], entry), List.mem_append_left _ (List.mem_map_of_mem hchild), ?_⟩
      rw [hname]
    · have hdirectory : ∃ entry, found = some entry ∧ entry.isDirectory = true := by
        generalize hpart : fs.below [name] = part at hplace
        have hbelow : part rest ≠ none := hpart ▸ hsome
        cases hplace with
        | missing => exact absurd rfl hbelow
        | file entry manifest data =>
          obtain ⟨first, rest, rfl⟩ := List.exists_cons_of_ne_nil hnil
          exact absurd rfl hbelow
        | directory entry node fs htype => exact ⟨entry, rfl, isDirectory_of_not_isFile htype⟩
      obtain ⟨entry, hentry, hdir⟩ := hdirectory
      obtain ⟨hchild, rfl⟩ := hmem entry hentry
      obtain ⟨item, hitem, hpath⟩ := hitems.complete _ (hnames entry hchild hdir) rest hnil hsome
      exact ⟨item, List.mem_append_right _ hitem, hpath⟩

/-- What is below a directory is listed if it is so for each of its entries. -/
theorem walksBelow_of_entries {node : DirectoryNode} {fs : FileSystem} {bucketId : Word 8} {known : Set Bytes}
    (hvalid : node.validate = .ok ())
    (hholds : ∀ name, HoldsEntry blake2256 bucketId known (node.childMap.lookup name) (fs.below [name]))
    (hwalks : ∀ name, EntryWalks blake2256 reliable tree s (blobs s) (node.childMap.lookup name)
      (fs.below [name])) : WalksBelow blake2256 reliable tree s node fs := by
  have hsound := DirectoryNode.sound_of_validate hvalid
  have hlookup : ∀ entry ∈ node.children.1, node.childMap.lookup entry.name.1 = some entry :=
    fun entry hentry ↦ (DirectoryNode.lookup_childMap hsound).mpr ⟨hentry, rfl⟩
  have hentries : ∀ entry ∈ node.children.1,
      EntryWalks blake2256 reliable tree s (blobs s) (some entry) (fs.below [entry.name.1]) := by
    intro entry hentry
    rw [← hlookup entry hentry]
    exact hwalks entry.name.1
  intro dir
  rcases readSubdirectories_spec h hfree hentries dir with
    ⟨children, hnames, hchildren, hread⟩ | ⟨error, hfails, hread⟩
  · have hnodup : ((node.children.1.filter DirectoryEntry.isDirectory).map (·.name.1)).Nodup :=
      hsound.unique.sublist (List.filter_sublist.map _)
    have hvalidNames : ∀ child ∈ children.reverse, validateEntryName child.1 = .ok () := by
      intro child hchild
      have hname : child.1 ∈ (node.children.1.filter DirectoryEntry.isDirectory).map (·.name.1) :=
        hnames ▸ List.mem_map_of_mem (List.mem_reverse.mp hchild)
      obtain ⟨entry, hentry, hsame⟩ := List.mem_map.mp hname
      rw [← hsame]
      exact hsound.legal entry (List.mem_of_mem_filter hentry)
    rw [← hnames, ← List.nodup_reverse, ← List.map_reverse] at hnodup
    obtain ⟨steps, hwalk⟩ := walked_subdirectories hvalidNames
      (fun child hchild ↦ hchildren child (List.mem_reverse.mp hchild)) hnodup dir
    have hstep : ∀ more pending,
        tree.collectEntries blake2256 s (steps + 1 + more) ([(dir, node)] ++ pending) =
        (tree.collectEntries blake2256 s (steps + more)
          (children.reverse.map (fun child ↦ (dir ++ child.1 ++ [slash], child.2)) ++ pending)).map
            fun later ↦ later.map (node.children.1.map (fun entry ↦ (dir ++ entry.nameStr, entry)) ++ ·) := by
      intro more pending
      rw [Nat.add_right_comm, List.singleton_append, StoredTree.collectEntries, hread, List.map_reverse]
    refine ⟨steps + 1, ?_⟩
    rcases hwalk with ⟨_, ⟨items, hitems, rfl⟩, hwalk⟩ | ⟨error, hfails, hwalk⟩
    · refine .inl ⟨_, ⟨_, listsBelow_of_entries hvalid hholds ?_ hitems, rfl⟩, fun more pending ↦ ?_⟩
      · intro entry hentry hdir
        rw [List.map_reverse, List.mem_reverse, hnames]
        exact List.mem_map_of_mem (List.mem_filter.mpr ⟨hentry, hdir⟩)
      · rw [hstep, hwalk, Option.map_map]
        congr 1
        funext result
        cases result with
        | error error => rfl
        | ok entries =>
          refine congrArg Except.ok ?_
          have hfirst : (render dir ∘ fun entry : DirectoryEntry ↦ ([entry.name.1], entry)) =
              fun entry ↦ (dir ++ entry.nameStr, entry) := by
            funext entry
            rw [Function.comp_apply, render, List.intercalate_singleton]
            rfl
          rw [List.map_append, List.map_map, hfirst]
          exact (List.append_assoc _ _ _).symm
    · refine .inr ⟨error, hfails, fun more pending ↦ ?_⟩
      rw [hstep, hwalk]
      rfl
  · refine ⟨1, .inr ⟨error, hfails, fun more pending ↦ ?_⟩⟩
    rw [Nat.add_comm, List.singleton_append, StoredTree.collectEntries, hread]

/-- What is below an entry is listed. -/
theorem HoldsEntry.walks {bucketId : Word 8} {found : Option DirectoryEntry} {fs : FileSystem}
    (hholds : HoldsEntry blake2256 bucketId (blobs s) found fs) :
    EntryWalks blake2256 reliable tree s (blobs s) found fs := by
  induction hholds with
  | missing =>
    intro entry hentry
    cases hentry
  | file entry manifest data htype =>
    intro other hother hdir
    cases hother
    rw [isDirectory_of_isFile htype] at hdir
    cases hdir
  | directory entry node fs htype hsize hcid hnode hvalid hbucket hself hchildren ih =>
    intro other hother _
    cases hother
    exact ⟨node, hcid, hnode, hvalid, walksBelow_of_entries h hfree hvalid hchildren ih⟩

/-- All entries below a directory are listed once each: enough steps list them all, unless the store
fails. -/
theorem entriesUnder_refines (hcount : (leaves s).length ≤ maxRangeLeaves)
    {fs : FileSystem} (hdrive : Represents blake2256 tree.bucketId (blobs s) (leaves s) fs) (path : Bytes) :
    ∃ steps result, (∀ more, tree.entriesUnder blake2256 mmr s (steps + more) path = some result) ∧
      Refines (StoreFails reliable)
        (fun entries names ↦ ∃ items, FileSystem.ListsBelow (fs.below names) blake2256 items ∧
          entries = items.map (render []))
        result (do
          let names ← (parsePath path).mapError .read
          fs.walk false [] names
          return names) := by
  have hstart : Refines (StoreFails reliable)
      (fun node names ↦ Holds blake2256 tree.bucketId (blobs s) node (fs.below names))
      (tree.startDir blake2256 mmr s path) (do
        let names ← (parsePath path).mapError .read
        fs.walk false [] names
        return names) := by
    unfold StoredTree.startDir
    refine Refines.bind_same _ fun names hnames ↦ ?_
    rw [mapError_eq_ok] at hnames
    obtain ⟨root, hroot, hload⟩ := loadRoot_refines h hcount hfree hdrive
    refine hload.bind_left ?_
    rintro _ rfl
    refine (dirChain_refines h hfree false hroot (valid_of_parsePath hnames)).bind fun chain _ hchain ↦ ?_
    obtain ⟨last, hlast, hholds⟩ := hchain.exists_last
    rw [hlast, List.getLast?_concat, require_some]
    exact .ok hholds
  unfold StoredTree.entriesUnder
  generalize tree.startDir blake2256 mmr s path = start at hstart
  generalize (do
    let names ← (parsePath path).mapError .read
    fs.walk false [] names
    return names : Except TreeError (List Bytes)) = expected at hstart ⊢
  cases hstart with
  | failed _ hfails => exact ⟨0, _, fun more ↦ rfl, .failed _ hfails⟩
  | error error => exact ⟨0, _, fun more ↦ rfl, .error error⟩
  | ok hholds =>
    obtain ⟨steps, hwalk⟩ := walksBelow_of_entries h hfree hholds.valid hholds.children
      (fun name ↦ (hholds.children name).walks h hfree) []
    rcases hwalk with ⟨entries, hlisted, hwalk⟩ | ⟨error, hfails, hwalk⟩
    · refine ⟨steps, .ok (entries ++ []), fun more ↦ ?_, .ok ?_⟩
      · have hmore := hwalk more []
        rw [List.append_nil] at hmore
        dsimp only
        rw [hmore]
        cases more with
        | zero => rfl
        | succ more => rfl
      · rw [List.append_nil]
        exact hlisted
    · refine ⟨steps, .error error, fun more ↦ ?_, .failed _ hfails⟩
      have hmore := hwalk more []
      rwa [List.append_nil] at hmore

end Reads

/-- **A drive is read as the file system it holds.** In a store that serves its bucket, every path is listed
and read as the file system has it, and the entries below it are listed once each, or the store fails. -/
theorem drive_reads {mmr : MmrLibrary} {blobs : σ → Set Bytes} {leaves : σ → List MmrLeaf}
    (h : tree.store.Serves blake2256 mmr tree.bucketId reliable blobs leaves)
    (hfree : CollisionFree blake2256 (blobs s)) (hmmr : mmr.IsStandard)
    (hcount : (leaves s).length ≤ maxRangeLeaves) {fs : FileSystem}
    (hdrive : Represents blake2256 tree.bucketId (blobs s) (leaves s) fs) (path : Bytes) :
    Refines (StoreFails reliable) (fun entries names ↦ fs.Lists blake2256 names entries)
        (tree.list blake2256 mmr s path) (do
          let names ← (parsePath path).mapError .read
          fs.walk false [] names
          return names) ∧
      Refines (StoreFails reliable) (fun stat read ↦ stat = read.1)
        (tree.stat blake2256 mmr s path) (fs.readFile blake2256 path) ∧
      Refines (StoreFails reliable) Eq (tree.getFile blake2256 mmr s path) (fs.readFile blake2256 path) ∧
      ∃ steps result, (∀ more, tree.entriesUnder blake2256 mmr s (steps + more) path = some result) ∧
        Refines (StoreFails reliable)
          (fun entries names ↦ ∃ items, FileSystem.ListsBelow (fs.below names) blake2256 items ∧
            entries = items.map (render []))
          result (do
            let names ← (parsePath path).mapError .read
            fs.walk false [] names
            return names) :=
  ⟨list_refines (h.reads hmmr) hcount hfree hdrive path,
    (stat_refines (h.reads hmmr) hcount hfree hdrive path).mono fun _ _ hread ↦ hread.1,
    getFile_refines (h.reads hmmr) hcount hfree hdrive path,
    entriesUnder_refines (h.reads hmmr) hfree hcount hdrive path⟩

end Walk

/-- The file of the tests is read as the file system after the writes has it. -/
theorem drive_reads_small :
    ∃ results s' fs',
      MemoryStore.tree.applyAll blake2b256 standardMmr [putSmall, mkdirSmall] MemoryStore.new =
        (results, s') ∧
      Represents blake2b256 MemoryStore.tree.bucketId {blob | blob ∈ s'.blobs} s'.leaves fs' ∧
      Refines (StoreFails True) Eq (MemoryStore.tree.getFile blake2b256 standardMmr s' [slash, 0x61])
        (fs'.readFile blake2b256 [slash, 0x61]) := by
  obtain ⟨hdistinct, hlength, -⟩ := writtenAll_small
  have hfree := collisionFree_of_nodup hdistinct
  have hcount : MemoryStore.new.leaves.length + (MemoryStore.tree.writtenAll blake2b256 standardMmr
      [putSmall, mkdirSmall] MemoryStore.new).length ≤ maxRangeLeaves := by
    rw [hlength]
    decide
  have hdrive : Represents blake2b256 MemoryStore.tree.bucketId {blob | blob ∈ MemoryStore.new.blobs}
      MemoryStore.new.leaves .empty := represents_empty _ _
  obtain ⟨results, s', fs', hall, hwrites, -, hdrive'⟩ := applyAll_spec MemoryStore.tree_serves
    standardMmr_isStandard hfree Set.subset_union_left (fun _ hitem ↦ .inr hitem) hcount hdrive
  refine ⟨results, s', fs', hall, hdrive', ?_⟩
  exact (drive_reads MemoryStore.tree_serves (hfree.mono hwrites.within) standardMmr_isStandard
    (hwrites.length_le.trans hcount) hdrive' [slash, 0x61]).2.2.1

end Web3Storage.Formats
