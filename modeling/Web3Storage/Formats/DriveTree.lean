import Web3Storage.Formats.FileSystem
import Web3Storage.Foundations.Refinement

/-!
# Directories that hold a file system

The blobs of a store make a directory hold a file system: each of its entries is a file whose manifest and
content are among them, or a directory that holds what is below (`HoldsEntry`). A write walks down a chain
of directories and changes the last one; the directories above are then out of date in the one entry that
leads on. `OpenChain` is such a chain, with the file system that it stands for once each directory has been
encoded again: `rewriteFrom_refines`.
-/

set_option autoImplicit false
set_option relaxedAutoImplicit false

namespace Web3Storage.Formats

open Foundations Primitives

section Trees

variable (blake2256 : Bytes → H256) (bucketId : Word 8)

/-- What stands at the place of an entry and below, when some blobs are stored. -/
inductive HoldsEntry (blobs : Set Bytes) : Option DirectoryEntry → FileSystem → Prop
  | missing : HoldsEntry blobs none .empty
  | file (entry : DirectoryEntry) (manifest : FileManifest) (data : Bytes)
      (htype : entry.isFile = true) (hcid : entry.cid = computeCid blake2256 manifest.toBlob)
      (hsize : entry.size = Word.ofNat 8 data.length) (hmanifest : manifest.toBlob ∈ blobs)
      (hdata : data ≠ [] → data ∈ blobs)
      (hdescribes : ∃ mimeType userMetadata,
        manifest.Describes blake2256 bucketId data mimeType userMetadata) :
      HoldsEntry blobs (some entry) (.single (.file entry.mtime manifest data))
  | directory (entry : DirectoryEntry) (node : DirectoryNode) (fs : FileSystem)
      (htype : entry.isFile = false) (hsize : entry.size.1 = 0)
      (hcid : entry.cid = computeCid blake2256 node.toBlob) (hnode : node.toBlob ∈ blobs)
      (hvalid : node.validate = .ok ()) (hbucket : node.bucketId = bucketId)
      (hself : fs [] = some (.directory entry.mtime))
      (hchildren : ∀ name, HoldsEntry blobs (node.childMap.lookup name) (fs.below [name])) :
      HoldsEntry blobs (some entry) fs

/-- A directory whose entries hold what is below their names. -/
structure Holds (blobs : Set Bytes) (node : DirectoryNode) (fs : FileSystem) : Prop where
  valid : node.validate = .ok ()
  bucket : node.bucketId = bucketId
  children : ∀ name, HoldsEntry blake2256 bucketId blobs (node.childMap.lookup name) (fs.below [name])

/-- The directories along some names, of which the last holds a part of a file system and the others
hold the rest of it, apart from the entry that leads on. -/
inductive OpenChain (blobs : Set Bytes) :
    List DirectoryNode → List Bytes → FileSystem → FileSystem → Prop
  | last (dir : DirectoryNode) (fs part : FileSystem) (hdir : Holds blake2256 bucketId blobs dir part) :
      OpenChain blobs [dir] [] fs part
  | above (dir : DirectoryNode) (name : Bytes) (chain : List DirectoryNode) (names : List Bytes)
      (fs part : FileSystem) (hvalid : dir.validate = .ok ()) (hbucket : dir.bucketId = bucketId)
      (hname : validateEntryName name = .ok ())
      (hpresent : dir.childMap.lookup name = none ↔ fs [name] = none)
      (hothers : ∀ other ≠ name,
        HoldsEntry blake2256 bucketId blobs (dir.childMap.lookup other) (fs.below [other]))
      (hrest : OpenChain blobs chain names (fs.below [name]) part) :
      OpenChain blobs (dir :: chain) (name :: names) fs part

end Trees

section Rules

variable {blake2256 : Bytes → H256} {bucketId : Word 8} {blobs blobs' : Set Bytes} {node dir : DirectoryNode}
  {fs part : FileSystem} {found : Option DirectoryEntry} {entry : DirectoryEntry} {name : Bytes}
  {names : List Bytes} {chain : List DirectoryNode}

/-! ### Entries -/

/-- More blobs hold the same. -/
theorem HoldsEntry.mono (h : HoldsEntry blake2256 bucketId blobs found fs) (hsub : blobs ⊆ blobs') :
    HoldsEntry blake2256 bucketId blobs' found fs := by
  induction h with
  | missing => exact .missing
  | file entry manifest data htype hcid hsize hmanifest hdata hdescribes =>
    exact .file entry manifest data htype hcid hsize (hsub hmanifest) (fun hne ↦ hsub (hdata hne))
      hdescribes
  | directory entry node fs htype hsize hcid hnode hvalid hbucket hself hchildren ih =>
    exact .directory entry node fs htype hsize hcid (hsub hnode) hvalid hbucket hself ih

theorem Holds.mono (h : Holds blake2256 bucketId blobs node fs) (hsub : blobs ⊆ blobs') :
    Holds blake2256 bucketId blobs' node fs :=
  ⟨h.valid, h.bucket, fun name ↦ (h.children name).mono hsub⟩

theorem OpenChain.mono (h : OpenChain blake2256 bucketId blobs chain names fs part) (hsub : blobs ⊆ blobs') :
    OpenChain blake2256 bucketId blobs' chain names fs part := by
  induction h with
  | last dir fs part hdir => exact .last dir fs part (hdir.mono hsub)
  | above dir name chain names fs part hvalid hbucket hname hpresent hothers hrest ih =>
    exact .above dir name chain names fs part hvalid hbucket hname hpresent
      (fun other hother ↦ (hothers other hother).mono hsub) ih

/-- There is an entry where something stands. -/
theorem HoldsEntry.eq_none_iff (h : HoldsEntry blake2256 bucketId blobs found fs) :
    found = none ↔ fs [] = none := by
  cases h with
  | missing => exact iff_of_true rfl rfl
  | file entry manifest data => exact iff_of_false (Option.some_ne_none _) (Option.some_ne_none _)
  | directory entry node fs htype hsize hcid hnode hvalid hbucket hself =>
    rw [hself]
    exact iff_of_false (Option.some_ne_none _) (Option.some_ne_none _)

/-- Nothing is below a place without an entry. -/
theorem HoldsEntry.eq_empty (h : HoldsEntry blake2256 bucketId blobs none fs) : fs = .empty := by
  cases h
  rfl

theorem Holds.lookup_eq_none_iff (h : Holds blake2256 bucketId blobs node fs) (name : Bytes) :
    node.childMap.lookup name = none ↔ fs [name] = none :=
  (h.children name).eq_none_iff

/-- What a directory holds is what stands under its names. -/
theorem Holds.congr {fs' : FileSystem} (h : Holds blake2256 bucketId blobs node fs)
    (hsame : ∀ name, fs'.below [name] = fs.below [name]) : Holds blake2256 bucketId blobs node fs' where
  valid := h.valid
  bucket := h.bucket
  children name := by
    rw [hsame]
    exact h.children name

/-- A directory without entries. -/
theorem holds_newEmpty :
    Holds blake2256 bucketId blobs (.newEmpty bucketId) .empty where
  valid := rfl
  bucket := rfl
  children _ := .missing

/-! ### Changing one entry -/

theorem DirectoryNode.sound_of_validate (h : node.validate = .ok ()) : node.Sound :=
  (DirectoryNode.validate_iff.mp h).1

/-- A sound directory is valid when the directories among its entries have no size. -/
theorem DirectoryNode.validate_of_lookup (hsound : node.Sound)
    (hsizes : ∀ name entry, node.childMap.lookup name = some entry → entry.isDirectory = true →
      entry.size.1 = 0) : node.validate = .ok () := by
  refine DirectoryNode.validate_iff.mpr ⟨hsound, fun entry hentry hdirectory ↦ ?_⟩
  exact hsizes entry.name.1 entry ((DirectoryNode.lookup_childMap hsound).mpr ⟨hentry, rfl⟩) hdirectory

theorem DirectoryNode.size_of_lookup (h : node.validate = .ok ()) {name : Bytes} {entry : DirectoryEntry}
    (hentry : node.childMap.lookup name = some entry) (hdirectory : entry.isDirectory = true) :
    entry.size.1 = 0 := by
  obtain ⟨hsound, hsizes⟩ := DirectoryNode.validate_iff.mp h
  exact hsizes entry ((DirectoryNode.lookup_childMap hsound).mp hentry).1 hdirectory

theorem DirectoryNode.name_of_lookup (h : node.validate = .ok ()) {name : Bytes} {entry : DirectoryEntry}
    (hentry : node.childMap.lookup name = some entry) : entry.name.1 = name :=
  ((DirectoryNode.lookup_childMap (sound_of_validate h)).mp hentry).2

theorem DirectoryNode.bucketId_upsertChild (node : DirectoryNode) (entry : DirectoryEntry) :
    (node.upsertChild entry).2.bucketId = node.bucketId := by
  unfold upsertChild
  split
  · rfl
  · split
    · rfl
    · rfl

/-- An entry is put into a directory that has room for it. -/
theorem DirectoryNode.upserted_of_hasRoom (h : node.validate = .ok ())
    (hname : validateEntryName entry.name.1 = .ok ())
    (hsize : entry.isDirectory = true → entry.size.1 = 0) (hroom : node.childMap.HasRoom entry.name.1)
    (path : Bytes) :
    ∃ node', node.upserted entry path = .ok node' ∧ node'.validate = .ok () ∧
      node'.childMap = node.childMap.insert entry.name.1 entry ∧ node'.bucketId = node.bucketId := by
  have hsound := sound_of_validate h
  obtain ⟨hreply, hmap⟩ := apply_spec hsound (.upsertChild entry)
  have hsound' : (node.apply (.upsertChild entry)).2.Sound := sound_apply hsound hname
  unfold DirectoryMap.apply at hreply hmap
  dsimp only at hreply hmap
  rw [if_pos hroom] at hreply hmap
  unfold apply at hreply hmap hsound'
  dsimp only at hreply hmap hsound'
  unfold upserted
  rcases hresult : node.upsertChild entry with ⟨result, node'⟩
  rw [hresult] at hreply hmap hsound'
  have hresult' : result = .ok () := DirectoryReply.upserted.inj hreply
  rw [hresult']
  change node'.childMap = _ at hmap
  have hbucket : node'.bucketId = node.bucketId := by
    rw [← bucketId_upsertChild node entry, hresult]
  refine ⟨node', rfl, validate_of_lookup hsound' fun name other hother hdirectory ↦ ?_, hmap, hbucket⟩
  rw [hmap] at hother
  by_cases hsame : name = entry.name.1
  · rw [hsame, Finmap.lookup_insert, Option.some.injEq] at hother
    rw [← hother] at hdirectory ⊢
    exact hsize hdirectory
  · rw [Finmap.lookup_insert_of_ne _ hsame] at hother
    exact size_of_lookup h hother hdirectory

/-- An entry is refused by a directory without room. -/
theorem DirectoryNode.upserted_of_not_hasRoom (h : node.validate = .ok ())
    (hroom : ¬ node.childMap.HasRoom entry.name.1) (path : Bytes) :
    node.upserted entry path = .error (.format path .directoryFull) := by
  have hreply := (apply_spec (sound_of_validate h) (.upsertChild entry)).1
  unfold DirectoryMap.apply apply at hreply
  dsimp only at hreply
  rw [if_neg hroom] at hreply
  unfold upserted
  rcases hresult : node.upsertChild entry with ⟨result, node'⟩
  rw [hresult] at hreply
  have hresult' : result = .error .directoryFull := DirectoryReply.upserted.inj hreply
  rw [hresult']

/-- What a name is removed from. -/
theorem DirectoryNode.removeChild_spec (h : node.validate = .ok ()) (name : Bytes) :
    (node.removeChild name).1 = node.childMap.lookup name ∧
      (node.removeChild name).2.validate = .ok () ∧
      (node.removeChild name).2.childMap = node.childMap.erase name := by
  have hsound := sound_of_validate h
  obtain ⟨hreply, hmap⟩ := apply_spec hsound (.removeChild name)
  have hsound' : (node.removeChild name).2.Sound := @sound_apply _ hsound (.removeChild name) trivial
  have hmap' : (node.removeChild name).2.childMap = node.childMap.erase name := hmap
  refine ⟨DirectoryReply.child.inj hreply, validate_of_lookup hsound' ?_, hmap'⟩
  intro other found hfound hdirectory
  rw [hmap', FiniteMap.lookup_erase_eq] at hfound
  split_ifs at hfound
  exact size_of_lookup h hfound hdirectory

/-- A directory after the entry of one name changed. -/
theorem Holds.changed (hvalid : dir.validate = .ok ()) (hbucket : dir.bucketId = bucketId)
    (hname : HoldsEntry blake2256 bucketId blobs (dir.childMap.lookup name) part)
    (hothers : ∀ other ≠ name,
      HoldsEntry blake2256 bucketId blobs (dir.childMap.lookup other) (fs.below [other])) :
    Holds blake2256 bucketId blobs dir (fs.graft [name] part) where
  valid := hvalid
  bucket := hbucket
  children other := by
    by_cases hsame : other = name
    · rw [hsame, PathMap.below_graft_same, PathMap.graft_nil]
      exact hname
    · rw [PathMap.below_graft_other hsame]
      exact hothers other hsame

/-- A directory that holds something, but for one entry that is put in. -/
theorem Holds.inserted {dir' : DirectoryNode} (hvalid : dir'.validate = .ok ())
    (hbucket : dir'.bucketId = bucketId)
    (hmap : dir'.childMap = dir.childMap.insert name entry)
    (hentry : HoldsEntry blake2256 bucketId blobs (some entry) part)
    (hothers : ∀ other ≠ name,
      HoldsEntry blake2256 bucketId blobs (dir.childMap.lookup other) (fs.below [other])) :
    Holds blake2256 bucketId blobs dir' (fs.graft [name] part) := by
  apply Holds.changed hvalid hbucket
  · rw [hmap, Finmap.lookup_insert]
    exact hentry
  · intro other hother
    rw [hmap, Finmap.lookup_insert_of_ne _ hother]
    exact hothers other hother

/-- A directory without one of its entries. -/
theorem Holds.removed {dir' : DirectoryNode} (hvalid : dir'.validate = .ok ())
    (hbucket : dir'.bucketId = bucketId)
    (hmap : dir'.childMap = dir.childMap.erase name)
    (hothers : ∀ other ≠ name,
      HoldsEntry blake2256 bucketId blobs (dir.childMap.lookup other) (fs.below [other])) :
    Holds blake2256 bucketId blobs dir' (fs.graft [name] .empty) := by
  apply Holds.changed hvalid hbucket
  · rw [hmap, FiniteMap.lookup_erase_eq, if_pos rfl]
    exact .missing
  · intro other hother
    rw [hmap, FiniteMap.lookup_erase_eq, if_neg hother]
    exact hothers other hother

/-! ### Room -/

/-- The names in a directory are those of its entries. -/
theorem ncard_namesIn (hvalid : dir.validate = .ok ())
    (hpresent : ∀ name, dir.childMap.lookup name = none ↔ fs [name] = none) :
    (fs.namesIn []).ncard = dir.children.1.length := by
  have hkeys : fs.namesIn [] = dir.childMap.keys := by
    ext name
    rw [Finset.mem_coe, Finmap.mem_keys, ← Finmap.lookup_isSome, Option.isSome_iff_ne_none, Ne, hpresent]
    rfl
  rw [hkeys, Set.ncard_coe_finset, DirectoryNode.childMap,
    card_keys_tableMap (DirectoryNode.sound_of_validate hvalid).sorted]

/-- A directory has room for a name when the file system has. -/
theorem hasRoom_iff (hvalid : dir.validate = .ok ())
    (hpresent : ∀ name, dir.childMap.lookup name = none ↔ fs [name] = none) (name : Bytes) :
    dir.childMap.HasRoom name ↔ name ∈ fs.namesIn [] ∨ (fs.namesIn []).ncard < maxDirectoryChildren := by
  unfold DirectoryMap.HasRoom
  rw [ncard_namesIn hvalid hpresent, DirectoryNode.childMap,
    card_keys_tableMap (DirectoryNode.sound_of_validate hvalid).sorted]
  refine or_congr_left ?_
  change name ∈ dir.childMap ↔ _
  rw [← Finmap.lookup_isSome, Option.isSome_iff_ne_none, Ne, hpresent]
  rfl

theorem FileSystem.hasRoomAlong_nil (fs : FileSystem) : fs.HasRoomAlong [] := by
  intro dir name rest hsplit
  exact absurd hsplit.symm (by simp)

/-- Room along a path is room in the first directory and along the rest. -/
theorem FileSystem.hasRoomAlong_cons (fs : FileSystem) (name : Bytes) (rest : List Bytes) :
    fs.HasRoomAlong (name :: rest) ↔
      (name ∈ fs.namesIn [] ∨ (fs.namesIn []).ncard < maxDirectoryChildren) ∧
        FileSystem.HasRoomAlong (fs.below [name]) rest := by
  constructor
  · intro h
    refine ⟨h [] name rest rfl, fun dir other after hsplit ↦ ?_⟩
    exact h (name :: dir) other after (congrArg (name :: ·) hsplit)
  · rintro ⟨hfirst, hrest⟩ dir other after hsplit
    cases dir with
    | nil =>
      obtain ⟨rfl, -⟩ := List.cons.inj hsplit
      exact hfirst
    | cons first dir =>
      rw [List.cons_append] at hsplit
      obtain ⟨rfl, htail⟩ := List.cons.inj hsplit
      exact hrest dir other after htail

/-! ### Chains -/

namespace OpenChain

theorem ne_nil (h : OpenChain blake2256 bucketId blobs chain names fs part) : chain ≠ [] := by
  cases h with
  | last => exact List.cons_ne_nil _ _
  | above => exact List.cons_ne_nil _ _

theorem length_eq (h : OpenChain blake2256 bucketId blobs chain names fs part) :
    chain.length = names.length + 1 := by
  induction h with
  | last => rfl
  | above dir name chain names fs part hvalid hbucket hname hpresent hothers hrest ih =>
    rw [List.length_cons, ih, List.length_cons]

/-- The last directory of a chain. -/
theorem exists_last (h : OpenChain blake2256 bucketId blobs chain names fs part) :
    ∃ last, chain = chain.dropLast ++ [last] ∧ Holds blake2256 bucketId blobs last part := by
  induction h with
  | last dir fs part hdir => exact ⟨dir, rfl, hdir⟩
  | above dir name chain names fs part hvalid hbucket hname hpresent hothers hrest ih =>
    obtain ⟨last, hlast, hholds⟩ := ih
    refine ⟨last, ?_, hholds⟩
    rw [List.dropLast_cons_of_ne_nil hrest.ne_nil, List.cons_append, ← hlast]

/-- Another directory in the last place. -/
theorem setLast (h : OpenChain blake2256 bucketId blobs chain names fs part) {last : DirectoryNode}
    {part' : FileSystem} (hlast : Holds blake2256 bucketId blobs last part') :
    OpenChain blake2256 bucketId blobs (chain.dropLast ++ [last]) names fs part' := by
  induction h with
  | last dir fs part hdir => exact .last last fs part' hlast
  | above dir name chain names fs part hvalid hbucket hname hpresent hothers hrest ih =>
    rw [List.dropLast_cons_of_ne_nil hrest.ne_nil, List.cons_append]
    exact .above dir name _ names fs part' hvalid hbucket hname hpresent hothers ih

/-- A chain that goes on from its last directory, in the file system that it stands for. -/
theorem append (h : OpenChain blake2256 bucketId blobs chain names fs part) {last : DirectoryNode}
    {below : List DirectoryNode} {names' : List Bytes} {part' : FileSystem}
    (hlast : chain = chain.dropLast ++ [last])
    (hself : names ≠ [] → (part [] = none ↔ fs names = none))
    (hbelow : OpenChain blake2256 bucketId blobs (last :: below) names' part part') :
    OpenChain blake2256 bucketId blobs (chain ++ below) (names ++ names') (fs.graft names part) part' := by
  induction h with
  | last dir fs part hdir =>
    obtain rfl : dir = last := by simpa using hlast
    rw [PathMap.graft_nil]
    exact hbelow
  | above dir name chain names fs part hvalid hbucket hname hpresent hothers hrest ih =>
    rw [List.dropLast_cons_of_ne_nil hrest.ne_nil, List.cons_append, List.cons.injEq] at hlast
    refine .above dir name _ _ _ part' hvalid hbucket hname ?_ (fun other hother ↦ ?_) ?_
    · have hgraft : (fs.graft (name :: names) part) [name] =
          (PathMap.graft (fs.below [name]) names part) [] := congrFun PathMap.below_graft_same []
      rw [hgraft, hpresent]
      by_cases hnames : names = []
      · rw [hnames, PathMap.graft_nil, hself (List.cons_ne_nil _ _), hnames]
      · rw [PathMap.graft_of_not_isPrefix fun hpre ↦ hnames (List.prefix_nil.mp hpre)]
        rfl
    · rw [PathMap.below_graft_other hother]
      exact hothers other hother
    · rw [PathMap.below_graft_same]
      exact ih hlast.2 (fun _ ↦ hself (List.cons_ne_nil _ _)) hbelow

/-- A chain in two parts: the rest of it is one below, and its first part may end in another directory. -/
theorem split {names' : List Bytes} (h : OpenChain blake2256 bucketId blobs chain (names ++ names') fs part) :
    ∃ upper dir below, chain = upper ++ dir :: below ∧ upper.length = names.length ∧
      OpenChain blake2256 bucketId blobs (dir :: below) names' (fs.below names) part ∧
      ∀ blobs' dir' part', blobs ⊆ blobs' → Holds blake2256 bucketId blobs' dir' part' →
        OpenChain blake2256 bucketId blobs' (upper ++ [dir']) names fs part' := by
  induction names generalizing chain fs with
  | nil =>
    obtain ⟨dir, below, rfl⟩ := List.exists_cons_of_ne_nil h.ne_nil
    exact ⟨[], dir, below, rfl, rfl, h, fun blobs' dir' part' _ hdir' ↦ .last dir' fs part' hdir'⟩
  | cons name names ih =>
    cases h with
    | above top _ chain _ _ _ hvalid hbucket hname hpresent hothers hrest =>
      obtain ⟨upper, dir, below, rfl, hlength, hbelow, hupper⟩ := ih hrest
      refine ⟨top :: upper, dir, below, rfl, ?_, hbelow, fun blobs' dir' part' hsub hdir' ↦ ?_⟩
      · rw [List.length_cons, hlength, List.length_cons]
      · exact .above top name _ names fs part' hvalid hbucket hname hpresent
          (fun other hother ↦ (hothers other hother).mono hsub) (hupper blobs' dir' part' hsub hdir')

end OpenChain

/-! ### Encoding a chain again -/

theorem DirectoryEntry.tryNew_of_valid (hname : validateEntryName name = .ok ()) (entryType : EntryType)
    (cid : Cid) (size mtime : Word 8) :
    ∃ entry, DirectoryEntry.tryNew name entryType cid size mtime = .ok entry ∧ entry.name.1 = name ∧
      entry.entryType = entryType ∧ entry.cid = cid ∧ entry.size = size ∧ entry.mtime = mtime := by
  have hlength : name.length ≤ maxEntryNameLength := by
    unfold validateEntryName at hname
    split_ifs at hname with hvalid
    exact hvalid.2.1
  refine ⟨⟨⟨name, hlength⟩, entryType, cid, size, mtime⟩, ?_, rfl, rfl, rfl, rfl, rfl⟩
  unfold DirectoryEntry.tryNew
  rw [hname, ok_bind, dif_pos hlength]
  rfl

/-- A directory is what its entry in its parent stands for. -/
theorem Holds.holdsEntry (h : Holds blake2256 bucketId blobs node part) (hnode : node.toBlob ∈ blobs)
    (htype : entry.entryType = .directory) (hsize : entry.size.1 = 0)
    (hcid : entry.cid = computeCid blake2256 node.toBlob)
    (hself : part [] = some (.directory entry.mtime)) :
    HoldsEntry blake2256 bucketId blobs (some entry) part := by
  have hfile : entry.isFile = false := by
    unfold DirectoryEntry.isFile
    rw [htype]
    rfl
  exact .directory entry node part hfile hsize hcid hnode h.valid h.bucket hself h.children

/-- A directory is put into its parent, or the parent is full. -/
theorem putDirectory_spec (hvalid : dir.validate = .ok ()) (hbucket : dir.bucketId = bucketId)
    (hname : validateEntryName name = .ok ())
    (hothers : ∀ other ≠ name,
      HoldsEntry blake2256 bucketId blobs (dir.childMap.lookup other) (fs.below [other]))
    (hnode : Holds blake2256 bucketId blobs node part) (hblob : node.toBlob ∈ blobs) {now : Word 8}
    (hself : part [] = some (.directory now)) (path : Bytes) :
    (dir.childMap.HasRoom name ∧
      ∃ dir', dir.putDirectory blake2256 name node.toBlob path now = .ok dir' ∧
        Holds blake2256 bucketId blobs dir' (fs.graft [name] part) ∧
        ∀ other ≠ name, dir'.childMap.lookup other = dir.childMap.lookup other) ∨
      ¬ dir.childMap.HasRoom name ∧
        dir.putDirectory blake2256 name node.toBlob path now = .error (.format path .directoryFull) := by
  obtain ⟨entry, hentry, rfl, htype, hcid, hsize, hmtime⟩ :=
    DirectoryEntry.tryNew_of_valid hname .directory (computeCid blake2256 node.toBlob) (Word.ofNat 8 0) now
  have hzero : entry.size.1 = 0 := by
    rw [hsize]
    rfl
  have hput : dir.putDirectory blake2256 entry.name.1 node.toBlob path now = dir.upserted entry path := by
    unfold DirectoryNode.putDirectory
    rw [hentry]
    rfl
  rw [hput]
  by_cases hroom : dir.childMap.HasRoom entry.name.1
  · left
    obtain ⟨dir', hdir', hvalid', hmap, hsame⟩ :=
      DirectoryNode.upserted_of_hasRoom hvalid hname (fun _ ↦ hzero) hroom path
    rw [← hmtime] at hself
    have hholds := Holds.inserted hvalid' (hsame.trans hbucket) hmap
      (hnode.holdsEntry hblob htype hzero hcid hself) hothers
    refine ⟨hroom, dir', hdir', hholds, fun other hother ↦ ?_⟩
    rw [hmap, Finmap.lookup_insert_of_ne _ hother]
  · right
    exact ⟨hroom, DirectoryNode.upserted_of_not_hasRoom hvalid hroom path⟩

/-- A chain is encoded again from its end: the root then holds the file system with the part in its place,
and every directory of the chain has the time of the write. It fails if a directory is full. Entries that
do not lead on stay as they are. -/
theorem rewriteFrom_spec {below : List DirectoryNode}
    (h : OpenChain blake2256 bucketId blobs (dir :: below) names fs part) (path : Bytes) (now : Word 8) :
    (fs.HasRoomAlong names ∧ ∃ root encoded,
      rewriteFrom blake2256 path now dir names below = .ok (root, encoded) ∧
        Holds blake2256 bucketId (blobs ∪ {blob | blob ∈ encoded}) root
          ((fs.graft names part).stamp names (.directory now)) ∧
        ∀ other, names.head? ≠ some other → HoldsEntry blake2256 bucketId blobs
          (root.childMap.lookup other) ((fs.graft names part).below [other])) ∨
      ¬ fs.HasRoomAlong names ∧
        rewriteFrom blake2256 path now dir names below = .error (.format path .directoryFull) := by
  induction names generalizing dir below fs with
  | nil =>
    cases h with
    | last _ _ _ hdir =>
      left
      rw [PathMap.graft_nil]
      refine ⟨fs.hasRoomAlong_nil, dir, [], rfl, ?_, fun other _ ↦ hdir.children other⟩
      exact (hdir.mono Set.subset_union_left).congr (PathMap.below_stamp_nil part _)
  | cons name names ih =>
    cases h with
    | above _ _ _ _ _ _ hvalid hbucket hname hpresent hothers hrest =>
      cases below with
      | nil => exact absurd rfl hrest.ne_nil
      | cons next below =>
        have hnames : ∀ other, dir.childMap.lookup other = none ↔ fs [other] = none := by
          intro other
          by_cases hsame : other = name
          · rw [hsame]
            exact hpresent
          · exact (hothers other hsame).eq_none_iff
        unfold rewriteFrom
        rw [FileSystem.hasRoomAlong_cons, ← hasRoom_iff hvalid hnames]
        rcases ih hrest with ⟨hroom, next', encoded, hnext, hholds, -⟩ | ⟨hroom, hnext⟩
        · rw [hnext, ok_bind]
          have hself : ((PathMap.graft (fs.below [name]) names part).stamp names (.directory now)) [] =
              some (.directory now) := PathMap.stamp_of_isPrefix List.nil_prefix
          have hsub : blobs ∪ {blob | blob ∈ encoded} ⊆
              blobs ∪ {blob | blob ∈ encoded ++ [next'.toBlob]} :=
            Set.union_subset_union_right _ fun blob hblob ↦ List.mem_append_left _ hblob
          have hblob : next'.toBlob ∈ blobs ∪ {blob | blob ∈ encoded ++ [next'.toBlob]} :=
            .inr (List.mem_append_right _ (List.mem_singleton.mpr rfl))
          have hput := putDirectory_spec hvalid hbucket hname
            (fun other hother ↦ (hothers other hother).mono (Set.subset_union_left.trans hsub))
            (hholds.mono hsub) hblob hself path
          rcases hput with ⟨hfits, dir', hdir', hholds', hsame⟩ | ⟨hfits, hfull⟩
          · left
            refine ⟨⟨hfits, hroom⟩, dir', encoded ++ [next'.toBlob], ?_, ?_, fun other hother ↦ ?_⟩
            · dsimp only
              rw [hdir']
              rfl
            · exact hholds'.congr (PathMap.below_stamp_graft fs part name names _)
            · have hne : other ≠ name := fun heq ↦ hother (congrArg some heq.symm)
              rw [hsame other hne, PathMap.below_graft_other hne]
              exact hothers other hne
          · right
            refine ⟨fun hboth ↦ hfits hboth.1, ?_⟩
            dsimp only
            rw [hfull]
            rfl
        · right
          rw [hnext]
          exact ⟨fun hboth ↦ hroom hboth.2, rfl⟩

/-- There is room along a path whose names are all there. -/
theorem FileSystem.hasRoomAlong_of_present
    (h : ∀ dir name rest, names = dir ++ name :: rest → fs (dir ++ [name]) ≠ none) :
    fs.HasRoomAlong names :=
  fun dir name rest hsplit ↦ .inl (h dir name rest hsplit)

/-- The lower part of a chain is encoded again when its directories are in place. -/
theorem rewriteBelow_spec {names' : List Bytes}
    (h : OpenChain blake2256 bucketId blobs chain (names ++ names') fs part)
    (hroom : FileSystem.HasRoomAlong (fs.below names) names') (path : Bytes) (now : Word 8) :
    ∃ upper dir encoded, rewriteBelow blake2256 chain (names ++ names') names.length path now =
        .ok (upper ++ [dir], encoded) ∧ upper.length = names.length ∧
      OpenChain blake2256 bucketId (blobs ∪ {blob | blob ∈ encoded}) (upper ++ [dir]) names fs
        ((PathMap.graft (fs.below names) names' part).stamp names' (.directory now)) ∧
      ∀ other, names'.head? ≠ some other → HoldsEntry blake2256 bucketId blobs
        (dir.childMap.lookup other) ((PathMap.graft (fs.below names) names' part).below [other]) := by
  obtain ⟨upper, dir, below, rfl, hlength, hbelow, hupper⟩ := h.split
  rcases rewriteFrom_spec hbelow path now with ⟨-, dir', encoded, hdir', hholds, hothers⟩ | ⟨hfull, -⟩
  · refine ⟨upper, dir', encoded, ?_, hlength, hupper _ dir' _ Set.subset_union_left hholds, hothers⟩
    unfold rewriteBelow
    rw [← hlength, List.drop_left, List.take_left, hlength, List.drop_left]
    dsimp only
    rw [hdir']
    rfl
  · exact absurd hroom hfull

/-- A whole chain is encoded again. -/
theorem rewrite_spec (h : OpenChain blake2256 bucketId blobs chain names fs part) (path : Bytes)
    (now : Word 8) :
    (fs.HasRoomAlong names ∧ ∃ encoded root,
      rewrite blake2256 chain names path now = .ok (encoded, root.toBlob) ∧
        Holds blake2256 bucketId (blobs ∪ {blob | blob ∈ encoded}) root
          ((fs.graft names part).stamp names (.directory now))) ∨
      ¬ fs.HasRoomAlong names ∧
        rewrite blake2256 chain names path now = .error (.format path .directoryFull) := by
  obtain ⟨dir, below, rfl⟩ := List.exists_cons_of_ne_nil h.ne_nil
  unfold rewrite
  dsimp only
  rcases rewriteFrom_spec h path now with ⟨hroom, root, encoded, hroot, hholds, -⟩ | ⟨hroom, hfull⟩
  · left
    refine ⟨hroom, encoded, root, ?_, hholds⟩
    rw [hroot]
    rfl
  · right
    rw [hfull]
    exact ⟨hroom, rfl⟩

end Rules

end Web3Storage.Formats
