import Web3Storage.Formats.DriveReads

/-!
# Writing a drive

A write reads the directories along its path, changes the last of them and encodes the chain again. What
it is to upload makes its root hold the file system after the write (`changeOf_refines`): a file is put by
`putEntry_refines`, a deletion takes its empty parents with it by `popEmpty_spec`, and a rename writes the
lower part of the chain of its source before it goes on to its target.
-/

set_option autoImplicit false
set_option relaxedAutoImplicit false

namespace Web3Storage.Formats

open Foundations Primitives

/-! ### Paths of a file system -/

namespace FileSystem

variable {fs fs' : FileSystem} {createMissing : Bool}

/-- Room along two parts of a path. -/
theorem hasRoomAlong_append (fs : FileSystem) (names names' : List Bytes) :
    fs.HasRoomAlong (names ++ names') ↔
      fs.HasRoomAlong names ∧ FileSystem.HasRoomAlong (fs.below names) names' := by
  induction names generalizing fs with
  | nil => exact (and_iff_right fs.hasRoomAlong_nil).symm
  | cons name names ih =>
    rw [List.cons_append, hasRoomAlong_cons, hasRoomAlong_cons, ih, and_assoc]
    rfl

/-- Room for a name in one directory. -/
theorem hasRoomAlong_singleton (fs : FileSystem) (name : Bytes) :
    fs.HasRoomAlong [name] ↔ name ∈ fs.namesIn [] ∨ (fs.namesIn []).ncard < maxDirectoryChildren := by
  rw [hasRoomAlong_cons]
  exact and_iff_left (hasRoomAlong_nil _)

/-- Room depends on where something stands only. -/
theorem hasRoomAlong_congr (h : ∀ path ≠ [], (fs path = none ↔ fs' path = none)) (names : List Bytes) :
    fs.HasRoomAlong names ↔ fs'.HasRoomAlong names := by
  have hnames : ∀ dir, fs.namesIn dir = fs'.namesIn dir := by
    intro dir
    apply Set.ext
    intro name
    exact not_congr (h _ (by simp))
  unfold HasRoomAlong
  simp only [hnames]

theorem walk_append (fs : FileSystem) (passed names names' : List Bytes) :
    fs.walk createMissing passed (names ++ names') = (do
      fs.walk createMissing passed names
      fs.walk createMissing (passed ++ names) names') := by
  induction names generalizing passed with
  | nil =>
    rw [List.nil_append, List.append_nil]
    rfl
  | cons name names ih =>
    rw [List.cons_append, walk, walk, ih, List.append_assoc, List.singleton_append]
    split
    · rfl
    · rfl
    · cases createMissing with
      | false => rfl
      | true => rfl

/-- A walk looks at the paths on its way only. -/
theorem walk_congr {passed : List Bytes} (names : List Bytes)
    (h : ∀ path, path ≠ [] → path <+: names → fs (passed ++ path) = fs' (passed ++ path)) :
    fs.walk createMissing passed names = fs'.walk createMissing passed names := by
  induction names generalizing passed with
  | nil => rfl
  | cons name names ih =>
    have hrest := @ih (passed ++ [name]) fun path hne hpath ↦ by
      rw [List.append_assoc]
      exact h ([name] ++ path) (by simp) (List.cons_prefix_cons.mpr ⟨rfl, hpath⟩)
    rw [walk, walk, hrest, h [name] (by simp) (by simp)]

/-- A walk passes where directories stand. -/
theorem walk_eq_ok_of_directory {passed names : List Bytes}
    (h : ∀ path, path ≠ [] → path <+: names → ∃ mtime, fs (passed ++ path) = some (.directory mtime)) :
    fs.walk createMissing passed names = .ok () := by
  induction names generalizing passed with
  | nil => rfl
  | cons name names ih =>
    obtain ⟨mtime, hdir⟩ := h [name] (by simp) (by simp)
    rw [walk, hdir]
    refine ih fun path hne hpath ↦ ?_
    rw [List.append_assoc]
    exact h ([name] ++ path) (by simp) (List.cons_prefix_cons.mpr ⟨rfl, hpath⟩)

/-- Directories stand all along the way of a walk that passed. -/
theorem exists_directory_of_walk {passed names : List Bytes} (h : fs.walk false passed names = .ok ())
    {path : List Bytes} (hne : path ≠ []) (hpath : path <+: names) :
    ∃ mtime, fs (passed ++ path) = some (.directory mtime) := by
  induction names generalizing passed path with
  | nil => exact absurd (List.prefix_nil.mp hpath) hne
  | cons name names ih =>
    obtain ⟨first, path, rfl⟩ := List.exists_cons_of_ne_nil hne
    obtain ⟨rfl, hrest⟩ := List.cons_prefix_cons.mp hpath
    rw [walk] at h
    split at h
    · rename_i mtime hdir
      by_cases hnil : path = []
      · rw [hnil]
        exact ⟨mtime, hdir⟩
      · obtain ⟨mtime', hmtime'⟩ := ih h hnil hrest
        rw [List.append_assoc] at hmtime'
        exact ⟨mtime', hmtime'⟩
    · cases h
    · cases h

/-- There is room along what was walked. -/
theorem hasRoomAlong_of_walk {names kept : List Bytes} (h : fs.walk false [] names = .ok ())
    (hkept : kept <+: names) : fs.HasRoomAlong kept := by
  refine hasRoomAlong_of_present fun dir name rest hsplit ↦ ?_
  have hpath : dir ++ [name] <+: names := by
    refine List.IsPrefix.trans ⟨rest, ?_⟩ hkept
    rw [List.append_assoc, hsplit]
    rfl
  obtain ⟨mtime, hmtime⟩ :=
    exists_directory_of_walk h (List.append_ne_nil_of_right_ne_nil dir (by simp)) hpath
  rw [List.nil_append] at hmtime
  rw [hmtime]
  exact Option.some_ne_none _

/-! ### Pruning -/

/-- What else is below a name. -/
theorem hasOther_cons (fs : FileSystem) (name : Bytes) (path names : List Bytes) :
    fs.HasOther (name :: path) (name :: names) ↔ FileSystem.HasOther (fs.below [name]) path names := by
  constructor
  · rintro ⟨other, hpath, hoff, hother⟩
    obtain ⟨rest, rfl⟩ := hpath
    refine ⟨path ++ rest, List.prefix_append _ _, fun hpre ↦ hoff ?_, hother⟩
    exact List.cons_prefix_cons.mpr ⟨rfl, hpre⟩
  · rintro ⟨other, hpath, hoff, hother⟩
    refine ⟨name :: other, List.cons_prefix_cons.mpr ⟨rfl, hpath⟩, fun hpre ↦ hoff ?_, hother⟩
    exact (List.cons_prefix_cons.mp hpre).2

theorem below_prune_same (fs : FileSystem) (name : Bytes) (names : List Bytes) (now : Word 8) :
    PathMap.below (fs.prune (name :: names) now) [name] =
      FileSystem.prune (fs.below [name]) names now := by
  funext path
  change (if name :: path <+: name :: names then _ else _) = if path <+: names then _ else _
  rw [List.singleton_append, hasOther_cons]
  by_cases hpath : path <+: names
  · rw [if_pos hpath, if_pos (List.cons_prefix_cons.mpr ⟨rfl, hpath⟩)]
  · rw [if_neg hpath, if_neg fun hpre ↦ hpath (List.cons_prefix_cons.mp hpre).2]
    rfl

theorem below_prune_other (fs : FileSystem) {name other : Bytes} (names : List Bytes) (now : Word 8)
    (h : other ≠ name) : PathMap.below (fs.prune (name :: names) now) [other] = fs.below [other] := by
  funext path
  exact if_neg fun hpre ↦ h (List.cons_prefix_cons.mp hpre).1

theorem below_prune_nil (fs : FileSystem) (name : Bytes) (now : Word 8) :
    PathMap.below (fs.prune [] now) [name] = fs.below [name] := by
  funext path
  have hpath : ¬ [name] ++ path <+: [] := fun hpre ↦
    absurd (List.prefix_nil.mp hpre) (List.cons_ne_nil _ _)
  unfold PathMap.below prune
  rw [if_neg hpath]

/-- A name that is left shows that something else is left. -/
theorem hasOther_of_prune_ne_none {names : List Bytes} {now : Word 8} {name : Bytes}
    (h : fs.prune names now [name] ≠ none) : fs.HasOther [] names := by
  unfold prune at h
  by_cases hpath : [name] <+: names
  · rw [if_pos hpath] at h
    by_cases hother : fs.HasOther [name] names
    · obtain ⟨other, -, hoff, hother⟩ := hother
      exact ⟨other, List.nil_prefix, hoff, hother⟩
    · rw [if_neg hother] at h
      exact absurd rfl h
  · rw [if_neg hpath] at h
    exact ⟨[name], List.nil_prefix, hpath, h⟩

/-- Where nothing else is, nothing is left. -/
theorem prune_eq_empty {names : List Bytes} {now : Word 8} (h : ¬ fs.HasOther [] names) :
    fs.prune names now = .empty := by
  funext path
  unfold prune
  by_cases hpath : path <+: names
  · rw [if_pos hpath, if_neg]
    · rfl
    · rintro ⟨other, -, hoff, hother⟩
      exact h ⟨other, List.nil_prefix, hoff, hother⟩
  · rw [if_neg hpath]
    by_contra hother
    exact h ⟨path, List.nil_prefix, hpath, hother⟩

/-- A file is removed with the directories that become empty when it is removed first and the directories
on the way to it are pruned. -/
theorem prune_graft_empty {parents all : List Bytes} {name : Bytes} (hall : parents ++ [name] = all)
    (h : ∀ rest, rest ≠ [] → fs (all ++ rest) = none) (now : Word 8) :
    FileSystem.prune (fs.graft all .empty) parents now = fs.prune all now := by
  subst hall
  have hbelow : ∀ path, parents ++ [name] <+: path → ¬ path <+: parents ++ [name] → fs path = none := by
    rintro _ ⟨rest, rfl⟩ hoff
    refine h rest fun hnil ↦ hoff ?_
    rw [hnil, List.append_nil]
  have hgraft : ∀ path, ¬ path <+: parents ++ [name] →
      PathMap.graft fs (parents ++ [name]) .empty path = fs path := by
    intro path hoff
    by_cases hpath : parents ++ [name] <+: path
    · rw [hbelow path hpath hoff]
      exact if_pos hpath
    · exact PathMap.graft_of_not_isPrefix hpath
  have hremoved : PathMap.graft fs (parents ++ [name]) .empty (parents ++ [name]) = none :=
    if_pos (List.prefix_refl _)
  have hsplit : ∀ path, path <+: parents ++ [name] ↔ path = parents ++ [name] ∨ path <+: parents := fun path ↦
    List.prefix_concat_iff
  have hother : ∀ path, FileSystem.HasOther (fs.graft (parents ++ [name]) .empty) path parents ↔
      fs.HasOther path (parents ++ [name]) := by
    intro path
    constructor
    · rintro ⟨other, hpath, hoff, hsome⟩
      have hout : ¬ other <+: parents ++ [name] := by
        rw [hsplit]
        rintro (rfl | hpre)
        · exact hsome hremoved
        · exact hoff hpre
      exact ⟨other, hpath, hout, hgraft other hout ▸ hsome⟩
    · rintro ⟨other, hpath, hout, hsome⟩
      refine ⟨other, hpath, fun hpre ↦ hout ((hsplit other).mpr (.inr hpre)), ?_⟩
      rw [hgraft other hout]
      exact hsome
  funext path
  unfold prune
  rw [hother]
  by_cases hpath : path <+: parents
  · rw [if_pos hpath, if_pos ((hsplit path).mpr (.inr hpath))]
  · rw [if_neg hpath]
    by_cases hsame : path = parents ++ [name]
    · rw [hsame, if_pos (List.prefix_refl _), hremoved, if_neg]
      rintro ⟨other, hpre, hoff, hsome⟩
      exact hsome (hbelow other hpre hoff)
    · have hout : ¬ path <+: parents ++ [name] := fun hpre ↦ ((hsplit path).mp hpre).elim hsame hpath
      rw [if_neg hout, hgraft path hout]

end FileSystem

section Rules

variable {blake2256 : Bytes → H256} {bucketId : Word 8} {known : Set Bytes} {mayFail : TreeError → Prop}
  {fs part : FileSystem} {chain : List DirectoryNode} {names : List Bytes} {last : DirectoryNode}

/-! ### Encoding a chain -/

/-- The file system that the root of some blobs holds. -/
def Roots (blake2256 : Bytes → H256) (bucketId : Word 8) (known : Set Bytes) (encoded : List Bytes)
    (root : Bytes) (fs : FileSystem) : Prop :=
  ∃ node : DirectoryNode, root = node.toBlob ∧
    Holds blake2256 bucketId (known ∪ {blob | blob ∈ encoded}) node fs

open Classical in
/-- A chain is encoded if there is room along its names. -/
theorem rewrite_refines {α β : Type} {related : α → β → Prop}
    {rest : List Bytes × Bytes → Except TreeError α} {other : Except TreeError β}
    (h : OpenChain blake2256 bucketId known chain names fs part) (path : Bytes) (now : Word 8)
    (hrest : ∀ encoded root,
      Roots blake2256 bucketId known encoded root ((fs.graft names part).stamp names (.directory now)) →
        Refines mayFail related (rest (encoded, root)) other) :
    Refines mayFail related (rewrite blake2256 chain names path now >>= rest)
      (ensure (fs.HasRoomAlong names) (.format path .directoryFull) >>= fun _ ↦ other) := by
  rcases rewrite_spec h path now with ⟨hroom, encoded, root, hroot, hholds⟩ | ⟨hroom, hfull⟩
  · rw [hroot, decide_eq_true hroom, ensure_true]
    exact hrest encoded root.toBlob ⟨root, rfl, hholds⟩
  · rw [hfull, decide_eq_false hroom]
    exact .error _

/-- A chain whose directories are all there is encoded. -/
theorem rewrite_refines_of_hasRoom {α β : Type} {related : α → β → Prop}
    {rest : List Bytes × Bytes → Except TreeError α} {other : Except TreeError β}
    (h : OpenChain blake2256 bucketId known chain names fs part) (hroom : fs.HasRoomAlong names)
    (path : Bytes) (now : Word 8)
    (hrest : ∀ encoded root,
      Roots blake2256 bucketId known encoded root ((fs.graft names part).stamp names (.directory now)) →
        Refines mayFail related (rest (encoded, root)) other) :
    Refines mayFail related (rewrite blake2256 chain names path now >>= rest) other := by
  rcases rewrite_spec h path now with ⟨-, encoded, root, hroot, hholds⟩ | ⟨hfull, -⟩
  · rw [hroot]
    exact hrest encoded root.toBlob ⟨root, rfl, hholds⟩
  · exact absurd hroom hfull

theorem HoldsEntry.size_eq_zero {entry : DirectoryEntry}
    (h : HoldsEntry blake2256 bucketId known (some entry) fs) (hdirectory : entry.isDirectory = true) :
    entry.size.1 = 0 := by
  cases h with
  | file _ manifest data htype =>
    rw [isDirectory_of_isFile htype] at hdirectory
    cases hdirectory
  | directory _ node _ htype hsize => exact hsize

open Classical in
/-- An entry is put into the last directory of a chain, which is then encoded, if there is room for the
entry and along the names. -/
theorem putEntry_refines {α β : Type} {related : α → β → Prop}
    {rest : List Bytes × Bytes → Except TreeError α} {other : Except TreeError β}
    (h : OpenChain blake2256 bucketId known chain names fs (fs.below names))
    (hlast : chain = chain.dropLast ++ [last]) {entry : DirectoryEntry} {all : List Bytes}
    (hall : names ++ [entry.name.1] = all) (hname : validateEntryName entry.name.1 = .ok ())
    (hentry : HoldsEntry blake2256 bucketId known (some entry) part) (path : Bytes) (now : Word 8)
    (hrest : ∀ encoded root,
      Roots blake2256 bucketId known encoded root ((fs.graft all part).stamp names (.directory now)) →
        Refines mayFail related (rest (encoded, root)) other) :
    Refines mayFail related (last.upserted entry path >>= fun parent ↦
        rewrite blake2256 (chain.dropLast ++ [parent]) names path now >>= rest)
      (ensure (fs.HasRoomAlong all) (.format path .directoryFull) >>= fun _ ↦ other) := by
  subst hall
  have hholds : Holds blake2256 bucketId known last (fs.below names) := by
    obtain ⟨last', hlast', hholds⟩ := h.exists_last
    rw [hlast, List.dropLast_concat, List.append_cancel_left_eq, List.cons.injEq] at hlast'
    rwa [hlast'.1]
  have hroomIff : fs.HasRoomAlong (names ++ [entry.name.1]) ↔
      last.childMap.HasRoom entry.name.1 ∧ fs.HasRoomAlong names := by
    rw [FileSystem.hasRoomAlong_append, FileSystem.hasRoomAlong_singleton,
      hasRoom_iff hholds.valid hholds.lookup_eq_none_iff, and_comm]
  by_cases hroom : last.childMap.HasRoom entry.name.1
  · obtain ⟨parent, hparent, hvalid, hmap, hbucket⟩ :=
      DirectoryNode.upserted_of_hasRoom hholds.valid hname hentry.size_eq_zero hroom path
    have hput : Holds blake2256 bucketId known parent
        (PathMap.graft (fs.below names) [entry.name.1] part) :=
      Holds.inserted hvalid (hbucket.trans hholds.bucket) hmap hentry fun name _ ↦ hholds.children name
    rw [hparent, ok_bind, decide_eq_decide.mpr (hroomIff.trans (and_iff_right hroom))]
    refine rewrite_refines (h.setLast hput) path now fun encoded root hroot ↦ ?_
    rw [← PathMap.graft_append] at hroot
    exact hrest encoded root hroot
  · rw [DirectoryNode.upserted_of_not_hasRoom hholds.valid hroom path,
      decide_eq_false fun hboth ↦ hroom (hroomIff.mp hboth).1]
    exact .error _

/-- An entry is a directory when the node at its place is. -/
theorem HoldsEntry.any_isDirectory {found : Option DirectoryEntry}
    (h : HoldsEntry blake2256 bucketId known found fs) :
    found.any DirectoryEntry.isDirectory = (fs []).any FsNode.isDirectory := by
  cases h with
  | missing => rfl
  | file entry manifest data htype => exact isDirectory_of_isFile htype
  | directory entry node _ htype hsize hcid hnode hvalid hbucket hself =>
    rw [hself]
    exact isDirectory_of_not_isFile htype

/-- Blobs whose root holds a file system, once they are stored with what is known. -/
structure Change.Yields {α : Type} (change : Change α) (blake2256 : Bytes → H256) (bucketId : Word 8)
    (known : Set Bytes) (result : Option FileStat × FileSystem) (stat : α → Option FileStat) : Prop where
  root : Roots blake2256 bucketId known change.blobs change.root result.2
  result : stat change.result = result.1

theorem Roots.mono {known' : Set Bytes} {encoded encoded' : List Bytes} {root : Bytes}
    (h : Roots blake2256 bucketId known encoded root fs)
    (hsub : known ∪ {blob | blob ∈ encoded} ⊆ known' ∪ {blob | blob ∈ encoded'}) :
    Roots blake2256 bucketId known' encoded' root fs := by
  obtain ⟨node, hroot, hholds⟩ := h
  exact ⟨node, hroot, hholds.mono hsub⟩

/-- What a root holds is what stands under its names. -/
theorem Roots.congr {fs' : FileSystem} {encoded : List Bytes} {root : Bytes}
    (h : Roots blake2256 bucketId known encoded root fs)
    (hsame : ∀ name, fs'.below [name] = fs.below [name]) :
    Roots blake2256 bucketId known encoded root fs' := by
  obtain ⟨node, hroot, hholds⟩ := h
  exact ⟨node, hroot, hholds.congr hsame⟩

/-- The directory of an entry is stored. -/
theorem HoldsEntry.exists_node {entry : DirectoryEntry}
    (h : HoldsEntry blake2256 bucketId known (some entry) fs) (hdirectory : entry.isDirectory = true) :
    ∃ node : DirectoryNode, entry.cid = computeCid blake2256 node.toBlob ∧ node.toBlob ∈ known ∧
      Holds blake2256 bucketId known node fs := by
  cases h with
  | file _ manifest data htype =>
    rw [isDirectory_of_isFile htype] at hdirectory
    cases hdirectory
  | directory _ node _ htype hsize hcid hnode hvalid hbucket hself hchildren =>
    exact ⟨node, hcid, hnode, hvalid, hbucket, hchildren⟩

/-- Nothing is below a file. -/
theorem HoldsEntry.eq_none_of_file {entry : DirectoryEntry}
    (h : HoldsEntry blake2256 bucketId known (some entry) fs) (hfile : entry.isDirectory = false)
    (path : List Bytes) (hne : path ≠ []) : fs path = none := by
  cases h with
  | file =>
    obtain ⟨name, path, rfl⟩ := List.exists_cons_of_ne_nil hne
    rfl
  | directory _ node _ htype =>
    rw [isDirectory_of_not_isFile htype] at hfile
    cases hfile

/-! ### Removing empty directories -/

theorem DirectoryNode.bucketId_removeChild (node : DirectoryNode) (name : Bytes) :
    (node.removeChild name).2.bucketId = node.bucketId := by
  unfold removeChild
  split
  · rfl
  · rfl

/-- A directory without one of its names. -/
theorem Holds.removeChild {dir : DirectoryNode} {name : Bytes} (hvalid : dir.validate = .ok ())
    (hbucket : dir.bucketId = bucketId)
    (hothers : ∀ other ≠ name,
      HoldsEntry blake2256 bucketId known (dir.childMap.lookup other) (fs.below [other])) :
    Holds blake2256 bucketId known (dir.removeChild name).2 (fs.graft [name] .empty) := by
  obtain ⟨-, hvalid', hmap⟩ := DirectoryNode.removeChild_spec hvalid name
  exact Holds.removed hvalid' ((dir.bucketId_removeChild name).trans hbucket) hmap hothers

/-- Nothing is below a directory without entries. -/
theorem Holds.eq_none_of_children (h : Holds blake2256 bucketId known last fs)
    (hempty : last.children.1 = []) (name : Bytes) (path : List Bytes) : fs ([name] ++ path) = none := by
  have hnone : last.childMap.lookup name = none := by
    rw [DirectoryNode.lookup_childMap_eq_none (DirectoryNode.sound_of_validate h.valid), hempty]
    exact List.forall_mem_nil _
  have hentry := h.children name
  rw [hnone] at hentry
  exact congrFun hentry.eq_empty path

/-- There is something at the name of an entry. -/
theorem Holds.ne_none_of_mem (h : Holds blake2256 bucketId known last fs) {entry : DirectoryEntry}
    (hentry : entry ∈ last.children.1) : fs [entry.name.1] ≠ none := by
  rw [Ne, ← h.lookup_eq_none_iff,
    (DirectoryNode.lookup_childMap (DirectoryNode.sound_of_validate h.valid)).mpr ⟨hentry, rfl⟩]
  exact Option.some_ne_none _

/-- A directory is empty when it has no entries. -/
theorem Holds.namesIn_eq_empty_iff (h : Holds blake2256 bucketId known last fs) :
    fs.namesIn [] = ∅ ↔ last.children.1 = [] := by
  rw [Set.eq_empty_iff_forall_notMem]
  constructor
  · intro hnone
    rw [List.eq_nil_iff_forall_not_mem]
    exact fun entry hentry ↦ hnone _ (h.ne_none_of_mem hentry)
  · intro hempty name hname
    exact hname (h.eq_none_of_children hempty name [])

/-- The directories that are empty are taken off a chain: the shorter chain stands for what pruning
leaves. -/
theorem popEmpty_spec {dir : DirectoryNode} {below : List DirectoryNode}
    (h : OpenChain blake2256 bucketId known (dir :: below) names fs part) (now : Word 8) :
    ∃ top rest kept part', StoredTree.popEmpty dir names below = (top :: rest, kept) ∧
      OpenChain blake2256 bucketId known (top :: rest) kept fs part' ∧ kept <+: names ∧
      ∀ name, PathMap.below ((fs.graft kept part').stamp kept (.directory now)) [name] =
        PathMap.below (FileSystem.prune (fs.graft names part) names now) [name] := by
  induction names generalizing dir below fs with
  | nil =>
    cases h with
    | last _ _ _ hdir =>
      refine ⟨dir, [], [], part, rfl, .last dir fs part hdir, List.nil_prefix, fun name ↦ ?_⟩
      rw [FileSystem.below_prune_nil, PathMap.below_stamp_nil]
  | cons name names ih =>
    cases h with
    | above _ _ _ _ _ _ hvalid hbucket hname hpresent hothers hrest =>
      cases below with
      | nil => exact absurd rfl hrest.ne_nil
      | cons next below =>
        obtain ⟨top, rest, kept, part', hpop, hopen, hkept, hsame⟩ := ih hrest
        have hbelow : PathMap.below (fs.graft (name :: names) part) [name] =
            PathMap.graft (fs.below [name]) names part := PathMap.below_graft_same
        -- the chain stays when something else is below
        have hstays : FileSystem.HasOther (PathMap.graft (fs.below [name]) names part) [] names →
            ∃ top' rest' kept' part'', (dir :: top :: rest, name :: kept) = (top' :: rest', kept') ∧
              OpenChain blake2256 bucketId known (top' :: rest') kept' fs part'' ∧
              kept' <+: name :: names ∧
              ∀ other, PathMap.below ((fs.graft kept' part'').stamp kept' (.directory now)) [other] =
                PathMap.below (FileSystem.prune (fs.graft (name :: names) part) (name :: names) now)
                  [other] := by
          intro hleft
          refine ⟨dir, top :: rest, name :: kept, part', rfl, ?_,
            List.cons_prefix_cons.mpr ⟨rfl, hkept⟩, fun other ↦ ?_⟩
          · exact .above dir name _ kept fs part' hvalid hbucket hname hpresent hothers hopen
          · by_cases hother : other = name
            · rw [hother, PathMap.below_stamp_same, PathMap.below_graft_same,
                FileSystem.below_prune_same, hbelow]
              funext path
              cases path with
              | nil =>
                rw [PathMap.stamp_of_isPrefix List.nil_prefix]
                unfold FileSystem.prune
                rw [if_pos List.nil_prefix, if_pos hleft]
              | cons first path => exact congrFun (hsame first) path
            · rw [FileSystem.below_prune_other _ _ _ hother, PathMap.below_graft_other hother,
                PathMap.below_stamp_other hother, PathMap.below_graft_other hother]
        unfold StoredTree.popEmpty
        rw [hpop]
        cases rest with
        | cons second rest =>
          apply hstays
          -- the first name of the rest is left
          cases kept with
          | nil => exact absurd hopen.length_eq (by simp)
          | cons first kept =>
            have hfirst := congrFun (hsame first) []
            rw [PathMap.below_stamp_same, PathMap.stamp_of_isPrefix List.nil_prefix] at hfirst
            have hleft : FileSystem.prune (PathMap.graft (fs.below [name]) names part) names now [first] ≠
                none := fun hnone ↦ Option.some_ne_none _ (hfirst.trans hnone)
            exact FileSystem.hasOther_of_prune_ne_none hleft
        | nil =>
          have hnil : kept = [] := by
            have hlength := hopen.length_eq
            exact List.length_eq_zero_iff.mp (by simpa using hlength.symm)
          subst hnil
          have htop : Holds blake2256 bucketId known top part' := by
            cases hopen with
            | last _ _ _ hdir => exact hdir
          have hpart : ∀ other, PathMap.below part' [other] = PathMap.below
              (FileSystem.prune (PathMap.graft (fs.below [name]) names part) names now) [other] := by
            intro other
            rw [← hsame other, PathMap.graft_nil, PathMap.below_stamp_nil]
          dsimp only
          by_cases hempty : top.children.1 = []
          · rw [if_pos hempty]
            have hnone : ¬ FileSystem.HasOther (PathMap.graft (fs.below [name]) names part) [] names := by
              rintro ⟨other, -, hoff, hother⟩
              cases other with
              | nil => exact hoff List.nil_prefix
              | cons first path =>
                have hfirst := congrFun (hpart first) path
                rw [PathMap.below, htop.eq_none_of_children hempty first path] at hfirst
                exact hother (((if_neg hoff).symm.trans hfirst.symm))
            refine ⟨_, [], [], fs.graft [name] .empty, rfl,
              .last _ _ _ (Holds.removeChild hvalid hbucket hothers), List.nil_prefix, fun other ↦ ?_⟩
            rw [PathMap.graft_nil, PathMap.below_stamp_nil]
            by_cases hother : other = name
            · rw [hother, PathMap.below_graft_same, PathMap.graft_nil, FileSystem.below_prune_same, hbelow,
                FileSystem.prune_eq_empty hnone]
            · rw [PathMap.below_graft_other hother, FileSystem.below_prune_other _ _ _ hother,
                PathMap.below_graft_other hother]
          · rw [if_neg hempty]
            apply hstays
            obtain ⟨child, hchild⟩ := List.exists_mem_of_ne_nil _ hempty
            have hfirst := congrFun (hpart child.name.1) []
            have hleft : FileSystem.prune (PathMap.graft (fs.below [name]) names part) names now
                [child.name.1] ≠ none := fun hnone ↦
              htop.ne_none_of_mem hchild (hfirst.trans hnone)
            exact FileSystem.hasOther_of_prune_ne_none hleft

/-! ### Moving -/

/-- Two paths have their common names in front, and go on with different ones. -/
theorem commonNames_spec (first second : List Bytes) :
    ∃ common rest rest', first = common ++ rest ∧ second = common ++ rest' ∧
      StoredTree.commonNames first second = common.length ∧
      ∀ name, rest'.head? = some name → rest.head? ≠ some name := by
  induction first generalizing second with
  | nil => exact ⟨[], [], second, rfl, rfl, rfl, fun _ _ ↦ by simp⟩
  | cons name first ih =>
    cases second with
    | nil => exact ⟨[], name :: first, [], rfl, rfl, rfl, fun _ hnone ↦ by cases hnone⟩
    | cons name' second =>
      by_cases hsame : name = name'
      · obtain ⟨common, rest, rest', rfl, rfl, hlength, hdiffer⟩ := ih second
        refine ⟨name :: common, rest, rest', rfl, by rw [hsame]; rfl, ?_, hdiffer⟩
        rw [List.length_cons, ← hlength]
        unfold StoredTree.commonNames
        rw [List.zip_cons_cons, List.takeWhile_cons_of_pos (by simpa using hsame), List.length_cons]
      · refine ⟨[], name :: first, name' :: second, rfl, rfl, ?_, fun other hother hcontra ↦ ?_⟩
        · unfold StoredTree.commonNames
          rw [List.zip_cons_cons, List.takeWhile_cons_of_neg (by simpa using hsame)]
          rfl
        · rw [List.head?_cons, Option.some.injEq] at hother hcontra
          exact hsame (hcontra.trans hother.symm)

/-- An entry with another name stands for the same. -/
theorem HoldsEntry.renamed {entry entry' : DirectoryEntry}
    (h : HoldsEntry blake2256 bucketId known (some entry) fs) (htype : entry'.entryType = entry.entryType)
    (hcid : entry'.cid = entry.cid) (hsize : entry'.size = entry.size) (hmtime : entry'.mtime = entry.mtime) :
    HoldsEntry blake2256 bucketId known (some entry') fs := by
  have hfile : entry'.isFile = entry.isFile := by
    unfold DirectoryEntry.isFile
    rw [htype]
  cases h with
  | file _ manifest data htype hcid' hsize' hmanifest hdata hdescribes =>
    rw [← hmtime]
    exact .file entry' manifest data (hfile.trans htype) (hcid.trans hcid') (hsize.trans hsize') hmanifest
      hdata hdescribes
  | directory _ node _ htype hsize' hcid' hnode hvalid hbucket hself hchildren =>
    refine .directory entry' node fs (hfile.trans htype) ?_ (hcid.trans hcid') hnode hvalid hbucket ?_
      hchildren
    · rw [hsize, hsize']
    · rw [hself, hmtime]

/-- A file system after its part under a path changed and the way there was renewed, against the one that
was renewed from a shorter path on: they differ on the way to the shorter path only. -/
theorem stamp_graft_eq {common rest : List Bytes} (fs part : FileSystem) (node : FsNode) {path : List Bytes}
    (hpath : ¬ path <+: common ∨ path = common) :
    (PathMap.graft fs (common ++ rest) part).stamp (common ++ rest) node path =
      PathMap.graft fs common ((PathMap.graft (fs.below common) rest part).stamp rest node) path := by
  by_cases hunder : common <+: path
  · obtain ⟨rest', rfl⟩ := hunder
    have hbelow : PathMap.below ((PathMap.graft fs (common ++ rest) part).stamp (common ++ rest) node)
        common = (PathMap.graft (fs.below common) rest part).stamp rest node := by
      rw [PathMap.below_stamp_append, PathMap.below_graft_append]
    have hright : PathMap.below (PathMap.graft fs common
        ((PathMap.graft (fs.below common) rest part).stamp rest node)) common =
        (PathMap.graft (fs.below common) rest part).stamp rest node := PathMap.below_graft _ _ _
    exact (congrFun hbelow rest').trans (congrFun hright rest').symm
  · have hoff : ¬ path <+: common ++ rest := fun hpre ↦ by
      rcases List.prefix_or_prefix_of_prefix hpre (List.prefix_append common rest) with hshort | hlong
      · rcases hpath with hpath | hpath
        · exact hpath hshort
        · exact hunder (hpath ▸ List.prefix_refl _)
      · exact hunder hlong
    rw [PathMap.stamp_of_not_isPrefix hoff, PathMap.graft_of_not_isPrefix hunder,
      PathMap.graft_of_not_isPrefix fun hpre ↦ hunder ((List.prefix_append _ _).trans hpre)]

end Rules

/-! ### What the writes upload -/

section Drives

variable {σ : Type} {blake2256 : Bytes → H256} {mmr : MmrLibrary} {reliable : Prop} {tree : StoredTree σ}
  {blobs : σ → Set Bytes} {leaves : σ → List MmrLeaf}
  (h : tree.Reads blake2256 mmr reliable blobs leaves)
  {s : σ} (hcount : (leaves s).length ≤ maxRangeLeaves) (hfree : CollisionFree blake2256 (blobs s))
  {fs : FileSystem} (hdrive : Represents blake2256 tree.bucketId (blobs s) (leaves s) fs)

include h hcount hfree hdrive

/-- A file that is put. -/
theorem putChange_refines (path data contentType : Bytes) (userMetadata : List MetadataEntry)
    (entryTime dirTime : Word 8) :
    Refines (StoreFails reliable)
      (fun change done ↦ change.Yields blake2256 tree.bucketId (blobs s) done some)
      (tree.putChange blake2256 mmr s path data contentType userMetadata entryTime dirTime)
      (fs.change blake2256 tree.bucketId
        (.putFile path data contentType userMetadata entryTime dirTime)) := by
  unfold StoredTree.putChange FileSystem.change
  refine Refines.bind_same _ fun names hnames ↦ ?_
  refine Refines.bind_same _ fun name hname ↦ ?_
  refine Refines.bind_same _ fun manifest hmanifest ↦ ?_
  rw [mapError_eq_ok] at hnames hmanifest
  rw [require_eq_ok] at hname
  have hsplit := List.dropLast_append_getLast? name hname
  have hvalid := valid_of_parsePath hnames
  obtain ⟨root, hroot, hload⟩ := loadRoot_refines h hcount hfree hdrive
  refine hload.bind_left ?_
  rintro root rfl
  refine (dirChain_refines h hfree true hroot fun other hother ↦
    hvalid other (List.mem_of_mem_dropLast hother)).bind fun chain _ hchain ↦ ?_
  obtain ⟨last, hlast, hholds⟩ := hchain.exists_last
  have hgetLast : chain.getLastD root = last := by
    rw [hlast, List.getLastD_concat]
  have hself : (fs.below names) [] = fs names := by
    rw [PathMap.below, List.append_nil]
  have hfound := (hholds.children name).any_isDirectory
  rw [PathMap.below_below, hsplit, hself] at hfound
  rw [hgetLast]
  dsimp only
  rw [DirectoryNode.findChild_eq (DirectoryNode.sound_of_validate hholds.valid), hfound]
  refine Refines.bind_same _ fun _ _ ↦ ?_
  refine Refines.bind_same _ fun entry hentry ↦ ?_
  rw [mapError_eq_ok] at hentry
  have hvalidName := hvalid name (List.mem_of_getLast? hname)
  obtain ⟨entry', hentry', rfl, htype, hcid, hsize, hmtime⟩ :=
    DirectoryEntry.tryNew_of_valid hvalidName .file (computeCid blake2256 manifest.toBlob)
      (Word.ofNat 8 data.length) entryTime
  obtain rfl : entry' = entry := Except.ok.inj (hentry'.symm.trans hentry)
  -- what the entry stands for is uploaded with it
  have hput : HoldsEntry blake2256 tree.bucketId
      (blobs s ∪ {blob | blob ∈ (if data = [] then [] else [data]) ++ [manifest.toBlob]})
      (some entry') (.single (.file entryTime manifest data)) := by
    rw [← hmtime]
    refine .file entry' manifest data ?_ hcid hsize ?_ (fun hne ↦ ?_)
      ⟨_, _, FileManifest.describes_of_ok hmanifest⟩
    · unfold DirectoryEntry.isFile
      rw [htype]
      rfl
    · exact .inr (List.mem_append_right _ (List.mem_singleton.mpr rfl))
    · rw [if_neg hne]
      exact .inr (List.mem_append_left _ (List.mem_singleton.mpr rfl))
  refine putEntry_refines (hchain.mono Set.subset_union_left) hlast hsplit hvalidName hput path dirTime
    fun encoded root hroot ↦ .ok ⟨hroot.mono ?_, rfl⟩
  rw [Set.union_assoc]
  refine Set.union_subset_union_right _ ?_
  rintro blob (hblob | hblob)
  · rcases List.mem_append.mp hblob with hdata | hmanifestBlob
    · exact List.mem_append_left _ hdata
    · rw [List.mem_singleton.mp hmanifestBlob]
      exact List.mem_append_right _ List.mem_cons_self
  · exact List.mem_append_right _ (List.mem_cons_of_mem _ hblob)

/-- A directory that is created. -/
theorem mkdirChange_refines (path : Bytes) (now : Word 8) :
    Refines (StoreFails reliable)
      (fun change done ↦ change.Yields blake2256 tree.bucketId (blobs s) done fun _ ↦ none)
      (tree.mkdirChange blake2256 mmr s path now)
      (fs.change blake2256 tree.bucketId (.mkdir path now)) := by
  unfold StoredTree.mkdirChange FileSystem.change
  refine Refines.bind_same _ fun names hnames ↦ ?_
  refine Refines.bind_same _ fun name hname ↦ ?_
  rw [mapError_eq_ok] at hnames
  rw [require_eq_ok] at hname
  have hsplit := List.dropLast_append_getLast? name hname
  have hvalid := valid_of_parsePath hnames
  obtain ⟨root, hroot, hload⟩ := loadRoot_refines h hcount hfree hdrive
  refine hload.bind_left ?_
  rintro root rfl
  refine (dirChain_refines h hfree true hroot fun other hother ↦
    hvalid other (List.mem_of_mem_dropLast hother)).bind fun chain _ hchain ↦ ?_
  obtain ⟨last, hlast, hholds⟩ := hchain.exists_last
  have hentry := hholds.children name
  have hself : (fs.below names) [] = fs names := by
    rw [PathMap.below, List.append_nil]
  rw [PathMap.below_below, hsplit] at hentry
  have habsent : (chain.getLast?.bind fun parent ↦ parent.findChild name).isNone = (fs names).isNone := by
    rw [hlast, List.getLast?_concat, Option.bind_some,
      DirectoryNode.findChild_eq (DirectoryNode.sound_of_validate hholds.valid), Bool.eq_iff_iff,
      Option.isNone_iff_eq_none, Option.isNone_iff_eq_none, hentry.eq_none_iff, hself]
  rw [habsent]
  refine Refines.bind_same _ fun _ hnone ↦ ?_
  rw [ensure_eq_ok, Option.isNone_iff_eq_none] at hnone
  -- the new directory goes behind the last one
  have hopen : OpenChain blake2256 tree.bucketId (blobs s) (last :: [.newEmpty tree.bucketId]) [name]
      (fs.below names.dropLast) .empty :=
    .above last name _ [] _ _ hholds.valid hholds.bucket (hvalid name (List.mem_of_getLast? hname))
      (hholds.lookup_eq_none_iff name) (fun other _ ↦ hholds.children other)
      (.last _ _ _ holds_newEmpty)
  have hwhole := hchain.append hlast (fun _ ↦ by rw [PathMap.below, List.append_nil]) hopen
  rw [PathMap.graft_below, hsplit] at hwhole
  have hempty : fs.graft names .empty = fs := by
    have hbelow : fs.below names = .empty := by
      rw [hentry.eq_none_iff.mpr (hself.trans hnone)] at hentry
      exact hentry.eq_empty
    rw [← hbelow, PathMap.graft_below]
  refine rewrite_refines hwhole path now fun encoded root hroot ↦ .ok ⟨?_, rfl⟩
  rw [hempty] at hroot
  exact hroot

/-- A file or an empty directory that is deleted. -/
theorem deleteChange_refines (path : Bytes) (emptyParents : EmptyParents) (now : Word 8) :
    Refines (StoreFails reliable)
      (fun change done ↦ change.Yields blake2256 tree.bucketId (blobs s) done fun _ ↦ none)
      (tree.deleteChange blake2256 mmr s path emptyParents now)
      (fs.change blake2256 tree.bucketId (.delete path emptyParents now)) := by
  unfold StoredTree.deleteChange FileSystem.change
  refine Refines.bind_same _ fun names hnames ↦ ?_
  refine Refines.bind_same _ fun name hname ↦ ?_
  rw [mapError_eq_ok] at hnames
  rw [require_eq_ok] at hname
  have hsplit := List.dropLast_append_getLast? name hname
  have hvalid := valid_of_parsePath hnames
  obtain ⟨root, hroot, hload⟩ := loadRoot_refines h hcount hfree hdrive
  refine hload.bind_left ?_
  rintro root rfl
  refine (dirChain_refines h hfree false hroot fun other hother ↦
    hvalid other (List.mem_of_mem_dropLast hother)).bind_eq fun chain _ hchain hwalk ↦ ?_
  obtain ⟨last, hlast, hholds⟩ := hchain.exists_last
  have hgetLast : chain.getLastD root = last := by
    rw [hlast, List.getLastD_concat]
  have hself : (fs.below names) [] = fs names := by
    rw [PathMap.below, List.append_nil]
  have hentry := hholds.children name
  rw [PathMap.below_below, hsplit] at hentry
  obtain ⟨hfound, -, -⟩ := DirectoryNode.removeChild_spec hholds.valid name
  have hopen : OpenChain blake2256 tree.bucketId (blobs s) (chain.dropLast ++ [(last.removeChild name).2])
      names.dropLast fs (PathMap.graft (fs.below names.dropLast) [name] .empty) :=
    hchain.setLast (Holds.removeChild hholds.valid hholds.bucket fun other _ ↦ hholds.children other)
  have hroom : ∀ kept, kept <+: names.dropLast → fs.HasRoomAlong kept := fun kept hkept ↦
    FileSystem.hasRoomAlong_of_walk hwalk hkept
  have hpart : fs.graft names.dropLast (PathMap.graft (fs.below names.dropLast) [name] .empty) =
      fs.graft names .empty := by
    rw [← PathMap.graft_append, hsplit]
  rw [hgetLast]
  dsimp only
  rw [hfound]
  have hrequire : Refines (StoreFails reliable)
      (fun entry node ↦ HoldsEntry blake2256 tree.bucketId (blobs s) (some entry) (fs.below names) ∧
        fs names = some node)
      (require (last.childMap.lookup name) (.read (.pathNotFound path)))
      (require (fs names) (.read (.pathNotFound path))) := by
    refine .require _ ?_ fun entry node hsome hnode ↦ ⟨hsome ▸ hentry, hnode⟩
    rw [hentry.eq_none_iff, hself]
  refine hrequire.bind ?_
  rintro entry node ⟨hsome, hnode⟩
  have hdirectory : entry.isDirectory = node.isDirectory := by
    have hany := hsome.any_isDirectory
    rwa [hself, hnode, Option.any_some, Option.any_some] at hany
  rw [hdirectory]
  refine Refines.bind_same _ fun _ hguard ↦ ?_
  rw [ensure_eq_ok] at hguard
  -- the chain without the name is encoded
  have hrest : (node.isDirectory = true → emptyParents = .keep) → Refines (StoreFails reliable)
      (fun change done ↦ change.Yields blake2256 tree.bucketId (blobs s) done fun _ ↦ none)
      (do
        let kept := StoredTree.keptChain emptyParents (chain.dropLast ++ [(last.removeChild name).2])
          names.dropLast
        let encoded ← rewrite blake2256 kept.1 kept.2 path now
        return (⟨encoded.1, encoded.2, ()⟩ : Change Unit))
      (pure (none, fs.remove emptyParents names now)) := by
    intro hkeep
    cases emptyParents with
    | keep =>
      refine rewrite_refines_of_hasRoom hopen (hroom _ (List.prefix_refl _)) path now
        fun encoded root hroot ↦ .ok ⟨?_, rfl⟩
      rw [hpart] at hroot
      exact hroot
    | remove =>
      have hfile : node.isDirectory = false := Bool.eq_false_iff.mpr fun htrue ↦ by cases hkeep htrue
      obtain ⟨top, below, hchainEq⟩ := List.exists_cons_of_ne_nil hopen.ne_nil
      rw [hchainEq] at hopen ⊢
      obtain ⟨top, rest, kept, part, hpop, hshort, hkept, hsame⟩ := popEmpty_spec hopen now
      unfold StoredTree.keptChain
      dsimp only
      rw [hpop]
      refine rewrite_refines_of_hasRoom hshort (hroom kept hkept) path now
        fun encoded root hroot ↦ .ok ⟨hroot.congr fun other ↦ ?_, rfl⟩
      rw [hsame, hpart, FileSystem.remove,
        FileSystem.prune_graft_empty hsplit (hsome.eq_none_of_file (hdirectory.trans hfile))]
  by_cases hdir : node.isDirectory = true
  · rw [if_pos hdir]
    obtain ⟨found, hcid, hblob, hfoundHolds⟩ := hsome.exists_node (hdirectory.trans hdir)
    rw [hcid]
    refine (readDir_refines h hfree hblob hfoundHolds.valid path).bind_left ?_
    rintro found rfl
    have hempty : fs.namesIn names = ∅ ↔ found.children.1 = [] := hfoundHolds.namesIn_eq_empty_iff
    rw [hdir, Bool.not_true, Bool.false_or, decide_eq_decide.mpr hempty]
    refine Refines.bind_same _ fun _ _ ↦ hrest fun _ ↦ ?_
    rw [hdir] at hguard
    cases emptyParents with
    | keep => rfl
    | remove => cases hguard
  · rw [if_neg hdir, Bool.eq_false_iff.mpr hdir]
    exact hrest fun htrue ↦ absurd htrue hdir

omit hcount hdrive in
open Classical in
/-- An entry that was taken out of the last directory of a chain is put below another path: the lower part
of the chain is encoded first, and the rest of it goes on to the new place. -/
theorem move_refines {chain : List DirectoryNode} {common rest rest' : List Bytes} {part moved : FileSystem}
    (hchain : OpenChain blake2256 tree.bucketId (blobs s) chain (common ++ rest) fs part)
    (hdiffer : ∀ name, rest'.head? = some name → rest.head? ≠ some name)
    (hwalk : fs.walk false [] (common ++ rest) = .ok ())
    (hnames : ∀ name ∈ rest', validateEntryName name = .ok ()) {entry : DirectoryEntry}
    (hentry : HoldsEntry blake2256 tree.bucketId (blobs s) (some entry) moved) {name : Bytes}
    (hname : validateEntryName name = .ok ()) {all : List Bytes} (hall : common ++ rest' ++ [name] = all)
    (root : DirectoryNode) (source target : Bytes) (sourceTime targetTime : Word 8) {taken : FileSystem}
    (htaken : taken = (fs.graft (common ++ rest) part).stamp (common ++ rest) (.directory sourceTime)) :
    Refines (StoreFails reliable)
      (fun change done ↦ change.Yields blake2256 tree.bucketId (blobs s) done fun _ ↦ none)
      (do
        let below ← rewriteBelow blake2256 chain (common ++ rest) common.length source sourceTime
        let chain ← tree.extendChain blake2256 s below.1 (common ++ rest') true
        let parent := chain.getLastD root
        ensure (parent.findChild name).isNone (.entryExists target)
        let moved ← (DirectoryEntry.tryNew name entry.entryType entry.cid entry.size
          entry.mtime).mapError (.format target)
        let parent ← parent.upserted moved target
        let encoded ← rewrite blake2256 (chain.dropLast ++ [parent]) (common ++ rest') target targetTime
        return (⟨below.2 ++ encoded.1, encoded.2, ()⟩ : Change Unit))
      (do
        taken.walk true [] (common ++ rest')
        ensure (taken all).isNone (.entryExists target)
        ensure (taken.HasRoomAlong all) (.format target .directoryFull)
        return (none, (taken.graft all moved).stamp (common ++ rest') (.directory targetTime))) := by
  have hroom : FileSystem.HasRoomAlong (fs.below common) rest :=
    ((fs.hasRoomAlong_append common rest).mp
      (FileSystem.hasRoomAlong_of_walk hwalk (List.prefix_refl _))).2
  obtain ⟨upper, dir, encoded, hrewrite, hlength, hopen, hothers⟩ :=
    rewriteBelow_spec hchain hroom source sourceTime
  rw [hrewrite, ok_bind]
  dsimp only
  have hnode : ∀ path, path <+: common → path ≠ [] → ∃ mtime, fs path = some (.directory mtime) :=
    fun path hpath hne ↦ FileSystem.exists_directory_of_walk hwalk hne (hpath.trans (List.prefix_append _ _))
  generalize hlower : (PathMap.graft (fs.below common) rest part).stamp rest (.directory sourceTime) = lower
    at hopen
  have hlowerSelf : lower [] = some (.directory sourceTime) := by
    rw [← hlower, PathMap.stamp_of_isPrefix List.nil_prefix]
  have hbelow : (fs.graft common lower).below common = lower := PathMap.below_graft _ _ _
  -- both file systems agree but for the times on the way to the common directory
  have hagree : ∀ path, ¬ path <+: common ∨ path = common → taken path = fs.graft common lower path := by
    intro path hpath
    rw [htaken, stamp_graft_eq fs part _ hpath, hlower]
  have hnone : ∀ path, path ≠ [] → (fs.graft common lower path = none ↔ taken path = none) := by
    intro path hne
    by_cases hpath : path <+: common
    · obtain ⟨mtime, hmtime⟩ := hnode path hpath hne
      have htakenSome : taken path = some (.directory sourceTime) := by
        rw [htaken, PathMap.stamp_of_isPrefix (hpath.trans (List.prefix_append _ _))]
      by_cases hsame : path = common
      · rw [hagree path (.inr hsame)]
      · have hunder : ¬ common <+: path := fun hpre ↦ hsame (hpath.eq_of_length_le hpre.length_le)
        rw [htakenSome, PathMap.graft_of_not_isPrefix hunder, hmtime]
        exact iff_of_false (Option.some_ne_none _) (Option.some_ne_none _)
    · rw [hagree path (.inl hpath)]
  have hwalkTaken : taken.walk true [] (common ++ rest') =
      FileSystem.walk (fs.graft common lower) true common rest' := by
    have hcommon : taken.walk true [] common = .ok () := by
      refine FileSystem.walk_eq_ok_of_directory fun path hne hpath ↦ ⟨sourceTime, ?_⟩
      rw [List.nil_append, htaken, PathMap.stamp_of_isPrefix (hpath.trans (List.prefix_append _ _))]
    rw [FileSystem.walk_append, hcommon, ok_bind, List.nil_append]
    refine FileSystem.walk_congr rest' fun path hne _ ↦ hagree _ (.inl fun hpre ↦ hne ?_)
    have hlen := hpre.length_le
    rw [List.length_append] at hlen
    exact List.length_eq_zero_iff.mp (by omega)
  rw [hwalkTaken]
  have hextend := extendChain_refines h hfree Set.subset_union_left true hopen (fun name hhead ↦ ?_)
    (fun hne ↦ ?_) hnames
  rotate_left
  · have hsame : lower.below [name] = PathMap.below (PathMap.graft (fs.below common) rest part) [name] := by
      rw [← hlower]
      cases rest with
      | nil => exact PathMap.below_stamp_nil _ _ _
      | cons first rest =>
        exact PathMap.below_stamp_other fun heq ↦ hdiffer name hhead (by rw [heq]; rfl)
    rw [hsame]
    exact hothers name (hdiffer name hhead)
  · obtain ⟨mtime, hmtime⟩ := hnode common (List.prefix_refl _) hne
    rw [hlowerSelf, hmtime]
    exact iff_of_false (Option.some_ne_none _) (Option.some_ne_none _)
  refine hextend.bind fun chain _ hchain ↦ ?_
  obtain ⟨last, hlast, hholds⟩ := hchain.exists_last
  have hgetLast : chain.getLastD root = last := by
    rw [hlast, List.getLastD_concat]
  rw [hgetLast]
  have hend : (fs.graft common lower).below (common ++ rest') = lower.below rest' := by
    rw [← PathMap.below_below, hbelow]
  have habsent : (last.findChild name).isNone = (taken all).isNone := by
    have hplace : taken all = lower.below rest' [name] := by
      rw [← hall, hagree, ← hend]
      · rfl
      · refine .inl fun hpre ↦ ?_
        have hlen := hpre.length_le
        rw [List.length_append, List.length_append, List.length_singleton] at hlen
        omega
    rw [DirectoryNode.findChild_eq (DirectoryNode.sound_of_validate hholds.valid), Bool.eq_iff_iff,
      Option.isNone_iff_eq_none, Option.isNone_iff_eq_none, hplace]
    exact hholds.lookup_eq_none_iff name
  rw [habsent]
  refine Refines.bind_same _ fun _ _ ↦ ?_
  obtain ⟨entry', hentry', rfl, htype, hcid, hsize, hmtime⟩ :=
    DirectoryEntry.tryNew_of_valid hname entry.entryType entry.cid entry.size entry.mtime
  rw [hentry', Except.mapError, ok_bind, decide_eq_decide.mpr
    (FileSystem.hasRoomAlong_congr (fun path hne ↦ (hnone path hne).symm) all)]
  rw [← hend] at hchain
  refine putEntry_refines hchain hlast hall hname
    ((hentry.renamed htype hcid hsize hmtime).mono Set.subset_union_left) target targetTime
    fun encoded' root' hroot ↦ .ok ⟨?_, rfl⟩
  have hresult : (taken.graft all moved).stamp (common ++ rest') (.directory targetTime) =
      PathMap.stamp ((fs.graft common lower).graft all moved) (common ++ rest') (.directory targetTime) := by
    funext path
    by_cases hon : path <+: common ++ rest'
    · rw [PathMap.stamp_of_isPrefix hon, PathMap.stamp_of_isPrefix hon]
    · rw [PathMap.stamp_of_not_isPrefix hon, PathMap.stamp_of_not_isPrefix hon]
      by_cases hunder : all <+: path
      · exact (if_pos hunder).trans (if_pos hunder).symm
      · rw [PathMap.graft_of_not_isPrefix hunder, PathMap.graft_of_not_isPrefix hunder]
        exact hagree path (.inl fun hpre ↦ hon (hpre.trans (List.prefix_append _ _)))
  rw [hresult]
  refine hroot.mono ?_
  rw [Set.union_assoc]
  refine Set.union_subset_union_right _ ?_
  rintro blob (hblob | hblob)
  · exact List.mem_append_left _ hblob
  · exact List.mem_append_right _ hblob

/-- An entry that is moved. -/
theorem renameChange_refines (source target : Bytes) (sourceTime targetTime : Word 8) :
    Refines (StoreFails reliable)
      (fun change done ↦ change.Yields blake2256 tree.bucketId (blobs s) done fun _ ↦ none)
      (tree.renameChange blake2256 mmr s source target sourceTime targetTime)
      (fs.change blake2256 tree.bucketId (.rename source target sourceTime targetTime)) := by
  unfold StoredTree.renameChange FileSystem.change
  refine Refines.bind_same _ fun sourceNames hsource ↦ ?_
  refine Refines.bind_same _ fun targetNames htarget ↦ ?_
  refine Refines.bind_same _ fun sourceName hsourceName ↦ ?_
  refine Refines.bind_same _ fun targetName htargetName ↦ ?_
  refine Refines.bind_same _ fun _ _ ↦ ?_
  rw [mapError_eq_ok] at hsource htarget
  rw [require_eq_ok] at hsourceName htargetName
  have hsplit := List.dropLast_append_getLast? sourceName hsourceName
  have hsplit' := List.dropLast_append_getLast? targetName htargetName
  have hvalid := valid_of_parsePath hsource
  have hvalid' := valid_of_parsePath htarget
  obtain ⟨root, hroot, hload⟩ := loadRoot_refines h hcount hfree hdrive
  refine hload.bind_left ?_
  rintro root rfl
  refine (dirChain_refines h hfree false hroot fun other hother ↦
    hvalid other (List.mem_of_mem_dropLast hother)).bind_eq fun chain _ hchain hwalk ↦ ?_
  obtain ⟨last, hlast, hholds⟩ := hchain.exists_last
  have hgetLast : chain.getLastD root = last := by
    rw [hlast, List.getLastD_concat]
  have hself : (fs.below sourceNames) [] = fs sourceNames := by
    rw [PathMap.below, List.append_nil]
  have hentry := hholds.children sourceName
  rw [PathMap.below_below, hsplit] at hentry
  obtain ⟨hfound, -, -⟩ := DirectoryNode.removeChild_spec hholds.valid sourceName
  have hopen : OpenChain blake2256 tree.bucketId (blobs s)
      (chain.dropLast ++ [(last.removeChild sourceName).2]) sourceNames.dropLast fs
      (PathMap.graft (fs.below sourceNames.dropLast) [sourceName] .empty) :=
    hchain.setLast (Holds.removeChild hholds.valid hholds.bucket fun other _ ↦ hholds.children other)
  have hpart : fs.graft sourceNames .empty = fs.graft sourceNames.dropLast
      (PathMap.graft (fs.below sourceNames.dropLast) [sourceName] .empty) := by
    rw [← PathMap.graft_append, hsplit]
  rw [hgetLast]
  dsimp only
  rw [hfound]
  have hrequire : Refines (StoreFails reliable)
      (fun entry _ ↦ HoldsEntry blake2256 tree.bucketId (blobs s) (some entry) (fs.below sourceNames))
      (require (last.childMap.lookup sourceName) (.read (.pathNotFound source)))
      (require (fs sourceNames) (.read (.pathNotFound source))) := by
    refine .require _ ?_ fun entry node hsome _ ↦ hsome ▸ hentry
    rw [hentry.eq_none_iff, hself]
  refine hrequire.bind fun entry _ hsome ↦ ?_
  obtain ⟨common, rest, rest', hcommon, hcommon', hlength, hdiffer⟩ :=
    commonNames_spec sourceNames.dropLast targetNames.dropLast
  rw [hpart, hlength]
  rw [hcommon'] at hsplit' ⊢
  rw [hcommon] at hopen hwalk ⊢
  refine move_refines h hfree hopen hdiffer hwalk (fun other hother ↦ ?_) hsome
    (hvalid' targetName (List.mem_of_getLast? htargetName)) hsplit' root source target sourceTime
    targetTime rfl
  apply hvalid'
  rw [← hsplit']
  exact List.mem_append_left _ (List.mem_append_right _ hother)

end Drives

end Web3Storage.Formats
