import Web3Storage.Formats.CanonicalBlobs
import Web3Storage.Foundations.Run
import Web3Storage.Foundations.SortedTable

/-!
# Directories as finite maps

The children of a directory are a table in the order of their names. A child is found, replaced, inserted
and removed at the place where a binary search ends. `DirectoryMap` is what a directory is for: a finite
map from names to entries with room for `maxDirectoryChildren` names. `apply_spec` is one operation on
both, and `directory_is_finite_map` every sequence of them; it also says what the names of the directory
keep, and when the directory still passes `validate`.
-/

set_option autoImplicit false
set_option relaxedAutoImplicit false

namespace Web3Storage.Formats

open Foundations Primitives

/-! ### The operations -/

namespace DirectoryNode

variable (node : DirectoryNode)

/-- Binary search for a name in the sorted children. -/
def position (name : Bytes) : Except ℕ ℕ :=
  searchKey (fun entry : DirectoryEntry ↦ entry.name.1) node.children.1 name

/-- Insert an entry, or replace the child with the same name. Fails if the directory is full. -/
def upsertChild (entry : DirectoryEntry) : Except FileSystemError Unit × DirectoryNode :=
  match node.position entry.name.1 with
  | .ok pos => (.ok (), { node with children := node.children.set pos entry })
  | .error pos =>
    match node.children.tryInsert pos entry with
    | some children => (.ok (), { node with children := children })
    | none => (.error .directoryFull, node)

/-- Find a child by name. -/
def findChild (name : Bytes) : Option DirectoryEntry :=
  match node.position name with
  | .ok pos => node.children.1[pos]?
  | .error _ => none

/-- Remove a child by name. -/
def removeChild (name : Bytes) : Option DirectoryEntry × DirectoryNode :=
  match node.position name with
  | .ok pos => (node.children.1[pos]?, { node with children := node.children.remove pos })
  | .error _ => (none, node)

/-- What the operations keep: names that are strictly sorted, unique and legal, a limited number of
children, and no metadata. -/
structure Sound : Prop where
  sorted : IsTable (fun entry : DirectoryEntry ↦ entry.name.1) node.children.1
  unique : (node.children.1.map fun entry ↦ entry.name.1).Nodup
  legal : ∀ entry ∈ node.children.1, validateEntryName entry.name.1 = .ok ()
  bounded : node.children.1.length ≤ maxDirectoryChildren
  metadata : node.metadata.1 = []

end DirectoryNode

/-- An operation on a directory. -/
inductive DirectoryOp where
  | upsertChild (entry : DirectoryEntry)
  | findChild (name : Bytes)
  | removeChild (name : Bytes)

/-- The entries that are put in have legal names. -/
def DirectoryOp.Legal : DirectoryOp → Prop
  | .upsertChild entry => validateEntryName entry.name.1 = .ok ()
  | .findChild _ => True
  | .removeChild _ => True

/-- What an operation returns. -/
inductive DirectoryReply where
  | upserted (result : Except FileSystemError Unit)
  | child (entry : Option DirectoryEntry)

/-- The reply of an operation and the directory after it. -/
def DirectoryNode.apply (node : DirectoryNode) : DirectoryOp → DirectoryReply × DirectoryNode
  | .upsertChild entry => ((node.upsertChild entry).map .upserted id)
  | .findChild name => (.child (node.findChild name), node)
  | .removeChild name => ((node.removeChild name).map .child id)

/-- The directory after some operations. -/
def DirectoryNode.after (node : DirectoryNode) (ops : List DirectoryOp) : DirectoryNode :=
  run (fun node op ↦ (node.apply op).2) node ops

/-! ### The map -/

/-- What a directory is for: entries by their names. -/
abbrev DirectoryMap := FiniteMap Bytes DirectoryEntry

namespace DirectoryMap

variable (map : DirectoryMap)

/-- There is room for an entry if its name is taken or not all names are. -/
def HasRoom (name : Bytes) : Prop := name ∈ map ∨ map.keys.card < maxDirectoryChildren

instance (name : Bytes) : Decidable (HasRoom map name) :=
  inferInstanceAs (Decidable (name ∈ map ∨ map.keys.card < maxDirectoryChildren))

/-- Insert, look up and delete. -/
def apply : DirectoryOp → DirectoryReply × DirectoryMap
  | .upsertChild entry =>
    if HasRoom map entry.name.1 then (.upserted (.ok ()), map.insert entry.name.1 entry)
    else (.upserted (.error .directoryFull), map)
  | .findChild name => (.child (map.lookup name), map)
  | .removeChild name => (.child (map.lookup name), map.erase name)

/-- The map after some operations. -/
def after (ops : List DirectoryOp) : DirectoryMap := run (fun map op ↦ (apply map op).2) map ops

end DirectoryMap

/-- The entries of a directory by their names. -/
def DirectoryNode.childMap (node : DirectoryNode) : DirectoryMap :=
  tableMap (fun entry : DirectoryEntry ↦ entry.name.1) node.children.1


/-! ### One operation -/

section Rules

variable {node : DirectoryNode}

theorem DirectoryNode.sound_of_sorted
    (hsorted : IsTable (fun entry : DirectoryEntry ↦ entry.name.1) node.children.1)
    (hlegal : ∀ entry ∈ node.children.1, validateEntryName entry.name.1 = .ok ())
    (hmetadata : node.metadata.1 = []) : node.Sound where
  sorted := hsorted
  unique := by
    rw [List.nodup_iff_pairwise_ne, List.pairwise_map]
    exact hsorted.imp fun hlt ↦ hlt.ne
  legal := hlegal
  bounded := node.children.2
  metadata := hmetadata

/-- Validation accepts what the operations keep, if no directory among the children has a size. -/
theorem DirectoryNode.validate_iff : node.validate = .ok () ↔
    node.Sound ∧ ∀ entry ∈ node.children.1, entry.isDirectory = true → entry.size.1 = 0 := by
  have hentry (entry : DirectoryEntry) :
      (do
        validateEntryName entry.name.1
        if entry.isDirectory && entry.size.1 ≠ 0 then .error .invalidDirectory
        else .ok () : Except FileSystemError Unit) = .ok () ↔
      validateEntryName entry.name.1 = .ok () ∧ (entry.isDirectory = true → entry.size.1 = 0) := by
    rw [bind_eq_ok]
    constructor
    · rintro ⟨done, hname, hsize⟩
      refine ⟨hname, fun hdirectory ↦ ?_⟩
      by_contra hne
      rw [if_pos (by simp [hdirectory, hne])] at hsize
      cases hsize
    · rintro ⟨hname, hsize⟩
      refine ⟨(), hname, if_neg fun htest ↦ ?_⟩
      rw [Bool.and_eq_true, decide_eq_true_iff] at htest
      exact htest.2 (hsize htest.1)
  constructor
  · intro h
    obtain ⟨hmetadata, hsorted⟩ := DirectoryNode.sorted_of_validate h
    unfold DirectoryNode.validate at h
    rw [if_neg (not_not.mpr hmetadata), bind_eq_ok] at h
    obtain ⟨done, hchecks, -⟩ := h
    have hall := forM_eq_ok.mp hchecks
    refine ⟨sound_of_sorted hsorted (fun entry hmem ↦ ?_) hmetadata, fun entry hmem ↦ ?_⟩
    · exact ((hentry entry).mp (hall entry hmem)).1
    · exact ((hentry entry).mp (hall entry hmem)).2
  · rintro ⟨hsound, hsizes⟩
    unfold DirectoryNode.validate
    rw [if_neg (not_not.mpr hsound.metadata), bind_eq_ok]
    refine ⟨(), forM_eq_ok.mpr fun entry hmem ↦ ?_, if_pos hsound.sorted.isChain⟩
    exact (hentry entry).mpr ⟨hsound.legal entry hmem, hsizes entry hmem⟩

variable {entry : DirectoryEntry} {name : Bytes}

/-- What a child is put in place of, or between, and when it is refused. -/
theorem DirectoryNode.upsertChild_cases (h : node.Sound) (entry : DirectoryEntry) :
    (∃ before found after children, node.children.1 = before ++ found :: after ∧
      found.name.1 = entry.name.1 ∧ children.1 = before ++ entry :: after ∧
      node.upsertChild entry = (.ok (), { node with children := children })) ∨
    (∃ before after children, node.children.1 = before ++ after ∧
      (∀ child ∈ before, child.name.1 < entry.name.1) ∧
      (∀ child ∈ after, entry.name.1 < child.name.1) ∧
      node.children.1.length < maxDirectoryChildren ∧ children.1 = before ++ entry :: after ∧
      node.upsertChild entry = (.ok (), { node with children := children })) ∨
    (∀ child ∈ node.children.1, child.name.1 ≠ entry.name.1) ∧
      node.children.1.length = maxDirectoryChildren ∧
      node.upsertChild entry = (.error .directoryFull, node) := by
  unfold upsertChild position
  rcases search_cases h.sorted entry.name.1 with ⟨before, found, after, hvalues, hname, hplace⟩ |
    ⟨before, after, hvalues, hbelow, habove, hplace⟩
  · left
    rw [hplace]
    refine ⟨before, found, after, _, hvalues, hname, ?_, rfl⟩
    change node.children.1.set before.length entry = _
    rw [hvalues, List.set_append_right _ _ le_rfl, Nat.sub_self, List.set_cons_zero]
  · right
    rw [hplace]
    by_cases hroom : node.children.1.length < maxDirectoryChildren
    · left
      unfold BoundedVec.tryInsert
      dsimp only
      rw [dif_pos hroom]
      refine ⟨before, after, _, hvalues, hbelow, habove, hroom, ?_, rfl⟩
      change node.children.1.insertIdx before.length entry = _
      rw [hvalues, insertIdx_append_length]
    · right
      unfold BoundedVec.tryInsert
      dsimp only
      rw [dif_neg hroom]
      refine ⟨fun child hchild ↦ ?_, le_antisymm h.bounded (not_lt.mp hroom), rfl⟩
      rw [hvalues, List.mem_append] at hchild
      rcases hchild with hchild | hchild
      · exact (hbelow child hchild).ne
      · exact (habove child hchild).ne'

/-- What a child is taken out of. -/
theorem DirectoryNode.removeChild_cases (h : node.Sound) (name : Bytes) :
    (∃ before found after children, node.children.1 = before ++ found :: after ∧
      found.name.1 = name ∧ children.1 = before ++ after ∧
      node.removeChild name = (some found, { node with children := children })) ∨
    (∀ child ∈ node.children.1, child.name.1 ≠ name) ∧ node.removeChild name = (none, node) := by
  unfold removeChild position
  rcases search_cases h.sorted name with ⟨before, found, after, hvalues, hname, hplace⟩ |
    ⟨before, after, hvalues, hbelow, habove, hplace⟩
  · left
    rw [hplace]
    refine ⟨before, found, after, node.children.remove before.length, hvalues, hname, ?_, ?_⟩
    · change node.children.1.eraseIdx before.length = _
      rw [hvalues, List.eraseIdx_append_of_length_le le_rfl, Nat.sub_self, List.eraseIdx_cons_zero]
    · dsimp only
      rw [hvalues, List.getElem?_append_right le_rfl, Nat.sub_self, List.getElem?_cons_zero]
  · right
    rw [hplace]
    refine ⟨fun child hchild ↦ ?_, rfl⟩
    rw [hvalues, List.mem_append] at hchild
    rcases hchild with hchild | hchild
    · exact (hbelow child hchild).ne
    · exact (habove child hchild).ne'

theorem DirectoryNode.lookup_childMap (h : node.Sound) {name : Bytes} {entry : DirectoryEntry} :
    node.childMap.lookup name = some entry ↔ entry ∈ node.children.1 ∧ entry.name.1 = name :=
  lookup_tableMap h.sorted

theorem DirectoryNode.lookup_childMap_eq_none (h : node.Sound) {name : Bytes} :
    node.childMap.lookup name = none ↔ ∀ child ∈ node.children.1, child.name.1 ≠ name :=
  lookup_tableMap_eq_none h.sorted

/-- A child is found by its name, and no other. -/
theorem DirectoryNode.findChild_eq (h : node.Sound) (name : Bytes) :
    node.findChild name = node.childMap.lookup name := by
  unfold findChild position
  rcases search_cases h.sorted name with ⟨before, found, after, hvalues, hname, hplace⟩ |
    ⟨before, after, hvalues, hbelow, habove, hplace⟩
  · rw [hplace]
    dsimp only
    rw [hvalues, List.getElem?_append_right le_rfl, Nat.sub_self, List.getElem?_cons_zero, eq_comm,
      lookup_childMap h, hvalues]
    exact ⟨by simp, hname⟩
  · rw [hplace, eq_comm, lookup_childMap_eq_none h]
    intro child hchild
    rw [hvalues, List.mem_append] at hchild
    rcases hchild with hchild | hchild
    · exact (hbelow child hchild).ne
    · exact (habove child hchild).ne'

/-- A refused entry finds the directory full, without a child of its name. -/
theorem DirectoryNode.hasRoom_iff (h : node.Sound) (name : Bytes) : node.childMap.HasRoom name ↔
    (∃ child ∈ node.children.1, child.name.1 = name) ∨
      node.children.1.length < maxDirectoryChildren := by
  unfold DirectoryMap.HasRoom
  rw [Finmap.mem_iff, childMap, card_keys_tableMap h.sorted]
  refine or_congr_left (exists_congr fun entry ↦ ?_)
  exact lookup_tableMap h.sorted

/-- One operation has the reply and the effect of that on the map. -/
theorem DirectoryNode.apply_spec (h : node.Sound) (op : DirectoryOp) :
    (node.apply op).1 = (node.childMap.apply op).1 ∧
      (node.apply op).2.childMap = (node.childMap.apply op).2 := by
  cases op with
  | upsertChild entry =>
    unfold DirectoryNode.apply DirectoryMap.apply
    dsimp only
    rcases upsertChild_cases h entry with
      ⟨before, found, after, children, hvalues, hname, hchildren, hupsert⟩ |
      ⟨before, after, children, hvalues, hbelow, habove, hlimit, hchildren, hupsert⟩ | ⟨hnone, hfull, hupsert⟩
    · have hroom : node.childMap.HasRoom entry.name.1 := by
        rw [hasRoom_iff h, hvalues]
        exact .inl ⟨found, by simp, hname⟩
      rw [hupsert, if_pos hroom]
      refine ⟨rfl, ?_⟩
      have hsorted := h.sorted
      rw [hvalues] at hsorted
      change tableMap _ children.1 = (tableMap _ node.children.1).insert _ _
      rw [hvalues, hchildren]
      exact tableMap_replace hsorted hname.symm
    · have hroom : node.childMap.HasRoom entry.name.1 := (hasRoom_iff h _).mpr (.inr hlimit)
      rw [hupsert, if_pos hroom]
      refine ⟨rfl, ?_⟩
      have hsorted := h.sorted
      rw [hvalues] at hsorted
      change tableMap _ children.1 = (tableMap _ node.children.1).insert _ _
      rw [hvalues, hchildren]
      exact tableMap_insert (hsorted.insert hbelow habove)
    · have hroom : ¬ node.childMap.HasRoom entry.name.1 := by
        rw [hasRoom_iff h, hfull]
        rintro (⟨child, hchild, hname⟩ | hlt)
        · exact hnone child hchild hname
        · exact lt_irrefl _ hlt
      rw [hupsert, if_neg hroom]
      exact ⟨rfl, rfl⟩
  | findChild name =>
    exact ⟨congrArg DirectoryReply.child (findChild_eq h name), rfl⟩
  | removeChild name =>
    unfold DirectoryNode.apply DirectoryMap.apply
    dsimp only
    rcases removeChild_cases h name with
      ⟨before, found, after, children, hvalues, hname, hchildren, hremove⟩ | ⟨hnone, hremove⟩
    · rw [hremove]
      constructor
      · have hlookup : node.childMap.lookup name = some found := by
          rw [lookup_childMap h, hvalues]
          exact ⟨by simp, hname⟩
        rw [hlookup]
        rfl
      · have hsorted := h.sorted
        rw [hvalues] at hsorted
        change tableMap _ children.1 = (tableMap _ node.children.1).erase _
        rw [hvalues, hchildren, ← hname]
        exact tableMap_remove hsorted
    · have hlookup := (lookup_childMap_eq_none h).mpr hnone
      rw [hremove, hlookup]
      exact ⟨rfl, (FiniteMap.erase_of_lookup_none hlookup).symm⟩

theorem DirectoryNode.Sound.edited (h : node.Sound)
    {children : BoundedVec DirectoryEntry maxDirectoryChildren} {entries : List DirectoryEntry}
    (hchildren : children.1 = entries)
    (hsorted : IsTable (fun entry : DirectoryEntry ↦ entry.name.1) entries)
    (hlegal : ∀ entry ∈ entries, validateEntryName entry.name.1 = .ok ()) :
    ({ node with children := children } : DirectoryNode).Sound := by
  subst hchildren
  exact sound_of_sorted hsorted hlegal h.metadata

/-- Operations with legal names keep the order and the names. -/
theorem DirectoryNode.sound_apply (h : node.Sound) {op : DirectoryOp} (hlegal : op.Legal) :
    (node.apply op).2.Sound := by
  have hsorted := h.sorted
  have hnames := h.legal
  cases op with
  | upsertChild entry =>
    unfold DirectoryNode.apply
    dsimp only
    rcases upsertChild_cases h entry with
      ⟨before, found, after, children, hvalues, hname, hchildren, hupsert⟩ |
      ⟨before, after, children, hvalues, hbelow, habove, hlimit, hchildren, hupsert⟩ | ⟨hnone, hfull, hupsert⟩
    · rw [hvalues] at hsorted hnames
      rw [List.forall_mem_append, List.forall_mem_cons] at hnames
      rw [hupsert]
      apply h.edited hchildren (hsorted.replace hname.symm)
      rw [List.forall_mem_append, List.forall_mem_cons]
      exact ⟨hnames.1, hlegal, hnames.2.2⟩
    · rw [hvalues] at hsorted hnames
      rw [List.forall_mem_append] at hnames
      rw [hupsert]
      apply h.edited hchildren (hsorted.insert hbelow habove)
      rw [List.forall_mem_append, List.forall_mem_cons]
      exact ⟨hnames.1, hlegal, hnames.2⟩
    · rw [hupsert]
      exact h
  | findChild name => exact h
  | removeChild name =>
    unfold DirectoryNode.apply
    dsimp only
    rcases removeChild_cases h name with
      ⟨before, found, after, children, hvalues, hname, hchildren, hremove⟩ | ⟨hnone, hremove⟩
    · rw [hvalues] at hsorted hnames
      rw [List.forall_mem_append, List.forall_mem_cons] at hnames
      rw [hremove]
      apply h.edited hchildren hsorted.remove
      rw [List.forall_mem_append]
      exact ⟨hnames.1, hnames.2.2⟩
    · rw [hremove]
      exact h

/-- An entry is refused only for a new name in a full directory, which stays as it is. -/
theorem DirectoryNode.upsertChild_refused (h : node.Sound) (entry : DirectoryEntry) :
    ((node.upsertChild entry).1 = .ok () ↔
      node.findChild entry.name.1 ≠ none ∨ node.children.1.length < maxDirectoryChildren) ∧
    ((node.upsertChild entry).1 ≠ .ok () → node.upsertChild entry = (.error .directoryFull, node)) := by
  have hfind : node.findChild entry.name.1 ≠ none ↔
      ∃ child ∈ node.children.1, child.name.1 = entry.name.1 := by
    rw [findChild_eq h, Ne, lookup_childMap_eq_none h]
    simp only [not_forall, not_not, exists_prop]
  rw [hfind]
  rcases upsertChild_cases h entry with
    ⟨before, found, after, children, hvalues, hname, hchildren, hupsert⟩ |
    ⟨before, after, children, hvalues, hbelow, habove, hlimit, hchildren, hupsert⟩ | ⟨hnone, hfull, hupsert⟩
  · have hmem : found ∈ node.children.1 := by
      rw [hvalues]
      simp
    rw [hupsert]
    exact ⟨iff_of_true rfl (.inl ⟨found, hmem, hname⟩), fun hne ↦ absurd rfl hne⟩
  · rw [hupsert]
    exact ⟨iff_of_true rfl (.inr hlimit), fun hne ↦ absurd rfl hne⟩
  · rw [hupsert]
    refine ⟨iff_of_false (fun hok ↦ by cases hok) ?_, fun _ ↦ rfl⟩
    rintro (⟨child, hchild, hname⟩ | hlt)
    · exact hnone child hchild hname
    · exact hlt.ne hfull

/-! ### Sequences of operations -/

/-- The names stay sound, and the map that of the same operations. -/
theorem DirectoryNode.after_spec (h : node.Sound) {ops : List DirectoryOp}
    (hlegal : ∀ op ∈ ops, op.Legal) :
    (node.after ops).Sound ∧ (node.after ops).childMap = node.childMap.after ops := by
  unfold DirectoryNode.after DirectoryMap.after
  apply simulation_of_step (fun (node : DirectoryNode) (map : DirectoryMap) ↦
    node.Sound ∧ node.childMap = map) DirectoryOp.Legal
  · rintro node map op ⟨hsound, rfl⟩ hop
    exact ⟨sound_apply hsound hop, (apply_spec hsound op).2⟩
  · exact ⟨h, rfl⟩
  · exact hlegal

/-- **A directory is a finite map.** From a directory that passes validation, every sequence of
operations whose entries have legal names replies as the map from names to entries does, and leaves the
directory of the map, with names that are strictly sorted, unique and legal and no more children than the
limit; it passes validation again unless a directory with a size was put in. An entry is refused only for
a new name in a full directory, which it leaves as it is. -/
theorem directory_is_finite_map (hvalid : node.validate = .ok ()) {ops : List DirectoryOp}
    (hlegal : ∀ op ∈ ops, op.Legal) :
    (node.after ops).childMap = node.childMap.after ops ∧
      (∀ op, ((node.after ops).apply op).1 = ((node.childMap.after ops).apply op).1) ∧
      (node.after ops).Sound ∧
      ((node.after ops).validate = .ok () ↔ ∀ entry ∈ (node.after ops).children.1,
        entry.isDirectory = true → entry.size.1 = 0) ∧
      ∀ entry,
        (((node.after ops).upsertChild entry).1 = .ok () ↔
          (node.after ops).findChild entry.name.1 ≠ none ∨
            (node.after ops).children.1.length < maxDirectoryChildren) ∧
        (((node.after ops).upsertChild entry).1 ≠ .ok () →
          (node.after ops).upsertChild entry = (.error .directoryFull, node.after ops)) := by
  obtain ⟨hsound, -⟩ := DirectoryNode.validate_iff.mp hvalid
  obtain ⟨hafter, hmap⟩ := DirectoryNode.after_spec hsound hlegal
  refine ⟨hmap, fun op ↦ ?_, hafter, ?_, fun entry ↦ DirectoryNode.upsertChild_refused hafter entry⟩
  · rw [← hmap]
    exact (DirectoryNode.apply_spec hafter op).1
  · rw [DirectoryNode.validate_iff]
    exact and_iff_right hafter

end Rules

/-- A file with the content 7. -/
def smallFile (name : BoundedVec UInt8 maxEntryNameLength) : DirectoryEntry where
  name := name
  entryType := .file
  cid := .repeatByte 7
  size := Word.ofNat 8 1
  mtime := Word.ofNat 8 0

/-- A directory with the file `b`. -/
def smallDirectory : DirectoryNode where
  bucketId := Word.ofNat 8 7
  children := ⟨[smallFile ⟨[0x62], by decide⟩], by decide⟩
  metadata := ⟨[], Nat.zero_le _⟩

/-- The file `a` is put in before `b`, and `b` is removed. -/
def smallEdits : List DirectoryOp :=
  [.upsertChild (smallFile ⟨[0x61], by decide⟩), .findChild [0x62], .removeChild [0x62]]

theorem directory_is_finite_map_small :
    (smallDirectory.after smallEdits).childMap = smallDirectory.childMap.after smallEdits ∧
      (smallDirectory.after smallEdits).Sound ∧ (smallDirectory.after smallEdits).validate = .ok () := by
  have hlegal : ∀ op ∈ smallEdits, op.Legal := by
    unfold smallEdits
    rw [List.forall_mem_cons, List.forall_mem_cons, List.forall_mem_singleton]
    refine ⟨?_, trivial, trivial⟩
    change validateEntryName [0x61] = .ok ()
    decide +kernel
  have hvalid : smallDirectory.validate = .ok () := by decide +kernel
  obtain ⟨hmap, -, hsound, hvalidates, -⟩ := directory_is_finite_map hvalid hlegal
  exact ⟨hmap, hsound, hvalidates.mpr (by decide +kernel)⟩

end Web3Storage.Formats
