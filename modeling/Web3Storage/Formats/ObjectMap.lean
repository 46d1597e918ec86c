import Web3Storage.Formats.DriveFiles
import Web3Storage.Formats.Objects

/-!
# Objects are a map of keys

A flat set of keys is stored in a tree. What the tree says of objects is a map from keys, here the lists of
their segments: a put sets a key unless the key of another object is a directory of it or below it, and a
delete removes one (`ObjectMap.change`). The tree keeps no directory without an object below (`Stores`), so
that what is in the way of a key is always an object, and every write of objects does on the map what it
says there: `objects_refine`.
-/

set_option autoImplicit false
set_option relaxedAutoImplicit false

namespace Web3Storage.Formats

open Foundations Primitives

/-- An object: its time, manifest and content. -/
structure StoredObject where
  mtime : Word 8
  manifest : FileManifest
  data : Bytes
  deriving DecidableEq

/-- Objects by the segments of their keys. -/
abbrev ObjectMap := PathMap Bytes StoredObject

/-- The segments of a key. -/
def keySegments (key : Bytes) : Except ObjectError (List Bytes) :=
  (objectPath key).map fun _ ↦ key.splitOn slash

namespace ObjectMap

variable (objects : ObjectMap)

/-- Another object is in the way of a key: its key is a directory of the key, or the other way round. -/
def Conflicts (names : List Bytes) : Prop :=
  ∃ other, objects other ≠ none ∧ other ≠ names ∧ (other <+: names ∨ names <+: other)

/-- The names in a directory that keys go through. -/
def namesIn (dir : List Bytes) : Set Bytes := {name | ∃ rest, objects (dir ++ name :: rest) ≠ none}

/-- Every directory of a key has its next segment or room for it. -/
def HasRoomAlong (names : List Bytes) : Prop :=
  ∀ dir name rest, names = dir ++ name :: rest →
    name ∈ objects.namesIn dir ∨ (objects.namesIn dir).ncard < maxDirectoryChildren

section Changes

variable (blake2256 : Bytes → H256) (toLowercase : Bytes → Bytes) (bucketId : Word 8)

omit objects in
open Classical in
/-- A write of objects: its result and the objects after it. -/
noncomputable def change (objects : ObjectMap) :
    Objects.Op → Except ObjectError (Option PutObjectResponse × ObjectMap)
  | .putObject key data options entryTime _ => do
    let names ← keySegments key
    let metadata ← toMetadataEntries toLowercase options.metadata
    let manifest ← (FileManifest.forContent blake2256 bucketId data
      (options.contentType.getD defaultMimeType) metadata).mapError fun rule ↦
        putError key (.format (slash :: key) rule)
    ensure (¬ objects.Conflicts names) (.keyConflict key)
    ensure (objects.HasRoomAlong names) (.fileSystem (.format (slash :: key) .directoryFull))
    return (some (putResponse blake2256 manifest),
      Function.update objects names (some ⟨entryTime, manifest, data⟩))
  | .deleteObject key _ => do
    let names ← keySegments key
    return (none, Function.update objects names none)

/-- The object with a key. -/
def find (key : Bytes) : Except ObjectError StoredObject := do
  let names ← keySegments key
  require (objects names) (.objectNotFound bucketId key)

end Changes

end ObjectMap

/-! ### Objects of a file system -/

namespace FileSystem

variable (fs : FileSystem)

/-- The files of a file system as objects. -/
def objects : ObjectMap := fun names ↦
  match fs names with
  | some (.file mtime manifest data) => some ⟨mtime, manifest, data⟩
  | _ => none

/-- A file system stores some objects and nothing else: everything is in a directory, and there is an object
below every directory. -/
structure Stores (objects : ObjectMap) : Prop where
  objects_eq : fs.objects = objects
  root : objects [] = none
  closed : ∀ dir rest, dir ≠ [] → rest ≠ [] → fs (dir ++ rest) ≠ none →
    ∃ mtime, fs dir = some (.directory mtime)
  populated : ∀ dir mtime, dir ≠ [] → fs dir = some (.directory mtime) →
    ∃ rest, rest ≠ [] ∧ objects (dir ++ rest) ≠ none

variable {fs} {objects : ObjectMap} {names : List Bytes}

theorem objects_ne_none_iff :
    fs.objects names ≠ none ↔ ∃ file, fs names = some file ∧ file.isDirectory = false := by
  unfold FileSystem.objects
  rcases fs names with _ | ⟨mtime, manifest, data⟩ | mtime
  · simp
  · simp [FsNode.isDirectory]
  · simp [FsNode.isDirectory]

/-- A walk that may create directories fails on the way only at an object. -/
theorem walk_create_cases (passed dir : List Bytes) :
    (fs.walk true passed dir = .ok () ∧
        ∀ path, path ≠ [] → path <+: dir → fs.objects (passed ++ path) = none) ∨
      (∃ path, path ≠ [] ∧ path <+: dir ∧ fs.objects (passed ++ path) ≠ none) ∧
        ∃ place, fs.walk true passed dir = .error (.read (.notADirectory place)) := by
  induction dir generalizing passed with
  | nil => exact .inl ⟨rfl, fun path hne hpath ↦ absurd (List.prefix_nil.mp hpath) hne⟩
  | cons name dir ih =>
    have hstep : fs.objects (passed ++ [name]) = none →
        fs.walk true passed (name :: dir) = fs.walk true (passed ++ [name]) dir →
        (fs.walk true passed (name :: dir) = .ok () ∧
            ∀ path, path ≠ [] → path <+: name :: dir → fs.objects (passed ++ path) = none) ∨
          (∃ path, path ≠ [] ∧ path <+: name :: dir ∧ fs.objects (passed ++ path) ≠ none) ∧
            ∃ place, fs.walk true passed (name :: dir) = .error (.read (.notADirectory place)) := by
      intro hnone hwalk
      rw [hwalk]
      rcases ih (passed ++ [name]) with ⟨hok, hall⟩ | ⟨⟨path, hne, hpath, hobject⟩, hfails⟩
      · refine .inl ⟨hok, fun path hne hpath ↦ ?_⟩
        obtain ⟨first, rest, rfl⟩ := List.exists_cons_of_ne_nil hne
        obtain ⟨rfl, hrest⟩ := List.cons_prefix_cons.mp hpath
        by_cases hnil : rest = []
        · rw [hnil, hnone]
        · have hbelow := hall rest hnil hrest
          rwa [List.append_assoc] at hbelow
      · refine .inr ⟨⟨name :: path, List.cons_ne_nil _ _, List.cons_prefix_cons.mpr ⟨rfl, hpath⟩, ?_⟩, hfails⟩
        rwa [List.append_assoc] at hobject
    rcases hnode : fs (passed ++ [name]) with _ | ⟨mtime, manifest, data⟩ | mtime
    · refine hstep ?_ ?_
      · unfold FileSystem.objects
        rw [hnode]
      · rw [walk, hnode]
        rfl
    · refine .inr ⟨⟨[name], List.cons_ne_nil _ _, List.prefix_append [name] dir, ?_⟩,
        joinNames (passed ++ [name]), ?_⟩
      · rw [objects_ne_none_iff]
        exact ⟨_, hnode, rfl⟩
      · rw [walk, hnode]
    · refine hstep ?_ ?_
      · unfold FileSystem.objects
        rw [hnode]
      · rw [walk, hnode]

theorem walk_cases (createMissing : Bool) (passed dir : List Bytes) :
    fs.walk createMissing passed dir = .ok () ∨ ∃ place,
      fs.walk createMissing passed dir = .error (.read (.notADirectory place)) ∨
        fs.walk createMissing passed dir = .error (.read (.pathNotFound place)) := by
  induction dir generalizing passed with
  | nil => exact .inl rfl
  | cons name dir ih =>
    unfold walk
    split
    · exact ih _
    · exact .inr ⟨_, .inl rfl⟩
    · split_ifs
      · exact ih _
      · exact .inr ⟨_, .inr rfl⟩

namespace Stores

variable (h : fs.Stores objects)

include h

theorem objects_apply (names : List Bytes) : objects names = fs.objects names := by
  rw [h.objects_eq]

theorem present {names : List Bytes} (hobject : objects names ≠ none) : fs names ≠ none := by
  rw [h.objects_apply, objects_ne_none_iff] at hobject
  obtain ⟨file, hfile, -⟩ := hobject
  rw [hfile]
  exact Option.some_ne_none _

theorem objects_of_directory {names : List Bytes} {mtime : Word 8}
    (hdir : fs names = some (.directory mtime)) : objects names = none := by
  rw [h.objects_apply]
  unfold FileSystem.objects
  rw [hdir]

/-- What is in the way of a key is an object on the way to it, or a directory in its place. -/
theorem conflicts_iff (hne : names ≠ []) : objects.Conflicts names ↔
    (∃ path, path ≠ [] ∧ path <+: names.dropLast ∧ objects path ≠ none) ∨
      (fs names).any FsNode.isDirectory = true := by
  have hsplit := List.dropLast_append_getLast hne
  constructor
  · rintro ⟨other, hobject, hother, hpre | ⟨rest, rfl⟩⟩
    · rw [← hsplit, List.prefix_concat_iff, hsplit] at hpre
      refine .inl ⟨other, ?_, hpre.resolve_left hother, hobject⟩
      rintro rfl
      exact hobject h.root
    · refine .inr ?_
      have hrest : rest ≠ [] := fun hnil ↦ hother (by rw [hnil, List.append_nil])
      obtain ⟨mtime, hdir⟩ := h.closed names rest hne hrest (h.present hobject)
      rw [hdir]
      rfl
  · rintro (⟨path, -, hpre, hobject⟩ | hdir)
    · refine ⟨path, hobject, ?_, .inl (hpre.trans (List.dropLast_prefix _))⟩
      rintro rfl
      have hlength := congrArg List.length hsplit
      rw [List.length_append, List.length_singleton] at hlength
      have := hpre.length_le
      omega
    · obtain ⟨node, hnode, hisDir⟩ := (Option.any_eq_true _ _).mp hdir
      cases node with
      | file mtime manifest data => cases hisDir
      | directory mtime =>
        obtain ⟨rest, hrest, hobject⟩ := h.populated names mtime hne hnode
        exact ⟨names ++ rest, hobject, fun hsame ↦ hrest (List.append_right_eq_self.mp hsame),
          .inr (List.prefix_append _ _)⟩

/-- The names in a directory are those that keys go through. -/
theorem namesIn_eq (dir : List Bytes) : fs.namesIn dir = objects.namesIn dir := by
  ext name
  constructor
  · intro hname
    rcases hnode : fs (dir ++ [name]) with _ | ⟨mtime, manifest, data⟩ | mtime
    · exact absurd hnode hname
    · refine ⟨[], ?_⟩
      rw [h.objects_apply, objects_ne_none_iff]
      exact ⟨_, hnode, rfl⟩
    · obtain ⟨rest, -, hobject⟩ := h.populated _ mtime (by simp) hnode
      exact ⟨rest, by rwa [List.append_assoc] at hobject⟩
  · rintro ⟨rest, hobject⟩
    have hpresent := h.present hobject
    by_cases hnil : rest = []
    · rwa [hnil] at hpresent
    · rw [List.append_cons] at hpresent
      obtain ⟨mtime, hdir⟩ := h.closed (dir ++ [name]) rest (by simp) hnil hpresent
      change fs (dir ++ [name]) ≠ none
      rw [hdir]
      exact Option.some_ne_none _

theorem hasRoomAlong_iff (names : List Bytes) : fs.HasRoomAlong names ↔ objects.HasRoomAlong names := by
  unfold FileSystem.HasRoomAlong ObjectMap.HasRoomAlong
  simp only [h.namesIn_eq]

/-- The way to an object is there. -/
theorem walk_of_object (createMissing : Bool) (hobject : objects names ≠ none) :
    fs.walk createMissing [] names.dropLast = .ok () := by
  refine walk_of_directories fun path hpathNe hpath ↦ ?_
  obtain ⟨rest, hrest⟩ := hpath.trans (List.dropLast_prefix names)
  refine h.closed path rest hpathNe ?_ (hrest ▸ h.present hobject)
  rintro rfl
  rw [List.append_nil] at hrest
  have hlength := hpath.length_le
  rw [← hrest, List.length_dropLast] at hlength
  have := List.length_pos_iff.mpr hpathNe
  omega

/-- A file that is put where no key is in the way. -/
theorem put (hne : names ≠ []) (hway : ∀ path, path ≠ [] → path <+: names.dropLast → objects path = none)
    (hplace : (fs names).any FsNode.isDirectory = false) (mtime dirTime : Word 8) (manifest : FileManifest)
    (data : Bytes) :
    Stores ((fs.graft names (.single (.file mtime manifest data))).stamp names.dropLast (.directory dirTime))
      (Function.update objects names (some ⟨mtime, manifest, data⟩)) := by
  have hsplit := List.dropLast_append_getLast hne
  have hlength : names.dropLast.length < names.length := by
    rw [List.length_dropLast]
    exact Nat.sub_lt (List.length_pos_iff.mpr hne) Nat.one_pos
  have hnotWay : ¬ names <+: names.dropLast := fun hpre ↦ absurd hpre.length_le (Nat.not_le.mpr hlength)
  have hnothing : ∀ rest, rest ≠ [] → fs (names ++ rest) = none := by
    intro rest hrest
    by_contra hsome
    obtain ⟨time, hdir⟩ := h.closed names rest hne hrest hsome
    rw [hdir] at hplace
    cases hplace
  generalize hafter : (fs.graft names (.single (.file mtime manifest data))).stamp names.dropLast
    (.directory dirTime) = fs'
  have hfile : fs' names = some (.file mtime manifest data) := by
    rw [← hafter, PathMap.stamp_of_not_isPrefix hnotWay, PathMap.graft, if_pos (List.prefix_refl _),
      List.drop_length]
    rfl
  have hdir : ∀ path, path <+: names.dropLast → fs' path = some (.directory dirTime) := by
    intro path hpath
    rw [← hafter, PathMap.stamp_of_isPrefix hpath]
  have hsame : ∀ path, path ≠ names → ¬ path <+: names.dropLast → fs' path = fs path := by
    intro path hother hpath
    rw [← hafter, PathMap.stamp_of_not_isPrefix hpath]
    by_cases hunder : names <+: path
    · obtain ⟨rest, rfl⟩ := hunder
      have hrest : rest ≠ [] := fun hnil ↦ hother (by rw [hnil, List.append_nil])
      obtain ⟨first, rest, rfl⟩ := List.exists_cons_of_ne_nil hrest
      rw [hnothing _ hrest, PathMap.graft, if_pos (List.prefix_append _ _), List.drop_left]
      rfl
    · exact PathMap.graft_of_not_isPrefix hunder
  constructor
  · funext path
    by_cases hother : path = names
    · rw [hother, Function.update_self]
      unfold FileSystem.objects
      rw [hfile]
    · rw [Function.update_of_ne hother]
      unfold FileSystem.objects
      by_cases hpath : path <+: names.dropLast
      · rw [hdir path hpath]
        by_cases hnil : path = []
        · rw [hnil, h.root]
        · rw [hway path hnil hpath]
      · rw [hsame path hother hpath, h.objects_apply]
        rfl
  · rw [Function.update_of_ne hne.symm, h.root]
  · intro dir rest hdirNe hrest hsome
    by_cases hon : dir <+: names.dropLast
    · exact ⟨dirTime, hdir dir hon⟩
    · have hbeside : dir ++ rest ≠ names := by
        rintro rfl
        exact hon (List.dropLast_append_of_ne_nil hrest ▸ List.prefix_append _ _)
      rw [hsame _ hbeside fun hpre ↦ hon ((List.prefix_append _ _).trans hpre)] at hsome
      obtain ⟨time, htime⟩ := h.closed dir rest hdirNe hrest hsome
      refine ⟨time, ?_⟩
      rw [hsame dir ?_ hon, htime]
      rintro rfl
      exact hsome (hnothing rest hrest)
  · intro dir time hdirNe htime
    by_cases hon : dir <+: names.dropLast
    · obtain ⟨rest, hrest⟩ := hon.trans (List.dropLast_prefix _)
      refine ⟨rest, ?_, ?_⟩
      · rintro rfl
        rw [List.append_nil] at hrest
        exact hnotWay (hrest ▸ hon)
      · rw [hrest, Function.update_self]
        exact Option.some_ne_none _
    · have hother : dir ≠ names := by
        rintro rfl
        rw [hfile] at htime
        cases htime
      rw [hsame dir hother hon] at htime
      obtain ⟨rest, hrest, hobject⟩ := h.populated dir time hdirNe htime
      refine ⟨rest, hrest, ?_⟩
      by_cases hsameKey : dir ++ rest = names
      · rw [hsameKey, Function.update_self]
        exact Option.some_ne_none _
      · rwa [Function.update_of_ne hsameKey]

/-- A file that is removed with the directories that it leaves empty. -/
theorem prune (hobject : objects names ≠ none) (now : Word 8) :
    Stores (fs.prune names now) (Function.update objects names none) := by
  have hne : names ≠ [] := by
    rintro rfl
    exact hobject h.root
  have hnoDir : ∀ time, fs names ≠ some (.directory time) := fun time hdir ↦
    hobject (h.objects_of_directory hdir)
  have hnothing : ∀ rest, rest ≠ [] → fs (names ++ rest) = none := by
    intro rest hrest
    by_contra hsome
    obtain ⟨time, hdir⟩ := h.closed names rest hne hrest hsome
    exact hnoDir time hdir
  have hnone : fs.prune names now names = none := by
    unfold FileSystem.prune
    rw [if_pos (List.prefix_refl _), if_neg]
    rintro ⟨_, ⟨rest, rfl⟩, hbeside, hsome⟩
    refine hsome (hnothing rest ?_)
    rintro rfl
    exact hbeside (by rw [List.append_nil])
  have hkept : ∀ path, path <+: names → fs.HasOther path names →
      fs.prune names now path = some (.directory now) := by
    intro path hpath hother
    unfold FileSystem.prune
    rw [if_pos hpath, if_pos hother]
  have hsame : ∀ path, ¬ path <+: names → fs.prune names now path = fs path := fun path hpath ↦ if_neg hpath
  constructor
  · funext path
    by_cases hother : path = names
    · rw [hother, Function.update_self]
      unfold FileSystem.objects
      rw [hnone]
    · rw [Function.update_of_ne hother]
      by_cases hpath : path <+: names
      · obtain ⟨rest, rfl⟩ := hpath
        have hrest : rest ≠ [] := fun hnil ↦ hother (by rw [hnil, List.append_nil])
        have hobjects : objects path = none := by
          by_cases hnil : path = []
          · rw [hnil, h.root]
          · obtain ⟨time, hdir⟩ := h.closed path rest hnil hrest (h.present hobject)
            exact h.objects_of_directory hdir
        rw [hobjects]
        unfold FileSystem.objects FileSystem.prune
        rw [if_pos (List.prefix_append _ _)]
        split_ifs
        · rfl
        · rfl
      · rw [h.objects_apply]
        unfold FileSystem.objects
        rw [hsame path hpath]
  · rw [Function.update_of_ne hne.symm, h.root]
  · intro dir rest hdirNe hrest hsome
    by_cases hon : dir <+: names
    · refine ⟨now, hkept dir hon ?_⟩
      by_cases hbelow : dir ++ rest <+: names
      · unfold FileSystem.prune at hsome
        rw [if_pos hbelow] at hsome
        obtain ⟨other, hother, hbeside, hpresent⟩ : fs.HasOther (dir ++ rest) names := by
          by_contra hnoOther
          rw [if_neg hnoOther] at hsome
          exact hsome rfl
        exact ⟨other, (List.prefix_append _ _).trans hother, hbeside, hpresent⟩
      · rw [hsame _ hbelow] at hsome
        exact ⟨dir ++ rest, List.prefix_append _ _, hbelow, hsome⟩
    · rw [hsame _ fun hpre ↦ hon ((List.prefix_append _ _).trans hpre)] at hsome
      rw [hsame dir hon]
      exact h.closed dir rest hdirNe hrest hsome
  · intro dir time hdirNe htime
    by_cases hon : dir <+: names
    · obtain ⟨_, ⟨rest, rfl⟩, hbeside, hpresent⟩ : fs.HasOther dir names := by
        by_contra hnoOther
        unfold FileSystem.prune at htime
        rw [if_pos hon, if_neg hnoOther] at htime
        cases htime
      have hrest : rest ≠ [] := by
        rintro rfl
        exact hbeside (by rwa [List.append_nil])
      obtain ⟨more, hmore⟩ : ∃ more, objects (dir ++ rest ++ more) ≠ none := by
        rcases hnode : fs (dir ++ rest) with _ | ⟨mtime, manifest, data⟩ | mtime
        · exact absurd hnode hpresent
        · refine ⟨[], ?_⟩
          rw [List.append_nil, h.objects_apply, objects_ne_none_iff]
          exact ⟨_, hnode, rfl⟩
        · obtain ⟨more, -, hmore⟩ := h.populated (dir ++ rest) mtime (by simp [hdirNe]) hnode
          exact ⟨more, hmore⟩
      refine ⟨rest ++ more, by simp [hrest], ?_⟩
      rw [← List.append_assoc, Function.update_of_ne]
      · exact hmore
      · intro hsameKey
        exact hbeside (hsameKey ▸ List.prefix_append _ _)
    · rw [hsame dir hon] at htime
      obtain ⟨rest, hrest, hbelow⟩ := h.populated dir time hdirNe htime
      refine ⟨rest, hrest, ?_⟩
      rw [Function.update_of_ne]
      · exact hbelow
      · rintro rfl
        exact hon (List.prefix_append _ _)

end Stores

end FileSystem

/-! ### Operations -/

namespace Objects

/-- The write of the tree that a write of objects makes. -/
def Op.toFsOp (toLowercase : Bytes → Bytes) : Op → Except ObjectError StoredTree.FsOp
  | .putObject key data options entryTime dirTime => do
    let path ← objectPath key
    let metadata ← toMetadataEntries toLowercase options.metadata
    return .putFile path data (options.contentType.getD defaultMimeType) metadata entryTime dirTime
  | .deleteObject key now => do
    let path ← objectPath key
    return .delete path .remove now

/-- The result of a write of objects for that of its write of the tree. -/
def Op.result (blake2256 : Bytes → H256) (op : Op) (result : Except TreeError (Option FileStat)) :
    Except ObjectError (Option PutObjectResponse) :=
  match op with
  | .putObject key _ _ _ _ =>
    (result.mapError (putError key)).map (Option.map fun stat ↦ putResponse blake2256 stat.manifest)
  | .deleteObject _ _ => (deleteResult result).map fun _ ↦ none

/-- A write of objects is one write of the tree. -/
theorem apply_eq {σ : Type} (blake2256 : Bytes → H256) (mmr : MmrLibrary) (toLowercase : Bytes → Bytes)
    (objects : Objects σ) (op : Op) (s : σ) : objects.apply blake2256 mmr toLowercase op s =
      match op.toFsOp toLowercase with
      | .error error => (.error error, s)
      | .ok fsOp => (objects.tree.apply blake2256 mmr fsOp s).map
        (fun result ↦ op.result blake2256 (result.map Prod.snd)) id := by
  obtain ⟨hput, -, hdelete, -⟩ := StoredTree.apply_eq blake2256 mmr objects.tree s
  cases op with
  | putObject key data options entryTime dirTime =>
    unfold apply putObject Op.toFsOp
    dsimp only
    cases objectPath key with
    | error error => rfl
    | ok path =>
      rw [ok_bind, ok_bind]
      cases toMetadataEntries toLowercase options.metadata with
      | error error => rfl
      | ok metadata =>
        rw [ok_bind, ok_bind]
        dsimp only [pure, Except.pure]
        rw [hput]
        rcases objects.tree.putFile blake2256 mmr path data (options.contentType.getD defaultMimeType)
          metadata entryTime dirTime s with ⟨result, s'⟩
        cases result with
        | error error => rfl
        | ok done => rfl
  | deleteObject key now =>
    unfold apply deleteObject Op.toFsOp
    dsimp only
    cases objectPath key with
    | error error => rfl
    | ok path =>
      rw [ok_bind]
      dsimp only [pure, Except.pure]
      rw [hdelete]
      rcases objects.tree.delete blake2256 mmr path .remove now s with ⟨result, s'⟩
      cases result with
      | error error => rfl
      | ok done => rfl

end Objects

theorem objectPath_eq_ok {key path : Bytes} (h : objectPath key = .ok path) :
    path = slash :: key ∧ keySegments key = .ok (key.splitOn slash) ∧
      parsePath (slash :: key) = .ok (key.splitOn slash) ∧
      ∀ name ∈ key.splitOn slash, validateEntryName name = .ok () := by
  have hpath := h
  unfold objectPath keyToPath at h
  split_ifs at h with hvalid
  · cases h
    refine ⟨rfl, ?_, parsePath_of_valid hvalid.1 hvalid.2.2, hvalid.2.2⟩
    unfold keySegments
    rw [hpath]
    rfl
  · cases h

section Simulation

variable {blake2256 : Bytes → H256} {toLowercase : Bytes → Bytes} {bucketId : Word 8} {fs : FileSystem}
  {objects : ObjectMap}

open Classical in
/-- A put of the tree is one of the map. -/
theorem FileSystem.Stores.simulates_put (h : fs.Stores objects) {key data path : Bytes}
    {options : PutObjectOptions} {metadata : List MetadataEntry} {entryTime dirTime : Word 8}
    (hpath : objectPath key = .ok path)
    (hmetadata : toMetadataEntries toLowercase options.metadata = .ok metadata) :
    Refines (fun _ ↦ False)
      (fun done expected ↦
        done.1.map (fun stat ↦ putResponse blake2256 stat.manifest) = expected.1 ∧ done.2.Stores expected.2)
      ((fs.change blake2256 bucketId (.putFile path data (options.contentType.getD defaultMimeType) metadata
        entryTime dirTime)).mapError (putError key))
      (objects.change blake2256 toLowercase bucketId (.putObject key data options entryTime dirTime)) := by
  obtain ⟨rfl, hsegments, hparse, hvalid⟩ := objectPath_eq_ok hpath
  have hne : key.splitOn slash ≠ [] := List.splitOn_ne_nil _ _
  generalize key.splitOn slash = names at hsegments hparse hvalid hne
  obtain ⟨name, hname⟩ : ∃ name, names.getLast? = some name := ⟨_, List.getLast?_eq_some_getLast hne⟩
  have hentry := DirectoryEntry.tryNew_of_valid (hvalid name (List.mem_of_getLast? hname)) .file
  unfold FileSystem.change ObjectMap.change
  dsimp only
  rw [hparse, hsegments, hmetadata]
  simp only [Except.mapError, ok_bind, hname, require_some]
  cases FileManifest.forContent blake2256 bucketId data (options.contentType.getD defaultMimeType)
    metadata with
  | error rule => exact .error _
  | ok manifest =>
    rcases @FileSystem.walk_create_cases fs [] names.dropLast with
      ⟨hwalk, hway⟩ | ⟨⟨other, hother, hon, hobject⟩, place, hwalk⟩
    · have hwayObjects : ∀ path, path ≠ [] → path <+: names.dropLast → objects path = none := by
        intro path hpathNe hpre
        rw [h.objects_apply]
        exact hway path hpathNe hpre
      simp only [hwalk, ok_bind]
      by_cases hdir : (fs names).any FsNode.isDirectory = true
      · rw [hdir, decide_eq_false (not_not.mpr ((h.conflicts_iff hne).mpr (.inr hdir)))]
        exact .error _
      · have hfree : ¬ objects.Conflicts names := by
          rw [h.conflicts_iff hne]
          rintro (⟨other, hother, hon, hobject⟩ | hisDir)
          · exact hobject (hwayObjects other hother hon)
          · exact hdir hisDir
        obtain ⟨entry, hentry, -⟩ := hentry (computeCid blake2256 manifest.toBlob)
          (Word.ofNat 8 data.length) entryTime
        rw [Bool.not_eq_true] at hdir
        simp only [hdir, hentry, decide_eq_true hfree, Bool.not_false, ensure_true, ok_bind,
          decide_eq_decide.mpr (h.hasRoomAlong_iff names)]
        by_cases hroom : objects.HasRoomAlong names
        · simp only [decide_eq_true hroom, ensure_true, ok_bind]
          exact .ok ⟨rfl, h.put hne hwayObjects hdir entryTime dirTime manifest data⟩
        · rw [decide_eq_false hroom]
          exact .error _
    · have hconflict : objects.Conflicts names := by
        rw [h.conflicts_iff hne]
        rw [List.nil_append, ← h.objects_apply] at hobject
        exact .inl ⟨other, hother, hon, hobject⟩
      simp only [hwalk, ok_bind]
      rw [decide_eq_false (not_not.mpr hconflict)]
      exact .error _

/-- A deletion of the tree is one of the map; nothing is there to delete if it is refused. -/
theorem FileSystem.Stores.simulates_delete (h : fs.Stores objects) {key path : Bytes} {now : Word 8}
    (hpath : objectPath key = .ok path) :
    ∃ objects', objects.change blake2256 toLowercase bucketId (.deleteObject key now) = .ok (none, objects') ∧
      ((∃ fs', fs.change blake2256 bucketId (.delete path .remove now) = .ok (none, fs') ∧
          fs'.Stores objects') ∨
        ∃ error, fs.change blake2256 bucketId (.delete path .remove now) = .error error ∧
          deleteError error = .ok () ∧ objects' = objects) := by
  obtain ⟨rfl, hsegments, hparse, -⟩ := objectPath_eq_ok hpath
  have hne : key.splitOn slash ≠ [] := List.splitOn_ne_nil _ _
  generalize key.splitOn slash = names at hsegments hparse hne
  obtain ⟨name, hname⟩ : ∃ name, names.getLast? = some name := ⟨_, List.getLast?_eq_some_getLast hne⟩
  unfold FileSystem.change ObjectMap.change
  dsimp only
  rw [hparse, hsegments]
  simp only [Except.mapError, ok_bind, hname, require_some]
  refine ⟨_, rfl, ?_⟩
  by_cases hobject : objects names = none
  · refine .inr ?_
    have hsame : Function.update objects names none = objects := by
      rw [← hobject, Function.update_eq_self]
    rcases @FileSystem.walk_cases fs false [] names.dropLast with hwalk | ⟨place, hwalk | hwalk⟩
    · rcases hnode : fs names with _ | ⟨mtime, manifest, data⟩ | mtime
      · simp only [hwalk, ok_bind]
        exact ⟨_, rfl, rfl, hsame⟩
      · rw [h.objects_apply] at hobject
        unfold FileSystem.objects at hobject
        rw [hnode] at hobject
        cases hobject
      · simp only [hwalk, ok_bind, require_some]
        exact ⟨_, rfl, rfl, hsame⟩
    · simp only [hwalk]
      exact ⟨_, rfl, rfl, hsame⟩
    · simp only [hwalk]
      exact ⟨_, rfl, rfl, hsame⟩
  · refine .inl ⟨_, ?_, h.prune hobject now⟩
    obtain ⟨file, hfile, hisFile⟩ := FileSystem.objects_ne_none_iff.mp (h.objects_apply names ▸ hobject)
    have hwalk := h.walk_of_object false hobject
    simp only [hwalk, ok_bind, hfile, require_some, hisFile, Bool.false_and, Bool.not_false,
      Bool.true_or, ensure_true]
    rfl

/-- A file of the tree is read as the object with its key; what is not an object is not found. -/
theorem FileSystem.Stores.readFile_spec (h : fs.Stores objects) {key path : Bytes}
    (hpath : objectPath key = .ok path) :
    (∃ object entry, objects.find bucketId key = .ok object ∧ entry.mtime = object.mtime ∧
      fs.readFile blake2256 path = .ok (⟨entry, object.manifest⟩, object.data)) ∨
    ∃ error, objects.find bucketId key = .error (.objectNotFound bucketId key) ∧
      fs.readFile blake2256 path = .error error ∧
      objectError bucketId key error = .objectNotFound bucketId key := by
  obtain ⟨rfl, hsegments, hparse, hvalid⟩ := objectPath_eq_ok hpath
  have hne : key.splitOn slash ≠ [] := List.splitOn_ne_nil _ _
  generalize key.splitOn slash = names at hsegments hparse hvalid hne
  obtain ⟨name, hname⟩ : ∃ name, names.getLast? = some name := ⟨_, List.getLast?_eq_some_getLast hne⟩
  unfold FileSystem.readFile ObjectMap.find
  rw [hparse, hsegments]
  simp only [Except.mapError, ok_bind, hname, require_some]
  by_cases hobject : objects names = none
  · refine .inr ?_
    rw [hobject]
    rcases @FileSystem.walk_cases fs false [] names.dropLast with hwalk | ⟨place, hwalk | hwalk⟩
    · rcases hnode : fs names with _ | ⟨mtime, manifest, data⟩ | mtime
      · simp only [hwalk, ok_bind]
        exact ⟨_, rfl, rfl, rfl⟩
      · rw [h.objects_apply] at hobject
        unfold FileSystem.objects at hobject
        rw [hnode] at hobject
        cases hobject
      · simp only [hwalk, ok_bind]
        exact ⟨_, rfl, rfl, rfl⟩
    · simp only [hwalk]
      exact ⟨_, rfl, rfl, rfl⟩
    · simp only [hwalk]
      exact ⟨_, rfl, rfl, rfl⟩
  · have hwalk := h.walk_of_object false hobject
    obtain ⟨file, hfile, hisFile⟩ := FileSystem.objects_ne_none_iff.mp (h.objects_apply names ▸ hobject)
    cases file with
    | directory mtime => cases hisFile
    | file mtime manifest data =>
      have hstored : objects names = some ⟨mtime, manifest, data⟩ := by
        rw [h.objects_apply]
        unfold FileSystem.objects
        rw [hfile]
      obtain ⟨entry, hentry, -, -, -, -, hmtime⟩ := DirectoryEntry.tryNew_of_valid
        (hvalid name (List.mem_of_getLast? hname)) .file (computeCid blake2256 manifest.toBlob)
        (Word.ofNat 8 data.length) mtime
      refine .inl ⟨⟨mtime, manifest, data⟩, entry, ?_, hmtime, ?_⟩
      · rw [hstored]
        rfl
      · simp only [hwalk, ok_bind, hfile, hentry]
        rfl

/-- A write of objects that makes no write of the tree is refused. -/
theorem ObjectMap.change_of_toFsOp {op : Objects.Op} {error : ObjectError}
    (h : op.toFsOp toLowercase = .error error) :
    objects.change blake2256 toLowercase bucketId op = .error error := by
  cases op with
  | putObject key data options entryTime dirTime =>
    unfold Objects.Op.toFsOp at h
    unfold ObjectMap.change keySegments
    dsimp only at h ⊢
    cases hpath : objectPath key with
    | error failure =>
      rw [hpath] at h
      cases h
      rfl
    | ok path =>
      rw [hpath, ok_bind] at h
      cases hmetadata : toMetadataEntries toLowercase options.metadata with
      | error failure =>
        rw [hmetadata] at h
        cases h
        rfl
      | ok metadata =>
        rw [hmetadata] at h
        cases h
  | deleteObject key now =>
    unfold Objects.Op.toFsOp at h
    unfold ObjectMap.change keySegments
    dsimp only at h ⊢
    cases hpath : objectPath key with
    | error failure =>
      rw [hpath] at h
      cases h
      rfl
    | ok path =>
      rw [hpath] at h
      cases h

/-- An error of a store that is not reliable. -/
def ObjectsFail (reliable : Prop) (error : ObjectError) : Prop :=
  ∃ failure, StoreFails reliable failure ∧ error = .fileSystem failure

/-- What a file system answers, the objects in it answer. -/
theorem FileSystem.Stores.answers (h : fs.Stores objects) {reliable : Prop} {op : Objects.Op}
    {fsOp : StoredTree.FsOp} (hop : op.toFsOp toLowercase = .ok fsOp)
    {result : Except TreeError (Option FileStat)} {fs' : FileSystem}
    (hanswers : Answers (StoreFails reliable) (FileSystem.change blake2256 bucketId) fs fsOp result fs') :
    ∃ objects', Answers (ObjectsFail reliable) (ObjectMap.change blake2256 toLowercase bucketId) objects op
      (op.result blake2256 result) objects' ∧ fs'.Stores objects' := by
  have hfail : ∀ error, StoreFails reliable error →
      op.result blake2256 (.error error) = .error (.fileSystem error) := by
    rintro error ⟨-, message, rfl⟩
    cases op with
    | putObject key data options entryTime dirTime => rfl
    | deleteObject key now => rfl
  have hdone : ∀ stat after, fs.change blake2256 bucketId fsOp = .ok (stat, after) →
      ∃ response objects', objects.change blake2256 toLowercase bucketId op = .ok (response, objects') ∧
        op.result blake2256 (.ok stat) = .ok response ∧ after.Stores objects' := by
    intro stat after hchange
    cases op with
    | putObject key data options entryTime dirTime =>
      simp only [Objects.Op.toFsOp, bind_eq_ok, pure_eq_ok] at hop
      obtain ⟨path, hpath, metadata, hmetadata, rfl⟩ := hop
      have hsim := @simulates_put blake2256 toLowercase bucketId fs objects h key data path options metadata
        entryTime dirTime hpath hmetadata
      rw [hchange] at hsim
      obtain ⟨⟨response, objects'⟩, hobjects, hresponse, hstores⟩ := hsim.of_ok
      exact ⟨response, objects', hobjects, congrArg Except.ok hresponse, hstores⟩
    | deleteObject key now =>
      simp only [Objects.Op.toFsOp, bind_eq_ok, pure_eq_ok] at hop
      obtain ⟨path, hpath, rfl⟩ := hop
      obtain ⟨objects', hobjects, ⟨fs', hsame, hstores⟩ | ⟨error, hsame, -⟩⟩ :=
        @simulates_delete blake2256 toLowercase bucketId fs objects h key path now hpath
      · rw [hchange] at hsame
        cases hsame
        exact ⟨none, objects', hobjects, rfl, hstores⟩
      · rw [hchange] at hsame
        cases hsame
  have hrefused : ∀ error, fs.change blake2256 bucketId fsOp = .error error →
      (∃ failure, objects.change blake2256 toLowercase bucketId op = .error failure ∧
        op.result blake2256 (.error error) = .error failure) ∨
      ∃ response, objects.change blake2256 toLowercase bucketId op = .ok (response, objects) ∧
        op.result blake2256 (.error error) = .ok response := by
    intro error hchange
    cases op with
    | putObject key data options entryTime dirTime =>
      simp only [Objects.Op.toFsOp, bind_eq_ok, pure_eq_ok] at hop
      obtain ⟨path, hpath, metadata, hmetadata, rfl⟩ := hop
      have hsim := @simulates_put blake2256 toLowercase bucketId fs objects h key data path options metadata
        entryTime dirTime hpath hmetadata
      rw [hchange] at hsim
      exact .inl ⟨putError key error, hsim.of_error, rfl⟩
    | deleteObject key now =>
      simp only [Objects.Op.toFsOp, bind_eq_ok, pure_eq_ok] at hop
      obtain ⟨path, hpath, rfl⟩ := hop
      obtain ⟨objects', hobjects, ⟨fs', hsame, -⟩ | ⟨error', hsame, hmissing, rfl⟩⟩ :=
        @simulates_delete blake2256 toLowercase bucketId fs objects h key path now hpath
      · rw [hchange] at hsame
        cases hsame
      · rw [hchange] at hsame
        cases hsame
        refine .inr ⟨none, hobjects, ?_⟩
        change (deleteError error).map _ = _
        rw [hmissing]
        rfl
  cases hanswers with
  | done stat after hchange =>
    obtain ⟨response, objects', hobjects, hresult, hstores⟩ := hdone stat fs' hchange
    rw [hresult]
    exact ⟨objects', .done response objects' hobjects, hstores⟩
  | refused error hchange =>
    rcases hrefused error hchange with ⟨failure, hobjects, hresult⟩ | ⟨response, hobjects, hresult⟩
    · rw [hresult]
      exact ⟨objects, .refused failure hobjects, h⟩
    · rw [hresult]
      exact ⟨objects, .done response objects hobjects, h⟩
  | failed error after hfails hafter =>
    rw [hfail error hfails]
    rcases hafter with rfl | ⟨stat, hchange⟩
    · exact ⟨objects, .failed _ objects ⟨error, hfails, rfl⟩ (.inl rfl), h⟩
    · obtain ⟨response, objects', hobjects, -, hstores⟩ := hdone stat fs' hchange
      exact ⟨objects', .failed _ objects' ⟨error, hfails, rfl⟩ (.inr ⟨response, hobjects⟩), hstores⟩

end Simulation

/-! ### Runs -/

/-- The last leaf is a directory that stores some objects and nothing else. -/
def HoldsObjects (blake2256 : Bytes → H256) (bucketId : Word 8) (blobs : Set Bytes) (leaves : List MmrLeaf)
    (map : ObjectMap) : Prop :=
  ∃ fs : FileSystem, Represents blake2256 bucketId blobs leaves fs ∧ fs.Stores map

/-- An empty drive has no objects. -/
theorem holdsObjects_empty (blake2256 : Bytes → H256) (bucketId : Word 8) (blobs : Set Bytes) :
    HoldsObjects blake2256 bucketId blobs [] .empty := by
  refine ⟨.empty, represents_empty bucketId blobs, rfl, rfl, ?_, ?_⟩
  · intro dir rest _ _ hsome
    exact absurd rfl hsome
  · intro dir mtime _ hdir
    cases hdir

namespace Objects

section Writes

variable {σ : Type} (blake2256 : Bytes → H256) (mmr : MmrLibrary) (toLowercase : Bytes → Bytes)
  (objects : Objects σ)

/-- The blobs that a write of objects is to upload. -/
def written (op : Op) (s : σ) : List Bytes :=
  match op.toFsOp toLowercase with
  | .error _ => []
  | .ok fsOp => objects.tree.written blake2256 mmr fsOp s

/-- The blobs that a sequence of writes of objects is to upload. -/
def writtenAll : List Op → σ → List Bytes
  | [], _ => []
  | op :: ops, s => objects.written blake2256 mmr toLowercase op s ++
    writtenAll ops (objects.apply blake2256 mmr toLowercase op s).2

end Writes

variable {σ : Type} {blake2256 : Bytes → H256} {mmr : MmrLibrary} {toLowercase : Bytes → Bytes}
  {reliable : Prop} {objects : Objects σ} {blobs : σ → Set Bytes} {leaves : σ → List MmrLeaf}
  (h : objects.tree.store.Serves blake2256 mmr objects.tree.bucketId reliable blobs leaves)
  (hmmr : mmr.IsStandard) {s : σ} {map : ObjectMap}

include h hmmr

/-- A write of objects is answered as the map answers it. -/
theorem apply_answers (hcount : (leaves s).length ≤ maxRangeLeaves) {op : Op} {known : Set Bytes}
    (hfree : CollisionFree blake2256 known) (hstored : blobs s ⊆ known)
    (hwritten : ∀ item ∈ objects.written blake2256 mmr toLowercase op s, item ∈ known)
    (hdrive : HoldsObjects blake2256 objects.tree.bucketId (blobs s) (leaves s) map) :
    ∃ result s' map', objects.apply blake2256 mmr toLowercase op s = (result, s') ∧
      Writes blobs leaves (objects.written blake2256 mmr toLowercase op s) s s' ∧
      Answers (ObjectsFail reliable) (ObjectMap.change blake2256 toLowercase objects.tree.bucketId) map op
        result map' ∧
      HoldsObjects blake2256 objects.tree.bucketId (blobs s') (leaves s') map' := by
  obtain ⟨fs, hdrive, hmap⟩ := hdrive
  rw [apply_eq]
  unfold written at hwritten ⊢
  cases hop : op.toFsOp toLowercase with
  | error error =>
    exact ⟨_, s, map, rfl, .refl _ s, .refused error (ObjectMap.change_of_toFsOp hop), fs, hdrive, hmap⟩
  | ok fsOp =>
    rw [hop] at hwritten
    dsimp only at hwritten ⊢
    obtain ⟨result, s', fs', happly, hwrites, hanswers, -, hdrive'⟩ :=
      apply_spec h hmmr hcount hfree hstored hwritten hdrive
    obtain ⟨map', hanswersMap, hmap'⟩ := hmap.answers hop hanswers
    rw [happly]
    exact ⟨_, s', map', rfl, hwrites, hanswersMap, fs', hdrive', hmap'⟩

/-- A sequence of writes of objects is answered as the map answers it. -/
theorem applyAll_answers {ops : List Op} {known : Set Bytes} (hfree : CollisionFree blake2256 known)
    (hstored : blobs s ⊆ known)
    (hwritten : ∀ item ∈ objects.writtenAll blake2256 mmr toLowercase ops s, item ∈ known)
    (hcount : (leaves s).length + (objects.writtenAll blake2256 mmr toLowercase ops s).length ≤
      maxRangeLeaves)
    (hdrive : HoldsObjects blake2256 objects.tree.bucketId (blobs s) (leaves s) map) :
    ∃ results s' map', objects.applyAll blake2256 mmr toLowercase ops s = (results, s') ∧
      Writes blobs leaves (objects.writtenAll blake2256 mmr toLowercase ops s) s s' ∧
      AnswersAll (ObjectsFail reliable) (ObjectMap.change blake2256 toLowercase objects.tree.bucketId) map ops
        results map' ∧
      HoldsObjects blake2256 objects.tree.bucketId (blobs s') (leaves s') map' := by
  induction ops generalizing s map with
  | nil => exact ⟨[], s, map, rfl, .refl _ s, .nil map, hdrive⟩
  | cons op ops ih =>
    unfold writtenAll at hwritten hcount ⊢
    rw [List.forall_mem_append] at hwritten
    rw [List.length_append] at hcount
    obtain ⟨result, s', map', happly, hwrites, hanswers, hdrive'⟩ :=
      apply_answers h hmmr ((Nat.le_add_right _ _).trans hcount) hfree hstored hwritten.1 hdrive
    rw [happly] at hwritten hcount ⊢
    have hstored' : blobs s' ⊆ known := hwrites.within.trans (Set.union_subset hstored hwritten.1)
    have hcount' : (leaves s').length + (objects.writtenAll blake2256 mmr toLowercase ops s').length ≤
        maxRangeLeaves := by
      have hlength := hwrites.length_le
      dsimp only at hcount
      omega
    obtain ⟨results, s'', map'', hall, hwrites', hanswersAll, hdrive''⟩ :=
      ih hstored' hwritten.2 hcount' hdrive'
    refine ⟨result :: results, s'', map'', ?_, hwrites.trans hwrites', .cons hanswers hanswersAll, hdrive''⟩
    unfold applyAll
    rw [happly]
    dsimp only
    rw [hall]

/-- An object is read as the map has it. -/
theorem reads_refine (hcount : (leaves s).length ≤ maxRangeLeaves)
    (hfree : CollisionFree blake2256 (blobs s))
    (hdrive : HoldsObjects blake2256 objects.tree.bucketId (blobs s) (leaves s) map) (key : Bytes) :
    Refines (ObjectsFail reliable)
        (fun response object ↦
          response = (headResponse blake2256 object.mtime object.manifest).withData object.data)
        (objects.getObject blake2256 mmr s key) (map.find objects.tree.bucketId key) ∧
      Refines (ObjectsFail reliable)
        (fun response object ↦ response = headResponse blake2256 object.mtime object.manifest)
        (objects.headObject blake2256 mmr s key) (map.find objects.tree.bucketId key) := by
  obtain ⟨fs, hdrive, hmap⟩ := hdrive
  have hfails : ∀ error, StoreFails reliable error →
      ObjectsFail reliable (objectError objects.tree.bucketId key error) := by
    rintro error ⟨hunreliable, message, rfl⟩
    exact ⟨_, ⟨hunreliable, message, rfl⟩, rfl⟩
  unfold getObject headObject
  cases hpath : objectPath key with
  | error error =>
    have hfind : map.find objects.tree.bucketId key = .error error := by
      unfold ObjectMap.find keySegments
      rw [hpath]
      rfl
    rw [hfind]
    exact ⟨.error error, .error error⟩
  | ok path =>
    rw [ok_bind, ok_bind]
    have hget := (getFile_refines (h.reads hmmr) hcount hfree hdrive path).mapError hfails
    have hstat := (stat_refines (h.reads hmmr) hcount hfree hdrive path).mapError hfails
    rcases hmap.readFile_spec hpath with ⟨object, entry, hfind, hmtime, hread⟩ | ⟨error, hfind, hread, herror⟩
    · rw [hread] at hget hstat
      rw [hfind]
      constructor
      · refine hget.bind_left ?_
        rintro _ rfl
        refine .ok ?_
        unfold FileStat.toHead
        rw [hmtime]
      · refine hstat.bind_left ?_
        rintro _ ⟨rfl, -⟩
        refine .ok ?_
        unfold FileStat.toHead
        rw [hmtime]
    · rw [hread] at hget hstat
      rw [hfind, ← herror]
      exact ⟨hget.bind_error, hstat.bind_error⟩

/-- **Objects are a map of keys.** Any sequence of puts and deletes on a drive that holds the objects of a map
is answered as the map answers it, or fails because the store does, and was then done or not. The drive
holds the objects of the map after it, and every key is read as the map has it. -/
theorem objects_refine (ops : List Op)
    (hdrive : HoldsObjects blake2256 objects.tree.bucketId (blobs s) (leaves s) map)
    (hfree : CollisionFree blake2256
      (blobs s ∪ {item | item ∈ objects.writtenAll blake2256 mmr toLowercase ops s}))
    (hcount : (leaves s).length + (objects.writtenAll blake2256 mmr toLowercase ops s).length ≤
      maxRangeLeaves) :
    ∃ results s' map', objects.applyAll blake2256 mmr toLowercase ops s = (results, s') ∧
      AnswersAll (ObjectsFail reliable) (ObjectMap.change blake2256 toLowercase objects.tree.bucketId) map ops
        results map' ∧
      HoldsObjects blake2256 objects.tree.bucketId (blobs s') (leaves s') map' ∧
      ∀ key, Refines (ObjectsFail reliable)
          (fun response object ↦
            response = (headResponse blake2256 object.mtime object.manifest).withData object.data)
          (objects.getObject blake2256 mmr s' key) (map'.find objects.tree.bucketId key) ∧
        Refines (ObjectsFail reliable)
          (fun response object ↦ response = headResponse blake2256 object.mtime object.manifest)
          (objects.headObject blake2256 mmr s' key) (map'.find objects.tree.bucketId key) := by
  obtain ⟨results, s', map', hall, hwrites, hanswers, hdrive'⟩ :=
    applyAll_answers h hmmr hfree Set.subset_union_left (fun _ hitem ↦ .inr hitem) hcount hdrive
  refine ⟨results, s', map', hall, hanswers, hdrive', fun key ↦ ?_⟩
  exact reads_refine h hmmr (hwrites.length_le.trans hcount) (hfree.mono hwrites.within) hdrive' key

end Objects

/-! ### The bucket of the tests -/

/-- Lower case of ASCII letters. -/
def asciiLowercase (text : Bytes) : Bytes :=
  text.map fun byte ↦ if 0x41 ≤ byte ∧ byte ≤ 0x5a then byte + 0x20 else byte

/-- An object `a` with a pair of metadata that is put and deleted. -/
def objectOps : List Objects.Op :=
  [.putObject [0x61] [7] ⟨none, [([0x41], [0x31])]⟩ testTime testTime, .deleteObject [0x61] testTime]

theorem writtenAll_objectOps :
    ((Objects.writtenAll blake2b256 standardMmr asciiLowercase ⟨MemoryStore.tree⟩ objectOps .new).map
        (computeCid blake2b256)).Nodup ∧
      (Objects.writtenAll blake2b256 standardMmr asciiLowercase ⟨MemoryStore.tree⟩ objectOps
        .new).length = 4 := by
  rw [blake2b256_eq]
  decide +kernel

theorem objects_refine_small :
    ∃ results s' map',
      Objects.applyAll blake2b256 standardMmr ⟨MemoryStore.tree⟩ asciiLowercase objectOps MemoryStore.new =
        (results, s') ∧
      AnswersAll (ObjectsFail True)
        (ObjectMap.change blake2b256 asciiLowercase MemoryStore.tree.bucketId) .empty objectOps results
          map' := by
  have hdrive : HoldsObjects blake2b256 MemoryStore.tree.bucketId {blob | blob ∈ MemoryStore.new.blobs}
      MemoryStore.new.leaves .empty := holdsObjects_empty _ _ _
  have hcount : MemoryStore.new.leaves.length + (Objects.writtenAll blake2b256 standardMmr asciiLowercase
      ⟨MemoryStore.tree⟩ objectOps MemoryStore.new).length ≤ maxRangeLeaves := by
    rw [writtenAll_objectOps.2]
    decide
  have hserves : (Objects.mk MemoryStore.tree).tree.store.Serves blake2b256 standardMmr
      (Objects.mk MemoryStore.tree).tree.bucketId True (fun s ↦ {blob | blob ∈ s.blobs}) MemoryStore.leaves :=
    MemoryStore.tree_serves
  obtain ⟨results, s', map', hall, hanswers, -⟩ := Objects.objects_refine hserves
    standardMmr_isStandard objectOps hdrive (collisionFree_of_nodup writtenAll_objectOps.1) hcount
  exact ⟨results, s', map', hall, hanswers⟩

end Web3Storage.Formats
