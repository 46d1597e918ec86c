import Web3Storage.Formats.FileTree
import Web3Storage.Formats.Paging
import Web3Storage.Foundations.Utf8
import Web3Storage.Primitives.MerkleProofs

/-!
# The listing of a bucket's objects

Objects are the files of the tree, and their keys are the paths without the first `/`. A listing walks
the directories below the one its prefix names in the order of keys, skips those that cannot change the
page, and stops when the page is full. `listObjects_eq` says that its page is the one the keys of all
files give in their order (`listReference`).

Keys are sorted with directories in the place of the keys below them: `sortKey` appends the `/`, and
`FilesIn.sorted` shows that the walk meets the keys in order. A directory whose path is longer than a key
can be is not listed.
-/

set_option autoImplicit false
set_option relaxedAutoImplicit false

namespace Web3Storage.Formats

open Foundations Primitives

def maxObjectKeyLen : ℕ := 1024

def defaultMaxKeys : ℕ := 1000

inductive S3ClientError where
  | invalidObjectKey (key : Bytes)
  | fileSystem (error : FsClientError)
  deriving DecidableEq

structure ListObjectsParams where
  keyPrefix : Option Bytes
  delimiter : Option Bytes
  startAfter : Option Bytes
  maxKeys : Option ℕ

structure ObjectSummary where
  key : Bytes
  size : Word 8
  lastModified : Word 8
  deriving DecidableEq

structure ListObjectsResponse where
  contents : List ObjectSummary
  commonPrefixes : List Bytes
  isTruncated : Bool
  nextStartAfter : Option Bytes
  deriving DecidableEq

/-- A page of summaries as a response. -/
def ListObjectsResponse.ofPage (page : Page UInt8 ObjectSummary) : ListObjectsResponse where
  contents := page.contents
  commonPrefixes := page.commonPrefixes
  isTruncated := page.isTruncated
  nextStartAfter := page.nextStartAfter

/-- Check a key and return its file path. -/
def keyToPath (key : Bytes) : Except S3ClientError Bytes :=
  if key ≠ [] ∧ key.length ≤ maxObjectKeyLen ∧
      ∀ segment ∈ key.splitOn slash, validateEntryName segment = .ok () then .ok (slash :: key)
  else .error (.invalidObjectKey key)

/-- Entries in key order. -/
def inKeyOrder (entries : List DirectoryEntry) : List DirectoryEntry :=
  entries.mergeSort fun first second ↦ decide (sortKey first ≤ sortKey second)

namespace ListObjectsParams

variable (params : ListObjectsParams)

def listedPrefix : Bytes := params.keyPrefix.getD []

/-- An empty delimiter is none. -/
def listedDelimiter : Option Bytes := params.delimiter.filter fun delimiter ↦ decide (delimiter ≠ [])

def pageSize : ℕ := min (max (params.maxKeys.getD defaultMaxKeys) 1) defaultMaxKeys

def newPage : PageBuilder UInt8 ObjectSummary :=
  .new params.listedPrefix params.listedDelimiter params.startAfter params.pageSize

/-- What stands before the last `/` of the prefix: `a/b/c` and `a/b/` list under `a/b`, and `a` under the
root. -/
def dirKey : Bytes := ((params.listedPrefix.reverse.dropWhile fun byte ↦ byte ≠ slash).drop 1).reverse

/-- The prefix of the keys in the listed directory. -/
def dirPrefix : Bytes := if params.dirKey = [] then [] else params.dirKey ++ [slash]

end ListObjectsParams

/-- The summary of a file with its key. -/
def summary (file : Bytes × DirectoryEntry) : ObjectSummary where
  key := file.1
  size := file.2.size
  lastModified := file.2.mtime

section Walk

variable (blake2256 : Bytes → H256)

namespace Tree

variable (tree : Tree)

/-- The entries of the directory that a prefix names; none if there is no such directory. -/
def listBase (dirKey : Bytes) : Except FsClientError (List DirectoryEntry) :=
  let base :=
    if dirKey = [] then tree.list blake2256 [slash]
    else match keyToPath dirKey with
      | .ok path => tree.list blake2256 path
      | .error _ => .ok []
  match base with
  | .error (.pathNotFound _) => .ok []
  | .error (.notADirectory _) => .ok []
  | other => other

/-- Walk the directories on a stack, each with its path and the entries that are left, until the page is
full; `none` if the steps do not suffice. -/
def walk : ℕ → List (Bytes × List DirectoryEntry) → PageBuilder UInt8 ObjectSummary →
    Option (Except S3ClientError (PageBuilder UInt8 ObjectSummary))
  | 0, _, _ => none
  | _ + 1, [], page => some (.ok page)
  | steps + 1, (_, []) :: stack, page => walk steps stack page
  | steps + 1, (dir, entry :: entries) :: stack, page =>
    let key := dir ++ entry.nameStr
    if entry.isFile then
      match page.push key (summary (key, entry)) with
      | (page, false) => some (.ok page)
      | (page, true) => walk steps ((dir, entries) :: stack) page
    else
      let sub := key ++ [slash]
      if page.skips sub then walk steps ((dir, entries) :: stack) page
      else match tree.readDir blake2256 (slash :: key) entry.cid with
        | .error error => some (.error (.fileSystem error))
        | .ok node => walk steps ((sub, inKeyOrder node.children.1) :: (dir, entries) :: stack) page

/-- List objects, sorted by key bytes. -/
def listObjects (steps : ℕ) (params : ListObjectsParams) :
    Option (Except S3ClientError ListObjectsResponse) :=
  match tree.listBase blake2256 params.dirKey with
  | .error error => some (.error (.fileSystem error))
  | .ok base =>
    (tree.walk blake2256 steps [(params.dirPrefix, inKeyOrder base)] params.newPage).map fun result ↦
      result.map fun page ↦ .ofPage page.finish

end Tree

end Walk

/-- Files in the order of their keys. -/
def byKey (files : List (Bytes × DirectoryEntry)) : List (Bytes × DirectoryEntry) :=
  files.mergeSort fun first second ↦ decide (first.1 ≤ second.1)

/-- The reference for a listing: the page of all keys in their order, with the summaries of the files
that its indices name. -/
def listReference (files : List (Bytes × DirectoryEntry)) (params : ListObjectsParams) :
    ListObjectsResponse :=
  let keys := (byKey files).map Prod.fst
  let page := listPage keys params.listedPrefix params.listedDelimiter params.startAfter
    params.pageSize
  { contents := page.contents.filterMap fun index ↦ (byKey files)[index]?.map summary
    commonPrefixes := page.commonPrefixes
    isTruncated := page.isTruncated
    nextStartAfter := page.nextStartAfter }

/-! ### The order of keys -/

section Order

variable {blake2256 : Bytes → H256} {tree : Tree}

/-- No key below a directory is the start of another entry's key. -/
theorem not_sortKey_isPrefix {entry other : DirectoryEntry}
    (hentry : validateEntryName entry.name.1 = .ok ())
    (hother : validateEntryName other.name.1 = .ok ()) (hdirectory : entry.isFile = false)
    (hne : entry.name.1 ≠ other.name.1) : ¬ sortKey entry <+: sortKey other := by
  intro hpre
  rw [sortKey_of_not_isFile hdirectory] at hpre
  have hkey : sortKey other = [] ++ sortKey other ++ [] := by simp
  have hsame := Tree.FilesIn.name_eq hother (slash_not_mem_of_valid hentry) hkey (fun _ ↦ rfl) hpre
  exact hne hsame.2.symm

theorem sortKey_ne {entry other : DirectoryEntry} (hentry : validateEntryName entry.name.1 = .ok ())
    (hother : validateEntryName other.name.1 = .ok ()) (hne : entry.name.1 ≠ other.name.1) :
    sortKey entry ≠ sortKey other := by
  intro hsame
  by_cases hfile : entry.isFile = true
  · by_cases hfile' : other.isFile = true
    · rw [sortKey_of_isFile hfile, sortKey_of_isFile hfile'] at hsame
      exact hne hsame
    · rw [Bool.not_eq_true] at hfile'
      apply not_sortKey_isPrefix hother hentry hfile' hne.symm
      rw [hsame]
  · rw [Bool.not_eq_true] at hfile
    apply not_sortKey_isPrefix hentry hother hfile hne
    rw [hsame]

theorem inKeyOrder_perm (entries : List DirectoryEntry) : entries.Perm (inKeyOrder entries) :=
  (List.mergeSort_perm entries _).symm

/-- Valid entries have different sort keys, so they are in strict order. -/
theorem inKeyOrder_sorted {entries : List DirectoryEntry} (h : ValidEntries entries) :
    (inKeyOrder entries).Pairwise fun first second ↦ sortKey first < sortKey second := by
  have hle : (inKeyOrder entries).Pairwise fun first second ↦ sortKey first ≤ sortKey second :=
    pairwise_mergeSort_key entries
  have hvalid := h.perm (inKeyOrder_perm entries)
  have hne := hvalid.nodup
  rw [List.nodup_iff_pairwise_ne, List.pairwise_map] at hne
  refine (hle.and hne).imp_of_mem fun {first second} hfirst hsecond hboth ↦ ?_
  have hapart := sortKey_ne (hvalid.names first hfirst) (hvalid.names second hsecond) hboth.2
  exact lt_of_le_of_ne hboth.1 hapart

/-- The walk meets the keys of the files in order. -/
theorem Tree.FilesIn.sorted {dir : Bytes} {entries : List DirectoryEntry}
    {files : List (Bytes × DirectoryEntry)}
    (h : tree.FilesIn blake2256 inKeyOrder dir entries files) (hvalid : ValidEntries entries)
    (hsorted : entries.Pairwise fun first second ↦ sortKey first < sortKey second) :
    files.Pairwise fun first second ↦ first.1 < second.1 := by
  induction h with
  | nil => exact .nil
  | file dir entry rest files hentry hrest ih =>
    rw [List.pairwise_cons] at hsorted
    refine List.pairwise_cons.mpr ⟨fun file hfile ↦ ?_, ih hvalid.tail hsorted.2⟩
    obtain ⟨other, hother, past, hkey, -⟩ := hrest.exists_entry hfile
    have hlt : dir ++ sortKey entry < dir ++ sortKey other :=
      List.append_left_lt (hsorted.1 other hother)
    rw [sortKey_of_isFile hentry] at hlt
    rw [hkey]
    exact lt_of_lt_of_le hlt (le_of_isPrefix (List.prefix_append _ _))
  | directory dir entry rest node below files hentry hread hbelow hrest ihbelow ihrest =>
    rw [List.pairwise_cons] at hsorted
    have hnode := (sound_readDir (hread [])).validEntries
    have hnodeValid := hnode.perm (inKeyOrder_perm _)
    refine List.pairwise_append.mpr ⟨ihbelow hnodeValid (inKeyOrder_sorted hnode),
      ihrest hvalid.tail hsorted.2, fun first hfirst second hsecond ↦ ?_⟩
    -- the first is below the directory and the second below a later entry
    obtain ⟨other, hother, past, hkey, -⟩ := hrest.exists_entry hsecond
    have hlt : dir ++ sortKey entry < dir ++ sortKey other :=
      List.append_left_lt (hsorted.1 other hother)
    have hapart := not_sortKey_isPrefix (hvalid.names entry List.mem_cons_self)
      (hvalid.tail.names other hother) hentry (hvalid.name_ne hother)
    apply lt_of_isPrefix_of_lt hlt
    · rwa [List.prefix_append_right_inj]
    · rw [sortKey_of_not_isFile hentry, ← List.append_assoc]
      exact hbelow.isPrefix hfirst
    · rw [hkey]
      exact List.prefix_append _ _

end Order

/-! ### The walk -/

/-- Files with their summaries, as they are put on a page. -/
def items (files : List (Bytes × DirectoryEntry)) : List (Bytes × ObjectSummary) :=
  files.map fun file ↦ (file.1, summary file)

section WalkRules

variable {blake2256 : Bytes → H256} {tree : Tree}

/-- Walking the entries of a directory adds the files below them to the page, and the walk goes on with
the stack below unless the page is truncated then. -/
theorem Tree.walk_spec {dir : Bytes} {entries : List DirectoryEntry}
    {files : List (Bytes × DirectoryEntry)}
    (h : tree.FilesIn blake2256 inKeyOrder dir entries files)
    (page : PageBuilder UInt8 ObjectSummary) (hpage : page.page.isTruncated = false) :
    ∃ steps, ∀ more stack, tree.walk blake2256 (more + steps) ((dir, entries) :: stack) page =
      if (page.pushAll (items files)).page.isTruncated = true then
        some (.ok (page.pushAll (items files)))
      else tree.walk blake2256 more stack (page.pushAll (items files)) := by
  induction h generalizing page with
  | nil dir =>
    refine ⟨1, fun more stack ↦ ?_⟩
    change tree.walk blake2256 more stack page = if page.page.isTruncated = true then _ else _
    rw [hpage, if_neg Bool.false_ne_true]
    rfl
  | file dir entry rest files hentry hrest ih =>
    have htruncated := page.isTruncated_push hpage (dir ++ entry.nameStr)
      (summary (dir ++ entry.nameStr, entry))
    have hall : page.pushAll (items ((dir ++ entry.nameStr, entry) :: files)) =
        if (page.push (dir ++ entry.nameStr) (summary (dir ++ entry.nameStr, entry))).2 = true then
          (page.push (dir ++ entry.nameStr)
            (summary (dir ++ entry.nameStr, entry))).1.pushAll (items files)
        else (page.push (dir ++ entry.nameStr) (summary (dir ++ entry.nameStr, entry))).1 :=
      PageBuilder.pushAll_cons _ _ _
    have hstep (steps : ℕ) (stack : List (Bytes × List DirectoryEntry)) :
        tree.walk blake2256 (steps + 1) ((dir, entry :: rest) :: stack) page =
          match page.push (dir ++ entry.nameStr) (summary (dir ++ entry.nameStr, entry)) with
          | (page, false) => some (.ok page)
          | (page, true) => tree.walk blake2256 steps ((dir, rest) :: stack) page := by
      rw [walk, if_pos hentry]
    rcases hpush : page.push (dir ++ entry.nameStr) (summary (dir ++ entry.nameStr, entry)) with
      ⟨next, more⟩
    rw [hpush] at htruncated hall
    simp only [hpush] at hstep
    cases more with
    | false =>
      rw [if_neg Bool.false_ne_true] at hall
      refine ⟨1, fun more stack ↦ ?_⟩
      rw [hstep, hall]
      exact (if_pos htruncated).symm
    | true =>
      rw [if_pos rfl] at hall
      obtain ⟨steps, hsteps⟩ := ih next htruncated
      refine ⟨steps + 1, fun more stack ↦ ?_⟩
      rw [← Nat.add_assoc, hstep, hall]
      exact hsteps more stack
  | directory dir entry rest node below files hentry hread hbelow hrest ihbelow ihrest =>
    have hall : page.pushAll (items (below ++ files)) =
        if (page.pushAll (items below)).page.isTruncated = true then page.pushAll (items below)
        else (page.pushAll (items below)).pushAll (items files) := by
      rw [items, List.map_append]
      exact page.pushAll_append hpage _ _
    by_cases hskips : page.skips (dir ++ entry.nameStr ++ [slash]) = true
    · -- no key below the directory changes the page
      have hbelowItems : page.pushAll (items below) = page := by
        refine page.pushAll_of_skips hskips fun item hitem ↦ ?_
        obtain ⟨file, hfile, rfl⟩ := List.mem_map.mp hitem
        exact hbelow.isPrefix hfile
      rw [hbelowItems, hpage, if_neg Bool.false_ne_true] at hall
      rw [hall]
      obtain ⟨steps, hsteps⟩ := ihrest page hpage
      refine ⟨steps + 1, fun more stack ↦ ?_⟩
      rw [← Nat.add_assoc, walk, if_neg (by rw [hentry]; exact Bool.false_ne_true), if_pos hskips]
      exact hsteps more stack
    · obtain ⟨steps, hsteps⟩ := ihbelow page hpage
      have hstep (fuel : ℕ) (stack : List (Bytes × List DirectoryEntry)) :
          tree.walk blake2256 (fuel + 1) ((dir, entry :: rest) :: stack) page =
            tree.walk blake2256 fuel
              ((dir ++ entry.nameStr ++ [slash], inKeyOrder node.children.1) :: (dir, rest) :: stack)
              page := by
        rw [walk, if_neg (by rw [hentry]; exact Bool.false_ne_true), if_neg hskips, hread]
      rw [hall]
      by_cases hfull : (page.pushAll (items below)).page.isTruncated = true
      · refine ⟨steps + 1, fun more stack ↦ ?_⟩
        rw [← Nat.add_assoc, hstep, hsteps, if_pos hfull, if_pos hfull, if_pos hfull]
      · obtain ⟨steps', hsteps'⟩ := ihrest _ (Bool.not_eq_true _ ▸ hfull)
        refine ⟨steps' + steps + 1, fun more stack ↦ ?_⟩
        rw [← Nat.add_assoc, ← Nat.add_assoc, hstep, hsteps, if_neg hfull, if_neg hfull]
        exact hsteps' more stack

/-- A walk from one directory ends with the files below it on the page. -/
theorem Tree.walk_eq {dir : Bytes} {entries : List DirectoryEntry}
    {files : List (Bytes × DirectoryEntry)}
    (h : tree.FilesIn blake2256 inKeyOrder dir entries files)
    (page : PageBuilder UInt8 ObjectSummary) (hpage : page.page.isTruncated = false) :
    ∃ steps, ∀ more, tree.walk blake2256 (more + steps) [(dir, entries)] page =
      some (.ok (page.pushAll (items files))) := by
  obtain ⟨steps, hsteps⟩ := Tree.walk_spec h page hpage
  refine ⟨1 + steps, fun more ↦ ?_⟩
  rw [← Nat.add_assoc, hsteps]
  split_ifs
  · rfl
  · rfl

end WalkRules

/-! ### Where the walk begins -/

section Base

variable {blake2256 : Bytes → H256} {tree : Tree} {root : DirectoryNode}
  {files : List (Bytes × DirectoryEntry)} {params : ListObjectsParams}

/-- The keys with the prefix of a listing are in the listed directory. -/
theorem dirPrefix_isPrefix (params : ListObjectsParams) : params.dirPrefix <+: params.listedPrefix := by
  unfold ListObjectsParams.dirPrefix ListObjectsParams.dirKey
  generalize params.listedPrefix = text
  cases hdrop : text.reverse.dropWhile fun byte ↦ decide (byte ≠ slash) with
  | nil => exact List.nil_prefix
  | cons last before =>
    rw [List.drop_one, List.tail_cons]
    split_ifs
    · exact List.nil_prefix
    · have hlast := List.head?_dropWhile_not (fun byte ↦ decide (byte ≠ slash)) text.reverse
      rw [hdrop] at hlast
      have hslash : last = slash := by simpa using hlast
      have htext := List.takeWhile_append_dropWhile (p := fun byte ↦ decide (byte ≠ slash))
        (l := text.reverse)
      rw [hdrop, hslash] at htext
      have hreverse := congrArg List.reverse htext
      rw [List.reverse_reverse, List.reverse_append, List.reverse_cons] at hreverse
      rw [← hreverse]
      exact List.prefix_append _ _

/-- The listed directory has the files in it; there are none if it is not in the tree. Assumes: its path
is no longer than a key. -/
theorem Tree.listBase_spec (hroot : tree.loadRoot blake2256 = .ok root)
    (h : tree.FilesIn blake2256 id [] root.children.1 files)
    (hlength : params.dirKey.length ≤ maxObjectKeyLen) :
    ∃ base, tree.listBase blake2256 params.dirKey = .ok base ∧ ValidEntries base ∧
      tree.FilesIn blake2256 id params.dirPrefix base (under params.dirPrefix files) := by
  have hsound := sound_loadRoot hroot
  unfold ListObjectsParams.dirPrefix listBase
  by_cases hkey : params.dirKey = []
  · refine ⟨root.children.1, ?_, hsound.validEntries, ?_⟩
    · rw [if_pos hkey, list_root hroot]
    · rw [if_pos hkey, under_eq_self fun file hfile ↦ h.isPrefix hfile]
      exact h
  · rw [if_neg hkey, if_neg hkey]
    unfold keyToPath
    by_cases hnames : ∀ segment ∈ params.dirKey.splitOn slash, validateEntryName segment = .ok ()
    · rw [if_pos ⟨hkey, hlength, hnames⟩]
      dsimp only
      rcases list_spec hroot h hkey hnames with ⟨base, hbase, hentries, hfiles⟩ |
        ⟨⟨missing, herror⟩, hnone⟩
      · refine ⟨base, ?_, hentries, hfiles⟩
        rw [hbase]
      · refine ⟨[], ?_, .nil, ?_⟩
        · rcases herror with herror | herror
          · rw [herror]
          · rw [herror]
        · rw [hnone]
          exact .nil _
    · -- no file has a path with a name that is not valid
      have hnone : under (params.dirKey ++ [slash]) files = [] := by
        by_contra hsome
        exact hnames (h.valid_of_under hsound hsome)
      refine ⟨[], ?_, .nil, ?_⟩
      · rw [if_neg fun hpath ↦ hnames hpath.2.2]
      · rw [hnone]
        exact .nil _

/-- A directory whose path is longer than a key is not listed. -/
theorem Tree.listBase_long (hlength : maxObjectKeyLen < params.dirKey.length) :
    tree.listBase blake2256 params.dirKey = .ok [] := by
  have hkey : params.dirKey ≠ [] := by
    intro hempty
    rw [hempty] at hlength
    exact absurd hlength (Nat.not_lt_zero _)
  unfold listBase keyToPath
  rw [if_neg hkey, if_neg fun hpath ↦ absurd hpath.2.1 (Nat.not_le.mpr hlength)]

/-! ### The reference -/

theorem byKey_perm (files : List (Bytes × DirectoryEntry)) : files.Perm (byKey files) :=
  (List.mergeSort_perm files _).symm

/-- Files that are in the strict order of their keys are the sorted ones. -/
theorem byKey_eq {files files' : List (Bytes × DirectoryEntry)} (hperm : files.Perm files')
    (hsorted : files'.Pairwise fun first second ↦ first.1 < second.1) : byKey files = files' := by
  have hle : (byKey files).Pairwise fun first second ↦ first.1 ≤ second.1 :=
    pairwise_mergeSort_key files
  have hsame := (byKey_perm files).symm.trans hperm
  have hkeys : (files'.map Prod.fst).Nodup :=
    List.pairwise_map.mpr (hsorted.imp fun hlt ↦ hlt.ne)
  apply List.Perm.eq_of_pairwise ?_ hle (hsorted.imp fun hlt ↦ hlt.le) hsame
  intro first second hfirst hsecond hforth hback
  have hequal := le_antisymm hforth hback
  exact List.inj_on_of_nodup_map hkeys (hsame.mem_iff.mp hfirst) hsecond hequal

/-- Taken in key order, the entries of a directory have its files in the order of their keys. -/
theorem Tree.FilesIn.inOrder {dir : Bytes} {entries : List DirectoryEntry}
    (h : tree.FilesIn blake2256 id dir entries files) (hvalid : ValidEntries entries) :
    tree.FilesIn blake2256 inKeyOrder dir (inKeyOrder entries) (byKey files) ∧
      (byKey files).Pairwise fun first second ↦ first.1 < second.1 := by
  obtain ⟨found, hfound, hsame⟩ := h.reorder inKeyOrder_perm
  obtain ⟨found', hfound', hsame'⟩ := hfound.perm (inKeyOrder_perm entries)
  have hsorted := hfound'.sorted (hvalid.perm (inKeyOrder_perm entries)) (inKeyOrder_sorted hvalid)
  rw [byKey_eq (hsame.trans hsame') hsorted]
  exact ⟨hfound', hsorted⟩

/-- The reference in terms of the files: a page of all their summaries. -/
theorem listReference_eq (files : List (Bytes × DirectoryEntry)) (params : ListObjectsParams) :
    listReference files params = .ofPage (pageOf (items (byKey files)) params.listedPrefix
      params.listedDelimiter params.startAfter params.pageSize) := by
  unfold listReference listPage ListObjectsResponse.ofPage
  dsimp only
  generalize byKey files = sorted
  -- both pages show the same when each place has the summary that may be there
  have hplaces : (sorted.map Prod.fst).zipIdx.map (fun entry ↦
      (entry.1, sorted[entry.2]?.map summary)) =
        (items sorted).map fun entry ↦ (entry.1, some entry.2) := by
    apply List.ext_getElem
    · simp [items]
    · intro index hindex hindex'
      rw [List.length_map, List.length_zipIdx, List.length_map] at hindex
      simp [items, List.getElem?_eq_getElem hindex]
  have hindices := pageOf_map (fun index ↦ sorted[index]?.map summary)
    (sorted.map Prod.fst).zipIdx params.listedPrefix params.listedDelimiter params.startAfter
    params.pageSize
  rw [hplaces, pageOf_map some] at hindices
  generalize pageOf (items sorted) params.listedPrefix params.listedDelimiter params.startAfter
    params.pageSize = page at hindices ⊢
  generalize pageOf (sorted.map Prod.fst).zipIdx params.listedPrefix params.listedDelimiter
    params.startAfter params.pageSize = page' at hindices ⊢
  have hcontents : page.contents.map some =
      page'.contents.map fun index ↦ sorted[index]?.map summary := congrArg Page.contents hindices
  have hshown : page'.contents.filterMap (fun index ↦ sorted[index]?.map summary) = page.contents := by
    have hkept := congrArg (List.filterMap id) hcontents
    rw [List.filterMap_map, List.filterMap_map] at hkept
    rw [← List.filterMap_some (l := page.contents)]
    exact hkept.symm
  rw [ListObjectsResponse.mk.injEq]
  refine ⟨hshown, ?_, ?_, ?_⟩
  · exact (congrArg Page.commonPrefixes hindices).symm
  · exact (congrArg Page.isTruncated hindices).symm
  · exact (congrArg Page.nextStartAfter hindices).symm

/-- A listing shows the files of the entries it begins with, in the order of their keys. -/
theorem Tree.listObjects_of_base {base : List DirectoryEntry}
    (hbase : tree.listBase blake2256 params.dirKey = .ok base) (hvalid : ValidEntries base)
    (h : tree.FilesIn blake2256 id params.dirPrefix base files) :
    ∃ steps, ∀ more, tree.listObjects blake2256 (more + steps) params =
      some (.ok (listReference files params)) := by
  obtain ⟨steps, hsteps⟩ := walk_eq (h.inOrder hvalid).1 params.newPage rfl
  refine ⟨steps, fun more ↦ ?_⟩
  unfold listObjects
  rw [hbase]
  dsimp only
  rw [hsteps, listReference_eq]
  rfl

/-- The reference depends on the files with the prefix only. -/
theorem listReference_under (h : tree.FilesIn blake2256 id [] root.children.1 files)
    (hvalid : ValidEntries root.children.1) :
    listReference (under params.dirPrefix files) params = listReference files params := by
  have hsorted := (h.inOrder hvalid).2
  have hfound : byKey (under params.dirPrefix files) = under params.dirPrefix (byKey files) := by
    apply byKey_eq
    · exact (byKey_perm files).filter _
    · exact hsorted.filter _
  have hitems (found : List (Bytes × DirectoryEntry)) :
      ((items found).filter fun entry ↦ params.listedPrefix.isPrefixOf entry.1) =
        items (under params.listedPrefix found) := by
    unfold items under
    rw [List.filter_map]
    rfl
  rw [listReference_eq, listReference_eq, hfound]
  refine congrArg ListObjectsResponse.ofPage (pageOf_congr ?_ ?_ ?_)
  · exact List.pairwise_map.mpr (hsorted.filter _)
  · exact List.pairwise_map.mpr hsorted
  · rw [hitems, hitems, under_under _ (dirPrefix_isPrefix params)]

/-- **A listing is the page of all keys**: for every tree whose directories are read, the walk ends and
shows what the keys of all files give in their order, for every prefix, delimiter, start and page size.
A prefix in a directory whose path is longer than a key can be has no keys. -/
theorem listObjects_eq (hroot : tree.loadRoot blake2256 = .ok root)
    (h : tree.FilesIn blake2256 id [] root.children.1 files) (params : ListObjectsParams) :
    ∃ steps, ∀ more, tree.listObjects blake2256 (more + steps) params =
      some (.ok (listReference (if params.dirKey.length ≤ maxObjectKeyLen then files else []) params)) := by
  by_cases hlength : params.dirKey.length ≤ maxObjectKeyLen
  · obtain ⟨base, hbase, hvalid, hfiles⟩ := Tree.listBase_spec hroot h hlength
    obtain ⟨steps, hsteps⟩ := Tree.listObjects_of_base hbase hvalid hfiles
    refine ⟨steps, fun more ↦ ?_⟩
    rw [if_pos hlength, hsteps, listReference_under h (Tree.sound_loadRoot hroot).validEntries]
  · rw [if_neg hlength]
    exact Tree.listObjects_of_base (Tree.listBase_long (not_le.mp hlength)) .nil (.nil _)

end Base

/-! ### A small and a deep tree -/

def objectFile (name : BoundedVec UInt8 maxEntryNameLength) : DirectoryEntry where
  name := name
  entryType := .file
  cid := .zero
  size := Word.ofNat 8 1
  mtime := Word.ofNat 8 0

def subdirectory (name : BoundedVec UInt8 maxEntryNameLength) (node : DirectoryNode) :
    DirectoryEntry where
  name := name
  entryType := .directory
  cid := computeCid blake2b256 node.toBlob
  size := Word.ofNat 8 0
  mtime := Word.ofNat 8 0

def fileX : DirectoryEntry := objectFile ⟨[0x78], by decide⟩

def fileAMinus : DirectoryEntry := objectFile ⟨[0x61, 0x2d], by decide⟩

/-- The directory `a` with the file `x`. -/
def innerNode : DirectoryNode where
  bucketId := Word.ofNat 8 7
  children := ⟨[fileX], by simp [maxDirectoryChildren]⟩
  metadata := ⟨[], Nat.zero_le _⟩

/-- A name of one byte is short enough. -/
theorem length_letter_le : ([0x61] : Bytes).length ≤ maxEntryNameLength := by
  decide

/-- A root with the directory `a` and the file `a-`, which sorts before the keys in `a`. -/
def outerNode : DirectoryNode where
  bucketId := Word.ofNat 8 7
  children := ⟨[subdirectory ⟨[0x61], length_letter_le⟩ innerNode, fileAMinus],
    by simp [maxDirectoryChildren]⟩
  metadata := ⟨[], Nat.zero_le _⟩

/-- A text without `/` and dots is a legal name. -/
theorem validateEntryName_of_text {name : Bytes} (hne : name ≠ [])
    (hlength : name.length ≤ maxEntryNameLength) (htext : isUtf8 name = true) (hslash : slash ∉ name)
    (hdot : 0x2e ∉ name) : validateEntryName name = .ok () := by
  unfold validateEntryName
  rw [validateUTF8_eq, if_pos]
  refine ⟨hne, hlength, htext, hslash, ?_, ?_⟩
  · rintro rfl
    exact hdot List.mem_cons_self
  · rintro rfl
    exact hdot List.mem_cons_self

theorem validate_innerNode : innerNode.validate = .ok () := by
  refine DirectoryNode.validate_iff.mpr ⟨?_, by decide⟩
  exact {
    sorted := List.pairwise_singleton _ _
    unique := List.nodup_singleton _
    legal := List.forall_mem_singleton.mpr
      (validateEntryName_of_text (by decide) (by decide) (by decide) (by decide) (by decide))
    bounded := innerNode.children.2
    metadata := rfl }

theorem validate_outerNode : outerNode.validate = .ok () := by
  refine DirectoryNode.validate_iff.mpr ⟨?_, List.forall_mem_cons.mpr ⟨fun _ ↦ rfl, by decide⟩⟩
  exact {
    sorted := List.pairwise_pair.mpr (by decide)
    unique := by decide
    legal := by
      refine List.forall_mem_cons.mpr ⟨?_, List.forall_mem_singleton.mpr ?_⟩
      · exact validateEntryName_of_text (by decide) (by decide) (by decide) (by decide) (by decide)
      · exact validateEntryName_of_text (by decide) (by decide) (by decide) (by decide) (by decide)
    bounded := outerNode.children.2
    metadata := rfl }

/-- A name of the largest length. -/
def longName : BoundedVec UInt8 maxEntryNameLength :=
  ⟨List.replicate maxEntryNameLength 0x61, List.length_replicate.le⟩

/-- A directory under the longest name. -/
def longDirectory (cid : Cid) : DirectoryNode where
  bucketId := Word.ofNat 8 7
  children := ⟨[⟨longName, .directory, cid, Word.ofNat 8 0, Word.ofNat 8 0⟩],
    by simp [maxDirectoryChildren]⟩
  metadata := ⟨[], Nat.zero_le _⟩

/-- The content identifiers of directories with long names, one in another around `innerNode`. -/
def deepCid (depth : ℕ) : Cid where
  bytes := littleEndian 32 ([0x5435de29e91910bbd0b4350ba59f58a9b2683b010cbdfa1ff98c1a72414c5015,
    0x22a0a86853de5372c79a79971d3e6cb2f9abbf0677d4c549c6f8c30bdbb92a2c,
    0x36170e3b7f59dc38759e5918b9ec20b23ec7efbe05bc5535da479724d9629f25,
    0xd81868d573e137b53475d5ed2404891b00686737623f60c0c2bd7e2baf50b0bd,
    0xb9cb80a49727e24ff81a61348558bbe5dd6ef164b197f6a87202d6df6ff774d0].getD depth 0)
  length_bytes := length_littleEndian 32 _

/-- Each directory is hashed once, with the identifier of the one in it. -/
theorem computeCid_directories : computeCid blake2b256 innerNode.toBlob = deepCid 0 ∧
    computeCid blake2b256 outerNode.toBlob ≠ deepCid 0 ∧
    ∀ inner < 4,
      computeCid blake2b256 (longDirectory (deepCid inner)).toBlob = deepCid (inner + 1) := by
  rw [blake2b256_eq]
  decide +kernel

/-- The keys `a-` and `a/x` with the delimiter `/` on pages of one item: the first page ends after `a-`. -/
theorem listObjects_eq_small : ∃ steps, ∀ more,
    (Tree.ofNodes blake2b256 (Word.ofNat 8 7) [outerNode, innerNode]).listObjects blake2b256
        (more + steps) ⟨none, some [slash], none, some 1⟩ =
      some (.ok ⟨[⟨[0x61, 0x2d], Word.ofNat 8 1, Word.ofNat 8 0⟩], [], true, some [0x61, 0x2d]⟩) := by
  have hcids : ([outerNode, innerNode].map fun node ↦ computeCid blake2b256 node.toBlob).Nodup := by
    rw [List.map_cons, List.map_singleton, computeCid_directories.1]
    exact List.nodup_cons.mpr ⟨fun hmem ↦ computeCid_directories.2.1 (List.mem_singleton.mp hmem),
      List.nodup_singleton _⟩
  have hroot : (Tree.ofNodes blake2b256 (Word.ofNat 8 7) [outerNode, innerNode]).loadRoot blake2b256 =
      .ok outerNode := Tree.loadRoot_ofNodes hcids validate_outerNode
  have hfiles : (Tree.ofNodes blake2b256 (Word.ofNat 8 7) [outerNode, innerNode]).FilesIn blake2b256 id
      [] outerNode.children.1 [([0x61, slash, 0x78], fileX), ([0x61, 0x2d], fileAMinus)] := by
    apply Tree.FilesIn.directory [] _ _ innerNode [([0x61, slash, 0x78], fileX)]
      [([0x61, 0x2d], fileAMinus)] rfl
    · exact Tree.readDir_ofNodes hcids (List.mem_cons_of_mem _ List.mem_cons_self) validate_innerNode
    · exact .file _ fileX [] [] rfl (.nil _)
    · exact .file _ fileAMinus [] [] rfl (.nil _)
  obtain ⟨steps, hsteps⟩ := listObjects_eq hroot hfiles ⟨none, some [slash], none, some 1⟩
  have hsorted : byKey [([0x61, slash, 0x78], fileX), ([0x61, 0x2d], fileAMinus)] =
      [([0x61, 0x2d], fileAMinus), ([0x61, slash, 0x78], fileX)] :=
    byKey_eq (.swap _ _ _) (by decide)
  refine ⟨steps, fun more ↦ (hsteps more).trans ?_⟩
  rw [if_pos (by decide), listReference_eq, hsorted]
  rfl

/-- A file in directories with long names, one in another. -/
def deepNode : ℕ → DirectoryNode
  | 0 => innerNode
  | depth + 1 =>
    { bucketId := Word.ofNat 8 7
      children := ⟨[subdirectory longName (deepNode depth)], by simp [maxDirectoryChildren]⟩
      metadata := ⟨[], Nat.zero_le _⟩ }

/-- The path of the innermost directory. -/
def deepPath (depth : ℕ) : Bytes := pathBelow (List.replicate depth longName.1)

theorem filesIn_deep {tree : Tree} {depth : ℕ}
    (hread : ∀ inner < depth, ∀ path, tree.readDir blake2b256 path
      (computeCid blake2b256 (deepNode inner).toBlob) = .ok (deepNode inner)) (dir : Bytes) :
    tree.FilesIn blake2b256 id dir (deepNode depth).children.1
      [(dir ++ deepPath depth ++ [0x78], fileX)] := by
  induction depth generalizing dir with
  | zero =>
    have hpath : dir ++ deepPath 0 ++ [0x78] = dir ++ fileX.nameStr := by simp [deepPath, pathBelow]; rfl
    rw [hpath]
    exact .file dir fileX [] [] rfl (.nil dir)
  | succ depth ih =>
    have hpath : dir ++ deepPath (depth + 1) = dir ++ longName.1 ++ [slash] ++ deepPath depth := by
      unfold deepPath pathBelow
      rw [List.replicate_succ, List.flatMap_cons]
      simp only [List.append_assoc]
    have hbelow := ih (fun inner hinner ↦ hread inner (Nat.lt_succ_of_lt hinner))
      (dir ++ longName.1 ++ [slash])
    rw [← hpath] at hbelow
    exact .directory dir (subdirectory longName (deepNode depth)) [] (deepNode depth) _ [] rfl
      (hread depth (Nat.lt_succ_self depth)) hbelow (.nil dir)

theorem isUtf8_replicate (count : ℕ) : isUtf8 (List.replicate count 0x61) = true := by
  refine (isUtf8_iff _).2 ⟨List.replicate count 'a', ?_⟩
  induction count with
  | zero => rfl
  | succ count ih =>
    rw [List.replicate_succ, List.replicate_succ, ih]
    rfl

theorem validate_longName : validateEntryName longName.1 = .ok () := by
  have hbytes : ∀ byte ∈ longName.1, byte = 0x61 := fun _ hbyte ↦ List.eq_of_mem_replicate hbyte
  apply validateEntryName_of_text (by decide) longName.2 (isUtf8_replicate maxEntryNameLength)
  · exact fun hmem ↦ absurd (hbytes _ hmem) (by decide)
  · exact fun hmem ↦ absurd (hbytes _ hmem) (by decide)

theorem validate_deepNode (depth : ℕ) : (deepNode depth).validate = .ok () := by
  cases depth with
  | zero => exact validate_innerNode
  | succ depth =>
    change (longDirectory (computeCid blake2b256 (deepNode depth).toBlob)).validate = _
    refine DirectoryNode.validate_iff.mpr ⟨?_, List.forall_mem_singleton.mpr fun _ ↦ rfl⟩
    exact {
      sorted := List.pairwise_singleton _ _
      unique := List.nodup_singleton _
      legal := List.forall_mem_singleton.mpr validate_longName
      bounded := (longDirectory _).children.2
      metadata := rfl }

theorem computeCid_deepNode {depth : ℕ} (h : depth < 5) :
    computeCid blake2b256 (deepNode depth).toBlob = deepCid depth := by
  induction depth with
  | zero => exact computeCid_directories.1
  | succ depth ih =>
    have hnode : deepNode (depth + 1) =
        longDirectory (computeCid blake2b256 (deepNode depth).toBlob) := rfl
    rw [hnode, ih (Nat.lt_of_succ_lt h),
      computeCid_directories.2.2 depth (Nat.lt_of_succ_lt_succ h)]

/-- Four directories with long names. -/
def deepNodes : List DirectoryNode := [deepNode 4, deepNode 3, deepNode 2, deepNode 1, deepNode 0]

def deepTree : Tree := .ofNodes blake2b256 (Word.ofNat 8 7) deepNodes

def deepParams : ListObjectsParams := ⟨some (deepPath 4), none, none, none⟩

theorem listReference_nil (params : ListObjectsParams) : (listReference [] params).contents = [] := by
  rw [listReference_eq, byKey, List.mergeSort_nil]
  rfl

theorem listReference_single {file : Bytes × DirectoryEntry} {keyPrefix : Bytes}
    (h : keyPrefix <+: file.1) :
    (listReference [file] ⟨some keyPrefix, none, none, none⟩).contents = [summary file] := by
  have hkey : keyPrefix.isPrefixOf file.1 = true := List.isPrefixOf_iff_prefix.mpr h
  rw [listReference_eq, byKey, List.mergeSort_singleton]
  simp [ListObjectsResponse.ofPage, ListObjectsParams.listedPrefix, ListObjectsParams.listedDelimiter,
    ListObjectsParams.pageSize, items, pageOf, PageBuilder.new, PageBuilder.pushAll, PageBuilder.push,
    PageBuilder.hasGroup, PageBuilder.group, groupOf, PageBuilder.finish, hkey, defaultMaxKeys]

theorem deepPath_four : deepPath 4 = deepPath 3 ++ longName.1 ++ [slash] := by
  unfold deepPath pathBelow
  rw [List.replicate_succ', List.flatMap_append, List.flatMap_singleton, List.append_assoc]

/-- A prefix that ends in `/` lists the directory before it. -/
theorem dirKey_of_slash {params : ListObjectsParams} {path : Bytes}
    (h : params.listedPrefix = path ++ [slash]) : params.dirKey = path := by
  unfold ListObjectsParams.dirKey
  rw [h, List.reverse_append]
  simp

theorem length_deepPath (depth : ℕ) : (deepPath depth).length = depth * 257 := by
  have hname : (longName.1 ++ [slash]).length = 257 := by
    rw [List.length_append, longName, List.length_replicate]
    rfl
  unfold deepPath pathBelow
  rw [List.length_flatMap, List.map_replicate, hname, List.sum_replicate, smul_eq_mul]

theorem deepPath_too_long : maxObjectKeyLen < deepParams.dirKey.length := by
  have hkey : deepParams.dirKey = deepPath 3 ++ longName.1 := dirKey_of_slash deepPath_four
  rw [hkey, List.length_append, length_deepPath, longName, List.length_replicate]
  decide

/-- A file behind four names of 256 bytes is in the tree, but it is not listed from its own directory. -/
theorem deep_file_not_listed :
    ¬ ∀ (tree : Tree) (root : DirectoryNode) (files : List (Bytes × DirectoryEntry))
        (params : ListObjectsParams),
      tree.loadRoot blake2b256 = .ok root → tree.FilesIn blake2b256 id [] root.children.1 files →
      ∃ steps, ∀ more, tree.listObjects blake2b256 (more + steps) params =
        some (.ok (listReference files params)) := by
  intro h
  have hcids : (deepNodes.map fun node ↦ computeCid blake2b256 node.toBlob).Nodup := by
    have hmap : deepNodes.map (fun node ↦ computeCid blake2b256 node.toBlob) =
        [4, 3, 2, 1, 0].map deepCid := by
      change ([4, 3, 2, 1, 0].map deepNode).map _ = _
      rw [List.map_map]
      have hall : ∀ depth ∈ [4, 3, 2, 1, 0], depth < 5 := by decide
      exact List.map_congr_left fun depth hdepth ↦ computeCid_deepNode (hall depth hdepth)
    rw [hmap]
    -- their first bytes differ
    refine List.Nodup.of_map (fun cid : Cid ↦ cid.bytes.head?) ?_
    decide
  have hvalid : ∀ depth < 5, (deepNode depth).validate = .ok () := fun depth _ ↦ validate_deepNode depth
  have hmem : ∀ depth < 5, deepNode depth ∈ deepNodes := by
    intro depth hdepth
    unfold deepNodes
    interval_cases depth
    all_goals simp
  have hroot : deepTree.loadRoot blake2b256 = .ok (deepNode 4) :=
    Tree.loadRoot_ofNodes hcids (hvalid 4 (by decide))
  have hread : ∀ inner < 4, ∀ path, deepTree.readDir blake2b256 path
      (computeCid blake2b256 (deepNode inner).toBlob) = .ok (deepNode inner) := by
    intro inner hinner path
    have hlt := Nat.lt_succ_of_lt hinner
    exact Tree.readDir_ofNodes hcids (hmem inner hlt) (hvalid inner hlt) path
  obtain ⟨steps, hsteps⟩ := h deepTree _ _ deepParams hroot (filesIn_deep hread [])
  have hbase : deepTree.listBase blake2b256 deepParams.dirKey = .ok [] :=
    Tree.listBase_long deepPath_too_long
  obtain ⟨steps', hsteps'⟩ := Tree.listObjects_of_base hbase .nil (.nil _)
  have hlisted := hsteps steps'
  rw [Nat.add_comm, hsteps' steps, Option.some.injEq, Except.ok.injEq] at hlisted
  have hcontents := congrArg ListObjectsResponse.contents hlisted
  have hlong : (listReference [([] ++ deepPath 4 ++ [0x78], fileX)] deepParams).contents = [_] :=
    listReference_single (List.prefix_append (deepPath 4) [0x78])
  rw [listReference_nil, hlong] at hcontents
  exact List.cons_ne_nil _ _ hcontents.symm

end Web3Storage.Formats
