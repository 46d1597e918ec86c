import Web3Storage.Foundations.SortedKeys

/-!
# Pages of a listing

A page is built from keys in order. Keys with the delimiter after the prefix collapse into one common
prefix, and the page stops at the first item that does not fit; its last item is where the next page
goes on. `pages_complete` says that the pages of a listing are consecutive blocks of all items.
Characters are those of any linear order, the bytes of a text in the program.
-/

set_option autoImplicit false
set_option relaxedAutoImplicit false

namespace Web3Storage.Formats

open Foundations

variable {α T : Type} [LinearOrder α]

/-- One page of a listing. -/
structure Page (α T : Type) where
  contents : List T
  commonPrefixes : List (List α)
  isTruncated : Bool
  nextStartAfter : Option (List α)

/-- A page while keys are added, with its last item. -/
structure PageBuilder (α T : Type) where
  keyPrefix : List α
  delimiter : Option (List α)
  startAfter : Option (List α)
  maxKeys : ℕ
  page : Page α T
  last : Option (List α)

namespace PageBuilder

def new (keyPrefix : List α) (delimiter startAfter : Option (List α)) (maxKeys : ℕ) :
    PageBuilder α T where
  keyPrefix := keyPrefix
  delimiter := delimiter
  startAfter := startAfter
  maxKeys := maxKeys
  page := ⟨[], [], false, none⟩
  last := none

end PageBuilder

/-- The common prefix of a key, if it has the delimiter after the prefix. -/
def groupOf (keyPrefix : List α) (delimiter : Option (List α)) (key : List α) : Option (List α) := do
  let d ← delimiter
  let rel ← if keyPrefix.length ≤ key.length then some (key.drop keyPrefix.length) else none
  let i ← findPattern d rel
  return key.take (keyPrefix.length + i + d.length)

namespace PageBuilder

variable (builder : PageBuilder α T)

def group (key : List α) : Option (List α) := groupOf builder.keyPrefix builder.delimiter key

/-- The page has this group already, or begins after it. -/
def hasGroup (group : Option (List α)) : Bool :=
  group.isSome && (group = builder.startAfter || group = builder.last)

/-- Add the next key with its item. The page is full if it returns `false`. -/
def push (key : List α) (item : T) : PageBuilder α T × Bool :=
  if !builder.keyPrefix.isPrefixOf key || builder.startAfter.any fun after ↦ decide (key ≤ after) then
    (builder, true)
  else if builder.hasGroup (builder.group key) then (builder, true)
  else if builder.page.contents.length + builder.page.commonPrefixes.length = builder.maxKeys then
    ({ builder with page := { builder.page with isTruncated := true } }, false)
  else match builder.group key with
    | some group =>
      ({ builder with
          page := { builder.page with commonPrefixes := builder.page.commonPrefixes ++ [group] }
          last := some group }, true)
    | none =>
      ({ builder with
          page := { builder.page with contents := builder.page.contents ++ [item] }
          last := some key }, true)

/-- No key that starts with a directory, a prefix ending in `/`, can change the page. -/
def skips (dir : List α) : Bool :=
  if !builder.keyPrefix.isPrefixOf dir && !dir.isPrefixOf builder.keyPrefix then true
  else if builder.startAfter.any fun after ↦ decide (dir < after) && !dir.isPrefixOf after then true
  else builder.hasGroup (builder.group dir)

def finish : Page α T :=
  if builder.page.isTruncated then { builder.page with nextStartAfter := builder.last }
  else builder.page

/-- Add keys until the page is full. -/
def pushAll (builder : PageBuilder α T) : List (List α × T) → PageBuilder α T
  | [] => builder
  | (key, item) :: rest =>
    match builder.push key item with
    | (next, true) => pushAll next rest
    | (next, false) => next

end PageBuilder

/-- One page of keys with their items. -/
def pageOf (entries : List (List α × T)) (keyPrefix : List α) (delimiter startAfter : Option (List α))
    (maxKeys : ℕ) : Page α T :=
  ((PageBuilder.new keyPrefix delimiter startAfter maxKeys).pushAll entries).finish

/-- One page of keys, as indices. -/
def listPage (keys : List (List α)) (keyPrefix : List α) (delimiter startAfter : Option (List α))
    (maxKeys : ℕ) : Page α ℕ :=
  pageOf keys.zipIdx keyPrefix delimiter startAfter maxKeys

/-- The pages of a listing: each goes on where the one before it stopped. -/
def pageAt (entries : List (List α × T)) (keyPrefix : List α) (delimiter : Option (List α))
    (sizes : ℕ → ℕ) : ℕ → Page α T
  | 0 => pageOf entries keyPrefix delimiter none (sizes 0)
  | i + 1 => pageOf entries keyPrefix delimiter
      (pageAt entries keyPrefix delimiter sizes i).nextStartAfter (sizes (i + 1))

/-! ### The items of a listing -/

/-- An item of a listing: a key, or the common prefix of several. -/
inductive Item (α T : Type) where
  | object (key : List α) (value : T)
  | commonPrefix (group : List α)

namespace Item

/-- Where an item stands in the order of keys. -/
def token : Item α T → List α
  | object key _ => key
  | commonPrefix group => group

def value? : Item α T → Option T
  | object _ value => some value
  | commonPrefix _ => none

def group? : Item α T → Option (List α)
  | object _ _ => none
  | commonPrefix group => some group

end Item

/-- The item of a key. -/
def itemOf (keyPrefix : List α) (delimiter : Option (List α)) (entry : List α × T) : Item α T :=
  match groupOf keyPrefix delimiter entry.1 with
  | some group => .commonPrefix group
  | none => .object entry.1 entry.2

/-- A block of items as a page. -/
def blockPage (block : List (Item α T)) (isTruncated : Bool) : Page α T where
  contents := block.filterMap Item.value?
  commonPrefixes := block.filterMap Item.group?
  isTruncated := isTruncated
  nextStartAfter := if isTruncated then block.getLast?.map Item.token else none

section Groups

variable {keyPrefix : List α} {delimiter : Option (List α)}

/-- The group of a key is a prefix of it, past the prefix of the listing. -/
theorem groupOf_eq_some {key group : List α} :
    groupOf keyPrefix delimiter key = some group ↔ keyPrefix.length ≤ key.length ∧
      ∃ d, delimiter = some d ∧ ∃ place, findPattern d (key.drop keyPrefix.length) = some place ∧
        group = key.take (keyPrefix.length + place + d.length) := by
  unfold groupOf
  cases delimiter with
  | none => simp
  | some d =>
    split_ifs with hlength
    · simp only [Option.pure_def, Option.bind_eq_bind, Option.bind_some, Option.bind_eq_some_iff,
        Option.some.injEq, hlength, true_and, exists_eq_left']
      constructor
      · rintro ⟨place, hplace, rfl⟩
        exact ⟨place, hplace, rfl⟩
      · rintro ⟨place, hplace, rfl⟩
        exact ⟨place, hplace, rfl⟩
    · simp [hlength]

theorem isPrefix_of_groupOf {key group : List α} (h : groupOf keyPrefix delimiter key = some group) :
    group <+: key := by
  obtain ⟨-, d, -, place, -, rfl⟩ := groupOf_eq_some.1 h
  exact List.take_prefix _ _

/-- Every key that starts with a group is in the group. -/
theorem groupOf_of_isPrefix {key key' group : List α}
    (h : groupOf keyPrefix delimiter key = some group) (hpre : keyPrefix <+: key)
    (hgroup : group <+: key') : groupOf keyPrefix delimiter key' = some group := by
  obtain ⟨-, d, hdelimiter, place, hplace, rfl⟩ := groupOf_eq_some.1 h
  obtain ⟨rel, rfl⟩ := hpre
  rw [List.drop_left] at hplace
  have htake : (keyPrefix ++ rel).take (keyPrefix.length + place + d.length) =
      keyPrefix ++ rel.take (place + d.length) := by
    rw [Nat.add_assoc, List.take_length_add_append]
  rw [htake] at hgroup ⊢
  obtain ⟨rest, rfl⟩ := hgroup
  obtain ⟨hfind, hsame⟩ := findPattern_of_isPrefix hplace (List.prefix_append _ rest)
  rw [List.append_assoc]
  refine groupOf_eq_some.2 ⟨by simp, d, hdelimiter, place, ?_, ?_⟩
  · rw [List.drop_left]
    exact hfind
  · rw [Nat.add_assoc, List.take_length_add_append, hsame]

/-- A group is a key of itself. -/
theorem groupOf_self {key group : List α} (h : groupOf keyPrefix delimiter key = some group)
    (hpre : keyPrefix <+: key) : groupOf keyPrefix delimiter group = some group :=
  groupOf_of_isPrefix h hpre (List.prefix_refl _)

/-- The item of a key stands at the key or at its group. -/
theorem token_itemOf (entry : List α × T) : (itemOf keyPrefix delimiter entry).token =
    (groupOf keyPrefix delimiter entry.1).getD entry.1 := by
  unfold itemOf
  cases groupOf keyPrefix delimiter entry.1 with
  | none => rfl
  | some group => rfl

/-- Where an item stands is a prefix of its key. -/
theorem token_isPrefix (entry : List α × T) : (itemOf keyPrefix delimiter entry).token <+: entry.1 := by
  rw [token_itemOf]
  cases hgroup : groupOf keyPrefix delimiter entry.1 with
  | none => exact List.prefix_refl _
  | some group => exact isPrefix_of_groupOf hgroup

/-- A key that starts with where another item stands, stands there or is past it on its own. -/
theorem token_of_isPrefix {entry entry' : List α × T} (hpre : keyPrefix <+: entry.1)
    (htoken : (itemOf keyPrefix delimiter entry).token <+: entry'.1)
    (hle : entry'.1 ≤ entry.1) :
    (itemOf keyPrefix delimiter entry').token = (itemOf keyPrefix delimiter entry).token := by
  rw [token_itemOf] at htoken
  rw [token_itemOf, token_itemOf]
  cases hgroup : groupOf keyPrefix delimiter entry.1 with
  | none =>
    rw [hgroup] at htoken
    have hsame : entry'.1 = entry.1 := le_antisymm hle (le_of_isPrefix htoken)
    rw [hsame, hgroup]
  | some group =>
    rw [hgroup] at htoken
    rw [groupOf_of_isPrefix hgroup hpre htoken]
    rfl

/-- The items of keys in order are in order. -/
theorem token_mono {entry entry' : List α × T} (hpre' : keyPrefix <+: entry'.1)
    (hle : entry.1 ≤ entry'.1) :
    (itemOf keyPrefix delimiter entry).token ≤ (itemOf keyPrefix delimiter entry').token := by
  by_contra hlt
  rw [not_le] at hlt
  have hbetween : (itemOf keyPrefix delimiter entry').token <+: entry.1 := by
    refine isPrefix_of_between ?_ hle (token_isPrefix entry')
    exact hlt.le.trans (le_of_isPrefix (token_isPrefix entry))
  exact hlt.ne' (token_of_isPrefix hpre' hbetween hle)

/-- A page that begins after an item leaves out the keys up to it and those of its group: these are the
keys whose items stand no later. -/
theorem lt_token_iff {entry entry' : List α × T} (hpre : keyPrefix <+: entry.1)
    (hpre' : keyPrefix <+: entry'.1) :
    (itemOf keyPrefix delimiter entry).token < (itemOf keyPrefix delimiter entry').token ↔
      (itemOf keyPrefix delimiter entry).token < entry'.1 ∧
        groupOf keyPrefix delimiter entry'.1 ≠ some (itemOf keyPrefix delimiter entry).token := by
  constructor
  · intro hlt
    refine ⟨lt_of_lt_of_le hlt (le_of_isPrefix (token_isPrefix entry')), fun hgroup ↦ ?_⟩
    have hsame : (itemOf keyPrefix delimiter entry').token =
        (itemOf keyPrefix delimiter entry).token := by
      rw [token_itemOf entry', hgroup]
      rfl
    exact hlt.ne' hsame
  · rintro ⟨hlt, hgroup⟩
    by_contra hnot
    rw [not_lt] at hnot
    have hsame : (itemOf keyPrefix delimiter entry').token =
        (itemOf keyPrefix delimiter entry).token := by
      rcases le_total entry.1 entry'.1 with hle | hle
      · exact le_antisymm hnot (token_mono hpre' hle)
      · refine token_of_isPrefix hpre ?_ hle
        exact isPrefix_of_between hlt.le hle (token_isPrefix entry)
    rw [token_itemOf entry'] at hsame
    cases hown : groupOf keyPrefix delimiter entry'.1 with
    | none =>
      rw [hown] at hsame
      exact hlt.ne' hsame
    | some group =>
      rw [hown] at hsame hgroup
      exact hgroup (congrArg some hsame)

end Groups

/-! ### One page -/

section OnePage

variable {builder : PageBuilder α T}

namespace PageBuilder

variable (builder) in
/-- A key that the page does not leave out: it has the prefix, is past the start, and is in no group
that the page begins after. -/
def survives (key : List α) : Bool :=
  builder.keyPrefix.isPrefixOf key && builder.startAfter.all fun after ↦
    decide (after < key) && decide (builder.group key ≠ some after)

theorem survives_iff {key : List α} : builder.survives key = true ↔ builder.keyPrefix <+: key ∧
    ∀ after, builder.startAfter = some after → after < key ∧ builder.group key ≠ some after := by
  unfold survives
  cases builder.startAfter with
  | none => simp
  | some after => simp

variable (builder) in
/-- Put an item on the page. -/
def add (item : Item α T) : PageBuilder α T :=
  { builder with
    page := { builder.page with
      contents := builder.page.contents ++ item.value?.toList
      commonPrefixes := builder.page.commonPrefixes ++ item.group?.toList }
    last := some item.token }

variable (builder) in
/-- The number of items on the page. -/
def count : ℕ := builder.page.contents.length + builder.page.commonPrefixes.length

omit [LinearOrder α] in
@[simp]
theorem count_add (item : Item α T) : (builder.add item).count = builder.count + 1 := by
  cases item with
  | object key value =>
    simp only [count, add, Item.value?, Item.group?, Option.toList_some, Option.toList_none,
      List.length_append, List.length_singleton, List.length_nil]
    omega
  | commonPrefix group =>
    simp only [count, add, Item.value?, Item.group?, Option.toList_some, Option.toList_none,
      List.length_append, List.length_singleton, List.length_nil]
    omega

omit [LinearOrder α] in
@[simp]
theorem maxKeys_add (item : Item α T) : (builder.add item).maxKeys = builder.maxKeys := rfl

/-- The item of a key on this page. -/
abbrev itemOf (builder : PageBuilder α T) (entry : List α × T) : Item α T :=
  Formats.itemOf builder.keyPrefix builder.delimiter entry

theorem itemOf_new (keyPrefix : List α) (delimiter startAfter : Option (List α)) (maxKeys : ℕ) :
    (new (T := T) keyPrefix delimiter startAfter maxKeys).itemOf =
      Formats.itemOf keyPrefix delimiter := rfl

/-- The first page of a group leaves out no later key of it but as the last item. -/
theorem hasGroup_eq (entry : List α × T) (hsurvives : builder.survives entry.1 = true)
    (hfresh : builder.group entry.1 = none → builder.last ≠ some entry.1) :
    builder.hasGroup (builder.group entry.1) = decide (builder.last = some (builder.itemOf entry).token) := by
  rw [token_itemOf]
  change _ = decide (builder.last = some ((builder.group entry.1).getD entry.1))
  unfold hasGroup
  cases hgroup : builder.group entry.1 with
  | none => simp [hfresh hgroup]
  | some group =>
    have hstart : builder.startAfter ≠ some group := by
      intro hafter
      exact ((survives_iff.1 hsurvives).2 group hafter).2 hgroup
    simp [hstart.symm, eq_comm]

/-- Keys without the prefix and keys up to the start are left out. -/
theorem outside_iff {key : List α} : (!builder.keyPrefix.isPrefixOf key ||
      builder.startAfter.any fun after ↦ decide (key ≤ after)) = false ↔
    builder.keyPrefix <+: key ∧ ∀ after, builder.startAfter = some after → after < key := by
  cases builder.startAfter with
  | none => simp
  | some after => simp

/-- A key that does not survive changes nothing. -/
theorem push_of_not_survives {entry : List α × T} (h : builder.survives entry.1 ≠ true) :
    builder.push entry.1 entry.2 = (builder, true) := by
  unfold push
  by_cases hout : (!builder.keyPrefix.isPrefixOf entry.1 ||
      builder.startAfter.any fun after ↦ decide (entry.1 ≤ after)) = true
  · rw [if_pos hout]
  · rw [if_neg hout]
    obtain ⟨hpre, hstart⟩ := outside_iff.1 (Bool.not_eq_true _ ▸ hout)
    refine if_pos ?_
    by_contra hgroup
    refine h (survives_iff.2 ⟨hpre, fun after hafter ↦ ⟨hstart after hafter, fun hsame ↦ ?_⟩⟩)
    refine hgroup ?_
    unfold hasGroup
    rw [hsame, hafter]
    simp

/-- A key in the last group changes nothing. -/
theorem push_of_last {entry : List α × T} (hsurvives : builder.survives entry.1 = true)
    (hfresh : builder.group entry.1 = none → builder.last ≠ some entry.1)
    (hlast : builder.last = some (builder.itemOf entry).token) :
    builder.push entry.1 entry.2 = (builder, true) := by
  have hgroup := hasGroup_eq entry hsurvives hfresh
  rw [decide_eq_true hlast] at hgroup
  unfold push
  rw [if_pos hgroup]
  split_ifs
  · rfl
  · rfl

/-- A key of a new item is put on the page if there is room. -/
theorem push_of_new {entry : List α × T} (hsurvives : builder.survives entry.1 = true)
    (hfresh : builder.group entry.1 = none → builder.last ≠ some entry.1)
    (hlast : builder.last ≠ some (builder.itemOf entry).token) :
    builder.push entry.1 entry.2 =
      if builder.count = builder.maxKeys then
        ({ builder with page := { builder.page with isTruncated := true } }, false)
      else (builder.add (builder.itemOf entry), true) := by
  have hgroup := hasGroup_eq entry hsurvives hfresh
  rw [decide_eq_false hlast] at hgroup
  obtain ⟨hpre, hstart⟩ := survives_iff.1 hsurvives
  have hin := outside_iff.2 ⟨hpre, fun after hafter ↦ (hstart after hafter).1⟩
  unfold push
  rw [hin, hgroup]
  simp only [Bool.false_eq_true, if_false]
  unfold count add itemOf Formats.itemOf
  split_ifs with hfull
  · rfl
  · change (match builder.group entry.1 with
      | some group => _
      | none => _) = _
    unfold group
    cases groupOf builder.keyPrefix builder.delimiter entry.1 with
    | none => simp [Item.value?, Item.group?, Item.token]
    | some group => simp [Item.value?, Item.group?, Item.token]

variable (builder) in
/-- The page is full and more keys match. -/
def truncate : PageBuilder α T := { builder with page := { builder.page with isTruncated := true } }

variable (builder) in
/-- The items that are still to come on the page and after it. -/
def remaining (entries : List (List α × T)) : List (Item α T) :=
  runs Item.token builder.last
    ((entries.filter fun entry ↦ builder.survives entry.1).map builder.itemOf)

/-- A later key is not the last item, unless it is in its group. -/
theorem fresh_add {entry entry' : List α × T} (hlt : entry.1 < entry'.1)
    (hsurvives : builder.survives entry.1 = true) (hgroup : builder.group entry'.1 = none) :
    (builder.itemOf entry).token ≠ entry'.1 := by
  intro hsame
  rw [token_itemOf] at hsame
  cases hown : groupOf builder.keyPrefix builder.delimiter entry.1 with
  | none =>
    rw [hown] at hsame
    exact hlt.ne hsame
  | some group =>
    rw [hown] at hsame
    have hself := groupOf_self hown (survives_iff.1 hsurvives).1
    change group = entry'.1 at hsame
    rw [hsame] at hself
    exact Option.some_ne_none _ (hself.symm.trans hgroup)

/-- Adding keys in order puts the remaining items on the page as far as there is room. -/
theorem pushAll_eq {entries : List (List α × T)}
    (hsorted : entries.Pairwise fun first second ↦ first.1 < second.1)
    (hfresh : ∀ entry ∈ entries, builder.group entry.1 = none → builder.last ≠ some entry.1)
    (hcount : builder.count ≤ builder.maxKeys) :
    builder.pushAll entries =
      let filled := ((builder.remaining entries).take (builder.maxKeys - builder.count)).foldl add
        builder
      if builder.maxKeys - builder.count < (builder.remaining entries).length then filled.truncate
      else filled := by
  induction entries generalizing builder with
  | nil => simp [pushAll, remaining, runs]
  | cons entry rest ih =>
    rw [List.pairwise_cons] at hsorted
    have hfreshHead := hfresh entry List.mem_cons_self
    have hfreshRest : ∀ other ∈ rest, builder.group other.1 = none → builder.last ≠ some other.1 :=
      fun other hother ↦ hfresh other (List.mem_cons_of_mem _ hother)
    obtain ⟨key, item⟩ := entry
    by_cases hsurvives : builder.survives key = true
    · have hcons : (((key, item) :: rest).filter fun entry ↦ builder.survives entry.1) =
          (key, item) :: rest.filter fun entry ↦ builder.survives entry.1 := by
        rw [List.filter_cons, if_pos hsurvives]
      by_cases hlast : builder.last = some (builder.itemOf (key, item)).token
      · have hpush : builder.push key item = (builder, true) :=
          push_of_last hsurvives hfreshHead hlast
        have hremaining : builder.remaining ((key, item) :: rest) = builder.remaining rest := by
          unfold remaining
          rw [hcons, List.map_cons, runs, if_pos hlast]
        simp only [pushAll, hpush, hremaining]
        exact ih hsorted.2 hfreshRest hcount
      · have hpush : builder.push key item =
            if builder.count = builder.maxKeys then
              ({ builder with page := { builder.page with isTruncated := true } }, false)
            else (builder.add (builder.itemOf (key, item)), true) :=
          push_of_new hsurvives hfreshHead hlast
        have hremaining : builder.remaining ((key, item) :: rest) =
            builder.itemOf (key, item) :: (builder.add (builder.itemOf (key, item))).remaining rest := by
          unfold remaining
          rw [hcons, List.map_cons, runs, if_neg hlast]
          rfl
        by_cases hfull : builder.count = builder.maxKeys
        · rw [if_pos hfull] at hpush
          rw [pushAll, hpush, hremaining, hfull]
          simp [truncate]
        · rw [if_neg hfull] at hpush
          have hadded : builder.pushAll ((key, item) :: rest) =
              (builder.add (builder.itemOf (key, item))).pushAll rest := by rw [pushAll, hpush]
          have hroom : builder.maxKeys - builder.count =
              builder.maxKeys - (builder.count + 1) + 1 := by omega
          have hfreshNext : ∀ other ∈ rest, builder.group other.1 = none →
              some (builder.itemOf (key, item)).token ≠ some other.1 := by
            intro other hother hgroup hsame
            exact fresh_add (hsorted.1 other hother) hsurvives hgroup (Option.some.inj hsame)
          have hcountNext : (builder.add (builder.itemOf (key, item))).count ≤ builder.maxKeys := by
            rw [count_add]
            omega
          rw [hadded, ih hsorted.2 hfreshNext hcountNext, hremaining, count_add, maxKeys_add, hroom,
            List.take_succ_cons, List.foldl_cons, List.length_cons]
          simp only [Nat.add_lt_add_iff_right]
    · have hpush : builder.push key item = (builder, true) :=
        @push_of_not_survives _ _ _ _ (key, item) hsurvives
      have hremaining : builder.remaining ((key, item) :: rest) = builder.remaining rest := by
        unfold remaining
        rw [List.filter_cons, if_neg hsurvives]
      simp only [pushAll, hpush, hremaining]
      exact ih hsorted.2 hfreshRest hcount

omit [LinearOrder α] in
/-- Items put on the page one after another. -/
theorem foldl_add (items : List (Item α T)) : items.foldl add builder =
    { builder with
      page := { builder.page with
        contents := builder.page.contents ++ items.filterMap Item.value?
        commonPrefixes := builder.page.commonPrefixes ++ items.filterMap Item.group? }
      last := (items.getLast?.map Item.token).or builder.last } := by
  induction items using List.reverseRecOn with
  | nil => simp
  | append_singleton items item ih =>
    rw [List.foldl_append, ih]
    cases item with
    | object key value => simp [add, Item.value?, Item.group?, Item.token]
    | commonPrefix group => simp [add, Item.value?, Item.group?, Item.token]

end PageBuilder

/-- A page is a block of the remaining items, truncated if there are more. -/
theorem pageOf_eq {entries : List (List α × T)} {keyPrefix : List α}
    {delimiter startAfter : Option (List α)} {maxKeys : ℕ}
    (hsorted : entries.Pairwise fun first second ↦ first.1 < second.1) :
    pageOf entries keyPrefix delimiter startAfter maxKeys =
      let remaining := (PageBuilder.new keyPrefix delimiter startAfter maxKeys).remaining entries
      blockPage (remaining.take maxKeys) (decide (maxKeys < remaining.length)) := by
  unfold pageOf
  set builder : PageBuilder α T := PageBuilder.new keyPrefix delimiter startAfter maxKeys
    with hbuilder
  have hcount : builder.count = 0 := rfl
  have hmax : builder.maxKeys = maxKeys := rfl
  have hfill := builder.pushAll_eq hsorted (fun _ _ _ ↦ Option.some_ne_none _ ∘ Eq.symm)
    (hcount ▸ Nat.zero_le _)
  rw [hcount, hmax, Nat.sub_zero] at hfill
  simp only [hfill, PageBuilder.foldl_add]
  generalize builder.remaining entries = remaining
  split_ifs with hmore
  · rw [decide_eq_true hmore]
    simp [blockPage, PageBuilder.finish, PageBuilder.truncate, hbuilder, PageBuilder.new]
  · rw [decide_eq_false hmore]
    simp [blockPage, PageBuilder.finish, hbuilder, PageBuilder.new]

/-- A page depends on the keys with its prefix only. -/
theorem pageOf_congr {entries entries' : List (List α × T)} {keyPrefix : List α}
    {delimiter startAfter : Option (List α)} {maxKeys : ℕ}
    (hsorted : entries.Pairwise fun first second ↦ first.1 < second.1)
    (hsorted' : entries'.Pairwise fun first second ↦ first.1 < second.1)
    (hsame : entries.filter (fun entry ↦ keyPrefix.isPrefixOf entry.1) =
      entries'.filter fun entry ↦ keyPrefix.isPrefixOf entry.1) :
    pageOf entries keyPrefix delimiter startAfter maxKeys =
      pageOf entries' keyPrefix delimiter startAfter maxKeys := by
  set builder : PageBuilder α T := PageBuilder.new keyPrefix delimiter startAfter maxKeys
    with hbuilder
  have hkept (keys : List (List α × T)) : (keys.filter fun entry ↦ builder.survives entry.1) =
      (keys.filter fun entry ↦ keyPrefix.isPrefixOf entry.1).filter fun entry ↦
        builder.survives entry.1 := by
    rw [List.filter_filter]
    refine List.filter_congr fun entry _ ↦ ?_
    rw [Bool.eq_iff_iff, Bool.and_eq_true, List.isPrefixOf_iff_prefix]
    exact (and_iff_left_of_imp fun hsurvives ↦ (PageBuilder.survives_iff.1 hsurvives).1).symm
  have hremaining : builder.remaining entries = builder.remaining entries' := by
    unfold PageBuilder.remaining
    rw [hkept entries, hkept entries', hsame]
  rw [pageOf_eq hsorted, pageOf_eq hsorted', ← hbuilder, hremaining]

end OnePage

/-! ### Skipped keys -/

section Skips

variable {builder : PageBuilder α T}

namespace PageBuilder

/-- A key that starts with a skipped directory changes nothing. -/
theorem push_of_skips {dir key : List α} (hskips : builder.skips dir = true) (hpre : dir <+: key)
    (item : T) : builder.push key item = (builder, true) := by
  by_cases hout : (!builder.keyPrefix.isPrefixOf key ||
      builder.startAfter.any fun after ↦ decide (key ≤ after)) = true
  · unfold push
    rw [if_pos hout]
  · obtain ⟨hkey, hstart⟩ := outside_iff.1 (Bool.not_eq_true _ ▸ hout)
    unfold skips at hskips
    split_ifs at hskips with hapart hearlier
    · -- the directory is outside the prefix, but the key has both
      rw [Bool.and_eq_true, Bool.not_eq_true', Bool.not_eq_true', Bool.eq_false_iff,
        Bool.eq_false_iff, Ne, Ne, List.isPrefixOf_iff_prefix, List.isPrefixOf_iff_prefix] at hapart
      rcases List.prefix_or_prefix_of_prefix hkey hpre with hinside | houtside
      · exact absurd hinside hapart.1
      · exact absurd houtside hapart.2
    · -- the start is past the directory, but the key is past the start
      rw [Option.any_eq_true] at hearlier
      obtain ⟨after, hafter, hpast⟩ := hearlier
      rw [Bool.and_eq_true, Bool.not_eq_true', Bool.eq_false_iff, Ne, List.isPrefixOf_iff_prefix,
        decide_eq_true_iff] at hpast
      exact absurd (isPrefix_of_between hpast.1.le (hstart after hafter).le hpre) hpast.2
    · -- the key is in the group of the directory
      have hgroup : builder.group key = builder.group dir := by
        cases hdir : builder.group dir with
        | none =>
          rw [hdir] at hskips
          cases hskips
        | some group =>
          have hlong := (groupOf_eq_some.1 hdir).1
          have hinside := List.prefix_of_prefix_length_le hkey hpre hlong
          exact groupOf_of_isPrefix hdir hinside ((isPrefix_of_groupOf hdir).trans hpre)
      unfold push
      rw [if_neg hout, hgroup, if_pos hskips]

theorem pushAll_cons (key : List α) (item : T) (rest : List (List α × T)) :
    builder.pushAll ((key, item) :: rest) =
      if (builder.push key item).2 = true then (builder.push key item).1.pushAll rest
      else (builder.push key item).1 := by
  rw [pushAll]
  rcases builder.push key item with ⟨next, more⟩
  cases more with
  | false => rfl
  | true => rfl

theorem pushAll_of_skips {dir : List α} {entries : List (List α × T)}
    (hskips : builder.skips dir = true) (hpre : ∀ entry ∈ entries, dir <+: entry.1) :
    builder.pushAll entries = builder := by
  induction entries with
  | nil => rfl
  | cons entry rest ih =>
    rw [List.forall_mem_cons] at hpre
    rw [pushAll_cons, push_of_skips hskips hpre.1, if_pos rfl]
    exact ih hpre.2

/-- A page that is not truncated takes a key exactly if it is not truncated then. -/
theorem isTruncated_push (h : builder.page.isTruncated = false) (key : List α) (item : T) :
    (builder.push key item).1.page.isTruncated = !(builder.push key item).2 := by
  unfold push
  split_ifs with hout hgroup hfull
  · exact h
  · exact h
  · rfl
  · cases builder.group key with
    | none => exact h
    | some group => exact h

/-- Keys are added one block after another, as long as the page is not truncated. -/
theorem pushAll_append (h : builder.page.isTruncated = false) (first second : List (List α × T)) :
    builder.pushAll (first ++ second) =
      if (builder.pushAll first).page.isTruncated = true then builder.pushAll first
      else (builder.pushAll first).pushAll second := by
  induction first generalizing builder with
  | nil =>
    rw [pushAll, h, if_neg Bool.false_ne_true]
    rfl
  | cons entry rest ih =>
    rw [List.cons_append, pushAll_cons, pushAll_cons]
    have htruncated := isTruncated_push h entry.1 entry.2
    by_cases hmore : (builder.push entry.1 entry.2).2 = true
    · rw [if_pos hmore, if_pos hmore]
      rw [hmore] at htruncated
      exact ih htruncated
    · rw [if_neg hmore, if_neg hmore]
      rw [Bool.not_eq_true] at hmore
      rw [hmore, Bool.not_false] at htruncated
      rw [if_pos htruncated]

end PageBuilder

end Skips

/-! ### Other items -/

section Maps

variable {U : Type} (f : T → U)

/-- A page with other items in the places of its own. -/
def Page.map (page : Page α T) : Page α U :=
  { page with contents := page.contents.map f }

/-- A page being built, with other items in the places of its own. -/
def PageBuilder.map (builder : PageBuilder α T) : PageBuilder α U :=
  { builder with page := builder.page.map f }

theorem PageBuilder.push_map (builder : PageBuilder α T) (key : List α) (item : T) :
    (builder.map f).push key (f item) =
      ((builder.push key item).1.map f, (builder.push key item).2) := by
  unfold push
  change (if (!builder.keyPrefix.isPrefixOf key ||
      builder.startAfter.any fun after ↦ decide (key ≤ after)) = true then _
    else if builder.hasGroup (builder.group key) = true then _
    else if (builder.page.contents.map f).length + builder.page.commonPrefixes.length =
      builder.maxKeys then _ else _) = _
  rw [List.length_map]
  split_ifs with hout hknown hfull
  · rfl
  · rfl
  · rfl
  · change (match builder.group key with | some group => _ | none => _) = _
    cases builder.group key with
    | none =>
      unfold map Page.map
      dsimp only
      rw [List.map_append, List.map_singleton]
    | some group => rfl

theorem PageBuilder.pushAll_map (builder : PageBuilder α T) (entries : List (List α × T)) :
    (builder.map f).pushAll (entries.map fun entry ↦ (entry.1, f entry.2)) =
      (builder.pushAll entries).map f := by
  induction entries generalizing builder with
  | nil => rfl
  | cons entry rest ih =>
    rw [List.map_cons, pushAll_cons, pushAll_cons, push_map]
    by_cases hmore : (builder.push entry.1 entry.2).2 = true
    · rw [if_pos hmore, if_pos hmore]
      exact ih _
    · rw [if_neg hmore, if_neg hmore]

/-- A page shows the items of its keys, whatever they are. -/
theorem pageOf_map (entries : List (List α × T)) (keyPrefix : List α)
    (delimiter startAfter : Option (List α)) (maxKeys : ℕ) :
    pageOf (entries.map fun entry ↦ (entry.1, f entry.2)) keyPrefix delimiter startAfter maxKeys =
      (pageOf entries keyPrefix delimiter startAfter maxKeys).map f := by
  have hall := PageBuilder.pushAll_map f (PageBuilder.new keyPrefix delimiter startAfter maxKeys)
    entries
  unfold pageOf
  change ((PageBuilder.map f (PageBuilder.new keyPrefix delimiter startAfter maxKeys)).pushAll
    _).finish = _
  rw [hall]
  generalize (PageBuilder.new keyPrefix delimiter startAfter maxKeys).pushAll entries = builder
  change (if builder.page.isTruncated = true then _ else _) = Page.map f (if _ then _ else _)
  split_ifs
  · rfl
  · rfl

end Maps

/-! ### All items -/

section Listing

variable {entries : List (List α × T)} {keyPrefix : List α} {delimiter : Option (List α)}

variable (entries keyPrefix delimiter) in
/-- The items of the keys with the prefix. -/
def candidates : List (Item α T) :=
  (entries.filter fun entry ↦ keyPrefix.isPrefixOf entry.1).map (itemOf keyPrefix delimiter)

variable (entries keyPrefix delimiter) in
/-- The items of a listing without pages. -/
def allItems : List (Item α T) := runs Item.token none (candidates entries keyPrefix delimiter)

theorem mem_candidates {item : Item α T} : item ∈ candidates entries keyPrefix delimiter ↔
    ∃ entry ∈ entries, keyPrefix <+: entry.1 ∧ itemOf keyPrefix delimiter entry = item := by
  simp only [candidates, List.mem_map, List.mem_filter, List.isPrefixOf_iff_prefix, and_assoc]

/-- The items of sorted keys are sorted. -/
theorem candidates_sorted (hsorted : entries.Pairwise fun first second ↦ first.1 < second.1) :
    (candidates entries keyPrefix delimiter).Pairwise fun first second ↦
      first.token ≤ second.token := by
  unfold candidates
  rw [List.pairwise_map]
  have hfiltered := hsorted.filter (fun entry ↦ keyPrefix.isPrefixOf entry.1)
  refine hfiltered.imp_of_mem fun {first second} _ hsecond hlt ↦ ?_
  have hpre := List.isPrefixOf_iff_prefix.1 (List.mem_filter.1 hsecond).2
  exact token_mono hpre hlt.le

/-- Two items that stand at one place are the same. -/
theorem candidates_inj (hsorted : entries.Pairwise fun first second ↦ first.1 < second.1) :
    ∀ first ∈ candidates entries keyPrefix delimiter,
      ∀ second ∈ candidates entries keyPrefix delimiter, first.token = second.token →
        first = second := by
  rintro first hfirst second hsecond htoken
  obtain ⟨entry, hentry, hpre, rfl⟩ := mem_candidates.1 hfirst
  obtain ⟨entry', hentry', hpre', rfl⟩ := mem_candidates.1 hsecond
  rw [token_itemOf, token_itemOf] at htoken
  unfold itemOf
  -- A key without a group is no group of another key, so both have the group or neither has.
  cases hgroup : groupOf keyPrefix delimiter entry.1 with
  | none =>
    cases hgroup' : groupOf keyPrefix delimiter entry'.1 with
    | none =>
      rw [hgroup, hgroup'] at htoken
      have hsame : entry = entry' := by
        have hkeys : (entries.map Prod.fst).Nodup :=
          List.pairwise_map.2 (hsorted.imp fun h ↦ h.ne)
        exact List.inj_on_of_nodup_map hkeys hentry hentry' htoken
      rw [hsame]
    | some group' =>
      rw [hgroup, hgroup'] at htoken
      have hself := groupOf_self hgroup' hpre'
      change entry.1 = group' at htoken
      rw [← htoken, hgroup] at hself
      cases hself
  | some group =>
    cases hgroup' : groupOf keyPrefix delimiter entry'.1 with
    | none =>
      rw [hgroup, hgroup'] at htoken
      have hself := groupOf_self hgroup hpre
      change group = entry'.1 at htoken
      rw [htoken, hgroup'] at hself
      cases hself
    | some group' =>
      rw [hgroup, hgroup'] at htoken
      change group = group' at htoken
      rw [htoken]

/-- The items of a listing are in strict order, and are those of the keys with the prefix. -/
theorem allItems_spec (hsorted : entries.Pairwise fun first second ↦ first.1 < second.1) :
    ((allItems entries keyPrefix delimiter).Pairwise fun first second ↦
        first.token < second.token) ∧
      ∀ item, item ∈ allItems entries keyPrefix delimiter ↔
        ∃ entry ∈ entries, keyPrefix <+: entry.1 ∧ itemOf keyPrefix delimiter entry = item := by
  have hnone : ∀ bound, (none : Option (List α)) = some bound →
      ∀ item ∈ candidates entries keyPrefix delimiter, bound ≤ item.token := fun _ h ↦ by cases h
  obtain ⟨hpairwise, hmem⟩ := runs_spec (candidates_sorted hsorted) (candidates_inj hsorted) hnone
  refine ⟨hpairwise, fun item ↦ ?_⟩
  rw [allItems, hmem, mem_candidates]
  simp

theorem remaining_none (maxKeys : ℕ) :
    (PageBuilder.new keyPrefix delimiter none maxKeys).remaining entries =
      allItems entries keyPrefix delimiter := by
  unfold PageBuilder.remaining allItems candidates PageBuilder.survives PageBuilder.new
  simp only [Option.all_none, Bool.and_true]

/-- A page that begins after an item has the items after it. -/
theorem remaining_some (hsorted : entries.Pairwise fun first second ↦ first.1 < second.1)
    {before after : List (Item α T)} {item : Item α T}
    (hitems : allItems entries keyPrefix delimiter = before ++ item :: after) (maxKeys : ℕ) :
    (PageBuilder.new keyPrefix delimiter (some item.token) maxKeys).remaining entries = after := by
  obtain ⟨hpairwise, hmem⟩ := @allItems_spec _ _ _ _ keyPrefix delimiter hsorted
  have hitem : item ∈ allItems entries keyPrefix delimiter := by
    rw [hitems]
    simp
  obtain ⟨entry, -, hpre, rfl⟩ := (hmem item).1 hitem
  set start := (itemOf keyPrefix delimiter entry).token with hstart
  have hlater : ((entries.filter fun entry' ↦
        (PageBuilder.new (T := T) keyPrefix delimiter (some start) maxKeys).survives entry'.1).map
          (itemOf keyPrefix delimiter)) =
      (candidates entries keyPrefix delimiter).filter fun item ↦ decide (start < item.token) := by
    unfold candidates
    rw [List.filter_map, List.filter_filter]
    refine congrArg _ (List.filter_congr fun entry' _ ↦ ?_)
    rw [Bool.eq_iff_iff, PageBuilder.survives_iff, Bool.and_eq_true, Function.comp_apply,
      decide_eq_true_iff, List.isPrefixOf_iff_prefix]
    constructor
    · rintro ⟨hpre', hpast⟩
      exact ⟨(lt_token_iff hpre hpre').2 (hpast start rfl), hpre'⟩
    · rintro ⟨hlt, hpre'⟩
      refine ⟨hpre', fun bound hbound ↦ ?_⟩
      cases hbound
      exact (lt_token_iff hpre hpre').1 hlt
  change runs Item.token none _ = after
  rw [PageBuilder.itemOf_new, hlater, runs_filter _ (candidates_sorted hsorted)
    (candidates_inj hsorted)]
  change (allItems entries keyPrefix delimiter).filter _ = after
  rw [hitems] at hpairwise ⊢
  obtain ⟨-, hafter, hbefore⟩ := List.pairwise_append.1 hpairwise
  rw [List.pairwise_cons] at hafter
  have hdrop : before.filter (fun item ↦ decide (start < item.token)) = [] := by
    refine List.filter_eq_nil_iff.2 fun other hother hlt ↦ ?_
    have hless := hbefore other hother _ List.mem_cons_self
    exact lt_asymm hless (of_decide_eq_true hlt)
  have hkeep : after.filter (fun item ↦ decide (start < item.token)) = after :=
    List.filter_eq_self.2 fun other hother ↦ decide_eq_true (hafter.1 other hother)
  rw [List.filter_append, hdrop, List.filter_cons, if_neg (by simp [hstart]), hkeep, List.nil_append]

/-! ### All pages -/

variable {sizes : ℕ → ℕ}

/-- How many items fit on the pages before one. -/
def offsetOf (sizes : ℕ → ℕ) : ℕ → ℕ
  | 0 => 0
  | i + 1 => offsetOf sizes i + sizes i

theorem le_offsetOf (hsizes : ∀ i, 1 ≤ sizes i) (i : ℕ) : i ≤ offsetOf sizes i := by
  induction i with
  | zero => exact Nat.zero_le _
  | succ i ih =>
    have hsize := hsizes i
    rw [offsetOf]
    omega

/-- The block of items of a page. -/
def blockOf (items : List (Item α T)) (sizes : ℕ → ℕ) (i : ℕ) : List (Item α T) :=
  (items.drop (offsetOf sizes i)).take (sizes i)

omit [LinearOrder α] in
theorem flatMap_blockOf (items : List (Item α T)) (n : ℕ) :
    (List.range n).flatMap (blockOf items sizes) = items.take (offsetOf sizes n) := by
  induction n with
  | zero => simp [offsetOf]
  | succ n ih =>
    rw [List.range_succ, List.flatMap_append, ih, List.flatMap_singleton, blockOf, offsetOf,
      List.take_add]

/-- As long as items are left, a page is the next block of them. -/
theorem pageAt_eq (hsorted : entries.Pairwise fun first second ↦ first.1 < second.1)
    (hsizes : ∀ i, 1 ≤ sizes i) {i : ℕ}
    (hleft : i = 0 ∨ offsetOf sizes i < (allItems entries keyPrefix delimiter).length) :
    pageAt entries keyPrefix delimiter sizes i =
      blockPage (blockOf (allItems entries keyPrefix delimiter) sizes i)
        (decide (offsetOf sizes (i + 1) < (allItems entries keyPrefix delimiter).length)) := by
  induction i with
  | zero =>
    rw [pageAt, pageOf_eq hsorted, remaining_none]
    simp [blockOf, offsetOf]
  | succ i ih =>
    have hmore := hleft.resolve_left (Nat.succ_ne_zero i)
    set items := allItems entries keyPrefix delimiter with hitems
    have hbefore : i = 0 ∨ offsetOf sizes i < items.length := by
      rw [offsetOf] at hmore
      exact .inr (by omega)
    have hpage := ih hbefore
    rw [decide_eq_true hmore] at hpage
    -- The page before is full, and its last item is where this one begins.
    have hsize := hsizes i
    have hsum : offsetOf sizes (i + 1) = offsetOf sizes i + sizes i := rfl
    have hindex : offsetOf sizes (i + 1) - 1 < items.length := by omega
    have hlast : (blockOf items sizes i).getLast? = some items[offsetOf sizes (i + 1) - 1] := by
      have hlength : (blockOf items sizes i).length = sizes i := by
        rw [blockOf, List.length_take, List.length_drop]
        omega
      have hplace : offsetOf sizes i + (sizes i - 1) = offsetOf sizes (i + 1) - 1 := by omega
      rw [List.getLast?_eq_getElem?, hlength, blockOf, List.getElem?_take, if_pos (by omega),
        List.getElem?_drop, hplace, List.getElem?_eq_getElem hindex]
    have hsplit : items = items.take (offsetOf sizes (i + 1) - 1) ++
        items[offsetOf sizes (i + 1) - 1] :: items.drop (offsetOf sizes (i + 1)) := by
      have hdrop := List.drop_eq_getElem_cons hindex
      rw [Nat.sub_add_cancel (by omega)] at hdrop
      rw [← hdrop, List.take_append_drop]
    rw [pageAt, hpage, pageOf_eq hsorted]
    simp only [blockPage, if_true, hlast, Option.map_some]
    rw [remaining_some hsorted (hitems.symm.trans hsplit)]
    have hrest : decide (sizes (i + 1) < (items.drop (offsetOf sizes (i + 1))).length) =
        decide (offsetOf sizes (i + 1 + 1) < items.length) := by
      rw [List.length_drop, offsetOf.eq_2 sizes (i + 1)]
      exact decide_eq_decide.2 (by omega)
    rw [hrest]
    rfl

/-- **Paging is complete and free of duplicates**: the pages of a listing are consecutive blocks of its
items, which are in strict order of their places and are one for each key with the prefix and no group
and one for each group; every page but the last is truncated, and no page after the first is empty. -/
theorem pages_complete (hsorted : entries.Pairwise fun first second ↦ first.1 < second.1)
    (hsizes : ∀ i, 1 ≤ sizes i) :
    ∃ (n : ℕ) (block : ℕ → List (Item α T)),
      (∀ i ≤ n, pageAt entries keyPrefix delimiter sizes i = blockPage (block i) (decide (i < n)) ∧
        (block i).length ≤ sizes i ∧ (0 < i → block i ≠ [])) ∧
      ((List.range (n + 1)).flatMap block).Pairwise (fun first second ↦ first.token < second.token) ∧
      ∀ item, item ∈ (List.range (n + 1)).flatMap block ↔
        ∃ entry ∈ entries, keyPrefix <+: entry.1 ∧ itemOf keyPrefix delimiter entry = item := by
  set items := allItems entries keyPrefix delimiter with hitems
  -- The last page is the first one whose block reaches the end.
  have hend : ∃ n, items.length ≤ offsetOf sizes (n + 1) :=
    ⟨items.length, (Nat.le_succ _).trans (le_offsetOf hsizes _)⟩
  have hlast := Nat.find_spec hend
  have hfirst {i : ℕ} (hi : i < Nat.find hend) : offsetOf sizes (i + 1) < items.length :=
    not_le.1 (Nat.find_min hend hi)
  generalize Nat.find hend = n at hlast hfirst
  have hall : (List.range (n + 1)).flatMap (blockOf items sizes) = items := by
    rw [flatMap_blockOf, List.take_of_length_le hlast]
  refine ⟨n, blockOf items sizes, fun i hi ↦ ⟨?_, ?_, fun hpositive ↦ ?_⟩, ?_, ?_⟩
  · have hleft : i = 0 ∨ offsetOf sizes i < items.length := by
      cases i with
      | zero => exact .inl rfl
      | succ i => exact .inr (hfirst (by omega))
    have htruncated : decide (offsetOf sizes (i + 1) < items.length) = decide (i < n) := by
      refine decide_eq_decide.2 ⟨fun hmore ↦ ?_, hfirst⟩
      refine lt_of_le_of_ne hi fun hsame ↦ ?_
      rw [hsame] at hmore
      omega
    rw [pageAt_eq hsorted hsizes hleft, ← hitems, htruncated]
  · exact List.length_take_le _ _
  · obtain ⟨before, rfl⟩ : ∃ before, i = before + 1 := ⟨i - 1, by omega⟩
    have hmore : offsetOf sizes (before + 1) < items.length := hfirst (by omega)
    have hsize := hsizes (before + 1)
    refine List.ne_nil_of_length_pos ?_
    rw [blockOf, List.length_take, List.length_drop]
    omega
  · rw [hall]
    exact (allItems_spec hsorted).1
  · rw [hall]
    exact (allItems_spec hsorted).2

/-- The keys `a/1`, `a/2` and `b` with the delimiter `/`, one item on each page. -/
theorem pages_complete_of_three :
    ∃ (n : ℕ) (block : ℕ → List (Item ℕ ℕ)),
      (∀ i ≤ n, pageAt [([97, 47, 49], 0), ([97, 47, 50], 1), ([98], 2)] [] (some [47]) (fun _ ↦ 1) i =
          blockPage (block i) (decide (i < n)) ∧
        (block i).length ≤ 1 ∧ (0 < i → block i ≠ [])) ∧
      ((List.range (n + 1)).flatMap block).Pairwise (fun first second ↦ first.token < second.token) ∧
      ∀ item, item ∈ (List.range (n + 1)).flatMap block ↔
        ∃ entry ∈ [([97, 47, 49], 0), ([97, 47, 50], 1), ([98], 2)], [] <+: entry.1 ∧
          itemOf [] (some [47]) entry = item :=
  pages_complete (by decide) fun _ ↦ le_refl 1

end Listing

end Web3Storage.Formats
