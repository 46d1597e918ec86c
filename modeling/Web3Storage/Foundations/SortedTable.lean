import Web3Storage.Foundations.FiniteMap

/-!
# Sorted tables

A list of values in the strict order of their keys is a table of the finite map from keys to values
(`tableMap`). `binarySearchBy` halves a range until one place is left, and `search_cases` says where it
ends in a table: at the value of the key, or between the smaller and the greater keys. Replacing,
inserting and removing a value there are the operations of the map, and keep the order.
-/

set_option autoImplicit false
set_option relaxedAutoImplicit false

namespace Web3Storage.Foundations

/-! ### Binary search -/

section Search

variable {α : Type} (order : α → Ordering) (values : List α)

/-- The place that is left of a range when its halves are taken away one after the other: the second
half if its first value is past the target, and the first half if not. -/
def searchBase (base size : ℕ) (hsize : 0 < size) (hfits : base + size ≤ values.length) :
    Fin values.length :=
  if hlong : 1 < size then
    have hmid : base + size / 2 < values.length := by omega
    if order values[base + size / 2] = .gt then
      searchBase base (size - size / 2) (by omega) (by omega)
    else searchBase (base + size / 2) (size - size / 2) (by omega) (by omega)
  else ⟨base, by omega⟩
termination_by size

/-- Search for a value that compares as equal. Without one, the error is the place where it belongs. -/
def binarySearchBy : Except ℕ ℕ :=
  if hsize : 0 < values.length then
    let base := searchBase order values 0 values.length hsize (by omega)
    match order (values.get base) with
    | .eq => .ok base
    | .lt => .error (base + 1)
    | .gt => .error base
  else .error 0

/-- The values that compare as less come first, and those that compare as greater last. -/
def InOrder : Prop :=
  values.Pairwise fun first second ↦
    (order first = .gt → order second = .gt) ∧ (order second = .lt → order first = .lt)

variable {order values}

theorem InOrder.gt (h : InOrder order values) {i j : ℕ} (hij : i ≤ j) (hj : j < values.length)
    (hgt : order values[i] = .gt) : order values[j] = .gt := by
  rcases Nat.lt_or_eq_of_le hij with hlt | rfl
  · exact (List.pairwise_iff_getElem.mp h i j _ hj hlt).1 hgt
  · exact hgt

theorem InOrder.lt (h : InOrder order values) {i j : ℕ} (hij : i ≤ j) (hj : j < values.length)
    (hlt : order values[j] = .lt) : order values[i] = .lt := by
  rcases Nat.lt_or_eq_of_le hij with hbefore | rfl
  · exact (List.pairwise_iff_getElem.mp h i j _ hj hbefore).2 hlt
  · exact hlt

/-- In the range, all values after the place that is left are past the target, and the value there is
too only if the place is the first. -/
theorem searchBase_spec (h : InOrder order values) {base size : ℕ} (hsize : 0 < size)
    (hfits : base + size ≤ values.length) :
    (order (values.get (searchBase order values base size hsize hfits)) = .gt →
      (searchBase order values base size hsize hfits : ℕ) = base) ∧
    ∀ j (hj : j < values.length), (searchBase order values base size hsize hfits : ℕ) < j →
      j < base + size → order values[j] = .gt := by
  induction size using Nat.strong_induction_on generalizing base with
  | _ size ih =>
    rw [searchBase]
    by_cases hlong : 1 < size
    · have hmid : base + size / 2 < values.length := by omega
      rw [dif_pos hlong]
      dsimp only
      by_cases hgt : order values[base + size / 2] = .gt
      · rw [if_pos hgt]
        obtain ⟨hbase, hafter⟩ := ih (size - size / 2) (by omega) (by omega)
          (by omega : base + (size - size / 2) ≤ values.length)
        refine ⟨hbase, fun j hj hplace hend ↦ ?_⟩
        by_cases hnear : j < base + (size - size / 2)
        · exact hafter j hj hplace hnear
        · exact h.gt (by omega) hj hgt
      · rw [if_neg hgt]
        obtain ⟨hbase, hafter⟩ := ih (size - size / 2) (by omega) (by omega)
          (by omega : base + size / 2 + (size - size / 2) ≤ values.length)
        constructor
        · intro hplace
          -- the first place of the second half is not past the target
          have hfirst := hbase hplace
          rw [List.get_eq_getElem] at hplace
          simp only [hfirst] at hplace
          exact absurd hplace hgt
        · intro j hj hplace hend
          exact hafter j hj hplace (by omega)
    · rw [dif_neg hlong]
      refine ⟨fun _ ↦ rfl, fun j hj hplace hend ↦ ?_⟩
      simp only at hplace
      omega

/-- The search in a list in order ends at a value that compares as equal, or between those that compare
as less and as greater. -/
theorem binarySearchBy_spec (h : InOrder order values) :
    match binarySearchBy order values with
    | .ok pos => ∃ hpos : pos < values.length, order values[pos] = .eq
    | .error pos => pos ≤ values.length ∧
        (∀ value ∈ values.take pos, order value = .lt) ∧
        ∀ value ∈ values.drop pos, order value = .gt := by
  unfold binarySearchBy
  split_ifs with hsize
  · obtain ⟨hbase, hafter⟩ := searchBase_spec h hsize (by omega : 0 + values.length ≤ values.length)
    generalize searchBase order values 0 values.length hsize _ = place at hbase hafter
    obtain ⟨place, hplace⟩ := place
    simp only [List.get_eq_getElem] at hbase hafter ⊢
    cases horder : order values[place] with
    | eq => exact ⟨hplace, horder⟩
    | lt =>
      refine ⟨hplace, fun value hvalue ↦ ?_, fun value hvalue ↦ ?_⟩
      · obtain ⟨i, hi, rfl⟩ := List.mem_iff_getElem.mp hvalue
        rw [List.length_take] at hi
        rw [List.getElem_take]
        exact h.lt (by omega) hplace horder
      · obtain ⟨i, hi, rfl⟩ := List.mem_iff_getElem.mp hvalue
        rw [List.length_drop] at hi
        rw [List.getElem_drop]
        exact hafter _ (by omega) (by omega) (by omega)
    | gt =>
      refine ⟨hplace.le, fun value hvalue ↦ ?_, fun value hvalue ↦ ?_⟩
      · rw [hbase horder, List.take_zero] at hvalue
        cases hvalue
      · obtain ⟨i, hi, rfl⟩ := List.mem_iff_getElem.mp hvalue
        rw [List.length_drop] at hi
        rw [List.getElem_drop]
        exact h.gt (by omega) (by omega) horder
  · have hnil : values = [] := List.length_eq_zero_iff.mp (by omega)
    subst hnil
    simp

end Search

/-! ### Tables -/

section Tables

variable {K V : Type} [LinearOrder K] (key : V → K)

/-- Values in the strict order of their keys. -/
def IsTable (values : List V) : Prop :=
  values.Pairwise fun first second ↦ key first < key second

/-- Search a table for a key. -/
def searchKey (values : List V) (target : K) : Except ℕ ℕ :=
  binarySearchBy (fun value ↦ compare (key value) target) values

variable {key} {values : List V}

/-- The search for a key ends at its value, or between the smaller and the greater keys. -/
theorem search_cases (h : IsTable key values) (target : K) :
    (∃ before found after, values = before ++ found :: after ∧ key found = target ∧
      searchKey key values target = .ok before.length) ∨
    ∃ before after, values = before ++ after ∧ (∀ value ∈ before, key value < target) ∧
      (∀ value ∈ after, target < key value) ∧ searchKey key values target = .error before.length := by
  have horder : InOrder (fun value ↦ compare (key value) target) values := by
    refine List.Pairwise.imp (fun {first second} hlt ↦ ?_) h
    simp only [compare_gt_iff_gt, compare_lt_iff_lt]
    exact ⟨fun hgt ↦ hgt.trans hlt, fun hless ↦ hlt.trans hless⟩
  have hspec := binarySearchBy_spec horder
  unfold searchKey
  cases hplace : binarySearchBy (fun value ↦ compare (key value) target) values with
  | ok pos =>
    rw [hplace] at hspec
    obtain ⟨hpos, hequal⟩ := hspec
    left
    refine ⟨values.take pos, values[pos], values.drop (pos + 1), ?_, compare_eq_iff_eq.mp hequal, ?_⟩
    · rw [List.cons_getElem_drop_succ, List.take_append_drop]
    · rw [List.length_take_of_le hpos.le]
  | error pos =>
    rw [hplace] at hspec
    obtain ⟨hpos, hbelow, habove⟩ := hspec
    right
    refine ⟨values.take pos, values.drop pos, (List.take_append_drop pos values).symm,
      fun value hvalue ↦ ?_, fun value hvalue ↦ ?_, ?_⟩
    · exact compare_lt_iff_lt.mp (hbelow value hvalue)
    · exact compare_gt_iff_gt.mp (habove value hvalue)
    · rw [List.length_take_of_le hpos]

theorem IsTable.nodup_keys (h : IsTable key values) : (values.map key).Nodup := by
  rw [List.nodup_iff_pairwise_ne, List.pairwise_map]
  exact h.imp fun hlt ↦ hlt.ne

/-! ### Edits of a table -/

section Edits

variable {before after : List V} {found value : V}

theorem insertIdx_append_length (before after : List V) (value : V) :
    (before ++ after).insertIdx before.length value = before ++ value :: after := by
  induction before with
  | nil => rfl
  | cons first rest ih =>
    rw [List.cons_append, List.length_cons, List.insertIdx_succ_cons, ih, List.cons_append]

theorem IsTable.insert (h : IsTable key (before ++ after))
    (hbelow : ∀ other ∈ before, key other < key value)
    (habove : ∀ other ∈ after, key value < key other) : IsTable key (before ++ value :: after) := by
  unfold IsTable at h ⊢
  rw [List.pairwise_append] at h ⊢
  obtain ⟨hbefore, hafter, hcross⟩ := h
  refine ⟨hbefore, List.pairwise_cons.mpr ⟨habove, hafter⟩, fun first hfirst second hsecond ↦ ?_⟩
  rcases List.mem_cons.mp hsecond with rfl | hsecond
  · exact hbelow first hfirst
  · exact hcross first hfirst second hsecond

theorem IsTable.remove (h : IsTable key (before ++ found :: after)) :
    IsTable key (before ++ after) :=
  List.Pairwise.sublist ((List.sublist_cons_self found after).append_left before) h

/-- The keys beside a value are smaller and greater. -/
theorem IsTable.around (h : IsTable key (before ++ value :: after)) :
    (∀ other ∈ before, key other < key value) ∧ ∀ other ∈ after, key value < key other := by
  unfold IsTable at h
  rw [List.pairwise_append, List.pairwise_cons] at h
  exact ⟨fun other hother ↦ h.2.2 other hother value List.mem_cons_self, h.2.1.1⟩

theorem IsTable.replace (h : IsTable key (before ++ found :: after)) (hkey : key value = key found) :
    IsTable key (before ++ value :: after) := by
  obtain ⟨hbelow, habove⟩ := h.around
  rw [← hkey] at hbelow habove
  exact h.remove.insert hbelow habove

end Edits

/-! ### The map of a table -/

section Maps

variable [DecidableEq K]

/-- The finite map of a table. -/
def tableMap (key : V → K) (values : List V) : FiniteMap K V :=
  (values.map fun value ↦ (⟨key value, value⟩ : Sigma fun _ : K ↦ V)).toFinmap

/-- The map of a table has the values of the list under their keys. -/
theorem lookup_tableMap (h : IsTable key values) {k : K} {value : V} :
    (tableMap key values).lookup k = some value ↔ value ∈ values ∧ key value = k := by
  have hnodup : (values.map fun value ↦ (⟨key value, value⟩ : Sigma fun _ : K ↦ V)).NodupKeys := by
    rw [List.nodupKeys_iff_pairwise, List.pairwise_map]
    exact h.imp fun hlt ↦ hlt.ne
  unfold tableMap
  rw [Finmap.dlookup_list_toFinmap, ← Option.mem_def, List.mem_dlookup_iff hnodup, List.mem_map]
  constructor
  · rintro ⟨found, hfound, hentry⟩
    cases hentry
    exact ⟨hfound, rfl⟩
  · rintro ⟨hvalue, rfl⟩
    exact ⟨value, hvalue, rfl⟩

theorem lookup_tableMap_eq_none (h : IsTable key values) {k : K} :
    (tableMap key values).lookup k = none ↔ ∀ value ∈ values, key value ≠ k := by
  rw [Option.eq_none_iff_forall_not_mem]
  constructor
  · intro hnone value hvalue hkey
    exact hnone value ((lookup_tableMap h).mpr ⟨hvalue, hkey⟩)
  · intro hnone value hvalue
    obtain ⟨hmem, hkey⟩ := (lookup_tableMap h).mp hvalue
    exact hnone value hmem hkey

/-- A table has one value for each key of its map. -/
theorem card_keys_tableMap (h : IsTable key values) :
    (tableMap key values).keys.card = values.length := by
  have hkeys : (tableMap key values).keys = (values.map key).toFinset := by
    ext k
    rw [Finmap.mem_keys, ← Finmap.lookup_isSome, Option.isSome_iff_exists, List.mem_toFinset,
      List.mem_map]
    exact exists_congr fun value ↦ lookup_tableMap h
  rw [hkeys, List.toFinset_card_of_nodup h.nodup_keys, List.length_map]

variable {before after : List V} {found value : V}

/-- Between its values, a table has one more key than without it. -/
theorem tableMap_insert (h : IsTable key (before ++ value :: after)) :
    tableMap key (before ++ value :: after) =
      (tableMap key (before ++ after)).insert (key value) value := by
  have hmem (other : V) : other ∈ before ++ value :: after ↔ other = value ∨ other ∈ before ++ after := by
    rw [List.mem_append, List.mem_cons, List.mem_append]
    exact or_left_comm
  apply Finmap.ext_lookup
  intro k
  apply Option.ext
  intro other
  rw [lookup_tableMap h, FiniteMap.lookup_insert_eq, hmem]
  by_cases hk : k = key value
  · subst hk
    rw [if_pos rfl, Option.some.injEq]
    constructor
    · rintro ⟨hother, hsame⟩
      exact List.inj_on_of_nodup_map h.nodup_keys ((hmem value).mpr (.inl rfl))
        ((hmem other).mpr hother) hsame.symm
    · rintro rfl
      exact ⟨.inl rfl, rfl⟩
  · rw [if_neg hk, lookup_tableMap h.remove]
    constructor
    · rintro ⟨rfl | hother, hsame⟩
      · exact absurd hsame.symm hk
      · exact ⟨hother, hsame⟩
    · rintro ⟨hother, hsame⟩
      exact ⟨.inr hother, hsame⟩

/-- Without the value, its key is gone. -/
theorem tableMap_remove (h : IsTable key (before ++ found :: after)) :
    tableMap key (before ++ after) = (tableMap key (before ++ found :: after)).erase (key found) := by
  rw [tableMap_insert h, FiniteMap.erase_insert_of_lookup_none]
  rw [lookup_tableMap_eq_none h.remove]
  intro other hother
  rcases List.mem_append.mp hother with hother | hother
  · exact (h.around.1 other hother).ne
  · exact (h.around.2 other hother).ne'

/-- Another value in the place of a value of the same key is the value of the key. -/
theorem tableMap_replace (h : IsTable key (before ++ found :: after))
    (hkey : key value = key found) :
    tableMap key (before ++ value :: after) =
      (tableMap key (before ++ found :: after)).insert (key value) value := by
  rw [tableMap_insert (h.replace hkey), tableMap_insert h, hkey, Finmap.insert_insert]

end Maps

end Tables

end Web3Storage.Foundations
