import Web3Storage.Foundations.FiniteMap

/-!
# Reverse indices

A relation between keys and members, with the keys of every member kept in a list. `Indexes` says that
the lists are exactly the relation, without repetitions, and that no empty list is stored. Adding a
pair that is not there yet and dropping one keep an index an index. A map that omits a value, such as the
empty list, goes on doing so under changes that do not write it (`Omits`).
-/

set_option autoImplicit false
set_option relaxedAutoImplicit false

namespace Web3Storage.Foundations

variable {M K : Type} [DecidableEq M] [DecidableEq K]

/-! ### Maps without a value -/

section Omits

variable {V : Type} {m : FiniteMap K V} {unused : V}

/-- No key of a map has some value. -/
def Omits (unused : V) (m : FiniteMap K V) : Prop :=
  ∀ key, m.lookup key ≠ some unused

theorem omits_empty : Omits unused (∅ : FiniteMap K V) := by
  intro key hlookup
  cases hlookup

theorem Omits.insert (h : Omits unused m) {key : K} {value : V} (hvalue : value ≠ unused) :
    Omits unused (m.insert key value) := by
  intro other
  rw [FiniteMap.lookup_insert_eq]
  split_ifs
  · exact fun hsame ↦ hvalue (Option.some.inj hsame)
  · exact h other

theorem Omits.erase (h : Omits unused m) (key : K) : Omits unused (m.erase key) := by
  intro other
  rw [FiniteMap.lookup_erase_eq]
  split_ifs
  · simp
  · exact h other

theorem Omits.alter (h : Omits unused m) {key : K} {change : Option V → Option V}
    (hchange : ∀ old, change old ≠ some unused) : Omits unused (FiniteMap.alter key change m) := by
  intro other
  rw [FiniteMap.lookup_alter_eq]
  split_ifs
  · exact hchange _
  · exact h other

end Omits

/-! ### Lists of keys -/

/-- The keys listed for a member. -/
def entriesOf (index : FiniteMap M (List K)) (member : M) : List K :=
  (index.lookup member).getD []

/-- List a key for a member. -/
def addEntry (index : FiniteMap M (List K)) (member : M) (key : K) : FiniteMap M (List K) :=
  index.insert member (entriesOf index member ++ [key])

/-- Take a key from the list of a member, and the list with its last key. -/
def dropEntry (index : FiniteMap M (List K)) (member : M) (key : K) : FiniteMap M (List K) :=
  match index.lookup member with
  | none => index
  | some keys =>
    let left := keys.filter fun other ↦ other ≠ key
    if left = [] then index.erase member else index.insert member left

/-- A dropped key leaves no empty list. -/
theorem Omits.dropEntry {index : FiniteMap M (List K)} (h : Omits [] index) (member : M) (key : K) :
    Omits [] (dropEntry index member key) := by
  unfold Foundations.dropEntry
  split
  · exact h
  · dsimp only
    split_ifs with hleft
    · exact h.erase member
    · exact h.insert hleft

/-- The lists are the relation. -/
structure Indexes (index : FiniteMap M (List K)) (related : K → M → Prop) : Prop where
  mem_iff : ∀ member key, key ∈ entriesOf index member ↔ related key member
  nodup : ∀ member, (entriesOf index member).Nodup
  lookup_ne_nil : ∀ member, index.lookup member ≠ some []

variable {index : FiniteMap M (List K)} {related related' : K → M → Prop}

omit [DecidableEq K] in
theorem Indexes.congr (h : Indexes index related)
    (hsame : ∀ key member, related key member ↔ related' key member) : Indexes index related' :=
  ⟨fun member key ↦ (h.mem_iff member key).trans (hsame key member), h.nodup, h.lookup_ne_nil⟩

omit [DecidableEq K] in
/-- The empty index is an index of nothing. -/
theorem indexes_empty : Indexes (∅ : FiniteMap M (List K)) fun _ _ ↦ False := by
  refine ⟨fun member key ↦ ?_, fun member ↦ List.nodup_nil, fun member h ↦ ?_⟩
  · simp [entriesOf]
  · simp at h

omit [DecidableEq K] in
theorem entriesOf_addEntry (member other : M) (key : K) :
    entriesOf (addEntry index member key) other =
      if other = member then entriesOf index member ++ [key] else entriesOf index other := by
  unfold addEntry
  rw [entriesOf, FiniteMap.lookup_insert_eq]
  split_ifs with hother
  · rfl
  · rfl

theorem entriesOf_dropEntry (member other : M) (key : K) :
    entriesOf (dropEntry index member key) other =
      if other = member then (entriesOf index member).filter fun k ↦ k ≠ key
      else entriesOf index other := by
  unfold dropEntry
  cases hkeys : index.lookup member with
  | none =>
    split_ifs with hother
    · subst hother
      simp [entriesOf, hkeys]
    · rfl
  | some keys =>
    have hentries : entriesOf index member = keys := by
      rw [entriesOf, hkeys, Option.getD_some]
    rw [hentries]
    dsimp only
    by_cases hleft : (keys.filter fun k ↦ k ≠ key) = []
    · rw [if_pos hleft, entriesOf, FiniteMap.lookup_erase_eq]
      split_ifs with hother
      · rw [hleft]
        rfl
      · rfl
    · rw [if_neg hleft, entriesOf, FiniteMap.lookup_insert_eq]
      split_ifs with hother
      · rfl
      · rfl

omit [DecidableEq K] in
/-- Adding a pair that is not related yet. -/
theorem Indexes.add (h : Indexes index related) {member : M} {key : K}
    (hnew : ¬ related key member) :
    Indexes (addEntry index member key) fun k m ↦ related k m ∨ k = key ∧ m = member := by
  refine ⟨fun other k ↦ ?_, fun other ↦ ?_, fun other ↦ ?_⟩
  · rw [entriesOf_addEntry]
    split_ifs with hother
    · subst hother
      simp [h.mem_iff]
    · simp [h.mem_iff, hother]
  · rw [entriesOf_addEntry]
    split_ifs with hother
    · refine List.Nodup.append (h.nodup member) (List.nodup_singleton key) ?_
      rw [List.disjoint_singleton]
      exact fun hmem ↦ hnew ((h.mem_iff member key).mp hmem)
    · exact h.nodup other
  · exact Omits.insert h.lookup_ne_nil (List.append_ne_nil_of_right_ne_nil _ (List.cons_ne_nil _ _)) other

/-- Dropping a pair. -/
theorem Indexes.drop (h : Indexes index related) (member : M) (key : K) :
    Indexes (dropEntry index member key) fun k m ↦ related k m ∧ ¬ (k = key ∧ m = member) := by
  refine ⟨fun other k ↦ ?_, fun other ↦ ?_, fun other ↦ ?_⟩
  · rw [entriesOf_dropEntry]
    split_ifs with hother
    · subst hother
      simp [h.mem_iff]
    · simp [h.mem_iff, hother]
  · rw [entriesOf_dropEntry]
    split_ifs with hother
    · exact (h.nodup member).filter _
    · exact h.nodup other
  · exact Omits.dropEntry h.lookup_ne_nil member key other

/-- Dropping a key from the lists of several members. -/
theorem Indexes.dropAll (h : Indexes index related) (members : List M) (key : K) :
    Indexes (members.foldl (fun index member ↦ dropEntry index member key) index)
      fun k m ↦ related k m ∧ ¬ (k = key ∧ m ∈ members) := by
  induction members generalizing index related with
  | nil => exact h.congr fun k m ↦ by simp
  | cons member rest ih =>
    refine (ih (h.drop member key)).congr fun k m ↦ ?_
    rw [List.mem_cons]
    tauto

end Web3Storage.Foundations
