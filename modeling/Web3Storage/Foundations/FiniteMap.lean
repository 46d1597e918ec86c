import Mathlib

/-!
# Finite maps and weighted sums over their entries

A keyed store is a `Finmap` with one type of values. Aggregates of a store (a total, a balance per
owner, a count of the entries with a property) are all one definition, `weightedSum`: the sum over
the entries of a weight read from the key and the value. A count is the sum of an indicator.

The laws say how one write moves an aggregate, and are stated without subtraction so that linear
arithmetic can use them directly: `weightedSum_insert_new` for a fresh key, `weightedSum_insert_old`
for a replaced value and `weightedSum_erase` for a removal. `weight_le_weightedSum` bounds one entry
by the aggregate and `weightedSum_eq_zero_iff` says when an aggregate is empty.
-/

set_option autoImplicit false
set_option relaxedAutoImplicit false

namespace Web3Storage.Foundations

/-- A finite map from keys to values. -/
abbrev FiniteMap (K V : Type) := Finmap fun _ : K ↦ V

namespace FiniteMap

variable {K V : Type}

/-- The sum of a weight over the entries of a map. -/
def weightedSum (weight : K → V → ℕ) (m : FiniteMap K V) : ℕ :=
  (m.entries.map fun entry ↦ weight entry.1 entry.2).sum

/-- The number of entries that satisfy a test. -/
def countEntries (test : K → V → Bool) (m : FiniteMap K V) : ℕ :=
  weightedSum (fun key value ↦ if test key value then 1 else 0) m

/-- Whether some entry of the map satisfies a test. -/
def anyEntry (test : K → V → Bool) (m : FiniteMap K V) : Bool :=
  decide (0 < countEntries test m)

variable [DecidableEq K]

/-- The value stored at a key, changed by a function when it is present. -/
def modify (key : K) (change : V → V) (m : FiniteMap K V) : FiniteMap K V :=
  match m.lookup key with
  | some value => m.insert key (change value)
  | none => m

/-- The entry at a key, rewritten as an optional value: absent before or after is `none`. -/
def alter (key : K) (change : Option V → Option V) (m : FiniteMap K V) : FiniteMap K V :=
  match change (m.lookup key) with
  | some value => m.insert key value
  | none => m.erase key

/-- Lookup after an insertion, at any key. -/
theorem lookup_insert_eq (m : FiniteMap K V) (key other : K) (value : V) :
    (m.insert key value).lookup other = if other = key then some value else m.lookup other := by
  by_cases h : other = key
  · subst h
    rw [Finmap.lookup_insert, if_pos rfl]
  · rw [Finmap.lookup_insert_of_ne _ h, if_neg h]

/-- Lookup after a removal, at any key. -/
theorem lookup_erase_eq (m : FiniteMap K V) (key other : K) :
    (m.erase key).lookup other = if other = key then none else m.lookup other := by
  by_cases h : other = key
  · subst h
    rw [Finmap.lookup_erase, if_pos rfl]
  · rw [Finmap.lookup_erase_ne h, if_neg h]

/-- Lookup after a modification, at any key. -/
theorem lookup_modify_eq (m : FiniteMap K V) (key other : K) (change : V → V) :
    (modify key change m).lookup other =
      if other = key then (m.lookup other).map change else m.lookup other := by
  unfold modify
  cases hkey : m.lookup key with
  | none =>
    by_cases h : other = key
    · subst h
      simp [hkey]
    · simp [h]
  | some value =>
    rw [lookup_insert_eq]
    by_cases h : other = key
    · subst h
      simp [hkey]
    · simp [h]

/-- An entry of a modified map is the old one, changed when it is the modified entry. -/
theorem lookup_modify_cases {m : FiniteMap K V} {key other : K} {change : V → V} {value : V}
    (h : (modify key change m).lookup other = some value) :
    ∃ old, m.lookup other = some old ∧ (other = key ∧ value = change old ∨ value = old) := by
  rw [lookup_modify_eq] at h
  split_ifs at h with hother
  · obtain ⟨old, hold, rfl⟩ := Option.map_eq_some_iff.mp h
    exact ⟨old, hold, .inl ⟨hother, rfl⟩⟩
  · exact ⟨value, h, .inr rfl⟩

/-- A modification that leaves values as they are changes nothing. -/
theorem modify_of_forall_eq {change : V → V} (h : ∀ value, change value = value) (key : K)
    (m : FiniteMap K V) : modify key change m = m := by
  apply Finmap.ext_lookup
  intro other
  rw [lookup_modify_eq]
  split_ifs with hother
  · cases m.lookup other with
    | none => rfl
    | some value => rw [Option.map_some, h]
  · rfl

/-- A modification does not change what it leaves as it is in every value. -/
theorem map_lookup_modify {β : Type} {field : V → β} {change : V → V}
    (h : ∀ value, field (change value) = field value) (m : FiniteMap K V) (key other : K) :
    ((modify key change m).lookup other).map field = (m.lookup other).map field := by
  rw [lookup_modify_eq]
  split_ifs with hother
  · rw [Option.map_map]
    congr 1
    funext value
    exact h value
  · rfl

/-- Lookup after a rewritten entry, at any key. -/
theorem lookup_alter_eq (m : FiniteMap K V) (key other : K) (change : Option V → Option V) :
    (alter key change m).lookup other =
      if other = key then change (m.lookup key) else m.lookup other := by
  unfold alter
  cases hchange : change (m.lookup key) with
  | none => exact lookup_erase_eq m key other
  | some value => exact lookup_insert_eq m key other value

/-- Removing a key that is not there changes nothing. -/
theorem erase_of_lookup_none {m : FiniteMap K V} {key : K} (h : m.lookup key = none) :
    m.erase key = m := by
  apply Finmap.ext_lookup
  intro other
  rw [lookup_erase_eq]
  split_ifs with hother
  · rw [hother, h]
  · rfl

/-- Removing a key that was just written to a map without it gives the map back. -/
theorem erase_insert_of_lookup_none {m : FiniteMap K V} {key : K} (h : m.lookup key = none)
    (value : V) : (m.insert key value).erase key = m := by
  apply Finmap.ext_lookup
  intro other
  rw [lookup_erase_eq, lookup_insert_eq]
  split_ifs with hother
  · rw [hother, h]
  · rfl

/-- Writing an entry that agrees with the old one in a field does not change the field anywhere. -/
theorem map_lookup_insert {β : Type} {field : V → β} {m : FiniteMap K V} {key : K} {old new : V}
    (hold : m.lookup key = some old) (hsame : field new = field old) (other : K) :
    ((m.insert key new).lookup other).map field = (m.lookup other).map field := by
  rw [lookup_insert_eq]
  split_ifs with hother
  · rw [hother, hold, Option.map_some, Option.map_some, hsame]
  · rfl

/-- Writing at a fresh key adds the weight of the entry. -/
theorem weightedSum_insert_new (weight : K → V → ℕ) {m : FiniteMap K V} {key : K}
    (h : m.lookup key = none) (value : V) :
    weightedSum weight (m.insert key value) = weight key value + weightedSum weight m := by
  have hfresh : key ∉ m := Finmap.lookup_eq_none.mp h
  rw [weightedSum, weightedSum, Finmap.entries_insert_of_notMem hfresh, Multiset.map_cons,
    Multiset.sum_cons]

/-- Removing an entry takes its weight out of the sum. -/
theorem weightedSum_erase (weight : K → V → ℕ) {m : FiniteMap K V} {key : K} {value : V}
    (h : m.lookup key = some value) :
    weightedSum weight (m.erase key) + weight key value = weightedSum weight m := by
  have hinsert := weightedSum_insert_new weight (Finmap.lookup_erase key m) value
  have hback : (m.erase key).insert key value = m := by
    apply Finmap.ext_lookup
    intro other
    rw [lookup_insert_eq, lookup_erase_eq]
    split_ifs with hother
    · rw [hother, h]
    · rfl
  rw [hback] at hinsert
  omega

/-- Replacing a value exchanges its weight. -/
theorem weightedSum_insert_old (weight : K → V → ℕ) {m : FiniteMap K V} {key : K} {old : V}
    (h : m.lookup key = some old) (value : V) :
    weightedSum weight (m.insert key value) + weight key old =
      weightedSum weight m + weight key value := by
  have herase := weightedSum_erase weight h
  have hwritten : (m.insert key value).lookup key = some value := Finmap.lookup_insert m
  have hfinal := weightedSum_erase weight hwritten
  have hsame : (m.insert key value).erase key = m.erase key := by
    apply Finmap.ext_lookup
    intro other
    rw [lookup_erase_eq, lookup_erase_eq, lookup_insert_eq]
    split_ifs <;> rfl
  rw [hsame] at hfinal
  omega

/-- Writing at any key exchanges the weight of what was there, nothing for a fresh key. -/
theorem weightedSum_insert (weight : K → V → ℕ) (m : FiniteMap K V) (key : K) (value : V) :
    weightedSum weight (m.insert key value) + (m.lookup key).elim 0 (weight key) =
      weightedSum weight m + weight key value := by
  cases h : m.lookup key with
  | none =>
    rw [weightedSum_insert_new weight h, Option.elim_none]
    omega
  | some old => exact weightedSum_insert_old weight h value

/-- One entry weighs at most the sum. -/
theorem weight_le_weightedSum (weight : K → V → ℕ) {m : FiniteMap K V} {key : K} {value : V}
    (h : m.lookup key = some value) : weight key value ≤ weightedSum weight m := by
  have herase := weightedSum_erase weight h
  omega

/-- Two weights that agree on the entries have the same sum. -/
theorem weightedSum_congr {weight weight' : K → V → ℕ} {m : FiniteMap K V}
    (h : ∀ key value, m.lookup key = some value → weight key value = weight' key value) :
    weightedSum weight m = weightedSum weight' m := by
  unfold weightedSum
  congr 1
  apply Multiset.map_congr rfl
  rintro ⟨key, value⟩ hmem
  exact h key value (Finmap.mem_lookup_iff.mpr hmem)

/-- A weight that is smaller on every entry has a smaller sum. -/
theorem weightedSum_le_weightedSum {weight weight' : K → V → ℕ} {m : FiniteMap K V}
    (h : ∀ key value, m.lookup key = some value → weight key value ≤ weight' key value) :
    weightedSum weight m ≤ weightedSum weight' m := by
  apply Multiset.sum_map_le_sum_map
  rintro ⟨key, value⟩ hmem
  exact h key value (Finmap.mem_lookup_iff.mpr hmem)

omit [DecidableEq K] in
/-- A sum of weights is the sum of their sums. -/
theorem weightedSum_add (weight weight' : K → V → ℕ) (m : FiniteMap K V) :
    weightedSum (fun key value ↦ weight key value + weight' key value) m =
      weightedSum weight m + weightedSum weight' m :=
  Multiset.sum_map_add

/-- A sum is zero exactly when every entry weighs nothing. -/
theorem weightedSum_eq_zero_iff (weight : K → V → ℕ) (m : FiniteMap K V) :
    weightedSum weight m = 0 ↔ ∀ key value, m.lookup key = some value → weight key value = 0 := by
  constructor
  · intro hzero key value hlookup
    have hle := weight_le_weightedSum weight hlookup
    omega
  · intro hall
    have hsame : weightedSum weight m = weightedSum (fun _ _ ↦ 0) m := weightedSum_congr hall
    rw [hsame]
    simp [weightedSum]

/-- A sum of weights runs over any keys that include those of the map. -/
theorem weightedSum_eq_sum (weight : K → V → ℕ) (keys : Finset K) {m : FiniteMap K V}
    (h : ∀ key ∈ m, key ∈ keys) :
    weightedSum weight m = ∑ key ∈ keys, (m.lookup key).elim 0 (weight key) := by
  induction keys using Finset.induction_on generalizing m with
  | empty =>
    rw [Finset.sum_empty, weightedSum_eq_zero_iff]
    intro key value hlookup
    exact absurd (h key (Finmap.mem_of_lookup_eq_some hlookup)) (Finset.notMem_empty key)
  | insert first rest hfirst ih =>
    have hkeys : ∀ key ∈ m.erase first, key ∈ rest := by
      intro key hkey
      rw [Finmap.mem_erase] at hkey
      exact Finset.mem_of_mem_insert_of_ne (h key hkey.2) hkey.1
    have hsame : ∑ key ∈ rest, ((m.erase first).lookup key).elim 0 (weight key) =
        ∑ key ∈ rest, (m.lookup key).elim 0 (weight key) := by
      refine Finset.sum_congr rfl fun key hkey ↦ ?_
      rw [lookup_erase_eq, if_neg]
      rintro rfl
      exact hfirst hkey
    rw [Finset.sum_insert hfirst, ← hsame, ← ih hkeys]
    cases hlookup : m.lookup first with
    | none => rw [erase_of_lookup_none hlookup, Option.elim_none, Nat.zero_add]
    | some value =>
      have herase := weightedSum_erase weight hlookup
      rw [Option.elim_some]
      omega

/-- Maps whose entries weigh the same at every key have the same sum. -/
theorem weightedSum_eq_of_lookup {weight : K → V → ℕ} {m m' : FiniteMap K V}
    (h : ∀ key, (m'.lookup key).elim 0 (weight key) = (m.lookup key).elim 0 (weight key)) :
    weightedSum weight m' = weightedSum weight m := by
  rw [weightedSum_eq_sum weight (m'.keys ∪ m.keys), weightedSum_eq_sum weight (m'.keys ∪ m.keys)]
  · exact Finset.sum_congr rfl fun key _ ↦ h key
  · exact fun key hkey ↦ Finset.mem_union_right _ (Finmap.mem_keys.mpr hkey)
  · exact fun key hkey ↦ Finset.mem_union_left _ (Finmap.mem_keys.mpr hkey)

/-- A positive sum comes from an entry of positive weight. -/
theorem exists_lookup_of_weightedSum_pos {weight : K → V → ℕ} {m : FiniteMap K V}
    (h : 0 < weightedSum weight m) :
    ∃ key value, m.lookup key = some value ∧ 0 < weight key value := by
  by_contra hnone
  push Not at hnone
  have hzero : weightedSum weight m = 0 := by
    rw [weightedSum_eq_zero_iff]
    intro key value hlookup
    exact Nat.le_zero.mp (hnone key value hlookup)
  omega

/-- An entry at a key has the weight of that key alone. -/
theorem weightedSum_single {m : FiniteMap K V} {key : K} {value : V} (h : m.lookup key = some value)
    (amount : ℕ) : weightedSum (fun other _ ↦ if key = other then amount else 0) m = amount := by
  have herase := weightedSum_erase (fun other _ ↦ if key = other then amount else 0) h
  have hrest : weightedSum (fun other _ ↦ if key = other then amount else 0) (m.erase key) = 0 := by
    rw [weightedSum_eq_zero_iff]
    intro other value' hother
    rw [lookup_erase_eq] at hother
    split_ifs at hother with heq
    exact if_neg (Ne.symm heq)
  rw [hrest, if_pos rfl, Nat.zero_add] at herase
  exact herase.symm

/-- Assumes: an owner for every entry of a map, among the entries of another. The sums over what each
owner owns add up to the sum over the whole map. -/
theorem weightedSum_owned {J U : Type} [DecidableEq J] (weight : K → V → ℕ) (owner : K → J)
    {m : FiniteMap K V} {owners : FiniteMap J U}
    (h : ∀ key value, m.lookup key = some value → (owners.lookup (owner key)).isSome) :
    weightedSum (fun j _ ↦ weightedSum (fun key value ↦ if owner key = j then weight key value
      else 0) m) owners = weightedSum weight m := by
  unfold weightedSum
  rw [Multiset.sum_map_sum_map]
  congr 1
  apply Multiset.map_congr rfl
  rintro ⟨key, value⟩ hmem
  obtain ⟨other, hother⟩ :=
    Option.isSome_iff_exists.mp (h key value (Finmap.mem_lookup_iff.mpr hmem))
  exact weightedSum_single hother (weight key value)

/-- An entry written at a fresh key counts when it passes the test. -/
theorem countEntries_insert_new (test : K → V → Bool) {m : FiniteMap K V} {key : K}
    (h : m.lookup key = none) (value : V) :
    countEntries test (m.insert key value) =
      countEntries test m + if test key value then 1 else 0 := by
  unfold countEntries
  rw [weightedSum_insert_new _ h, Nat.add_comm]

/-- A removed entry no longer counts. -/
theorem countEntries_erase (test : K → V → Bool) {m : FiniteMap K V} {key : K} {value : V}
    (h : m.lookup key = some value) :
    countEntries test (m.erase key) + (if test key value then 1 else 0) = countEntries test m :=
  weightedSum_erase _ h

/-- The entries that pass a test are no more than the keys they can have. -/
theorem countEntries_le_card {test : K → V → Bool} (keys : Finset K) {m : FiniteMap K V}
    (h : ∀ key value, m.lookup key = some value → test key value = true → key ∈ keys) :
    countEntries test m ≤ keys.card := by
  induction keys using Finset.induction_on generalizing m with
  | empty =>
    rw [Finset.card_empty, Nat.le_zero, countEntries, weightedSum_eq_zero_iff]
    intro key value hlookup
    exact if_neg fun htest ↦ Finset.notMem_empty key (h key value hlookup htest)
  | insert first rest hfirst ih =>
    rw [Finset.card_insert_of_notMem hfirst]
    have hrest : countEntries test (m.erase first) ≤ rest.card := by
      refine ih fun key value hlookup htest ↦ ?_
      rw [lookup_erase_eq] at hlookup
      split_ifs at hlookup with heq
      exact Finset.mem_of_mem_insert_of_ne (h key value hlookup htest) heq
    cases hlookup : m.lookup first with
    | none =>
      rw [erase_of_lookup_none hlookup] at hrest
      omega
    | some value =>
      have herase := countEntries_erase test hlookup
      split_ifs at herase <;> omega

/-- Without a counted entry no entry passes the test. -/
theorem test_eq_false_of_countEntries {test : K → V → Bool} {m : FiniteMap K V} {key : K} {value : V}
    (hcount : countEntries test m = 0) (h : m.lookup key = some value) :
    test key value = false := by
  have hweight := (weightedSum_eq_zero_iff _ m).mp hcount key value h
  by_contra htest
  rw [if_pos (by simpa using htest)] at hweight
  omega

/-- An entry passes the test of `anyEntry` exactly when some lookup does. -/
theorem anyEntry_iff (test : K → V → Bool) (m : FiniteMap K V) :
    anyEntry test m = true ↔ ∃ key value, m.lookup key = some value ∧ test key value = true := by
  simp only [anyEntry, decide_eq_true_eq]
  constructor
  · intro hpos
    obtain ⟨key, value, hlookup, hweight⟩ := exists_lookup_of_weightedSum_pos hpos
    by_cases htest : test key value = true
    · exact ⟨key, value, hlookup, htest⟩
    · rw [if_neg htest] at hweight
      omega
  · rintro ⟨key, value, hlookup, htest⟩
    have hle := weight_le_weightedSum (fun k v ↦ if test k v then 1 else 0) hlookup
    rw [if_pos htest] at hle
    exact hle

/-- A key that a test accepts with every value is not listed when no entry passes the test. -/
theorem lookup_eq_none_of_anyEntry {test : K → V → Bool} {m : FiniteMap K V} {key : K}
    (hany : anyEntry test m = false) (htest : ∀ value, test key value = true) :
    m.lookup key = none := by
  cases hlookup : m.lookup key with
  | none => rfl
  | some value =>
    have htrue := (anyEntry_iff test m).mpr ⟨key, value, hlookup, htest value⟩
    rw [hany] at htrue
    cases htrue

end FiniteMap

end Web3Storage.Foundations
