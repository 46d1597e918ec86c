import Mathlib

/-!
# Keys in lexicographic order

The keys that start with one prefix lie next to each other in a sorted list, and so do the values of
one key: `runs` keeps the first of each run. `findPattern` is the first place of a pattern in a key.
-/

set_option autoImplicit false
set_option relaxedAutoImplicit false

namespace Web3Storage.Foundations

/-- Bytes in their order as numbers. -/
instance byteLinearOrder : LinearOrder UInt8 where
  le_refl byte := UInt8.le_refl byte
  le_trans _ _ _ h h' := UInt8.le_trans h h'
  le_antisymm _ _ h h' := UInt8.le_antisymm h h'
  le_total first second := UInt8.le_total first second
  toDecidableLE := inferInstance
  toDecidableEq := inferInstance
  lt_iff_le_not_ge first second := by
    rw [UInt8.lt_iff_toNat_lt, UInt8.le_iff_toNat_le, UInt8.le_iff_toNat_le]
    omega

section Lexicographic

variable {α : Type} [LinearOrder α]

/-- A key between a prefix and a key with that prefix has the prefix too. -/
theorem isPrefix_of_between {start key last : List α} (hstart : start ≤ key) (hlast : key ≤ last)
    (hpre : start <+: last) : start <+: key := by
  induction start generalizing key last with
  | nil => exact List.nil_prefix
  | cons first start ih =>
    obtain ⟨rest, rfl⟩ := hpre
    cases key with
    | nil => exact absurd (List.nil_lt_cons first start) (not_lt.2 hstart)
    | cons head tail =>
      rw [List.cons_append] at hlast
      rw [← not_lt, List.cons_lt_cons_iff, not_or, not_and] at hstart hlast
      obtain ⟨hfirst, hstart⟩ := hstart
      obtain ⟨hhead, hlast⟩ := hlast
      obtain rfl : first = head := le_antisymm (not_lt.1 hfirst) (not_lt.1 hhead)
      refine List.cons_prefix_cons.2 ⟨rfl, ih ?_ ?_ (List.prefix_append start rest)⟩
      · exact not_lt.1 (hstart rfl)
      · exact not_lt.1 (hlast rfl)

/-- A prefix sorts no later than the key. -/
theorem le_of_isPrefix {start key : List α} (hpre : start <+: key) : start ≤ key :=
  not_lt.1 hpre.le

/-- Keys sort as their prefixes do, unless one of these is a prefix of the other. -/
theorem lt_of_isPrefix_of_lt {first second key key' : List α} (hlt : first < second)
    (hapart : ¬ first <+: second) (hkey : first <+: key) (hkey' : second <+: key') : key < key' := by
  by_contra hle
  rw [not_lt] at hle
  exact hapart (isPrefix_of_between hlt.le ((le_of_isPrefix hkey').trans hle) hkey)

end Lexicographic

/-- Values in the strict order of their keys are determined by which values there are. -/
theorem eq_of_keys_sorted {β γ : Type} (key : γ → β) (less : β → β → Prop) [Std.Asymm less]
    {values values' : List γ}
    (h : values.Pairwise fun first second ↦ less (key first) (key second))
    (h' : values'.Pairwise fun first second ↦ less (key first) (key second))
    (hsame : ∀ value, value ∈ values ↔ value ∈ values') : values = values' := by
  have hirrefl : Std.Irrefl fun first second : γ ↦ less (key first) (key second) :=
    ⟨fun value hless ↦ Std.Asymm.asymm _ _ hless hless⟩
  have hantisymm : Std.Antisymm fun first second : γ ↦ less (key first) (key second) :=
    ⟨fun first second hless hgreater ↦ absurd hgreater (Std.Asymm.asymm _ _ hless)⟩
  exact List.Subset.antisymm_of_pairwise h h' (fun value hvalue ↦ (hsame value).mp hvalue)
    fun value hvalue ↦ (hsame value).mpr hvalue

section Sorting

variable {β γ : Type} [LinearOrder β] {key : γ → β}

/-- Sorting by keys puts the keys in order. -/
theorem pairwise_mergeSort_key (values : List γ) :
    (values.mergeSort fun first second ↦ decide (key first ≤ key second)).Pairwise
      fun first second ↦ key first ≤ key second := by
  have hle : (values.mergeSort fun first second ↦ decide (key first ≤ key second)).Pairwise
      fun first second ↦ decide (key first ≤ key second) = true := by
    apply List.pairwise_mergeSort
    · intro first second third hfirst hsecond
      rw [decide_eq_true_iff] at hfirst hsecond ⊢
      exact hfirst.trans hsecond
    · intro first second
      rw [Bool.or_eq_true, decide_eq_true_iff, decide_eq_true_iff]
      exact le_total _ _
  exact hle.imp of_decide_eq_true

/-- Keys in order of which no two neighbours are the same are in strict order. -/
theorem pairwise_lt_of_neighbours {values : List γ}
    (hle : values.Pairwise fun first second ↦ key first ≤ key second)
    (hne : values.IsChain fun first second ↦ key first ≠ key second) :
    values.Pairwise fun first second ↦ key first < key second := by
  have htrans : IsTrans γ fun first second ↦ key first < key second :=
    ⟨fun first second third hlt hlt' ↦ hlt.trans hlt'⟩
  apply List.isChain_iff_pairwise.mp
  rw [List.isChain_iff_getElem] at hne ⊢
  intro i hi
  have hstep := List.pairwise_iff_getElem.mp hle i (i + 1) (by omega) hi (Nat.lt_succ_self i)
  exact lt_of_le_of_ne hstep (hne i hi)

end Sorting

section Find

variable {α : Type} [DecidableEq α]

/-- The first place of a pattern. -/
def findPattern (pattern : List α) : List α → Option ℕ
  | [] => if pattern = [] then some 0 else none
  | head :: tail =>
    if pattern.isPrefixOf (head :: tail) then some 0 else (findPattern pattern tail).map (· + 1)

/-- The place of a pattern depends on the text up to its end only. -/
theorem findPattern_of_isPrefix {pattern text text' : List α} {place : ℕ}
    (h : findPattern pattern text = some place)
    (hpre : text.take (place + pattern.length) <+: text') :
    findPattern pattern text' = some place ∧
      text'.take (place + pattern.length) = text.take (place + pattern.length) := by
  induction text generalizing text' place with
  | nil =>
    unfold findPattern at h
    split_ifs at h with hempty
    cases h
    subst hempty
    refine ⟨?_, by simp⟩
    cases text' with
    | nil => rfl
    | cons head tail => simp [findPattern]
  | cons head tail ih =>
    unfold findPattern at h
    split_ifs at h with hhere
    · cases h
      rw [List.isPrefixOf_iff_prefix] at hhere
      have htake : (head :: tail).take (0 + pattern.length) = pattern := by
        rw [Nat.zero_add]
        exact (List.prefix_iff_eq_take.1 hhere).symm
      rw [htake] at hpre ⊢
      refine ⟨?_, ?_⟩
      · cases text' with
        | nil =>
          rw [List.prefix_nil.1 hpre]
          rfl
        | cons head' tail' =>
          unfold findPattern
          rw [if_pos (List.isPrefixOf_iff_prefix.2 hpre)]
      · rw [Nat.zero_add]
        exact (List.prefix_iff_eq_take.1 hpre).symm
    · obtain ⟨before, hbefore, rfl⟩ := Option.map_eq_some_iff.1 h
      have hcount : before + 1 + pattern.length = before + pattern.length + 1 := by omega
      rw [hcount, List.take_succ_cons] at hpre ⊢
      cases text' with
      | nil => exact absurd (List.prefix_nil.1 hpre) (List.cons_ne_nil _ _)
      | cons head' tail' =>
        obtain ⟨rfl, htail⟩ := List.cons_prefix_cons.1 hpre
        obtain ⟨hfind, htake⟩ := ih hbefore htail
        refine ⟨?_, by rw [List.take_succ_cons, htake]⟩
        unfold findPattern
        -- The pattern is no prefix of the other text either: it ends within the shared part.
        have hnot : ¬ pattern.isPrefixOf (head :: tail') = true := by
          intro hother
          refine hhere (List.isPrefixOf_iff_prefix.2 ?_)
          have hshared : (head :: tail').take pattern.length = (head :: tail).take pattern.length := by
            have hcut := congrArg (List.take pattern.length) (congrArg (List.cons head) htake)
            rw [← List.take_succ_cons, ← List.take_succ_cons, List.take_take, List.take_take,
              Nat.min_eq_left (by omega)] at hcut
            exact hcut
          rw [List.prefix_iff_eq_take, ← hshared]
          exact List.prefix_iff_eq_take.1 (List.isPrefixOf_iff_prefix.1 hother)
        rw [if_neg hnot, hfind]
        rfl

end Find

section Runs

variable {β γ : Type} [LinearOrder γ] (key : β → γ)

/-- The first value of each run of one key, where a run under `last` has begun before. -/
def runs (last : Option γ) : List β → List β
  | [] => []
  | value :: rest =>
    if last = some (key value) then runs last rest else value :: runs (some (key value)) rest

variable {key}

/-- In a sorted list whose values are determined by their keys, the runs are its values past the last
key, in strict order. -/
theorem runs_spec {last : Option γ} {values : List β}
    (hsorted : values.Pairwise fun first second ↦ key first ≤ key second)
    (hkey : ∀ first ∈ values, ∀ second ∈ values, key first = key second → first = second)
    (hlast : ∀ bound, last = some bound → ∀ value ∈ values, bound ≤ key value) :
    ((runs key last values).Pairwise fun first second ↦ key first < key second) ∧
      ∀ value, value ∈ runs key last values ↔ value ∈ values ∧ last ≠ some (key value) := by
  induction values generalizing last with
  | nil => simp [runs]
  | cons head tail ih =>
    rw [List.pairwise_cons] at hsorted
    have hkeyTail : ∀ first ∈ tail, ∀ second ∈ tail, key first = key second → first = second :=
      fun first hfirst second hsecond ↦
        hkey first (List.mem_cons_of_mem _ hfirst) second (List.mem_cons_of_mem _ hsecond)
    unfold runs
    split_ifs with hsame
    · obtain ⟨hpairwise, hmem⟩ := ih hsorted.2 hkeyTail fun bound hbound value hvalue ↦
        hlast bound hbound value (List.mem_cons_of_mem _ hvalue)
      refine ⟨hpairwise, fun value ↦ ?_⟩
      rw [hmem, List.mem_cons]
      constructor
      · rintro ⟨hvalue, hne⟩
        exact ⟨.inr hvalue, hne⟩
      · rintro ⟨rfl | hvalue, hne⟩
        · exact absurd hsame hne
        · exact ⟨hvalue, hne⟩
    · have hlastHead : ∀ bound, some (key head) = some bound → ∀ value ∈ tail, bound ≤ key value := by
        intro bound hbound value hvalue
        cases hbound
        exact hsorted.1 value hvalue
      obtain ⟨hpairwise, hmem⟩ := ih hsorted.2 hkeyTail hlastHead
      refine ⟨?_, fun value ↦ ?_⟩
      · rw [List.pairwise_cons]
        refine ⟨fun value hvalue ↦ ?_, hpairwise⟩
        obtain ⟨hvalue, hne⟩ := (hmem value).1 hvalue
        refine lt_of_le_of_ne (hsorted.1 value hvalue) fun h ↦ ?_
        exact hne (congrArg some h)
      · rw [List.mem_cons, hmem, List.mem_cons]
        constructor
        · rintro (rfl | ⟨hvalue, -⟩)
          · exact ⟨.inl rfl, hsame⟩
          · refine ⟨.inr hvalue, fun hbegun ↦ ?_⟩
            -- A value under the last key sorts no later than the head, which is past it.
            have hle := hlast _ hbegun head List.mem_cons_self
            exact hsame (hbegun.trans (congrArg some (le_antisymm hle (hsorted.1 value hvalue))))
        · rintro ⟨rfl | hvalue, hne⟩
          · exact .inl rfl
          · by_cases hhead : some (key head) = some (key value)
            · refine .inl (hkey value (List.mem_cons_of_mem _ hvalue) head List.mem_cons_self ?_)
              exact (Option.some.inj hhead).symm
            · exact .inr ⟨hvalue, hhead⟩

/-- The runs of a part of a sorted list are that part of the runs. -/
theorem runs_filter {values : List β} (keep : β → Bool)
    (hsorted : values.Pairwise fun first second ↦ key first ≤ key second)
    (hkey : ∀ first ∈ values, ∀ second ∈ values, key first = key second → first = second) :
    runs key none (values.filter keep) = (runs key none values).filter keep := by
  have hnone (values : List β) :
      ∀ bound, (none : Option γ) = some bound → ∀ value ∈ values, bound ≤ key value :=
    fun _ h ↦ by cases h
  obtain ⟨hpairwise, hmem⟩ := runs_spec hsorted hkey (hnone values)
  obtain ⟨hpairwise', hmem'⟩ := runs_spec (hsorted.filter keep)
    (fun first hfirst second hsecond ↦
      hkey first (List.mem_of_mem_filter hfirst) second (List.mem_of_mem_filter hsecond))
    (hnone (values.filter keep))
  have hantisymm : Std.Antisymm fun first second : β ↦ key first < key second :=
    ⟨fun _ _ h h' ↦ absurd h (lt_asymm h')⟩
  have hirrefl : Std.Irrefl fun first second : β ↦ key first < key second :=
    ⟨fun _ ↦ lt_irrefl _⟩
  refine hpairwise'.eq_of_mem_iff (hpairwise.filter keep) fun value ↦ ?_
  rw [hmem', List.mem_filter, List.mem_filter, hmem]
  simp

end Runs

end Web3Storage.Foundations
