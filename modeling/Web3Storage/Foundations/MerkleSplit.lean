import Web3Storage.Foundations.MerkleTree

/-!
# Merkle trees by their split

A tree that is built level by level, with an odd last node moved up, also splits from the top: over
more than one leaf the left subtree has the largest power of two below their number, the right one
the rest. `getLast_levels_split` says so of the root and `siblings_take`, `siblings_drop` of the
siblings of a leaf.
-/

set_option autoImplicit false
set_option relaxedAutoImplicit false

namespace Web3Storage.Foundations.MerkleTree

/-! ### The split point -/

/-- The largest power of two below a number above one. -/
def splitPoint (count : ℕ) : ℕ := 2 ^ Nat.log2 (count - 1)

theorem splitPoint_pos (count : ℕ) : 0 < splitPoint count := Nat.two_pow_pos _

theorem splitPoint_lt {count : ℕ} (h : 1 < count) : splitPoint count < count := by
  have hle : splitPoint count ≤ count - 1 := Nat.log2_self_le (by omega)
  omega

theorem le_two_mul_splitPoint (count : ℕ) : count ≤ 2 * splitPoint count := by
  have hlt : count - 1 < 2 ^ (Nat.log2 (count - 1) + 1) := Nat.lt_log2_self
  rw [pow_succ] at hlt
  unfold splitPoint
  omega

/-- The split point is the largest power of two below the number. -/
theorem splitPoint_isGreatest {count : ℕ} (h : 1 < count) :
    IsGreatest {power | (∃ height, power = 2 ^ height) ∧ power < count} (splitPoint count) := by
  constructor
  · exact ⟨⟨_, rfl⟩, splitPoint_lt h⟩
  · rintro power ⟨⟨height, rfl⟩, hlt⟩
    by_contra hlarger
    push Not at hlarger
    unfold splitPoint at hlarger
    have hexponent := (Nat.pow_lt_pow_iff_right Nat.one_lt_two).mp hlarger
    have hdouble : 2 * splitPoint count ≤ 2 ^ height := by
      rw [splitPoint, ← pow_succ']
      exact Nat.pow_le_pow_right Nat.two_pos hexponent
    exact absurd (hlt.trans_le (le_two_mul_splitPoint count)) (Nat.not_lt.mpr hdouble)

/-- What is right of the split has one binary digit less. -/
theorem sub_splitPoint_lt {count digits : ℕ} (h : count < 2 ^ (digits + 1)) :
    count - splitPoint count < 2 ^ digits := by
  have hhalf := le_two_mul_splitPoint count
  have hdouble : 2 ^ (digits + 1) = 2 * 2 ^ digits := pow_succ' 2 digits
  by_cases hlow : splitPoint count < 2 ^ digits
  · omega
  · have hpos := Nat.two_pow_pos digits
    omega

/-- The split of a level is twice that of the next. -/
theorem splitPoint_next {count : ℕ} (h : 2 < count) :
    splitPoint count = 2 * splitPoint ((count + 1) / 2) := by
  have hhalf : (count + 1) / 2 - 1 = (count - 1) / 2 := by omega
  have hlog : Nat.log2 (count - 1) = Nat.log2 ((count - 1) / 2) + 1 := by
    conv_lhs => rw [Nat.log2_def]
    rw [if_pos (by omega)]
  rw [splitPoint, splitPoint, hhalf, hlog, pow_succ, Nat.mul_comm]

/-- A power of two splits in half. -/
theorem splitPoint_two_pow (height : ℕ) : splitPoint (2 ^ (height + 1)) = 2 ^ height := by
  have hlog : Nat.log2 (2 ^ (height + 1) - 1) = height := by
    rw [Nat.log2_eq_iff (by have := Nat.two_pow_pos height; omega)]
    have hpos := Nat.two_pow_pos height
    omega
  rw [splitPoint, hlog]

/-! ### The halves of a tree -/

section Halves

variable {H : Type} {combine : H → H → H} {level : List H} {left right : H} {index : ℕ}

theorem nextLevel_take (count : ℕ) :
    nextLevel combine (level.take (2 * count)) = (nextLevel combine level).take count := by
  induction level using nextLevel.induct generalizing count with
  | case1 => simp [nextLevel]
  | case2 last =>
    cases count with
    | zero => rfl
    | succ count => simp [nextLevel, Nat.mul_succ]
  | case3 first second rest ih =>
    cases count with
    | zero => rfl
    | succ count =>
      rw [Nat.mul_succ, List.take_succ_cons, List.take_succ_cons, nextLevel, nextLevel,
        List.take_succ_cons, ih]

theorem nextLevel_drop (count : ℕ) :
    nextLevel combine (level.drop (2 * count)) = (nextLevel combine level).drop count := by
  induction level using nextLevel.induct generalizing count with
  | case1 => simp [nextLevel]
  | case2 last =>
    cases count with
    | zero => rfl
    | succ count => simp [nextLevel, Nat.mul_succ]
  | case3 first second rest ih =>
    cases count with
    | zero => rfl
    | succ count =>
      rw [Nat.mul_succ, List.drop_succ_cons, List.drop_succ_cons, nextLevel, List.drop_succ_cons, ih]

private theorem eq_nil_or_singleton (h : ¬ 1 < level.length) : level = [] ∨ ∃ last, level = [last] := by
  cases level with
  | nil => exact .inl rfl
  | cons last rest =>
    right
    have hrest : rest = [] := by
      rw [List.length_cons] at h
      exact List.length_eq_zero_iff.mp (by omega)
    exact ⟨last, by rw [hrest]⟩

/-- A tree has the root of its next level, also over one leaf. -/
theorem getLast_levels_nextLevel {root : H} :
    (levels combine level).getLast? = some [root] ↔
      (levels combine (nextLevel combine level)).getLast? = some [root] := by
  by_cases hlong : 1 < level.length
  · exact getLast_levels_of_lt hlong
  · rcases eq_nil_or_singleton hlong with rfl | ⟨last, rfl⟩
    · rfl
    · rfl

variable (combine) in
/-- To prove something of every level with more than one node, prove it of two nodes, and of a longer
level from the next, which splits at half the split of the level. -/
theorem level_induction (property : List H → Prop) (pair : ∀ first second, property [first, second])
    (longer : ∀ level : List H, 2 < level.length → 1 < (nextLevel combine level).length →
      splitPoint level.length = 2 * splitPoint (nextLevel combine level).length →
        property (nextLevel combine level) → property level)
    (h : 1 < level.length) : property level := by
  induction level using levels.induct combine with
  | case1 level hlong ih =>
    by_cases htwo : level.length = 2
    · obtain ⟨first, second, rfl⟩ := List.length_eq_two.mp htwo
      exact pair first second
    · have hlength := length_nextLevel combine level
      have hnext : 1 < (nextLevel combine level).length := by omega
      refine longer level (by omega) hnext ?_ (ih hnext)
      rw [hlength]
      exact splitPoint_next (by omega)
  | case2 hshort => cases h
  | case3 level hshort _ => exact absurd h hshort

/-- The root combines the roots of the two halves. -/
theorem getLast_levels_split (h : 1 < level.length)
    (hleft : (levels combine (level.take (splitPoint level.length))).getLast? = some [left])
    (hright : (levels combine (level.drop (splitPoint level.length))).getLast? = some [right]) :
    (levels combine level).getLast? = some [combine left right] := by
  revert hleft hright
  refine level_induction combine (fun level ↦
    (levels combine (level.take (splitPoint level.length))).getLast? = some [left] →
      (levels combine (level.drop (splitPoint level.length))).getLast? = some [right] →
        (levels combine level).getLast? = some [combine left right]) ?_ ?_ h
  · intro first second hleft hright
    have hfirst : (levels combine [first]).getLast? = some [left] := hleft
    have hsecond : (levels combine [second]).getLast? = some [right] := hright
    rw [levels_singleton] at hfirst hsecond
    cases hfirst
    cases hsecond
    rw [getLast_levels_nextLevel, nextLevel, nextLevel, levels_singleton]
    rfl
  · intro level _ _ hsplit ih hleft hright
    rw [getLast_levels_nextLevel, hsplit, nextLevel_take] at hleft
    rw [getLast_levels_nextLevel, hsplit, nextLevel_drop] at hright
    rw [getLast_levels_nextLevel]
    exact ih hleft hright

theorem pairs_take_subset (count : ℕ) : pairs (level.take count) ⊆ pairs level := by
  induction level using nextLevel.induct generalizing count with
  | case1 => simp
  | case2 last =>
    cases count with
    | zero => exact List.nil_subset _
    | succ count => simp
  | case3 first second rest ih =>
    rcases count with _ | _ | count
    · exact List.nil_subset _
    · exact List.nil_subset _
    · simp only [List.take_succ_cons, pairs]
      exact List.cons_subset_cons _ (ih count)

theorem pairs_drop_subset (count : ℕ) : pairs (level.drop (2 * count)) ⊆ pairs level := by
  induction level using nextLevel.induct generalizing count with
  | case1 => simp
  | case2 last =>
    cases count with
    | zero => exact fun _ ↦ id
    | succ count => simp [Nat.mul_succ, pairs]
  | case3 first second rest ih =>
    cases count with
    | zero => exact fun _ ↦ id
    | succ count =>
      rw [Nat.mul_succ, List.drop_succ_cons, List.drop_succ_cons, pairs]
      intro pair hpair
      exact List.mem_cons_of_mem _ (ih count hpair)

/-- What is combined for a level comes from its pairs or from the next level. -/
theorem treePairs_subset_of_lt {whole : List H} (hlong : 1 < whole.length)
    (hpairs : pairs level ⊆ pairs whole)
    (hnext : treePairs combine (nextLevel combine level) ⊆
      treePairs combine (nextLevel combine whole)) :
    treePairs combine level ⊆ treePairs combine whole := by
  rw [treePairs_of_lt hlong]
  intro pair hpair
  by_cases hshort : 1 < level.length
  · rw [treePairs_of_lt hshort] at hpair
    rcases List.mem_append.mp hpair with hhere | habove
    · exact List.mem_append_left _ (hpairs hhere)
    · exact List.mem_append_right _ (hnext habove)
  · rcases eq_nil_or_singleton hshort with rfl | ⟨last, rfl⟩
    · rw [treePairs, levels_nil] at hpair
      cases hpair
    · rw [treePairs, levels_singleton] at hpair
      cases hpair

/-- The halves combine what the tree combines. -/
theorem treePairs_halves_subset (h : 1 < level.length) :
    treePairs combine (level.take (splitPoint level.length)) ⊆ treePairs combine level ∧
      treePairs combine (level.drop (splitPoint level.length)) ⊆ treePairs combine level := by
  refine level_induction combine (fun level ↦
    treePairs combine (level.take (splitPoint level.length)) ⊆ treePairs combine level ∧
      treePairs combine (level.drop (splitPoint level.length)) ⊆ treePairs combine level) ?_ ?_ h
  · intro first second
    have hempty : ∀ last : H, treePairs combine [last] = [] := by
      intro last
      rw [treePairs, levels_singleton]
      rfl
    constructor
    · change treePairs combine [first] ⊆ _
      rw [hempty]
      exact List.nil_subset _
    · change treePairs combine [second] ⊆ _
      rw [hempty]
      exact List.nil_subset _
  · intro level hlong _ hsplit ih
    rw [hsplit]
    constructor
    · refine treePairs_subset_of_lt (by omega) (pairs_take_subset _) ?_
      rw [nextLevel_take]
      exact ih.1
    · refine treePairs_subset_of_lt (by omega) (pairs_drop_subset _) ?_
      rw [nextLevel_drop]
      exact ih.2

/-- The roots of the halves are combined. -/
theorem mem_treePairs_split (h : 1 < level.length)
    (hleft : (levels combine (level.take (splitPoint level.length))).getLast? = some [left])
    (hright : (levels combine (level.drop (splitPoint level.length))).getLast? = some [right]) :
    (left, right) ∈ treePairs combine level := by
  revert hleft hright
  refine level_induction combine (fun level ↦
    (levels combine (level.take (splitPoint level.length))).getLast? = some [left] →
      (levels combine (level.drop (splitPoint level.length))).getLast? = some [right] →
        (left, right) ∈ treePairs combine level) ?_ ?_ h
  · intro first second hleft hright
    have hfirst : (levels combine [first]).getLast? = some [left] := hleft
    have hsecond : (levels combine [second]).getLast? = some [right] := hright
    rw [levels_singleton] at hfirst hsecond
    cases hfirst
    cases hsecond
    rw [treePairs_of_lt (by simp)]
    exact List.mem_append_left _ List.mem_cons_self
  · intro level hlong _ hsplit ih hleft hright
    rw [getLast_levels_nextLevel, hsplit, nextLevel_take] at hleft
    rw [getLast_levels_nextLevel, hsplit, nextLevel_drop] at hright
    rw [treePairs_of_lt (by omega)]
    exact List.mem_append_right _ (ih hleft hright)

/-! ### Siblings -/

/-- The siblings of a node: the one of its own level, if there is one, and those above. -/
theorem siblings_nextLevel (hindex : index < level.length) :
    siblings (levels combine level) index =
      (if index ≠ level.length - 1 ∨ level.length % 2 = 0 then level[index ^^^ 1]?.toList else []) ++
        siblings (levels combine (nextLevel combine level)) (index / 2) := by
  by_cases hlong : 1 < level.length
  · rw [siblings_of_lt hlong]
    by_cases hsibling : index ≠ level.length - 1 ∨ level.length % 2 = 0
    · rw [if_pos hsibling, if_pos hsibling]
    · rw [if_neg hsibling, if_neg hsibling, List.nil_append]
  · rcases eq_nil_or_singleton hlong with rfl | ⟨last, rfl⟩
    · cases hindex
    · rw [List.length_singleton] at hindex
      obtain rfl : index = 0 := by omega
      rw [nextLevel, levels_singleton]
      rfl

/-- Neighbours have the same place after an even number of nodes. -/
private theorem xor_one_add {count : ℕ} (heven : count % 2 = 0) (index : ℕ) :
    (index ^^^ 1) + count = (index + count) ^^^ 1 := by
  by_cases hodd : Odd index
  · have hsum : Odd (index + count) := by
      rw [Nat.odd_iff] at hodd ⊢
      omega
    rw [Nat.xor_one_of_odd hodd, Nat.xor_one_of_odd hsum]
    rw [Nat.odd_iff] at hodd
    omega
  · rw [Nat.not_odd_iff_even] at hodd
    have hsum : Even (index + count) := by
      rw [Nat.even_iff] at hodd ⊢
      omega
    rw [Nat.xor_one_of_even hodd, Nat.xor_one_of_even hsum]
    omega

private theorem xor_one_lt {count : ℕ} (heven : count % 2 = 0) (hindex : index < count) :
    index ^^^ 1 < count := by
  by_cases hodd : Odd index
  · rw [Nat.xor_one_of_odd hodd]
    omega
  · rw [Nat.not_odd_iff_even] at hodd
    rw [Nat.xor_one_of_even hodd]
    rw [Nat.even_iff] at hodd
    omega

/-- The siblings of a leaf of the left half, and then the root of the right half. -/
theorem siblings_take (h : 1 < level.length) (hindex : index < splitPoint level.length)
    (hright : (levels combine (level.drop (splitPoint level.length))).getLast? = some [right]) :
    siblings (levels combine level) index =
      siblings (levels combine (level.take (splitPoint level.length))) index ++ [right] := by
  revert index hright
  refine level_induction combine (fun level ↦ ∀ {index : ℕ},
    index < splitPoint level.length →
      (levels combine (level.drop (splitPoint level.length))).getLast? = some [right] →
        siblings (levels combine level) index =
          siblings (levels combine (level.take (splitPoint level.length))) index ++ [right]) ?_ ?_ h
  · intro first second index hindex hright
    obtain rfl : index = 0 := Nat.lt_one_iff.mp hindex
    have hsecond : (levels combine [second]).getLast? = some [right] := hright
    rw [levels_singleton] at hsecond
    cases hsecond
    change _ = siblings (levels combine [first]) 0 ++ [right]
    rw [siblings_nextLevel (Nat.zero_lt_succ _), levels_singleton, nextLevel, nextLevel,
      levels_singleton]
    rfl
  · intro level hlong _ hsplit ih index hindex hright
    have hlt := splitPoint_lt (Nat.lt_of_succ_lt hlong)
    have heven : splitPoint level.length % 2 = 0 := by omega
    have htake : (level.take (splitPoint level.length)).length = splitPoint level.length := by
      rw [List.length_take]
      omega
    have hhere : (level.take (splitPoint level.length))[index ^^^ 1]? = level[index ^^^ 1]? :=
      List.getElem?_take_of_lt (xor_one_lt heven hindex)
    have hindex' : index < (level.take (splitPoint level.length)).length := by rwa [htake]
    rw [siblings_nextLevel (hindex.trans hlt), siblings_nextLevel hindex', htake, hhere,
      if_pos (.inl (by omega)), if_pos (.inr heven)]
    rw [getLast_levels_nextLevel, hsplit, nextLevel_drop] at hright
    rw [ih (by omega) hright, hsplit, nextLevel_take, List.append_assoc]

/-- The siblings of a leaf of the right half, and then the root of the left half. -/
theorem siblings_drop (h : 1 < level.length) (hindex : splitPoint level.length ≤ index)
    (hlength : index < level.length)
    (hleft : (levels combine (level.take (splitPoint level.length))).getLast? = some [left]) :
    siblings (levels combine level) index =
      siblings (levels combine (level.drop (splitPoint level.length)))
        (index - splitPoint level.length) ++ [left] := by
  revert index hleft
  refine level_induction combine (fun level ↦ ∀ {index : ℕ},
    splitPoint level.length ≤ index → index < level.length →
      (levels combine (level.take (splitPoint level.length))).getLast? = some [left] →
        siblings (levels combine level) index =
          siblings (levels combine (level.drop (splitPoint level.length)))
            (index - splitPoint level.length) ++ [left]) ?_ ?_ h
  · intro first second index hindex hlength hleft
    have hone : index = 1 := by
      have hsplit : splitPoint [first, second].length = 1 := rfl
      rw [hsplit] at hindex
      simp only [List.length_cons, List.length_nil] at hlength
      omega
    subst hone
    have hfirst : (levels combine [first]).getLast? = some [left] := hleft
    rw [levels_singleton] at hfirst
    cases hfirst
    change _ = siblings (levels combine [second]) 0 ++ [left]
    have heven : [left, second].length % 2 = 0 := Nat.mod_self 2
    rw [siblings_nextLevel hlength, levels_singleton, nextLevel, nextLevel, levels_singleton,
      if_pos (.inr heven)]
    rfl
  · intro level hlong _ hsplit ih index hindex hlength hleft
    have heven : splitPoint level.length % 2 = 0 := by omega
    have hlt := splitPoint_lt (Nat.lt_of_succ_lt hlong)
    have hdrop : (level.drop (splitPoint level.length)).length =
        level.length - splitPoint level.length := List.length_drop
    have hhere : (level.drop (splitPoint level.length))[(index - splitPoint level.length) ^^^ 1]? =
        level[index ^^^ 1]? := by
      rw [List.getElem?_drop, Nat.add_comm, xor_one_add heven, Nat.sub_add_cancel hindex]
    have hsibling : (index - splitPoint level.length ≠
        level.length - splitPoint level.length - 1 ∨
          (level.length - splitPoint level.length) % 2 = 0) =
        (index ≠ level.length - 1 ∨ level.length % 2 = 0) := by
      apply propext
      omega
    have hhalf : (index - splitPoint level.length) / 2 =
        index / 2 - splitPoint (nextLevel combine level).length := by omega
    have hnext := length_nextLevel combine level
    have hindex' : index - splitPoint level.length <
        (level.drop (splitPoint level.length)).length := by omega
    rw [siblings_nextLevel hlength, siblings_nextLevel hindex', hdrop, hhere]
    simp only [hsibling]
    rw [getLast_levels_nextLevel, hsplit, nextLevel_take] at hleft
    rw [ih (by omega) (by omega) hleft, hhalf, hsplit, nextLevel_drop, List.append_assoc]

end Halves

end Web3Storage.Foundations.MerkleTree
