import Mathlib

/-!
# Binary Merkle trees with promoted odd nodes

A level of the tree is a list of hashes. The next level combines neighbours pairwise and moves an
odd last node up unchanged; the root is what remains. `climb` is the walk of a verifier from one
node to the root, which takes the side of each sibling from the index of the node and the width of
its level.
-/

set_option autoImplicit false
set_option relaxedAutoImplicit false

namespace Web3Storage.Foundations.MerkleTree

variable {H : Type}

/-- Combine neighbours pairwise; an odd last node moves up unchanged. -/
def nextLevel (combine : H → H → H) : List H → List H
  | [] => []
  | [last] => [last]
  | left :: right :: rest => combine left right :: nextLevel combine rest

theorem length_nextLevel (combine : H → H → H) (level : List H) :
    (nextLevel combine level).length = (level.length + 1) / 2 := by
  induction level using nextLevel.induct with
  | case1 => simp [nextLevel]
  | case2 last => simp [nextLevel]
  | case3 left right rest ih =>
    simp only [nextLevel, List.length_cons, ih]
    omega

/-- Every level of the tree, from the leaves to the root. No leaves give no levels. -/
def levels (combine : H → H → H) (level : List H) : List (List H) :=
  if level.length > 1 then level :: levels combine (nextLevel combine level)
  else if level = [] then [] else [level]
termination_by level.length
decreasing_by
  rw [length_nextLevel]
  omega

/-- Walk from a node to the root of the tree. `index` is the place of the node in its level and
`width` the size of that level; an odd last node moves up without a sibling. Returns the hash at the
top and the siblings that are left over. -/
def climb (combine : H → H → H) (current : H) (index width : ℕ) (siblings : List H) :
    Option (H × List H) :=
  if width > 1 then
    if index ≠ width - 1 ∨ width % 2 = 0 then
      match siblings with
      | [] => none
      | sibling :: rest =>
        climb combine (if index % 2 = 1 then combine sibling current else combine current sibling)
          (index / 2) ((width + 1) / 2) rest
    else climb combine current (index / 2) ((width + 1) / 2) siblings
  else some (current, siblings)
termination_by width

/-! ### Levels -/

section Levels

variable {combine : H → H → H} {level : List H}

theorem levels_of_lt (h : 1 < level.length) :
    levels combine level = level :: levels combine (nextLevel combine level) := by
  rw [levels, if_pos h]

theorem levels_nil : levels combine ([] : List H) = [] := by
  rw [levels]
  rfl

theorem levels_singleton (last : H) : levels combine [last] = [[last]] := by
  rw [levels]
  rfl

/-- The levels start with the leaves. -/
theorem exists_levels (hne : level ≠ []) : ∃ rest, levels combine level = level :: rest := by
  by_cases hlong : 1 < level.length
  · exact ⟨_, levels_of_lt hlong⟩
  · rw [levels, if_neg hlong, if_neg hne]
    exact ⟨[], rfl⟩

theorem nextLevel_ne_nil (hne : level ≠ []) : nextLevel combine level ≠ [] := by
  rw [← List.length_pos_iff] at hne ⊢
  rw [length_nextLevel]
  omega

variable (combine) in
/-- A tree with leaves has a root. -/
theorem exists_root (hne : level ≠ []) : ∃ root, (levels combine level).getLast? = some [root] := by
  induction level using levels.induct combine with
  | case1 level hlong ih =>
    obtain ⟨root, hlast⟩ := ih (nextLevel_ne_nil hne)
    refine ⟨root, ?_⟩
    rw [levels_of_lt hlong, List.getLast?_cons, hlast]
    rfl
  | case2 hshort => exact absurd rfl hne
  | case3 level hshort _ =>
    obtain ⟨last, rfl⟩ : ∃ last, level = [last] := by
      rw [← List.length_eq_one_iff]
      have hpos := List.length_pos_iff.mpr hne
      omega
    exact ⟨last, by rw [levels_singleton]; rfl⟩

/-- The root is that of the next level. -/
theorem getLast_levels_of_lt (h : 1 < level.length) {root : H} :
    (levels combine level).getLast? = some [root] ↔
      (levels combine (nextLevel combine level)).getLast? = some [root] := by
  rw [levels_of_lt h, List.getLast?_cons]
  have hnext : nextLevel combine level ≠ [] := by
    intro hnil
    have hlength := length_nextLevel combine level
    rw [hnil, List.length_nil] at hlength
    omega
  obtain ⟨top, htop⟩ := exists_root combine hnext
  rw [htop]
  rfl

/-- Two neighbours are combined at half their index. -/
theorem nextLevel_pair {j : ℕ} {left right : H} (hleft : level[2 * j]? = some left)
    (hright : level[2 * j + 1]? = some right) :
    (nextLevel combine level)[j]? = some (combine left right) := by
  induction level using nextLevel.induct generalizing j with
  | case1 => cases hleft
  | case2 last =>
    rw [List.getElem?_cons_succ] at hright
    cases hright
  | case3 first second rest ih =>
    rw [nextLevel]
    cases j with
    | zero =>
      cases hleft
      cases hright
      rfl
    | succ j =>
      rw [List.getElem?_cons_succ]
      exact ih hleft hright

/-- An odd last node moves up. -/
theorem nextLevel_last {j : ℕ} (h : level.length = 2 * j + 1) :
    (nextLevel combine level)[j]? = level[2 * j]? := by
  induction level using nextLevel.induct generalizing j with
  | case1 => cases h
  | case2 last =>
    rw [List.length_singleton] at h
    obtain rfl : j = 0 := by omega
    rfl
  | case3 first second rest ih =>
    rw [List.length_cons, List.length_cons] at h
    obtain ⟨k, rfl⟩ : ∃ k, j = k + 1 := ⟨j - 1, by omega⟩
    rw [nextLevel, List.getElem?_cons_succ]
    exact ih (by omega)

end Levels

/-! ### Proofs -/

/-- The siblings on the way from a node to the root, by the levels of the tree. The last level is the
root, which has none. -/
def siblings : List (List H) → ℕ → List H
  | level :: next :: rest, index =>
    if index ≠ level.length - 1 ∨ level.length % 2 = 0 then
      level[index ^^^ 1]?.toList ++ siblings (next :: rest) (index / 2)
    else siblings (next :: rest) (index / 2)
  | _, _ => []

/-- The neighbours that a level combines. -/
def pairs : List H → List (H × H)
  | left :: right :: rest => (left, right) :: pairs rest
  | _ => []

/-- What is combined to build the tree. -/
def treePairs (combine : H → H → H) (level : List H) : List (H × H) :=
  (levels combine level).flatMap pairs

/-- What a verifier combines on its walk. -/
def climbPairs (combine : H → H → H) (current : H) (index width : ℕ) (proof : List H) :
    List (H × H) :=
  if width > 1 then
    if index ≠ width - 1 ∨ width % 2 = 0 then
      match proof with
      | [] => []
      | sibling :: rest =>
        let pair := if index % 2 = 1 then (sibling, current) else (current, sibling)
        pair :: climbPairs combine (combine pair.1 pair.2) (index / 2) ((width + 1) / 2) rest
    else climbPairs combine current (index / 2) ((width + 1) / 2) proof
  else []
termination_by width

section Proofs

variable {combine : H → H → H} {level : List H} {index j : ℕ}

theorem mem_pairs {left right : H} (hleft : level[2 * j]? = some left)
    (hright : level[2 * j + 1]? = some right) : (left, right) ∈ pairs level := by
  induction level using nextLevel.induct generalizing j with
  | case1 => cases hleft
  | case2 last =>
    rw [List.getElem?_cons_succ] at hright
    cases hright
  | case3 first second rest ih =>
    rw [pairs]
    cases j with
    | zero =>
      cases hleft
      cases hright
      exact List.mem_cons_self
    | succ j => exact List.mem_cons_of_mem _ (ih hleft hright)

theorem treePairs_of_lt (h : 1 < level.length) :
    treePairs combine level = pairs level ++ treePairs combine (nextLevel combine level) := by
  rw [treePairs, levels_of_lt h, List.flatMap_cons]
  rfl

theorem siblings_of_lt (h : 1 < level.length) (index : ℕ) :
    siblings (levels combine level) index =
      if index ≠ level.length - 1 ∨ level.length % 2 = 0 then
        level[index ^^^ 1]?.toList ++ siblings (levels combine (nextLevel combine level)) (index / 2)
      else siblings (levels combine (nextLevel combine level)) (index / 2) := by
  rw [levels_of_lt h]
  cases hlevels : levels combine (nextLevel combine level) with
  | nil =>
    have hnext : nextLevel combine level ≠ [] := by
      intro hnil
      have hlength := length_nextLevel combine level
      rw [hnil, List.length_nil] at hlength
      omega
    obtain ⟨root, hlast⟩ := exists_root combine hnext
    rw [hlevels] at hlast
    cases hlast
  | cons next rest => rfl

/-- A node and its sibling in the order of their level. -/
def ordered (index : ℕ) (node sibling : H) : H × H :=
  if index % 2 = 1 then (sibling, node) else (node, sibling)

variable (combine) in
/-- A node with a sibling: the two are combined at half the index. -/
theorem exists_sibling (hindex : index < level.length)
    (h : index ≠ level.length - 1 ∨ level.length % 2 = 0) :
    ∃ node sibling, level[index]? = some node ∧ level[index ^^^ 1]? = some sibling ∧
      ordered index node sibling ∈ pairs level ∧ (nextLevel combine level)[index / 2]? =
        some (combine (ordered index node sibling).1 (ordered index node sibling).2) := by
  obtain ⟨j, rfl | rfl⟩ : ∃ j, index = 2 * j ∨ index = 2 * j + 1 := ⟨index / 2, by omega⟩
  · have hright : 2 * j + 1 < level.length := by omega
    have heven : ¬ 2 * j % 2 = 1 := by omega
    have hhalf : 2 * j / 2 = j := by omega
    have hnode := List.getElem?_eq_getElem hindex
    have hsibling := List.getElem?_eq_getElem hright
    refine ⟨level[2 * j], level[2 * j + 1], hnode, ?_, ?_, ?_⟩
    · rw [Nat.xor_one_of_even (even_two_mul j), hsibling]
    · rw [ordered, if_neg heven]
      exact mem_pairs hnode hsibling
    · rw [ordered, if_neg heven, hhalf]
      exact nextLevel_pair hnode hsibling
  · have hleft : 2 * j < level.length := by omega
    have hodd : (2 * j + 1) % 2 = 1 := by omega
    have hhalf : (2 * j + 1) / 2 = j := by omega
    have hnode := List.getElem?_eq_getElem hindex
    have hsibling := List.getElem?_eq_getElem hleft
    refine ⟨level[2 * j + 1], level[2 * j], hnode, ?_, ?_, ?_⟩
    · rw [Nat.xor_one_of_odd (odd_two_mul_add_one j), Nat.add_sub_cancel, hsibling]
    · rw [ordered, if_pos hodd]
      exact mem_pairs hsibling hnode
    · rw [ordered, if_pos hodd, hhalf]
      exact nextLevel_pair hsibling hnode

variable (combine) in
/-- A node without a sibling moves up. -/
theorem nextLevel_of_last (hindex : index < level.length)
    (h : ¬ (index ≠ level.length - 1 ∨ level.length % 2 = 0)) :
    (nextLevel combine level)[index / 2]? = level[index]? := by
  push Not at h
  have hlength : level.length = 2 * (index / 2) + 1 := by omega
  have hdouble : 2 * (index / 2) = index := by omega
  rw [nextLevel_last hlength, hdouble]

theorem climb_of_sibling {current sibling : H} {width : ℕ} {rest : List H} (hwidth : width > 1)
    (h : index ≠ width - 1 ∨ width % 2 = 0) :
    climb combine current index width (sibling :: rest) =
      climb combine (combine (ordered index current sibling).1 (ordered index current sibling).2)
        (index / 2) ((width + 1) / 2) rest := by
  rw [climb, if_pos hwidth, if_pos h]
  by_cases hodd : index % 2 = 1
  · rw [ordered, if_pos hodd, if_pos hodd]
  · rw [ordered, if_neg hodd, if_neg hodd]

theorem climb_of_last {current : H} {width : ℕ} {proof : List H} (hwidth : width > 1)
    (h : ¬ (index ≠ width - 1 ∨ width % 2 = 0)) :
    climb combine current index width proof =
      climb combine current (index / 2) ((width + 1) / 2) proof := by
  rw [climb.eq_def, if_pos hwidth, if_neg h]

theorem climb_of_not_lt {current : H} {width : ℕ} {proof : List H} (hwidth : ¬ width > 1) :
    climb combine current index width proof = some (current, proof) := by
  rw [climb.eq_def, if_neg hwidth]

theorem climbPairs_of_sibling {current sibling : H} {width : ℕ} {rest : List H} (hwidth : width > 1)
    (h : index ≠ width - 1 ∨ width % 2 = 0) :
    climbPairs combine current index width (sibling :: rest) =
      ordered index current sibling :: climbPairs combine
        (combine (ordered index current sibling).1 (ordered index current sibling).2)
          (index / 2) ((width + 1) / 2) rest := by
  rw [climbPairs, if_pos hwidth, if_pos h]
  rfl

theorem climbPairs_of_last {current : H} {width : ℕ} {proof : List H} (hwidth : width > 1)
    (h : ¬ (index ≠ width - 1 ∨ width % 2 = 0)) :
    climbPairs combine current index width proof =
      climbPairs combine current (index / 2) ((width + 1) / 2) proof := by
  rw [climbPairs.eq_def, if_pos hwidth, if_neg h]

/-- The walk along the siblings of a node ends at the root, with what follows them left over. -/
theorem climb_siblings {leaf root : H} (hleaf : level[index]? = some leaf)
    (hroot : (levels combine level).getLast? = some [root]) (rest : List H) :
    climb combine leaf index level.length (siblings (levels combine level) index ++ rest) =
      some (root, rest) := by
  have hindex : index < level.length := (List.getElem?_eq_some_iff.mp hleaf).1
  induction level using levels.induct combine generalizing index leaf with
  | case1 level hlong ih =>
    have hnext : index / 2 < (nextLevel combine level).length := by
      rw [length_nextLevel]
      omega
    rw [getLast_levels_of_lt hlong] at hroot
    rw [siblings_of_lt hlong]
    by_cases hsibling : index ≠ level.length - 1 ∨ level.length % 2 = 0
    · obtain ⟨node, sibling, hnode, hget, -, hup⟩ := exists_sibling combine hindex hsibling
      rw [hleaf] at hnode
      cases hnode
      rw [if_pos hsibling, hget, List.append_assoc, Option.toList_some, List.singleton_append,
        climb_of_sibling hlong hsibling, ← length_nextLevel combine]
      exact ih hup hroot hnext
    · have hup := nextLevel_of_last combine hindex hsibling
      rw [hleaf] at hup
      rw [if_neg hsibling, climb_of_last hlong hsibling, ← length_nextLevel combine]
      exact ih hup hroot hnext
  | case2 hshort => cases hleaf
  | case3 level hshort hne =>
    obtain ⟨last, rfl⟩ : ∃ last, level = [last] := by
      rw [← List.length_eq_one_iff]
      omega
    rw [List.length_singleton] at hindex hshort
    obtain rfl : index = 0 := by omega
    rw [levels_singleton] at hroot ⊢
    cases hleaf
    cases hroot
    rw [List.length_singleton, climb_of_not_lt hshort]
    rfl

/-- A walk that ends at the root starts from the leaf of its index and takes its siblings, unless it
combines a pair whose hash the tree has for another one. -/
theorem eq_siblings_of_climb {current root : H} {proof rest : List H} (hindex : index < level.length)
    (hroot : (levels combine level).getLast? = some [root])
    (hfree : ∀ pair ∈ climbPairs combine current index level.length proof,
      ∀ pair' ∈ treePairs combine level,
        combine pair.1 pair.2 = combine pair'.1 pair'.2 → pair = pair')
    (hclimb : climb combine current index level.length proof = some (root, rest)) :
    level[index]? = some current ∧ proof = siblings (levels combine level) index ++ rest := by
  induction level using levels.induct combine generalizing index current proof with
  | case1 level hlong ih =>
    have hnext : index / 2 < (nextLevel combine level).length := by
      rw [length_nextLevel]
      omega
    rw [getLast_levels_of_lt hlong] at hroot
    rw [siblings_of_lt hlong]
    rw [treePairs_of_lt hlong] at hfree
    by_cases hsibling : index ≠ level.length - 1 ∨ level.length % 2 = 0
    · cases proof with
      | nil =>
        rw [climb, if_pos hlong, if_pos hsibling] at hclimb
        cases hclimb
      | cons step proof =>
        rw [climb_of_sibling hlong hsibling, ← length_nextLevel combine] at hclimb
        rw [climbPairs_of_sibling hlong hsibling, ← length_nextLevel combine] at hfree
        obtain ⟨hup, hproof⟩ := ih hnext hroot (fun pair hpair pair' hpair' ↦
          hfree pair (List.mem_cons_of_mem _ hpair) pair' (List.mem_append_right _ hpair')) hclimb
        -- the node above is combined from the two nodes of the tree, hence from no others
        obtain ⟨node, sibling, hnode, hget, hmem, hcombined⟩ :=
          exists_sibling combine hindex hsibling
        rw [hup, Option.some.injEq] at hcombined
        have hsame := hfree _ List.mem_cons_self _ (List.mem_append_left _ hmem) hcombined
        have hboth : current = node ∧ step = sibling := by
          unfold ordered at hsame
          split_ifs at hsame with hodd
          · rw [Prod.mk.injEq] at hsame
            exact ⟨hsame.2, hsame.1⟩
          · rw [Prod.mk.injEq] at hsame
            exact hsame
        obtain ⟨rfl, rfl⟩ := hboth
        refine ⟨hnode, ?_⟩
        rw [if_pos hsibling, hget, hproof]
        rfl
    · rw [climb_of_last hlong hsibling, ← length_nextLevel combine] at hclimb
      rw [climbPairs_of_last hlong hsibling, ← length_nextLevel combine] at hfree
      obtain ⟨hup, hproof⟩ := ih hnext hroot (fun pair hpair pair' hpair' ↦
        hfree pair hpair pair' (List.mem_append_right _ hpair')) hclimb
      rw [if_neg hsibling, ← nextLevel_of_last combine hindex hsibling]
      exact ⟨hup, hproof⟩
  | case2 hshort => cases hindex
  | case3 level hshort hne =>
    obtain ⟨last, rfl⟩ : ∃ last, level = [last] := by
      rw [← List.length_eq_one_iff]
      omega
    rw [List.length_singleton] at hindex hshort hclimb
    obtain rfl : index = 0 := by omega
    rw [levels_singleton] at hroot ⊢
    cases hroot
    rw [climb_of_not_lt hshort] at hclimb
    cases hclimb
    exact ⟨rfl, rfl⟩

end Proofs

/-! ### Shapes -/

/-- A tree with values at its leaves. -/
inductive Shape (L : Type) where
  | leaf (value : L)
  | node (left right : Shape L)

namespace Shape

variable {L : Type}

/-- The values at the leaves, from left to right. -/
def leaves : Shape L → List L
  | .leaf value => [value]
  | .node left right => left.leaves ++ right.leaves

/-- The hash at the top. -/
def hash (leafHash : L → H) (combine : H → H → H) : Shape L → H
  | .leaf value => leafHash value
  | .node left right => combine (left.hash leafHash combine) (right.hash leafHash combine)

end Shape

section Shapes

variable {A B L : Type} {combine : A → A → A} {combine' : B → B → B} {f : A → B}

/-- Levels that correspond are followed by levels that correspond. -/
theorem nextLevel_map (hf : ∀ a b, f (combine a b) = combine' (f a) (f b)) (level : List A) :
    nextLevel combine' (level.map f) = (nextLevel combine level).map f := by
  induction level using nextLevel.induct with
  | case1 => rfl
  | case2 last => rfl
  | case3 left right rest ih =>
    simp only [nextLevel, List.map_cons, ih, hf]

theorem levels_map (hf : ∀ a b, f (combine a b) = combine' (f a) (f b)) (level : List A) :
    levels combine' (level.map f) = (levels combine level).map (List.map f) := by
  induction level using levels.induct combine with
  | case1 level hlong ih =>
    have hlong' : 1 < (level.map f).length := by rwa [List.length_map]
    rw [levels_of_lt hlong, levels_of_lt hlong', nextLevel_map hf, ih, List.map_cons]
  | case2 hshort => rw [List.map_nil, levels_nil, levels_nil, List.map_nil]
  | case3 level hshort hne =>
    obtain ⟨last, rfl⟩ : ∃ last, level = [last] := by
      rw [← List.length_eq_one_iff]
      have hpos := List.length_pos_iff.mpr hne
      omega
    rw [List.map_singleton, levels_singleton, levels_singleton, List.map_singleton, List.map_singleton]

/-- Combining neighbours keeps the leaves in their order. -/
theorem leaves_nextLevel (level : List (Shape L)) :
    (nextLevel Shape.node level).flatMap Shape.leaves = level.flatMap Shape.leaves := by
  induction level using nextLevel.induct with
  | case1 => rfl
  | case2 last => rfl
  | case3 left right rest ih =>
    simp only [nextLevel, List.flatMap_cons, ih, Shape.leaves, List.append_assoc]

/-- The last level over some trees is one tree with their leaves. -/
theorem getLast_levels {level : List (Shape L)} (hne : level ≠ []) :
    ∃ shape, (levels Shape.node level).getLast? = some [shape] ∧
      shape.leaves = level.flatMap Shape.leaves := by
  induction level using levels.induct Shape.node with
  | case1 level hlong ih =>
    obtain ⟨shape, hlast, hleaves⟩ := ih (nextLevel_ne_nil hne)
    refine ⟨shape, ?_, hleaves.trans (leaves_nextLevel level)⟩
    rw [levels_of_lt hlong, List.getLast?_cons, hlast]
    rfl
  | case2 hshort => exact absurd rfl hne
  | case3 level hshort _ =>
    obtain ⟨shape, rfl⟩ : ∃ shape, level = [shape] := by
      rw [← List.length_eq_one_iff]
      have hpos := List.length_pos_iff.mpr hne
      omega
    refine ⟨shape, ?_, ?_⟩
    · rw [levels_singleton]
      rfl
    · rw [List.flatMap_singleton]

end Shapes

end Web3Storage.Foundations.MerkleTree
