import Mathlib

/-!
# Merkle mountain ranges

A mountain range over a list of leaves splits them, from the left, into perfect binary trees of
falling heights, one for each binary digit of their number. Its root bags the peaks from right to
left. The nodes are numbered in the order in which pushing one leaf after the other creates them.

The definitions recurse on a bound on the heights: a range below `bound` has fewer than `2 ^ bound`
leaves. `proof` lists what links one leaf to the root (the peaks to the left, the siblings in the
leaf's own mountain from the bottom up, the bagged peaks to the right) and `recompute` is what a
verifier computes from such a list. An honest list gives the root (`recompute_proof`), and a verifier
can tell its length from the positions of the peaks (`exists_peak`).
-/

set_option autoImplicit false
set_option relaxedAutoImplicit false

namespace Web3Storage.Foundations.MountainRange

/-! ### Positions -/

/-- The number of nodes of a range over `n` leaves. -/
def size : ℕ → ℕ → ℕ
  | 0, _ => 0
  | bound + 1, n =>
    if 2 ^ bound ≤ n then 2 ^ (bound + 1) - 1 + size bound (n - 2 ^ bound) else size bound n

/-- The number of leaves of a range with a number of nodes. -/
def leavesOf : ℕ → ℕ → ℕ
  | 0, _ => 0
  | bound + 1, nodes =>
    if 2 ^ (bound + 1) - 1 ≤ nodes then 2 ^ bound + leavesOf bound (nodes - (2 ^ (bound + 1) - 1))
    else leavesOf bound nodes

/-- The positions of the peaks of a range with a number of nodes, after an offset. -/
def peakPositions : ℕ → ℕ → ℕ → List ℕ
  | 0, _, _ => []
  | bound + 1, offset, nodes =>
    if 2 ^ (bound + 1) - 1 ≤ nodes then
      (offset + (2 ^ (bound + 1) - 2)) ::
        peakPositions bound (offset + (2 ^ (bound + 1) - 1)) (nodes - (2 ^ (bound + 1) - 1))
    else peakPositions bound offset nodes

/-- The height of the node at a position of a perfect tree. -/
def height : ℕ → ℕ → ℕ
  | 0, _ => 0
  | h + 1, pos =>
    if pos = 2 ^ (h + 2) - 2 then h + 1
    else if pos < 2 ^ (h + 1) - 1 then height h pos
    else height h (pos - (2 ^ (h + 1) - 1))

/-- The number of items that link a leaf to the root of a range over `n` leaves. -/
def proofLength : ℕ → ℕ → ℕ → ℕ
  | 0, _, _ => 0
  | bound + 1, n, index =>
    if 2 ^ bound ≤ n then
      if index < 2 ^ bound then bound + if 2 ^ bound < n then 1 else 0
      else 1 + proofLength bound (n - 2 ^ bound) (index - 2 ^ bound)
    else proofLength bound n index

/-! ### Roots and proofs -/

variable {α : Type} [Inhabited α] (merge mergePeaks : α → α → α)

/-- The root of the perfect tree of a height over its leaves. -/
def treeRoot : ℕ → List α → α
  | 0, leaves => leaves.headD default
  | h + 1, leaves =>
    merge (treeRoot h (leaves.take (2 ^ h))) (treeRoot h (leaves.drop (2 ^ h)))

/-- The siblings of the path from a leaf of a perfect tree to its root, from the bottom up. -/
def siblings : ℕ → List α → ℕ → List α
  | 0, _, _ => []
  | h + 1, leaves, index =>
    if index < 2 ^ h then
      siblings h (leaves.take (2 ^ h)) index ++ [treeRoot merge h (leaves.drop (2 ^ h))]
    else
      siblings h (leaves.drop (2 ^ h)) (index - 2 ^ h) ++ [treeRoot merge h (leaves.take (2 ^ h))]

/-- The root of a range, `none` without leaves. A peak is combined with what is bagged to its
right, which is passed first. -/
def root : ℕ → List α → Option α
  | 0, _ => none
  | bound + 1, leaves =>
    if 2 ^ bound ≤ leaves.length then
      some (match root bound (leaves.drop (2 ^ bound)) with
        | none => treeRoot merge bound (leaves.take (2 ^ bound))
        | some right => mergePeaks right (treeRoot merge bound (leaves.take (2 ^ bound))))
    else root bound leaves

/-- What links a leaf to the root. -/
def proof : ℕ → List α → ℕ → List α
  | 0, _, _ => []
  | bound + 1, leaves, index =>
    if 2 ^ bound ≤ leaves.length then
      if index < 2 ^ bound then
        siblings merge bound (leaves.take (2 ^ bound)) index ++
          (root merge mergePeaks bound (leaves.drop (2 ^ bound))).toList
      else
        treeRoot merge bound (leaves.take (2 ^ bound)) ::
          proof bound (leaves.drop (2 ^ bound)) (index - 2 ^ bound)
    else proof bound leaves index

omit [Inhabited α] in
/-- Combine a node with the siblings on the way up. -/
def climb : ℕ → α → List α → α
  | _, node, [] => node
  | index, node, item :: rest =>
    climb (index / 2) (if index % 2 = 0 then merge node item else merge item node) rest

omit [Inhabited α] in
/-- The root that a leaf and the items of a proof determine, for a range over `n` leaves. -/
def recompute : ℕ → ℕ → ℕ → α → List α → Option α
  | 0, _, _, _, _ => none
  | bound + 1, n, index, leaf, items =>
    if 2 ^ bound ≤ n then
      if index < 2 ^ bound then
        match items.drop bound with
        | [] => some (climb merge index leaf (items.take bound))
        | right :: _ => some (mergePeaks right (climb merge index leaf (items.take bound)))
      else
        match items with
        | [] => none
        | peak :: rest =>
          (recompute bound (n - 2 ^ bound) (index - 2 ^ bound) leaf rest).map
            fun right ↦ mergePeaks right peak
    else recompute bound n index leaf items

/-! ### Laws of positions -/

/-- A range has fewer than two nodes for each leaf. -/
theorem size_le {bound n : ℕ} (h : n < 2 ^ bound) : size bound n ≤ 2 * n := by
  induction bound generalizing n with
  | zero => exact Nat.zero_le _
  | succ bound ih =>
    unfold size
    rw [pow_succ] at h ⊢
    split_ifs with hpeak
    · have hbelow : n - 2 ^ bound < 2 ^ bound := by omega
      have hrest := ih hbelow
      omega
    · exact ih (by omega)

theorem leavesOf_size {bound n : ℕ} (h : n < 2 ^ bound) : leavesOf bound (size bound n) = n := by
  induction bound generalizing n with
  | zero =>
    rw [pow_zero] at h
    unfold leavesOf
    omega
  | succ bound ih =>
    have hpow : 2 ^ (bound + 1) = 2 ^ bound * 2 := pow_succ 2 bound
    unfold size leavesOf
    by_cases hpeak : 2 ^ bound ≤ n
    · rw [if_pos hpeak, if_pos (by omega), Nat.add_sub_cancel_left, ih (by omega)]
      omega
    · have hsize := size_le (Nat.lt_of_not_le hpeak)
      rw [if_neg hpeak, if_neg (by omega), ih (by omega)]

/-- Peaks after an offset are the peaks, shifted. -/
theorem peakPositions_offset (bound offset nodes : ℕ) :
    peakPositions bound offset nodes = (peakPositions bound 0 nodes).map (· + offset) := by
  induction bound generalizing offset nodes with
  | zero => rfl
  | succ bound ih =>
    unfold peakPositions
    split_ifs with hpeak
    · rw [ih, ih (0 + _), List.map_cons, List.map_map, Nat.zero_add, Nat.zero_add]
      congr 1
      · omega
      · apply List.map_congr_left
        intro position _
        simp only [Function.comp_apply]
        omega
    · exact ih offset nodes

/-- A peak lies among the nodes. -/
theorem lt_of_mem_peakPositions {bound nodes position : ℕ}
    (h : position ∈ peakPositions bound 0 nodes) : position < nodes := by
  induction bound generalizing nodes position with
  | zero => cases h
  | succ bound ih =>
    have hpow : 0 < 2 ^ (bound + 1) := Nat.two_pow_pos _
    unfold peakPositions at h
    split_ifs at h with hpeak
    · rw [peakPositions_offset, List.mem_cons, List.mem_map] at h
      rcases h with rfl | ⟨rest, hrest, rfl⟩
      · have hone : 2 ≤ 2 ^ (bound + 1) := by
          rw [pow_succ]
          have := Nat.two_pow_pos bound
          omega
        omega
      · have := ih hrest
        omega
    · exact ih h

/-- There are peaks exactly when there are leaves. -/
theorem peakPositions_length_pos {bound n : ℕ} (h : n < 2 ^ bound) :
    0 < (peakPositions bound 0 (size bound n)).length ↔ 0 < n := by
  induction bound generalizing n with
  | zero =>
    rw [pow_zero] at h
    simp only [peakPositions, List.length_nil]
    omega
  | succ bound ih =>
    have hpow : 2 ^ (bound + 1) = 2 ^ bound * 2 := pow_succ 2 bound
    unfold size peakPositions
    by_cases hpeak : 2 ^ bound ≤ n
    · rw [if_pos hpeak, if_pos (by omega), List.length_cons]
      have := Nat.two_pow_pos bound
      omega
    · have hsize := size_le (Nat.lt_of_not_le hpeak)
      rw [if_neg hpeak, if_neg (by omega)]
      exact ih (by omega)

/-- The top of a mountain has its height. -/
theorem height_top (h : ℕ) : height h (2 ^ (h + 1) - 2) = h := by
  cases h with
  | zero => rfl
  | succ h => rw [height, if_pos rfl]

/-- The left subtree keeps the heights of its nodes. -/
theorem height_left {h position : ℕ} (hleft : position < 2 ^ (h + 1) - 1) :
    height (h + 1) position = height h position := by
  have hpow : 2 ^ (h + 2) = 2 ^ (h + 1) * 2 := pow_succ 2 (h + 1)
  rw [height, if_neg (by omega), if_pos hleft]

/-- The right subtree keeps the heights of its nodes. -/
theorem height_right {h position : ℕ} (hright : position < 2 ^ (h + 1) - 1) :
    height (h + 1) (position + (2 ^ (h + 1) - 1)) = height h position := by
  have hpow : 2 ^ (h + 2) = 2 ^ (h + 1) * 2 := pow_succ 2 (h + 1)
  rw [height, if_neg (by omega), if_neg (by omega), Nat.add_sub_cancel]

/-- The peak over a leaf is the first at or after its position. The peaks before it, its height and
the peaks after it make the length of the leaf's proof. -/
theorem exists_peak {bound n index : ℕ} (h : n < 2 ^ bound) (hindex : index < n) :
    ∃ peak position,
      (peakPositions bound 0 (size bound n)).findIdx? (fun pos ↦ decide (size bound index ≤ pos)) =
          some peak ∧
        (peakPositions bound 0 (size bound n))[peak]? = some position ∧
          peak + height bound position +
            (if peak + 1 < (peakPositions bound 0 (size bound n)).length then 1 else 0) =
              proofLength bound n index := by
  induction bound generalizing n index with
  | zero =>
    rw [pow_zero] at h
    omega
  | succ bound ih =>
    have hpow : 2 ^ (bound + 1) = 2 ^ bound * 2 := pow_succ 2 bound
    have hpos := Nat.two_pow_pos bound
    by_cases hpeak : 2 ^ bound ≤ n
    · have hpeaks : peakPositions (bound + 1) 0 (size (bound + 1) n) =
          (2 ^ (bound + 1) - 2) :: (peakPositions bound 0 (size bound (n - 2 ^ bound))).map
            (· + (2 ^ (bound + 1) - 1)) := by
        rw [size, if_pos hpeak, peakPositions, if_pos (by omega), peakPositions_offset,
          Nat.add_sub_cancel_left, Nat.zero_add, Nat.zero_add]
      rw [hpeaks]
      by_cases hleft : index < 2 ^ bound
      · have hsize := size_le hleft
        have hbelow : n - 2 ^ bound < 2 ^ bound := by omega
        have hrest := peakPositions_length_pos hbelow
        refine ⟨0, 2 ^ (bound + 1) - 2, ?_, rfl, ?_⟩
        · rw [size, if_neg (by omega), List.findIdx?_cons, decide_eq_true (by omega)]
          rfl
        · rw [height_left (by omega), height_top, List.length_cons, List.length_map, proofLength,
            if_pos hpeak, if_pos hleft]
          split_ifs <;> omega
      · have hbelow : n - 2 ^ bound < 2 ^ bound := by omega
        have hindex' : index - 2 ^ bound < n - 2 ^ bound := by omega
        obtain ⟨peak, position, hfind, hget, hlength⟩ := ih hbelow hindex'
        have hmem : position ∈ peakPositions bound 0 (size bound (n - 2 ^ bound)) :=
          List.mem_of_getElem? hget
        have hlt := lt_of_mem_peakPositions hmem
        have hsize := size_le hbelow
        refine ⟨peak + 1, position + (2 ^ (bound + 1) - 1), ?_, ?_, ?_⟩
        · rw [size, if_pos (by omega), List.findIdx?_cons, decide_eq_false (by omega),
            List.findIdx?_map]
          have hshift : (fun pos ↦ decide
              (2 ^ (bound + 1) - 1 + size bound (index - 2 ^ bound) ≤ pos)) ∘
                (· + (2 ^ (bound + 1) - 1)) =
                  fun pos ↦ decide (size bound (index - 2 ^ bound) ≤ pos) := by
            funext pos
            simp only [Function.comp_apply, decide_eq_decide]
            omega
          rw [hshift, hfind]
          rfl
        · rw [List.getElem?_cons_succ, List.getElem?_map, hget]
          rfl
        · rw [height_right (by omega), List.length_cons, List.length_map, proofLength,
            if_pos hpeak, if_neg hleft, ← hlength]
          split_ifs <;> omega
    · have hsize := size_le (Nat.lt_of_not_le hpeak)
      obtain ⟨peak, position, hfind, hget, hlength⟩ := ih (Nat.lt_of_not_le hpeak) hindex
      have hmem : position ∈ peakPositions bound 0 (size bound n) := List.mem_of_getElem? hget
      have hlt := lt_of_mem_peakPositions hmem
      have hpeaks : peakPositions (bound + 1) 0 (size (bound + 1) n) =
          peakPositions bound 0 (size bound n) := by
        rw [size, if_neg hpeak, peakPositions, if_neg (by omega)]
      rw [hpeaks, size, if_neg (by omega), proofLength, if_neg hpeak]
      exact ⟨peak, position, hfind, hget, by rw [height_left (by omega)]; exact hlength⟩

/-! ### Laws of proofs -/

theorem length_siblings (h : ℕ) (leaves : List α) (index : ℕ) :
    (siblings merge h leaves index).length = h := by
  induction h generalizing leaves index with
  | zero => rfl
  | succ h ih =>
    unfold siblings
    split_ifs
    · rw [List.length_append, ih, List.length_singleton]
    · rw [List.length_append, ih, List.length_singleton]

omit [Inhabited α] in
/-- The last sibling stands on the side that the bit of its level says. -/
theorem climb_concat (index : ℕ) (node : α) (items : List α) (top : α) :
    climb merge index node (items ++ [top]) =
      if index / 2 ^ items.length % 2 = 0 then merge (climb merge index node items) top
      else merge top (climb merge index node items) := by
  induction items generalizing index node with
  | nil =>
    rw [List.nil_append, List.length_nil, pow_zero, Nat.div_one]
    rfl
  | cons item rest ih =>
    rw [List.cons_append, climb, ih, List.length_cons, pow_succ', Nat.div_div_eq_div_mul]
    rfl

omit [Inhabited α] in
/-- Only the bits of its own levels matter to a walk. -/
theorem climb_add (index k : ℕ) (node : α) (items : List α) :
    climb merge (index + 2 ^ items.length * k) node items = climb merge index node items := by
  induction items generalizing index node with
  | nil => rfl
  | cons item rest ih =>
    have hsplit : 2 ^ (rest.length + 1) * k = 2 * (2 ^ rest.length * k) := by
      rw [pow_succ']
      ring
    rw [List.length_cons, climb, climb, hsplit, Nat.add_mul_mod_self_left,
      Nat.add_mul_div_left _ _ (Nat.succ_pos 1), ih]

/-- The siblings of a leaf lead to the root of its tree. -/
theorem climb_siblings {h : ℕ} {leaves : List α} {index : ℕ} {leaf : α}
    (hlength : leaves.length = 2 ^ h) (hleaf : leaves[index]? = some leaf) :
    climb merge index leaf (siblings merge h leaves index) = treeRoot merge h leaves := by
  induction h generalizing leaves index with
  | zero =>
    obtain ⟨only, rfl⟩ := List.length_eq_one_iff.mp hlength
    have hindex : index = 0 := by
      have hlt := (List.getElem?_eq_some_iff.mp hleaf).1
      rw [List.length_singleton] at hlt
      omega
    subst hindex
    cases hleaf
    rfl
  | succ h ih =>
    have hpow : 2 ^ (h + 1) = 2 ^ h * 2 := pow_succ 2 h
    have hlt := (List.getElem?_eq_some_iff.mp hleaf).1
    rw [siblings, treeRoot]
    split_ifs with hleft
    · have htake : (leaves.take (2 ^ h))[index]? = some leaf := by
        rw [List.getElem?_take_of_lt hleft, hleaf]
      rw [climb_concat, length_siblings, Nat.div_eq_of_lt hleft, if_pos rfl,
        ih (by rw [List.length_take]; omega) htake]
    · have hdrop : (leaves.drop (2 ^ h))[index - 2 ^ h]? = some leaf := by
        rw [List.getElem?_drop, Nat.add_sub_cancel' (Nat.le_of_not_lt hleft), hleaf]
      have hbit : index / 2 ^ h = 1 := by
        rw [Nat.div_eq_iff (Nat.two_pow_pos h)]
        omega
      have hwalk := climb_add merge (index - 2 ^ h) 1 leaf
        (siblings merge h (leaves.drop (2 ^ h)) (index - 2 ^ h))
      rw [length_siblings, Nat.mul_one, Nat.sub_add_cancel (Nat.le_of_not_lt hleft)] at hwalk
      rw [climb_concat, length_siblings, hbit, if_neg (by decide), hwalk,
        ih (by rw [List.length_drop]; omega) hdrop]

/-- A range has a root exactly when it has leaves. -/
theorem root_eq_none_iff {bound : ℕ} {leaves : List α} (h : leaves.length < 2 ^ bound) :
    root merge mergePeaks bound leaves = none ↔ leaves = [] := by
  induction bound generalizing leaves with
  | zero =>
    rw [pow_zero, Nat.lt_one_iff] at h
    exact ⟨fun _ ↦ List.length_eq_zero_iff.mp h, fun _ ↦ rfl⟩
  | succ bound ih =>
    unfold root
    split_ifs with hpeak
    · constructor
      · intro hnone
        cases hnone
      · rintro rfl
        have hpos := Nat.two_pow_pos bound
        rw [List.length_nil] at hpeak
        omega
    · exact ih (Nat.lt_of_not_le hpeak)

/-- What the library lists for a leaf has the length of its proof. -/
theorem length_proof {bound : ℕ} {leaves : List α} (h : leaves.length < 2 ^ bound) (index : ℕ) :
    (proof merge mergePeaks bound leaves index).length = proofLength bound leaves.length index := by
  induction bound generalizing leaves index with
  | zero => rfl
  | succ bound ih =>
    have hpow : 2 ^ (bound + 1) = 2 ^ bound * 2 := pow_succ 2 bound
    have hbelow : (leaves.drop (2 ^ bound)).length < 2 ^ bound := by
      rw [List.length_drop]
      omega
    unfold proof proofLength
    split_ifs with hpeak hleft hrest
    · rw [List.length_append, length_siblings]
      cases hroot : root merge mergePeaks bound (leaves.drop (2 ^ bound)) with
      | none =>
        rw [root_eq_none_iff merge mergePeaks hbelow, List.drop_eq_nil_iff] at hroot
        omega
      | some right => rfl
    · rw [List.length_append, length_siblings]
      have hnil : leaves.drop (2 ^ bound) = [] := List.drop_eq_nil_iff.mpr (by omega)
      rw [(root_eq_none_iff merge mergePeaks hbelow).mpr hnil]
      rfl
    · rw [List.length_cons, ih hbelow _, List.length_drop, Nat.add_comm]
    · exact ih (Nat.lt_of_not_le hpeak) _

/-- A verifier recomputes the root from a leaf and its proof. -/
theorem recompute_proof {bound : ℕ} {leaves : List α} {index : ℕ} {leaf : α}
    (h : leaves.length < 2 ^ bound) (hleaf : leaves[index]? = some leaf) :
    recompute merge mergePeaks bound leaves.length index leaf
      (proof merge mergePeaks bound leaves index) = root merge mergePeaks bound leaves := by
  induction bound generalizing leaves index with
  | zero => rfl
  | succ bound ih =>
    have hpow : 2 ^ (bound + 1) = 2 ^ bound * 2 := pow_succ 2 bound
    have hbelow : (leaves.drop (2 ^ bound)).length < 2 ^ bound := by
      rw [List.length_drop]
      omega
    unfold recompute
    rw [proof, root]
    split_ifs with hpeak hleft
    · have hlength : (siblings merge bound (leaves.take (2 ^ bound)) index).length = bound :=
        length_siblings merge bound _ index
      have htake : (leaves.take (2 ^ bound))[index]? = some leaf := by
        rw [List.getElem?_take_of_lt hleft, hleaf]
      have hfull : (leaves.take (2 ^ bound)).length = 2 ^ bound := by
        rw [List.length_take]
        omega
      rw [List.drop_append_of_le_length hlength.ge, List.take_append_of_le_length hlength.ge]
      rw [List.drop_of_length_le hlength.le, List.take_of_length_le hlength.le,
        climb_siblings merge hfull htake, List.nil_append]
      cases root merge mergePeaks bound (leaves.drop (2 ^ bound)) with
      | none => rfl
      | some right => rfl
    · have hdrop : (leaves.drop (2 ^ bound))[index - 2 ^ bound]? = some leaf := by
        rw [List.getElem?_drop, Nat.add_sub_cancel' (Nat.le_of_not_lt hleft), hleaf]
      have hrest := ih hbelow hdrop
      rw [List.length_drop] at hrest
      simp only [hrest]
      cases hroot : root merge mergePeaks bound (leaves.drop (2 ^ bound)) with
      | none =>
        rw [root_eq_none_iff merge mergePeaks hbelow] at hroot
        rw [hroot] at hdrop
        cases hdrop
      | some right => rfl
    · exact ih (Nat.lt_of_not_le hpeak) hleaf

/-! ### Maps between ranges -/

section Maps

variable {β : Type} [Inhabited β] {merge mergePeaks} {merge' mergePeaks' : β → β → β} {f : α → β}

omit [Inhabited α] [Inhabited β] in
/-- Walks that correspond node by node end at nodes that correspond. -/
theorem climb_map (hmerge : ∀ a b, f (merge a b) = merge' (f a) (f b)) (index : ℕ) (node : α)
    (items : List α) : climb merge' index (f node) (items.map f) = f (climb merge index node items) := by
  induction items generalizing index node with
  | nil => rfl
  | cons item rest ih =>
    rw [List.map_cons, climb, climb, ← ih]
    by_cases hside : index % 2 = 0
    · rw [if_pos hside, if_pos hside, hmerge]
    · rw [if_neg hside, if_neg hside, hmerge]

omit [Inhabited α] [Inhabited β] in
theorem recompute_map (hmerge : ∀ a b, f (merge a b) = merge' (f a) (f b))
    (hpeaks : ∀ a b, f (mergePeaks a b) = mergePeaks' (f a) (f b)) (bound n index : ℕ) (leaf : α)
    (items : List α) :
    recompute merge' mergePeaks' bound n index (f leaf) (items.map f) =
      (recompute merge mergePeaks bound n index leaf items).map f := by
  induction bound generalizing n index items with
  | zero => rfl
  | succ bound ih =>
    unfold recompute
    split_ifs with hpeak hleft
    · rw [← List.map_take, ← List.map_drop, climb_map hmerge]
      cases items.drop bound with
      | nil => rfl
      | cons right rest => exact congrArg some (hpeaks _ _).symm
    · cases items with
      | nil => rfl
      | cons peak rest =>
        rw [List.map_cons]
        dsimp only
        rw [ih, Option.map_map, Option.map_map]
        congr 1
        funext right
        exact (hpeaks right peak).symm
    · exact ih n index items

theorem treeRoot_map (hmerge : ∀ a b, f (merge a b) = merge' (f a) (f b))
    (hdefault : f default = default) (h : ℕ) (leaves : List α) :
    treeRoot merge' h (leaves.map f) = f (treeRoot merge h leaves) := by
  induction h generalizing leaves with
  | zero =>
    cases leaves with
    | nil => exact hdefault.symm
    | cons leaf rest => rfl
  | succ h ih => rw [treeRoot, treeRoot, ← List.map_take, ← List.map_drop, ih, ih, hmerge]

theorem siblings_map (hmerge : ∀ a b, f (merge a b) = merge' (f a) (f b))
    (hdefault : f default = default) (h : ℕ) (leaves : List α) (index : ℕ) :
    siblings merge' h (leaves.map f) index = (siblings merge h leaves index).map f := by
  induction h generalizing leaves index with
  | zero => rfl
  | succ h ih =>
    unfold siblings
    rw [← List.map_take, ← List.map_drop, ih, ih, treeRoot_map hmerge hdefault,
      treeRoot_map hmerge hdefault]
    split_ifs
    · rw [List.map_append, List.map_singleton]
    · rw [List.map_append, List.map_singleton]

theorem root_map (hmerge : ∀ a b, f (merge a b) = merge' (f a) (f b))
    (hpeaks : ∀ a b, f (mergePeaks a b) = mergePeaks' (f a) (f b)) (hdefault : f default = default)
    (bound : ℕ) (leaves : List α) :
    root merge' mergePeaks' bound (leaves.map f) = (root merge mergePeaks bound leaves).map f := by
  induction bound generalizing leaves with
  | zero => rfl
  | succ bound ih =>
    unfold root
    rw [List.length_map, ← List.map_take, ← List.map_drop, ih, ih, treeRoot_map hmerge hdefault]
    split_ifs
    · cases root merge mergePeaks bound (leaves.drop (2 ^ bound)) with
      | none => rfl
      | some right => exact congrArg some (hpeaks _ _).symm
    · rfl

theorem proof_map (hmerge : ∀ a b, f (merge a b) = merge' (f a) (f b))
    (hpeaks : ∀ a b, f (mergePeaks a b) = mergePeaks' (f a) (f b)) (hdefault : f default = default)
    (bound : ℕ) (leaves : List α) (index : ℕ) :
    proof merge' mergePeaks' bound (leaves.map f) index =
      (proof merge mergePeaks bound leaves index).map f := by
  induction bound generalizing leaves index with
  | zero => rfl
  | succ bound ih =>
    unfold proof
    rw [List.length_map, ← List.map_take, ← List.map_drop, ih, ih, treeRoot_map hmerge hdefault,
      siblings_map hmerge hdefault, root_map hmerge hpeaks hdefault]
    split_ifs
    · rw [List.map_append, Option.toList_map]
    · rw [List.map_cons]
    · rfl

end Maps

end Web3Storage.Foundations.MountainRange
