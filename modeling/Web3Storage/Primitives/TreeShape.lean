import Web3Storage.Foundations.MerkleSplit
import Web3Storage.Primitives.MerkleProofs

/-!
# The shape of a chunk tree

The tree is built level by level, while its readers go down from the root and rely on the recursive
definition: over more than one leaf, the left subtree has the largest power of two below their number.
`rfcRoot` and `rfcNodes` are that definition. `merkleRoot_eq_rfcRoot` and `merkleTree_perm` say that
both ways give the same root and the same inner nodes, and `childrenFirst_merkleTree` that the nodes
come after their children, so that a store which wants children first can take them in order.
`merkleTree_shape` puts this together.
-/

set_option autoImplicit false
set_option relaxedAutoImplicit false

namespace Web3Storage.Primitives

open Foundations
open MerkleTree (levels nextLevel splitPoint)

variable (blake2256 : Bytes → H256)

/-! ### The recursive definition -/

/-- The root over some leaves by their split. No leaves give the zero hash. -/
def rfcRoot (leaves : List H256) : H256 :=
  if 1 < leaves.length then
    hashChildren blake2256 (rfcRoot (leaves.take (splitPoint leaves.length)))
      (rfcRoot (leaves.drop (splitPoint leaves.length)))
  else leaves.headD H256.zero
termination_by leaves.length
decreasing_by
  · have hlt := MerkleTree.splitPoint_lt ‹1 < leaves.length›
    rw [List.length_take]
    omega
  · have hpos := MerkleTree.splitPoint_pos leaves.length
    rw [List.length_drop]
    omega

/-- The inner nodes over some leaves by their split. -/
def rfcNodes (leaves : List H256) : List MerkleNode :=
  if 1 < leaves.length then
    rfcNodes (leaves.take (splitPoint leaves.length)) ++
      rfcNodes (leaves.drop (splitPoint leaves.length)) ++
        [{ hash := rfcRoot blake2256 leaves
           left := rfcRoot blake2256 (leaves.take (splitPoint leaves.length))
           right := rfcRoot blake2256 (leaves.drop (splitPoint leaves.length)) }]
  else []
termination_by leaves.length
decreasing_by
  · have hlt := MerkleTree.splitPoint_lt ‹1 < leaves.length›
    rw [List.length_take]
    omega
  · have hpos := MerkleTree.splitPoint_pos leaves.length
    rw [List.length_drop]
    omega

/-- Each node has the hash of its children, which are known or come before it. -/
def ChildrenFirst (known : List H256) : List MerkleNode → Prop
  | [] => True
  | node :: rest =>
    (node.hash = hashChildren blake2256 node.left node.right ∧ node.left ∈ known ∧
      node.right ∈ known) ∧ ChildrenFirst (known ++ [node.hash]) rest

variable {blake2256}

/-! ### Roots -/

theorem merkleRoot_nil : merkleRoot blake2256 [] = H256.zero := by
  rw [merkleRoot, MerkleTree.levels_nil]
  rfl

theorem merkleRoot_singleton (leaf : H256) : merkleRoot blake2256 [leaf] = leaf := by
  rw [merkleRoot, MerkleTree.levels_singleton]
  rfl

/-- A list of leaves has the root of its next level. -/
theorem merkleRoot_nextLevel (leaves : List H256) :
    merkleRoot blake2256 (nextLevel (hashChildren blake2256) leaves) =
      merkleRoot blake2256 leaves := by
  by_cases hne : leaves = []
  · rw [hne]
    rfl
  · have hroot := getLast_levels blake2256 hne
    rw [MerkleTree.getLast_levels_nextLevel,
      getLast_levels blake2256 (MerkleTree.nextLevel_ne_nil hne)] at hroot
    simpa using hroot

/-- The root over more than one leaf combines the roots over the two parts. -/
theorem merkleRoot_split {leaves : List H256} (hlong : 1 < leaves.length) :
    merkleRoot blake2256 leaves =
      hashChildren blake2256 (merkleRoot blake2256 (leaves.take (splitPoint leaves.length)))
        (merkleRoot blake2256 (leaves.drop (splitPoint leaves.length))) := by
  have hpos := MerkleTree.splitPoint_pos leaves.length
  have hlt := MerkleTree.splitPoint_lt hlong
  have hne : leaves ≠ [] := List.length_pos_iff.mp (by omega)
  have hleft : leaves.take (splitPoint leaves.length) ≠ [] := by
    rw [← List.length_pos_iff, List.length_take]
    omega
  have hright : leaves.drop (splitPoint leaves.length) ≠ [] := by
    rw [← List.length_pos_iff, List.length_drop]
    omega
  have hroot := MerkleTree.getLast_levels_split hlong (getLast_levels blake2256 hleft)
    (getLast_levels blake2256 hright)
  rw [getLast_levels blake2256 hne] at hroot
  simpa using hroot

/-- Building level by level and splitting from the top give one root. -/
theorem merkleRoot_eq_rfcRoot (leaves : List H256) :
    merkleRoot blake2256 leaves = rfcRoot blake2256 leaves := by
  induction leaves using rfcRoot.induct with
  | case1 leaves hlong ihleft ihright =>
    rw [merkleRoot_split hlong, rfcRoot, if_pos hlong, ihleft, ihright]
  | case2 leaves hshort =>
    rw [rfcRoot, if_neg hshort]
    match leaves, hshort with
    | [], _ => exact merkleRoot_nil
    | [leaf], _ => exact merkleRoot_singleton leaf
    | _ :: _ :: _, hshort => simp at hshort

/-! ### Inner nodes -/

variable (blake2256) in
/-- The inner nodes over some leaves, level by level. -/
def nodesOver (leaves : List H256) : List MerkleNode :=
  treeNodes (levels (hashChildren blake2256) leaves)

theorem nodesOver_singleton (leaf : H256) : nodesOver blake2256 [leaf] = [] := by
  rw [nodesOver, MerkleTree.levels_singleton]
  rfl

/-- The inner nodes are those over the pairs of the leaves, and those over the next level. -/
theorem nodesOver_nextLevel (leaves : List H256) :
    nodesOver blake2256 leaves =
      levelNodes leaves (nextLevel (hashChildren blake2256) leaves) ++
        nodesOver blake2256 (nextLevel (hashChildren blake2256) leaves) := by
  by_cases hlong : 1 < leaves.length
  · have hne : leaves ≠ [] := List.length_pos_iff.mp (by omega)
    obtain ⟨rest, hlevels⟩ := @MerkleTree.exists_levels _ (hashChildren blake2256) _
      (MerkleTree.nextLevel_ne_nil hne)
    rw [nodesOver, nodesOver, MerkleTree.levels_of_lt hlong, hlevels]
    rfl
  · match leaves, hlong with
    | [], _ => rfl
    | [leaf], _ => rfl
    | _ :: _ :: _, hlong => simp at hlong

theorem length_levelNodes (leaves : List H256) :
    (levelNodes leaves (nextLevel (hashChildren blake2256) leaves)).length = leaves.length / 2 := by
  induction leaves using MerkleTree.nextLevel.induct with
  | case1 => simp [levelNodes]
  | case2 last => simp [levelNodes]
  | case3 left right rest ih =>
    rw [nextLevel, levelNodes, List.length_cons, ih, List.length_cons, List.length_cons]
    omega

/-- There is one inner node less than there are leaves. -/
theorem length_nodesOver {leaves : List H256} (hne : leaves ≠ []) :
    (nodesOver blake2256 leaves).length + 1 = leaves.length := by
  induction leaves using MerkleTree.levels.induct (hashChildren blake2256) with
  | case1 leaves hlong ih =>
    have hnext := ih (MerkleTree.nextLevel_ne_nil hne)
    rw [MerkleTree.length_nextLevel] at hnext
    rw [nodesOver_nextLevel, List.length_append, length_levelNodes]
    omega
  | case2 hshort => exact absurd rfl hne
  | case3 leaves hshort _ =>
    rcases leaves with _ | ⟨leaf, _ | _⟩
    · exact absurd rfl hne
    · rw [nodesOver_singleton, List.length_nil, List.length_singleton]
    · simp at hshort

/-- The nodes over the pairs of a level are those of its two parts. -/
theorem levelNodes_split (leaves : List H256) (count : ℕ) :
    levelNodes leaves (nextLevel (hashChildren blake2256) leaves) =
      levelNodes (leaves.take (2 * count))
          (nextLevel (hashChildren blake2256) (leaves.take (2 * count))) ++
        levelNodes (leaves.drop (2 * count))
          (nextLevel (hashChildren blake2256) (leaves.drop (2 * count))) := by
  induction leaves using MerkleTree.nextLevel.induct generalizing count with
  | case1 => simp [nextLevel, levelNodes]
  | case2 last =>
    cases count with
    | zero => simp [nextLevel, levelNodes]
    | succ count => simp [nextLevel, levelNodes, Nat.mul_succ]
  | case3 left right rest ih =>
    cases count with
    | zero => simp [nextLevel, levelNodes]
    | succ count =>
      rw [Nat.mul_succ, List.take_succ_cons, List.take_succ_cons, List.drop_succ_cons,
        List.drop_succ_cons, nextLevel, levelNodes, ih count, nextLevel, levelNodes,
        List.cons_append]

/-- The inner nodes over more than one leaf are those over the two parts and the root node. -/
theorem nodesOver_perm {leaves : List H256} (hlong : 1 < leaves.length) :
    (nodesOver blake2256 leaves).Perm
      (nodesOver blake2256 (leaves.take (splitPoint leaves.length)) ++
        nodesOver blake2256 (leaves.drop (splitPoint leaves.length)) ++
          [{ hash := merkleRoot blake2256 leaves
             left := merkleRoot blake2256 (leaves.take (splitPoint leaves.length))
             right := merkleRoot blake2256 (leaves.drop (splitPoint leaves.length)) }]) := by
  refine MerkleTree.level_induction (hashChildren blake2256) (fun leaves ↦
    (nodesOver blake2256 leaves).Perm
      (nodesOver blake2256 (leaves.take (splitPoint leaves.length)) ++
        nodesOver blake2256 (leaves.drop (splitPoint leaves.length)) ++
          [{ hash := merkleRoot blake2256 leaves
             left := merkleRoot blake2256 (leaves.take (splitPoint leaves.length))
             right := merkleRoot blake2256 (leaves.drop (splitPoint leaves.length)) }])) ?_ ?_ hlong
  · intro first second
    have hroot : merkleRoot blake2256 [first, second] = hashChildren blake2256 first second := by
      rw [← merkleRoot_nextLevel, nextLevel, nextLevel, merkleRoot_singleton]
    change (nodesOver blake2256 [first, second]).Perm (nodesOver blake2256 [first] ++
      nodesOver blake2256 [second] ++ [{ hash := merkleRoot blake2256 [first, second]
                                         left := merkleRoot blake2256 [first]
                                         right := merkleRoot blake2256 [second] }])
    rw [nodesOver_nextLevel, nextLevel, nextLevel, nodesOver_singleton, nodesOver_singleton,
      nodesOver_singleton, hroot, merkleRoot_singleton, merkleRoot_singleton, levelNodes, levelNodes]
    · exact List.Perm.refl _
    · intro left right rest hash hashes hnil
      cases hnil
  · intro leaves _ _ hsplit ih
    -- the nodes of the lowest level go with their part, and the nodes above by induction
    rw [hsplit, nodesOver_nextLevel leaves, levelNodes_split leaves (splitPoint
        (nextLevel (hashChildren blake2256) leaves).length),
      nodesOver_nextLevel (leaves.take _), nodesOver_nextLevel (leaves.drop _),
      ← merkleRoot_nextLevel leaves, ← merkleRoot_nextLevel (leaves.take _),
      ← merkleRoot_nextLevel (leaves.drop _), MerkleTree.nextLevel_take, MerkleTree.nextLevel_drop]
    refine (ih.append_left _).trans ?_
    simp only [List.append_assoc]
    refine List.Perm.append_left _ ?_
    rw [← List.append_assoc, ← List.append_assoc (nodesOver blake2256 _)]
    exact List.Perm.append_right _ List.perm_append_comm

/-- Building level by level and splitting from the top give the same inner nodes. -/
theorem merkleTree_perm (leaves : List H256) :
    (merkleTree blake2256 leaves).2.Perm (rfcNodes blake2256 leaves) := by
  change (nodesOver blake2256 leaves).Perm (rfcNodes blake2256 leaves)
  induction leaves using rfcNodes.induct with
  | case1 leaves hlong ihleft ihright =>
    rw [rfcNodes, if_pos hlong]
    have hperm := @nodesOver_perm blake2256 _ hlong
    rw [merkleRoot_eq_rfcRoot, merkleRoot_eq_rfcRoot, merkleRoot_eq_rfcRoot] at hperm
    exact hperm.trans (List.Perm.append_right _ (ihleft.append ihright))
  | case2 leaves hshort =>
    rw [rfcNodes, if_neg hshort]
    match leaves, hshort with
    | [], _ => rw [nodesOver, MerkleTree.levels_nil]; exact List.Perm.refl _
    | [leaf], _ => rw [nodesOver_singleton]
    | _ :: _ :: _, hshort => simp at hshort

/-! ### Children before parents -/

theorem ChildrenFirst.mono {known known' : List H256} (hknown : known ⊆ known')
    {nodes : List MerkleNode} (h : ChildrenFirst blake2256 known nodes) :
    ChildrenFirst blake2256 known' nodes := by
  induction nodes generalizing known known' with
  | nil => trivial
  | cons node rest ih =>
    obtain ⟨⟨hhash, hleft, hright⟩, hrest⟩ := h
    refine ⟨⟨hhash, hknown hleft, hknown hright⟩, ih ?_ hrest⟩
    intro hash hmem
    rcases List.mem_append.mp hmem with hold | hnew
    · exact List.mem_append_left _ (hknown hold)
    · exact List.mem_append_right _ hnew

/-- Each node has the hash of its children. -/
theorem ChildrenFirst.hash_eq {known : List H256} {nodes : List MerkleNode}
    (h : ChildrenFirst blake2256 known nodes) :
    ∀ node ∈ nodes, node.hash = hashChildren blake2256 node.left node.right := by
  induction nodes generalizing known with
  | nil => simp
  | cons first rest ih =>
    intro node hnode
    rcases List.mem_cons.mp hnode with rfl | hlater
    · exact h.1.1
    · exact ih h.2 node hlater

theorem ChildrenFirst.append {known : List H256} {nodes rest : List MerkleNode}
    (h : ChildrenFirst blake2256 known nodes)
    (hrest : ChildrenFirst blake2256 (known ++ nodes.map (·.hash)) rest) :
    ChildrenFirst blake2256 known (nodes ++ rest) := by
  induction nodes generalizing known with
  | nil => rwa [List.map_nil, List.append_nil] at hrest
  | cons node nodes ih =>
    refine ⟨h.1, ih h.2 ?_⟩
    rw [List.map_cons] at hrest
    rwa [List.append_assoc, List.singleton_append]

/-- The nodes over the pairs of a level need its hashes only. -/
theorem childrenFirst_levelNodes {known leaves : List H256} (hknown : leaves ⊆ known) :
    ChildrenFirst blake2256 known (levelNodes leaves (nextLevel (hashChildren blake2256) leaves)) := by
  induction leaves using MerkleTree.nextLevel.induct generalizing known with
  | case1 => trivial
  | case2 last => trivial
  | case3 left right rest ih =>
    refine ⟨⟨rfl, hknown List.mem_cons_self, hknown (List.mem_cons_of_mem _ List.mem_cons_self)⟩, ?_⟩
    apply ih
    intro hash hmem
    exact List.mem_append_left _
      (hknown (List.mem_cons_of_mem _ (List.mem_cons_of_mem _ hmem)))

/-- A hash of the next level is that of a node over a pair, or of the last leaf moved up. -/
theorem mem_nextLevel {hash : H256} {leaves : List H256}
    (h : hash ∈ nextLevel (hashChildren blake2256) leaves) :
    hash ∈ leaves ∨
      hash ∈ (levelNodes leaves (nextLevel (hashChildren blake2256) leaves)).map (·.hash) := by
  induction leaves using MerkleTree.nextLevel.induct with
  | case1 => exact .inl h
  | case2 last => exact .inl h
  | case3 left right rest ih =>
    rw [nextLevel, List.mem_cons] at h
    rw [nextLevel, levelNodes, List.map_cons]
    rcases h with hhere | hrest
    · exact .inr (List.mem_cons.mpr (.inl hhere))
    · rcases ih hrest with hleaf | hnode
      · exact .inl (List.mem_cons_of_mem _ (List.mem_cons_of_mem _ hleaf))
      · exact .inr (List.mem_cons_of_mem _ hnode)

theorem childrenFirst_nodesOver {known leaves : List H256} (hknown : leaves ⊆ known) :
    ChildrenFirst blake2256 known (nodesOver blake2256 leaves) := by
  induction leaves using MerkleTree.levels.induct (hashChildren blake2256) generalizing known with
  | case1 leaves hlong ih =>
    rw [nodesOver_nextLevel]
    refine (childrenFirst_levelNodes hknown).append (ih ?_)
    intro hash hmem
    rcases mem_nextLevel hmem with hleaf | hnode
    · exact List.mem_append_left _ (hknown hleaf)
    · exact List.mem_append_right _ hnode
  | case2 hshort =>
    rw [nodesOver, MerkleTree.levels_nil]
    trivial
  | case3 leaves hshort _ =>
    rcases leaves with _ | ⟨leaf, _ | _⟩
    · rw [nodesOver, MerkleTree.levels_nil]
      trivial
    · rw [nodesOver_singleton]
      trivial
    · simp at hshort

/-- The last inner node is the root. -/
theorem getLast_nodesOver {leaves : List H256} (hlong : 1 < leaves.length) :
    ((nodesOver blake2256 leaves).map (·.hash)).getLast? = some (merkleRoot blake2256 leaves) := by
  refine MerkleTree.level_induction (hashChildren blake2256) (fun leaves ↦
    ((nodesOver blake2256 leaves).map (·.hash)).getLast? = some (merkleRoot blake2256 leaves))
    ?_ ?_ hlong
  · intro first second
    rw [nodesOver_nextLevel, ← merkleRoot_nextLevel, nextLevel, nextLevel, nodesOver_singleton,
      merkleRoot_singleton]
    rfl
  · intro leaves _ _ _ ih
    rw [nodesOver_nextLevel, List.map_append, List.getLast?_append, ih, merkleRoot_nextLevel]
    rfl

/-- The tree over some leaves is that of the recursive definition. The split it uses is the largest
power of two below the number of leaves; the root that is built level by level is the one by the split;
the inner nodes are those of the split, one less than the leaves, listed after their children, with the
root at the end. -/
theorem merkleTree_shape (leaves : List H256) (hne : leaves ≠ []) :
    merkleRoot blake2256 leaves = rfcRoot blake2256 leaves ∧
    (merkleTree blake2256 leaves).1 = rfcRoot blake2256 leaves ∧
    (merkleTree blake2256 leaves).2.Perm (rfcNodes blake2256 leaves) ∧
    (merkleTree blake2256 leaves).2.length + 1 = leaves.length ∧
    ChildrenFirst blake2256 leaves (merkleTree blake2256 leaves).2 ∧
    (leaves ++ (merkleTree blake2256 leaves).2.map (·.hash)).getLast? =
      some (rfcRoot blake2256 leaves) ∧
    (1 < leaves.length →
      IsGreatest {power | (∃ height, power = 2 ^ height) ∧ power < leaves.length}
        (splitPoint leaves.length)) := by
  have hroot := @merkleRoot_eq_rfcRoot blake2256 leaves
  refine ⟨hroot, hroot, merkleTree_perm leaves, length_nodesOver hne,
    childrenFirst_nodesOver (List.Subset.refl leaves), ?_, MerkleTree.splitPoint_isGreatest⟩
  rw [← hroot]
  change (leaves ++ (nodesOver blake2256 leaves).map (·.hash)).getLast? = _
  by_cases hlong : 1 < leaves.length
  · rw [List.getLast?_append, getLast_nodesOver hlong]
    rfl
  · match leaves, hlong, hne with
    | [leaf], _, _ =>
      rw [nodesOver_singleton, merkleRoot_singleton]
      rfl
    | _ :: _ :: _, hlong, _ => simp at hlong

theorem merkleTree_shape_three :
    merkleRoot blake2b256 threeLeaves = rfcRoot blake2b256 threeLeaves ∧
      (merkleTree blake2b256 threeLeaves).2.length = 2 ∧
      ChildrenFirst blake2b256 threeLeaves (merkleTree blake2b256 threeLeaves).2 := by
  obtain ⟨hroot, -, -, hlength, hfirst, -⟩ :=
    @merkleTree_shape blake2b256 threeLeaves (List.cons_ne_nil _ _)
  exact ⟨hroot, Nat.succ.inj hlength, hfirst⟩

end Web3Storage.Primitives
