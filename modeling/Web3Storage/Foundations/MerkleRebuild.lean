import Web3Storage.Foundations.MerkleTree

/-!
# A tree rebuilt from its proofs

A proof fixes its leaf only against the root of a tree that is known (`MerkleTree.eq_siblings_of_climb`).
Proofs for all leaves do more: walks from every place of a level to one value make it the root of the
tree over the level (`root_of_climbs`), as long as no two pairs that the walks combine give the same
node. At each level the walks of two neighbours meet, and the pair that they combine there is the pair
of the neighbours.
-/

set_option autoImplicit false
set_option relaxedAutoImplicit false

namespace Web3Storage.Foundations.MerkleTree

variable {H : Type} {combine : H → H → H} {level : List H}

/-! ### What a walk combines -/

/-- A walk ends without a value where the proof is too short. -/
theorem climb_nil {current : H} {index width : ℕ} (hwidth : width > 1)
    (h : index ≠ width - 1 ∨ width % 2 = 0) : climb combine current index width [] = none := by
  rw [climb, if_pos hwidth, if_pos h]

theorem climbPairs_nil {current : H} {index width : ℕ} (hwidth : width > 1)
    (h : index ≠ width - 1 ∨ width % 2 = 0) : climbPairs combine current index width [] = [] := by
  rw [climbPairs, if_pos hwidth, if_pos h]

/-- What the combined values have, the current node included, one side of every pair has. -/
theorem climbPairs_one_side {property : H → Prop}
    (hcombine : ∀ left right, property (combine left right)) {current : H} {index width : ℕ}
    {proof : List H} (hcurrent : property current) :
    ∀ pair ∈ climbPairs combine current index width proof, property pair.1 ∨ property pair.2 := by
  induction width using Nat.strongRecOn generalizing current index proof with
  | ind width ih =>
    intro pair hpair
    by_cases hwidth : width > 1
    · by_cases hsibling : index ≠ width - 1 ∨ width % 2 = 0
      · cases proof with
        | nil =>
          rw [climbPairs_nil hwidth hsibling] at hpair
          cases hpair
        | cons sibling rest =>
          rw [climbPairs_of_sibling hwidth hsibling] at hpair
          rcases List.mem_cons.mp hpair with rfl | habove
          · by_cases hodd : index % 2 = 1
            · rw [ordered, if_pos hodd]
              exact .inr hcurrent
            · rw [ordered, if_neg hodd]
              exact .inl hcurrent
          · exact ih _ (by omega) (hcombine _ _) pair habove
      · rw [climbPairs_of_last hwidth hsibling] at hpair
        exact ih _ (by omega) hcurrent pair hpair
    · rw [climbPairs.eq_def, if_neg hwidth] at hpair
      cases hpair

/-- What the combined values, the current node and the proof have, both sides of every pair have. -/
theorem climbPairs_both_sides {property : H → Prop}
    (hcombine : ∀ left right, property (combine left right)) {current : H} {index width : ℕ}
    {proof : List H} (hcurrent : property current) (hproof : ∀ sibling ∈ proof, property sibling) :
    ∀ pair ∈ climbPairs combine current index width proof, property pair.1 ∧ property pair.2 := by
  induction width using Nat.strongRecOn generalizing current index proof with
  | ind width ih =>
    intro pair hpair
    by_cases hwidth : width > 1
    · by_cases hsibling : index ≠ width - 1 ∨ width % 2 = 0
      · cases proof with
        | nil =>
          rw [climbPairs_nil hwidth hsibling] at hpair
          cases hpair
        | cons sibling rest =>
          rw [climbPairs_of_sibling hwidth hsibling] at hpair
          have hside := hproof sibling List.mem_cons_self
          rcases List.mem_cons.mp hpair with rfl | habove
          · by_cases hodd : index % 2 = 1
            · rw [ordered, if_pos hodd]
              exact ⟨hside, hcurrent⟩
            · rw [ordered, if_neg hodd]
              exact ⟨hcurrent, hside⟩
          · exact ih _ (by omega) (hcombine _ _)
              (fun sibling hmem ↦ hproof sibling (List.mem_cons_of_mem _ hmem)) pair habove
      · rw [climbPairs_of_last hwidth hsibling] at hpair
        exact ih _ (by omega) hcurrent hproof pair hpair
    · rw [climbPairs.eq_def, if_neg hwidth] at hpair
      cases hpair

/-! ### Walks to one value -/

/-- No two of some pairs give the same node. -/
def Distinguishes (combine : H → H → H) (pairs : Set (H × H)) : Prop :=
  ∀ pair ∈ pairs, ∀ pair' ∈ pairs,
    combine pair.1 pair.2 = combine pair'.1 pair'.2 → pair = pair'

/-- The two sides of a pair with their order undone. -/
theorem ordered_inj {index : ℕ} {node node' sibling sibling' : H}
    (h : ordered index node sibling = ordered index node' sibling') :
    node = node' ∧ sibling = sibling' := by
  unfold ordered at h
  by_cases hodd : index % 2 = 1
  · rw [if_pos hodd, if_pos hodd, Prod.mk.injEq] at h
    exact h.symm
  · rw [if_neg hodd, if_neg hodd, Prod.mk.injEq] at h
    exact h

/-- Two walks from one place to the same value start from the same node. -/
theorem eq_of_climb {pairs : Set (H × H)} (hfree : Distinguishes combine pairs) {current current' top : H}
    {index width : ℕ} {proof proof' : List H}
    (hpairs : ∀ pair ∈ climbPairs combine current index width proof, pair ∈ pairs)
    (hpairs' : ∀ pair ∈ climbPairs combine current' index width proof', pair ∈ pairs)
    (h : climb combine current index width proof = some (top, []))
    (h' : climb combine current' index width proof' = some (top, [])) : current = current' := by
  induction width using Nat.strongRecOn generalizing current current' index proof proof' with
  | ind width ih =>
    by_cases hwidth : width > 1
    · by_cases hsibling : index ≠ width - 1 ∨ width % 2 = 0
      · cases proof with
        | nil =>
          rw [climb_nil hwidth hsibling] at h
          cases h
        | cons sibling rest =>
          cases proof' with
          | nil =>
            rw [climb_nil hwidth hsibling] at h'
            cases h'
          | cons sibling' rest' =>
            rw [climbPairs_of_sibling hwidth hsibling] at hpairs hpairs'
            rw [climb_of_sibling hwidth hsibling] at h h'
            have habove := ih _ (by omega)
              (fun pair hpair ↦ hpairs pair (List.mem_cons_of_mem _ hpair))
              (fun pair hpair ↦ hpairs' pair (List.mem_cons_of_mem _ hpair)) h h'
            have hsame := hfree _ (hpairs _ List.mem_cons_self) _ (hpairs' _ List.mem_cons_self) habove
            exact (ordered_inj hsame).1
      · rw [climbPairs_of_last hwidth hsibling] at hpairs hpairs'
        rw [climb_of_last hwidth hsibling] at h h'
        exact ih _ (by omega) hpairs hpairs' h h'
    · rw [climb_of_not_lt hwidth] at h h'
      cases h
      cases h'
      rfl

/-- A walk with all that it combines in a set. -/
def Reaches (combine : H → H → H) (pairs : Set (H × H)) (index width : ℕ) (current top : H) : Prop :=
  ∃ proof, climb combine current index width proof = some (top, []) ∧
    ∀ pair ∈ climbPairs combine current index width proof, pair ∈ pairs

/-- The first step of a walk from a node with a sibling. -/
theorem Reaches.step {pairs : Set (H × H)} {index width : ℕ} {current top : H}
    (h : Reaches combine pairs index width current top) (hwidth : width > 1)
    (hsibling : index ≠ width - 1 ∨ width % 2 = 0) :
    ∃ sibling, ordered index current sibling ∈ pairs ∧
      Reaches combine pairs (index / 2) ((width + 1) / 2)
        (combine (ordered index current sibling).1 (ordered index current sibling).2) top := by
  obtain ⟨proof, hclimb, hpairs⟩ := h
  cases proof with
  | nil =>
    rw [climb_nil hwidth hsibling] at hclimb
    cases hclimb
  | cons sibling rest =>
    rw [climb_of_sibling hwidth hsibling] at hclimb
    rw [climbPairs_of_sibling hwidth hsibling] at hpairs
    exact ⟨sibling, hpairs _ List.mem_cons_self, rest, hclimb,
      fun pair hpair ↦ hpairs pair (List.mem_cons_of_mem _ hpair)⟩

/-- Walks from all places of a level go on as walks from all places of the next. -/
theorem reaches_nextLevel {pairs : Set (H × H)} (hfree : Distinguishes combine pairs) {top : H}
    (hlong : 1 < level.length)
    (h : ∀ index node, level[index]? = some node → Reaches combine pairs index level.length node top)
    {j : ℕ} {node : H} (hnode : (nextLevel combine level)[j]? = some node) :
    Reaches combine pairs j (nextLevel combine level).length node top := by
  have hj := (List.getElem?_eq_some_iff.mp hnode).1
  rw [length_nextLevel] at hj ⊢
  have hleft : 2 * j < level.length := by omega
  have hhalf : 2 * j / 2 = j := by omega
  have heven : ¬ 2 * j % 2 = 1 := by omega
  have hfirst := List.getElem?_eq_getElem hleft
  by_cases hsibling : 2 * j ≠ level.length - 1 ∨ level.length % 2 = 0
  · have hright : 2 * j + 1 < level.length := by omega
    have hsecond := List.getElem?_eq_getElem hright
    have hodd : (2 * j + 1) % 2 = 1 := by omega
    have hhalf' : (2 * j + 1) / 2 = j := by omega
    -- the walks of the two neighbours meet
    obtain ⟨right, hmem, hreach⟩ := (h _ _ hfirst).step hlong hsibling
    obtain ⟨left, hmem', hreach'⟩ := (h _ _ hsecond).step hlong (by omega)
    rw [ordered, if_neg heven] at hmem hreach
    rw [ordered, if_pos hodd] at hmem' hreach'
    rw [hhalf] at hreach
    rw [hhalf'] at hreach'
    obtain ⟨proof, hclimb, hpairs⟩ := hreach
    obtain ⟨proof', hclimb', hpairs'⟩ := hreach'
    have hmeet := eq_of_climb hfree hpairs hpairs' hclimb hclimb'
    have hsame := hfree _ hmem _ hmem' hmeet
    rw [Prod.mk.injEq] at hsame
    rw [nextLevel_pair hfirst hsecond] at hnode
    cases hnode
    rw [← hsame.2]
    exact ⟨proof, hclimb, hpairs⟩
  · obtain ⟨proof, hclimb, hpairs⟩ := h _ _ hfirst
    rw [climb_of_last hlong hsibling, hhalf] at hclimb
    rw [climbPairs_of_last hlong hsibling, hhalf] at hpairs
    have hup := nextLevel_of_last combine hleft hsibling
    rw [hhalf, hnode, hfirst] at hup
    cases hup
    exact ⟨proof, hclimb, hpairs⟩

/-- Walks from all places of a level to one value make it the root. -/
theorem root_of_climbs {pairs : Set (H × H)} (hfree : Distinguishes combine pairs) {top : H}
    (hne : level ≠ [])
    (h : ∀ index node, level[index]? = some node → Reaches combine pairs index level.length node top) :
    (levels combine level).getLast? = some [top] := by
  induction level using levels.induct combine with
  | case1 level hlong ih =>
    rw [getLast_levels_of_lt hlong]
    apply ih
    · intro hnil
      have hlength := length_nextLevel combine level
      rw [hnil, List.length_nil] at hlength
      omega
    · intro j node hnode
      exact reaches_nextLevel hfree hlong h hnode
  | case2 hshort => exact absurd rfl hne
  | case3 level hshort _ =>
    obtain ⟨last, rfl⟩ : ∃ last, level = [last] := by
      rw [← List.length_eq_one_iff]
      have hpos := List.length_pos_iff.mpr hne
      omega
    obtain ⟨proof, hclimb, -⟩ := h 0 last rfl
    rw [climb_of_not_lt hshort] at hclimb
    cases hclimb
    rw [levels_singleton]
    rfl

/-! ### Trees that correspond -/

section Correspond

variable {A B : Type} {combineA : A → A → A} {combineB : B → B → B} {f : A → B}

theorem pairs_map (level : List A) : pairs (level.map f) = (pairs level).map (Prod.map f f) := by
  induction level using nextLevel.induct with
  | case1 => rfl
  | case2 last => rfl
  | case3 left right rest ih =>
    simp only [List.map_cons, pairs, ih]
    rfl

theorem treePairs_map (hf : ∀ a b, f (combineA a b) = combineB (f a) (f b)) (level : List A) :
    treePairs combineB (level.map f) = (treePairs combineA level).map (Prod.map f f) := by
  rw [treePairs, levels_map hf, treePairs, List.flatMap_map, List.map_flatMap]
  exact List.flatMap_congr fun level _ ↦ pairs_map level

theorem siblings_map (levels : List (List A)) (index : ℕ) :
    siblings (levels.map (List.map f)) index = (siblings levels index).map f := by
  induction levels generalizing index with
  | nil => rfl
  | cons level above ih =>
    cases above with
    | nil => rfl
    | cons next rest =>
      rw [List.map_cons] at ih
      simp only [List.map_cons, siblings, List.length_map]
      by_cases hsibling : index ≠ level.length - 1 ∨ level.length % 2 = 0
      · rw [if_pos hsibling, if_pos hsibling, List.map_append, List.getElem?_map, ih]
        cases level[index ^^^ 1]? with
        | none => rfl
        | some sibling => rfl
      · rw [if_neg hsibling, if_neg hsibling]
        exact ih (index / 2)

/-- Walks that correspond end alike. -/
theorem climb_map (hf : ∀ a b, f (combineA a b) = combineB (f a) (f b)) (current : A)
    (index width : ℕ) (proof : List A) :
    climb combineB (f current) index width (proof.map f) =
      (climb combineA current index width proof).map fun top ↦ (f top.1, top.2.map f) := by
  induction width using Nat.strongRecOn generalizing current index proof with
  | ind width ih =>
    by_cases hwidth : width > 1
    · by_cases hsibling : index ≠ width - 1 ∨ width % 2 = 0
      · cases proof with
        | nil =>
          rw [List.map_nil, climb_nil hwidth hsibling, climb_nil hwidth hsibling]
          rfl
        | cons sibling rest =>
          have hordered : combineB (ordered index (f current) (f sibling)).1
                (ordered index (f current) (f sibling)).2 =
              f (combineA (ordered index current sibling).1 (ordered index current sibling).2) := by
            by_cases hodd : index % 2 = 1
            · rw [ordered, ordered, if_pos hodd, if_pos hodd, hf]
            · rw [ordered, ordered, if_neg hodd, if_neg hodd, hf]
          rw [List.map_cons, climb_of_sibling hwidth hsibling, climb_of_sibling hwidth hsibling,
            hordered]
          exact ih _ (by omega) _ _ _
      · rw [climb_of_last hwidth hsibling, climb_of_last hwidth hsibling]
        exact ih _ (by omega) _ _ _
    · rw [climb_of_not_lt hwidth, climb_of_not_lt hwidth]
      rfl

end Correspond

end Web3Storage.Foundations.MerkleTree
