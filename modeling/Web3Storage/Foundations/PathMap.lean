import Mathlib

/-!
# Trees as maps from paths

A tree is the map from the path of each of its nodes, the names from the root on, to what stands there.
`below` is the part of a tree under a path, `graft` puts a part there, and `stamp` writes one value at a
path and at every path on the way to it, as a change does that renews the nodes it passes. The laws go
down by one name, so that an induction over a path can follow them.
-/

set_option autoImplicit false
set_option relaxedAutoImplicit false

namespace Web3Storage.Foundations

/-- What stands at each path of a tree. -/
abbrev PathMap (α β : Type) := List α → Option β

namespace PathMap

variable {α β : Type}

/-- The part of a tree under a path. -/
def below (map : PathMap α β) (dir : List α) : PathMap α β := fun path ↦ map (dir ++ path)

/-- The tree without nodes. -/
def empty : PathMap α β := fun _ ↦ none

/-- The tree of one node. -/
def single (value : β) : PathMap α β
  | [] => some value
  | _ :: _ => none

section Changes

variable [DecidableEq α]

/-- Put a part under a path, in place of what stands there and below. -/
def graft (map : PathMap α β) (dir : List α) (part : PathMap α β) : PathMap α β :=
  fun path ↦ if dir <+: path then part (path.drop dir.length) else map path

/-- Write a value at a path and on the way to it. -/
def stamp (map : PathMap α β) (dir : List α) (value : β) : PathMap α β :=
  fun path ↦ if path <+: dir then some value else map path

end Changes

variable {map part : PathMap α β}

theorem below_nil (map : PathMap α β) : map.below [] = map :=
  rfl

theorem below_below (map : PathMap α β) (dir rest : List α) :
    (map.below dir).below rest = map.below (dir ++ rest) := by
  funext path
  rw [below, below, below, List.append_assoc]

theorem below_cons (map : PathMap α β) (name : α) (rest : List α) :
    map.below (name :: rest) = (map.below [name]).below rest :=
  rfl

variable [DecidableEq α] {value : β} {name other : α} {dir rest : List α}

theorem graft_nil (map part : PathMap α β) : map.graft [] part = part := by
  funext path
  rw [graft, if_pos List.nil_prefix, List.length_nil, List.drop_zero]

theorem graft_of_not_isPrefix {path : List α} (h : ¬ dir <+: path) : map.graft dir part path = map path :=
  if_neg h

theorem stamp_of_isPrefix {path : List α} (h : path <+: dir) : map.stamp dir value path = some value :=
  if_pos h

theorem stamp_of_not_isPrefix {path : List α} (h : ¬ path <+: dir) : map.stamp dir value path = map path :=
  if_neg h

/-- Under its first name a part is put under the rest of the path. -/
theorem below_graft_same :
    (map.graft (name :: dir) part).below [name] = (map.below [name]).graft dir part := by
  funext path
  have hiff : name :: dir <+: name :: path ↔ dir <+: path := by simp
  change (if name :: dir <+: name :: path then _ else _) = if dir <+: path then _ else _
  by_cases h : dir <+: path
  · rw [if_pos h, if_pos (hiff.mpr h)]
    rfl
  · rw [if_neg h, if_neg fun hcontra ↦ h (hiff.mp hcontra)]
    rfl

/-- Under another name everything stays. -/
theorem below_graft_other (h : other ≠ name) :
    (map.graft (name :: dir) part).below [other] = map.below [other] := by
  funext path
  refine if_neg fun hpre ↦ h ?_
  rw [List.singleton_append, List.cons_prefix_cons] at hpre
  exact hpre.1.symm

/-- A value at the root does not show under a name. -/
theorem below_stamp_nil (map : PathMap α β) (value : β) (name : α) :
    (map.stamp [] value).below [name] = map.below [name] := by
  funext path
  exact stamp_of_not_isPrefix fun hpre ↦ List.cons_ne_nil _ _ (List.prefix_nil.mp hpre)

theorem below_stamp_same :
    (map.stamp (name :: dir) value).below [name] = (map.below [name]).stamp dir value := by
  funext path
  have hiff : name :: path <+: name :: dir ↔ path <+: dir := by simp
  change (if name :: path <+: name :: dir then _ else _) = if path <+: dir then _ else _
  by_cases h : path <+: dir
  · rw [if_pos h, if_pos (hiff.mpr h)]
  · rw [if_neg h, if_neg fun hcontra ↦ h (hiff.mp hcontra)]
    rfl

theorem below_stamp_other (h : other ≠ name) :
    (map.stamp (name :: dir) value).below [other] = map.below [other] := by
  funext path
  refine if_neg fun hpre ↦ h ?_
  rw [List.singleton_append, List.cons_prefix_cons] at hpre
  exact hpre.1

/-- A part that is put under a path whose nodes are renewed, seen from its first name. -/
theorem below_stamp_graft (map part : PathMap α β) (name : α) (dir : List α) (value : β) (other : α) :
    ((map.graft (name :: dir) part).stamp (name :: dir) value).below [other] =
      (map.graft [name] (((map.below [name]).graft dir part).stamp dir value)).below [other] := by
  by_cases hsame : other = name
  · rw [hsame, below_stamp_same, below_graft_same, below_graft_same, graft_nil]
  · rw [below_stamp_other hsame, below_graft_other hsame, below_graft_other hsame]

/-- A part is found where it was put. -/
theorem below_graft (map part : PathMap α β) (dir : List α) : (map.graft dir part).below dir = part := by
  funext path
  rw [below, graft, if_pos (List.prefix_append _ _), List.drop_left]

/-- A part put under a path of a part that was put. -/
theorem graft_append (map part : PathMap α β) (dir rest : List α) :
    map.graft (dir ++ rest) part = map.graft dir ((map.below dir).graft rest part) := by
  induction dir generalizing map with
  | nil => rw [List.nil_append, graft_nil, below_nil]
  | cons name dir ih =>
    funext path
    cases path with
    | nil => simp [graft]
    | cons other path =>
      by_cases h : other = name
      · subst h
        have hleft : (map.graft (other :: (dir ++ rest)) part).below [other] =
            (map.below [other]).graft (dir ++ rest) part := below_graft_same
        have hright : (map.graft (other :: dir) ((map.below (other :: dir)).graft rest part)).below [other] =
            (map.below [other]).graft dir ((map.below (other :: dir)).graft rest part) := below_graft_same
        rw [ih] at hleft
        exact (congrFun hleft path).trans (congrFun hright path).symm
      · have hleft : (map.graft (name :: (dir ++ rest)) part).below [other] = map.below [other] :=
          below_graft_other h
        have hright : (map.graft (name :: dir) ((map.below (name :: dir)).graft rest part)).below [other] =
            map.below [other] := below_graft_other h
        exact (congrFun hleft path).trans (congrFun hright path).symm

/-- What stands under a path is put there again. -/
theorem graft_below (map : PathMap α β) (dir : List α) : map.graft dir (map.below dir) = map := by
  funext path
  by_cases h : dir <+: path
  · obtain ⟨rest, rfl⟩ := h
    rw [graft, if_pos (List.prefix_append _ _), below, List.drop_left]
  · exact graft_of_not_isPrefix h

theorem below_graft_append (map part : PathMap α β) (dir rest : List α) :
    (map.graft (dir ++ rest) part).below dir = (map.below dir).graft rest part := by
  rw [graft_append, below_graft]

theorem below_stamp_append (map : PathMap α β) (dir rest : List α) (value : β) :
    (map.stamp (dir ++ rest) value).below dir = (map.below dir).stamp rest value := by
  induction dir generalizing map with
  | nil => rfl
  | cons name dir ih =>
    rw [List.cons_append, below_cons, below_stamp_same, ih]
    rfl

end PathMap

end Web3Storage.Foundations
