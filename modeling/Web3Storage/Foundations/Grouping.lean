import Mathlib

/-!
# Grouping a list and its longest group

Values are grouped by a key, each group in the order of the list. The groups are traversed in any
order, as those of a hash map are; of several longest groups the last one traversed wins.
-/

set_option autoImplicit false
set_option relaxedAutoImplicit false

namespace Web3Storage.Foundations

variable {K V : Type} [DecidableEq K]

/-- Add a value to the end of the group of a key. -/
def pushTo (key : K) (value : V) : List (K × List V) → List (K × List V)
  | [] => [(key, [value])]
  | group :: rest =>
    if group.1 = key then (key, group.2 ++ [value]) :: rest else group :: pushTo key value rest

/-- The groups of a list. -/
def grouped (key : V → K) (values : List V) : List (K × List V) :=
  values.foldl (fun groups value ↦ pushTo (key value) value groups) []

/-- The last of the longest groups. -/
def lastLongest (groups : List (K × List V)) : Option (K × List V) :=
  groups.foldl (fun best group ↦ match best with
    | none => some group
    | some longest => if longest.2.length ≤ group.2.length then some group else some longest) none

/-- An order in which groups are traversed. -/
structure Traversal (K V : Type) where
  order : List (K × List V) → List (K × List V)
  perm : ∀ groups, (order groups).Perm groups

/-! ### Groups -/

theorem mem_pushTo {key : K} {value : V} {groups : List (K × List V)}
    (hnodup : (groups.map Prod.fst).Nodup) {other : K} {members : List V} :
    (other, members) ∈ pushTo key value groups ↔
      other ≠ key ∧ (other, members) ∈ groups ∨
        other = key ∧ ((∃ old, (key, old) ∈ groups ∧ members = old ++ [value]) ∨
          (∀ old, (key, old) ∉ groups) ∧ members = [value]) := by
  induction groups with
  | nil => simp [pushTo]
  | cons group rest ih =>
    obtain ⟨first, old⟩ := group
    simp only [List.map_cons, List.nodup_cons, List.mem_map, not_exists, not_and] at hnodup
    obtain ⟨hfirst, hrest⟩ := hnodup
    have hnew (entry : List V) : (first, entry) ∉ rest := fun hmem ↦ hfirst _ hmem rfl
    unfold pushTo
    split_ifs with hkey
    · simp only at hkey
      subst hkey
      simp only [List.mem_cons, Prod.mk.injEq]
      constructor
      · rintro (⟨rfl, rfl⟩ | hmem)
        · exact .inr ⟨rfl, .inl ⟨old, .inl ⟨trivial, rfl⟩, rfl⟩⟩
        · refine .inl ⟨?_, .inr hmem⟩
          rintro rfl
          exact hnew _ hmem
      · rintro (⟨hne, ⟨rfl, -⟩ | hmem⟩ | ⟨rfl, ⟨entry, ⟨-, rfl⟩ | hmem, rfl⟩ | ⟨hnone, -⟩⟩)
        · exact absurd rfl hne
        · exact .inr hmem
        · exact .inl ⟨rfl, rfl⟩
        · exact absurd hmem (hnew _)
        · exact absurd (.inl ⟨trivial, rfl⟩) (hnone old)
    · simp only at hkey
      rw [List.mem_cons, ih hrest]
      simp only [List.mem_cons, Prod.mk.injEq]
      constructor
      · rintro (⟨rfl, rfl⟩ | ⟨hne, hmem⟩ | ⟨rfl, ⟨entry, hmem, rfl⟩ | ⟨hnone, rfl⟩⟩)
        · exact .inl ⟨hkey, .inl ⟨rfl, rfl⟩⟩
        · exact .inl ⟨hne, .inr hmem⟩
        · exact .inr ⟨rfl, .inl ⟨entry, .inr hmem, rfl⟩⟩
        · refine .inr ⟨rfl, .inr ⟨fun entry hentry ↦ ?_, rfl⟩⟩
          rcases hentry with ⟨rfl, -⟩ | hmem
          · exact hkey rfl
          · exact hnone _ hmem
      · rintro (⟨hne, ⟨rfl, rfl⟩ | hmem⟩ | ⟨rfl, ⟨entry, ⟨rfl, -⟩ | hmem, rfl⟩ | ⟨hnone, rfl⟩⟩)
        · exact .inl ⟨rfl, rfl⟩
        · exact .inr (.inl ⟨hne, hmem⟩)
        · exact absurd rfl hkey
        · exact .inr (.inr ⟨rfl, .inl ⟨entry, hmem, rfl⟩⟩)
        · exact .inr (.inr ⟨rfl, .inr ⟨fun entry hmem ↦ hnone entry (.inr hmem), rfl⟩⟩)

theorem nodup_pushTo {key : K} {value : V} {groups : List (K × List V)}
    (hnodup : (groups.map Prod.fst).Nodup) : ((pushTo key value groups).map Prod.fst).Nodup := by
  induction groups with
  | nil => simp [pushTo]
  | cons group rest ih =>
    simp only [List.map_cons, List.nodup_cons] at hnodup
    unfold pushTo
    split_ifs with hkey
    · rw [List.map_cons, List.nodup_cons]
      exact ⟨hkey ▸ hnodup.1, hnodup.2⟩
    · rw [List.map_cons, List.nodup_cons]
      refine ⟨fun hmem ↦ ?_, ih hnodup.2⟩
      obtain ⟨⟨other, members⟩, hpushed, hother⟩ := List.mem_map.1 hmem
      simp only at hother
      subst hother
      rcases (mem_pushTo hnodup.2).1 hpushed with ⟨-, hold⟩ | ⟨hsame, -⟩
      · exact hnodup.1 (List.mem_map.2 ⟨_, hold, rfl⟩)
      · exact hkey hsame

/-- The group of a key is what the list has under that key, and there are no empty groups. -/
theorem mem_grouped (key : V → K) (values : List V) {k : K} {members : List V} :
    (k, members) ∈ grouped key values ↔
      members ≠ [] ∧ members = values.filter fun value ↦ key value = k := by
  have hboth : ((grouped key values).map Prod.fst).Nodup ∧ ∀ k members,
      (k, members) ∈ grouped key values ↔
        members ≠ [] ∧ members = values.filter fun value ↦ key value = k := by
    induction values using List.reverseRecOn with
    | nil => simp [grouped]
    | append_singleton values value ih =>
      obtain ⟨hnodup, hmem⟩ := ih
      have hpush : grouped key (values ++ [value]) = pushTo (key value) value (grouped key values) := by
        simp [grouped]
      rw [hpush]
      refine ⟨nodup_pushTo hnodup, fun k members ↦ ?_⟩
      rw [mem_pushTo hnodup, List.filter_append]
      by_cases hk : k = key value
      · subst hk
        simp only [ne_eq, not_true_eq_false, false_and, true_and, false_or, hmem, List.filter_cons,
          decide_true, if_true, List.filter_nil]
        constructor
        · rintro (⟨old, ⟨-, rfl⟩, rfl⟩ | ⟨hnone, rfl⟩)
          · simp
          · have hempty : values.filter (fun other ↦ key other = key value) = [] := by
              by_contra hne
              exact hnone _ ⟨hne, rfl⟩
            rw [hempty]
            simp
        · rintro ⟨-, rfl⟩
          by_cases hempty : values.filter (fun other ↦ key other = key value) = []
          · refine .inr ⟨?_, by rw [hempty]; rfl⟩
            rintro old ⟨hne, rfl⟩
            exact hne hempty
          · exact .inl ⟨_, ⟨hempty, rfl⟩, rfl⟩
      · have hother : key value ≠ k := fun h ↦ hk h.symm
        simp [hk, hother, hmem]
  exact hboth.2 k members

/-! ### The longest group -/

omit [DecidableEq K] in
private theorem lastLongest_concat (groups : List (K × List V)) (group : K × List V) :
    lastLongest (groups ++ [group]) = match lastLongest groups with
      | none => some group
      | some longest => if longest.2.length ≤ group.2.length then some group else some longest := by
  simp [lastLongest]

omit [DecidableEq K] in
theorem lastLongest_eq_none (groups : List (K × List V)) : lastLongest groups = none ↔ groups = [] := by
  induction groups using List.reverseRecOn with
  | nil => simp [lastLongest]
  | append_singleton groups group ih =>
    rw [lastLongest_concat]
    cases lastLongest groups with
    | none => simp
    | some longest =>
      simp only
      split_ifs
      · simp
      · simp

omit [DecidableEq K] in
/-- The longest group is a group, and no group is longer. -/
theorem lastLongest_spec {groups : List (K × List V)} {longest : K × List V}
    (h : lastLongest groups = some longest) :
    longest ∈ groups ∧ ∀ group ∈ groups, group.2.length ≤ longest.2.length := by
  induction groups using List.reverseRecOn generalizing longest with
  | nil => cases h
  | append_singleton groups group ih =>
    rw [lastLongest_concat] at h
    cases hbefore : lastLongest groups with
    | none =>
      rw [hbefore] at h
      cases h
      rw [lastLongest_eq_none] at hbefore
      subst hbefore
      simp
    | some before =>
      obtain ⟨hmem, hmax⟩ := ih hbefore
      rw [hbefore] at h
      simp only at h
      split_ifs at h with hle
      · cases h
        refine ⟨by simp, fun other hother ↦ ?_⟩
        rcases List.mem_append.1 hother with hold | hnew
        · exact (hmax other hold).trans hle
        · rw [List.mem_singleton.1 hnew]
      · cases h
        refine ⟨List.mem_append_left _ hmem, fun other hother ↦ ?_⟩
        rcases List.mem_append.1 hother with hold | hnew
        · exact hmax other hold
        · rw [List.mem_singleton.1 hnew]
          omega

omit [DecidableEq K] in
/-- A group that no other exceeds wins when it is traversed last. -/
theorem lastLongest_concat_of_max {groups : List (K × List V)} {group : K × List V}
    (h : ∀ other ∈ groups, other.2.length ≤ group.2.length) :
    lastLongest (groups ++ [group]) = some group := by
  rw [lastLongest_concat]
  cases hbefore : lastLongest groups with
  | none => rfl
  | some before =>
    simp only
    rw [if_pos (h before (lastLongest_spec hbefore).1)]

end Web3Storage.Foundations
