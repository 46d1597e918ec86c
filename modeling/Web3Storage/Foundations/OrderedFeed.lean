import Mathlib

/-!
# Feeds in the order of their keys

A feed is a list of items with keys, and `items` lists the items of each key. A feed is `Orderly` if
its keys never go back and it has the items of each key at most once, from the first one on. It stays
orderly when the items of further keys are appended, all of them above the keys it has.
-/

set_option autoImplicit false
set_option relaxedAutoImplicit false

namespace Web3Storage.Foundations

variable {Key Item : Type} [LinearOrder Key]

/-- The keys of a feed never go back, and it has the items of each key at most once and in their
order. -/
structure Orderly (key : Item → Key) (items : Key → List Item) (feed : List Item) : Prop where
  ordered : feed.Pairwise fun before after ↦ key before ≤ key after
  once : ∀ k, feed.filter (fun item ↦ decide (key item = k)) <+: items k

namespace Orderly

variable {key : Item → Key} {items : Key → List Item} {feed sent : List Item} {keys : List Key}

theorem nil : Orderly key items [] where
  ordered := .nil
  once _ := List.nil_prefix

/-- The items of a key among those of some keys. -/
theorem filter_flatMap (hitems : ∀ k, ∀ item ∈ items k, key item = k) (hkeys : keys.Nodup) (k : Key) :
    (keys.flatMap items).filter (fun item ↦ decide (key item = k)) =
      if k ∈ keys then items k else [] := by
  induction keys with
  | nil => rfl
  | cons first rest ih =>
    rw [List.nodup_cons] at hkeys
    rw [List.flatMap_cons, List.filter_append, ih hkeys.2]
    by_cases hfirst : k = first
    · subst hfirst
      have hall : (items k).filter (fun item ↦ decide (key item = k)) = items k := by
        rw [List.filter_eq_self]
        intro item hitem
        exact decide_eq_true (hitems k item hitem)
      rw [hall, if_neg hkeys.1, if_pos List.mem_cons_self, List.append_nil]
    · have hnone : (items first).filter (fun item ↦ decide (key item = k)) = [] := by
        rw [List.filter_eq_nil_iff]
        intro item hitem hk
        rw [decide_eq_true_eq, hitems first item hitem] at hk
        exact hfirst hk.symm
      rw [hnone, List.nil_append]
      by_cases hrest : k ∈ rest
      · rw [if_pos hrest, if_pos (List.mem_cons_of_mem _ hrest)]
      · rw [if_neg hrest, if_neg]
        intro hmem
        rcases List.mem_cons.mp hmem with heq | hin
        · exact hfirst heq
        · exact hrest hin

/-- The items of increasing keys are in the order of their keys. -/
theorem pairwise_flatMap (hitems : ∀ k, ∀ item ∈ items k, key item = k)
    (hkeys : keys.Pairwise (· < ·)) :
    (keys.flatMap items).Pairwise fun before after ↦ key before ≤ key after := by
  rw [List.pairwise_flatMap]
  constructor
  · intro k hk
    refine List.pairwise_of_forall_mem_list fun before hbefore after hafter ↦ ?_
    rw [hitems k before hbefore, hitems k after hafter]
  · refine hkeys.imp fun {k k'} hlt before hbefore after hafter ↦ ?_
    rw [hitems k before hbefore, hitems k' after hafter]
    exact hlt.le

/-- An orderly feed stays orderly when items of further keys are appended, or a first part of them.
Assumes: increasing keys above those of the feed. -/
theorem append (hfeed : Orderly key items feed) (hitems : ∀ k, ∀ item ∈ items k, key item = k)
    (hkeys : keys.Pairwise (· < ·)) (habove : ∀ item ∈ feed, ∀ k ∈ keys, key item < k)
    (hsent : sent <+: keys.flatMap items) : Orderly key items (feed ++ sent) where
  ordered := by
    rw [List.pairwise_append]
    refine ⟨hfeed.ordered, (pairwise_flatMap hitems hkeys).sublist hsent.sublist, ?_⟩
    intro before hbefore after hafter
    obtain ⟨k, hk, hitem⟩ := List.mem_flatMap.mp (hsent.subset hafter)
    rw [hitems k after hitem]
    exact (habove before hbefore k hk).le
  once k := by
    have hfilter := hsent.filter fun item ↦ decide (key item = k)
    rw [filter_flatMap hitems (hkeys.imp fun hlt ↦ hlt.ne)] at hfilter
    rw [List.filter_append]
    by_cases hk : k ∈ keys
    · have hnone : feed.filter (fun item ↦ decide (key item = k)) = [] := by
        rw [List.filter_eq_nil_iff]
        intro item hitem heq
        rw [decide_eq_true_eq] at heq
        have hlt := habove item hitem k hk
        rw [heq] at hlt
        exact lt_irrefl k hlt
      rw [if_pos hk] at hfilter
      rwa [hnone, List.nil_append]
    · rw [if_neg hk, List.prefix_nil] at hfilter
      rw [hfilter, List.append_nil]
      exact hfeed.once k

/-- A feed with the items of a key above its own has all of them when they were appended. -/
theorem filter_append_eq (hitems : ∀ k, ∀ item ∈ items k, key item = k)
    (hkeys : keys.Pairwise (· < ·)) (habove : ∀ item ∈ feed, ∀ k ∈ keys, key item < k) {k : Key}
    (hk : k ∈ keys) :
    (feed ++ keys.flatMap items).filter (fun item ↦ decide (key item = k)) = items k := by
  have hnone : feed.filter (fun item ↦ decide (key item = k)) = [] := by
    rw [List.filter_eq_nil_iff]
    intro item hitem heq
    rw [decide_eq_true_eq] at heq
    have hlt := habove item hitem k hk
    rw [heq] at hlt
    exact lt_irrefl k hlt
  rw [List.filter_append, hnone, List.nil_append,
    filter_flatMap hitems (hkeys.imp fun hlt ↦ hlt.ne), if_pos hk]

/-- A feed with items of one key twice is not orderly. -/
theorem not_of_repeated {k : Key} (hnone : items k ≠ [])
    (h : List.Sublist (items k ++ items k) (feed.filter fun item ↦ decide (key item = k))) :
    ¬ Orderly key items feed := by
  intro hfeed
  have hlength := h.length_le.trans (hfeed.once k).length_le
  rw [List.length_append] at hlength
  have hpos := List.length_pos_iff.mpr hnone
  omega

end Orderly

end Web3Storage.Foundations
