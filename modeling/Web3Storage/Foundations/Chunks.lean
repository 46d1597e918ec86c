import Mathlib

/-!
# Data in chunks of one size

A list is cut into pieces of a size, the last one shorter. The pieces rebuild the list
(`flatten_chunksOf`), there are as many as the rounded-up quotient of the lengths (`length_chunksOf`),
and pieces that are full up to a last one that is neither empty nor too long are the pieces of what
they rebuild (`chunksOf_flatten`). Some pieces from one of them on are those of the part of the list
that they cover (`take_drop_chunksOf`).
-/

set_option autoImplicit false
set_option relaxedAutoImplicit false

namespace Web3Storage.Foundations

variable {α : Type} {size : ℕ}

/-- A list in pieces of a size, the last one shorter. -/
def chunksOf (size : ℕ) (data : List α) : List (List α) :=
  if 0 < size ∧ 0 < data.length then data.take size :: chunksOf size (data.drop size) else []
termination_by data.length
decreasing_by
  rename_i h
  rw [List.length_drop]
  omega

@[simp] theorem chunksOf_nil : chunksOf size ([] : List α) = [] := by
  rw [chunksOf, if_neg]
  intro h
  exact absurd h.2 (by simp)

theorem chunksOf_of_ne_nil (hsize : 0 < size) {data : List α} (h : data ≠ []) :
    chunksOf size data = data.take size :: chunksOf size (data.drop size) := by
  rw [chunksOf, if_pos ⟨hsize, List.length_pos_iff.mpr h⟩]

/-- What fits one piece is its only piece. -/
theorem chunksOf_of_length_le (hsize : 0 < size) {data : List α} (h : data ≠ [])
    (hle : data.length ≤ size) : chunksOf size data = [data] := by
  rw [chunksOf_of_ne_nil hsize h, List.take_of_length_le hle, List.drop_of_length_le hle, chunksOf_nil]

theorem flatten_chunksOf (hsize : 0 < size) (data : List α) :
    (chunksOf size data).flatten = data := by
  induction data using chunksOf.induct size with
  | case1 data h ih => rw [chunksOf, if_pos h, List.flatten_cons, ih, List.take_append_drop]
  | case2 data h =>
    have hnil : data = [] := by
      by_contra hne
      exact h ⟨hsize, List.length_pos_iff.mpr hne⟩
    rw [hnil, chunksOf_nil]
    rfl

theorem chunksOf_eq_nil_iff (hsize : 0 < size) (data : List α) : chunksOf size data = [] ↔ data = [] := by
  constructor
  · intro h
    rw [← flatten_chunksOf hsize data, h]
    rfl
  · intro h
    rw [h, chunksOf_nil]

theorem length_chunksOf (hsize : 0 < size) (data : List α) :
    (chunksOf size data).length = (data.length + size - 1) / size := by
  induction data using chunksOf.induct size with
  | case1 data h ih =>
    rw [chunksOf, if_pos h, List.length_cons, ih, List.length_drop]
    by_cases hlong : size ≤ data.length
    · have hsplit : data.length + size - 1 = data.length - size + size - 1 + size := by omega
      rw [hsplit, Nat.add_div_right _ hsize]
    · have hzero : data.length - size = 0 := by omega
      rw [hzero, Nat.zero_add, Nat.div_eq_of_lt (by omega)]
      symm
      apply Nat.div_eq_of_lt_le
      · omega
      · omega
  | case2 data h =>
    rw [chunksOf, if_neg h, List.length_nil, eq_comm]
    apply Nat.div_eq_of_lt
    omega

theorem length_le_of_length_chunksOf (hsize : 0 < size) {data : List α} {count : ℕ}
    (h : (chunksOf size data).length ≤ count) : data.length ≤ size * count := by
  rw [length_chunksOf hsize, Nat.div_le_iff_le_mul hsize] at h
  rw [Nat.mul_comm]
  omega

/-- All pieces are full but the last, which is not empty. -/
theorem length_of_mem_chunksOf (hsize : 0 < size) (data : List α) :
    (∀ chunk ∈ (chunksOf size data).dropLast, chunk.length = size) ∧
      ∀ last, (chunksOf size data).getLast? = some last → last ≠ [] ∧ last.length ≤ size := by
  induction data using chunksOf.induct size with
  | case1 data h ih =>
    rw [chunksOf, if_pos h]
    by_cases hrest : chunksOf size (data.drop size) = []
    · rw [hrest]
      refine ⟨by simp, fun last hlast ↦ ?_⟩
      rw [List.getLast?_singleton, Option.some.injEq] at hlast
      rw [← hlast, ← List.length_pos_iff, List.length_take]
      omega
    · have hlong : data.drop size ≠ [] := by
        intro hnil
        rw [hnil, chunksOf_nil] at hrest
        exact hrest rfl
      rw [← List.length_pos_iff, List.length_drop] at hlong
      rw [List.dropLast_cons_of_ne_nil hrest]
      constructor
      · intro chunk hchunk
        rcases List.mem_cons.mp hchunk with rfl | hlater
        · rw [List.length_take]
          omega
        · exact ih.1 chunk hlater
      · intro last hlast
        apply ih.2
        rw [← hlast, List.getLast?_cons_of_ne_nil hrest]
  | case2 data h =>
    rw [chunksOf, if_neg h]
    refine ⟨by simp, fun last hlast ↦ ?_⟩
    cases hlast

/-- Pieces are found again in what they rebuild: all are full but the last, which is not empty. -/
theorem chunksOf_flatten (hsize : 0 < size) {chunks : List (List α)}
    (hfull : ∀ chunk ∈ chunks.dropLast, chunk.length = size)
    (hlast : ∀ last, chunks.getLast? = some last → last ≠ [] ∧ last.length ≤ size) :
    chunksOf size chunks.flatten = chunks := by
  induction chunks with
  | nil => exact chunksOf_nil
  | cons first rest ih =>
    by_cases hrest : rest = []
    · subst hrest
      obtain ⟨hne, hle⟩ := hlast first rfl
      have hflat : [first].flatten = first := by simp
      rw [hflat, chunksOf_of_length_le hsize hne hle]
    · have hfirst : first.length = size := by
        apply hfull
        rw [List.dropLast_cons_of_ne_nil hrest]
        exact List.mem_cons_self
      have hne : first ++ rest.flatten ≠ [] := by
        intro hnil
        rw [(List.append_eq_nil_iff.mp hnil).1, List.length_nil] at hfirst
        omega
      have htail : chunksOf size rest.flatten = rest := by
        apply ih
        · intro chunk hchunk
          apply hfull
          rw [List.dropLast_cons_of_ne_nil hrest]
          exact List.mem_cons_of_mem _ hchunk
        · intro last hlast'
          apply hlast
          rw [List.getLast?_cons, hlast']
          rfl
      rw [List.flatten_cons, chunksOf_of_ne_nil hsize hne, ← hfirst, List.take_left, List.drop_left,
        hfirst, htail]

/-- The pieces from one of them on are those of the rest of the list. -/
theorem drop_chunksOf (hsize : 0 < size) (data : List α) (count : ℕ) :
    (chunksOf size data).drop count = chunksOf size (data.drop (size * count)) := by
  induction count generalizing data with
  | zero => rw [Nat.mul_zero, List.drop_zero, List.drop_zero]
  | succ count ih =>
    by_cases hnil : data = []
    · rw [hnil, List.drop_nil, chunksOf_nil, List.drop_nil]
    · rw [chunksOf_of_ne_nil hsize hnil, List.drop_succ_cons, ih, List.drop_drop]
      congr 2
      ring

/-- The first pieces are those of a first part of the list. -/
theorem take_chunksOf (hsize : 0 < size) (data : List α) (count : ℕ) :
    (chunksOf size data).take count = chunksOf size (data.take (size * count)) := by
  induction count generalizing data with
  | zero => rw [Nat.mul_zero, List.take_zero, List.take_zero, chunksOf_nil]
  | succ count ih =>
    by_cases hnil : data = []
    · rw [hnil, List.take_nil, chunksOf_nil, List.take_nil]
    · have hne : data.take (size * (count + 1)) ≠ [] := by
        rw [Ne, List.take_eq_nil_iff, not_or]
        exact ⟨by positivity, hnil⟩
      rw [chunksOf_of_ne_nil hsize hnil, List.take_succ_cons, ih, chunksOf_of_ne_nil hsize hne,
        List.take_take, List.drop_take, Nat.min_eq_left (Nat.le_mul_of_pos_right _ count.succ_pos),
        Nat.mul_succ, Nat.add_sub_cancel]

/-- Some pieces from one of them on are those of the part of the list that they cover. -/
theorem take_drop_chunksOf (hsize : 0 < size) (data : List α) (first count : ℕ) :
    ((chunksOf size data).drop first).take count =
      chunksOf size ((data.drop (size * first)).take (size * count)) := by
  rw [drop_chunksOf hsize, take_chunksOf hsize]

end Web3Storage.Foundations
