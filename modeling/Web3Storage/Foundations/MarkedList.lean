import Mathlib

/-!
# Lists with a row of marks

A list and a row of bits of the same length mark some of its entries: an entry is marked when the bit
at its place is set. The operations on the list have counterparts on the row, and done in step they
mark nothing new.
-/

set_option autoImplicit false
set_option relaxedAutoImplicit false

namespace Web3Storage.Foundations

variable {Item : Type} {items : List Item} {marks : List Bool} {item : Item}

/-- The bit at a place of the item is set. -/
def Marked (items : List Item) (marks : List Bool) (item : Item) : Prop :=
  ∃ i : ℕ, items[i]? = some item ∧ marks[i]? = some true

theorem Marked.mem (h : Marked items marks item) : item ∈ items := by
  obtain ⟨i, hitem, -⟩ := h
  exact List.mem_of_getElem? hitem

/-- A row of unset bits marks nothing. -/
theorem not_marked_replicate_false (count : ℕ) :
    ¬ Marked items (List.replicate count false) item := by
  rintro ⟨i, -, hmark⟩
  rw [List.getElem?_replicate] at hmark
  split_ifs at hmark with hi
  cases hmark

/-- A new item comes unmarked, and marks no other. -/
theorem Marked.of_concat {new : Item} (hlength : marks.length = items.length)
    (h : Marked (items ++ [new]) (marks ++ [false]) item) : Marked items marks item := by
  obtain ⟨i, hitem, hmark⟩ := h
  rcases Nat.lt_or_ge i marks.length with hi | hi
  · refine ⟨i, ?_, ?_⟩
    · rwa [List.getElem?_append_left (hlength ▸ hi)] at hitem
    · rwa [List.getElem?_append_left hi] at hmark
  · -- the place of the new item has no set bit
    rw [List.getElem?_append_right hi, List.getElem?_singleton] at hmark
    split_ifs at hmark
    cases hmark

/-- An item that is taken out takes its bit with it. -/
theorem Marked.of_eraseIdx {pos : ℕ} (h : Marked (items.eraseIdx pos) (marks.eraseIdx pos) item) :
    Marked items marks item := by
  obtain ⟨i, hitem, hmark⟩ := h
  rw [List.getElem?_eraseIdx] at hitem hmark
  split_ifs at hitem hmark with hi
  · exact ⟨i, hitem, hmark⟩
  · exact ⟨i + 1, hitem, hmark⟩

/-- Setting a bit marks the items at its place. -/
theorem Marked.of_set {pos : ℕ} (h : Marked items (marks.set pos true) item) :
    Marked items marks item ∨ items[pos]? = some item := by
  obtain ⟨i, hitem, hmark⟩ := h
  rw [List.getElem?_set] at hmark
  split_ifs at hmark with hpos
  · subst hpos
    exact .inr hitem
  · exact .inl ⟨i, hitem, hmark⟩

/-- What remains of a list without repetitions when the place of an item is taken out. -/
theorem mem_eraseIdx_of_nodup {other : Item} {pos : ℕ} (hnodup : items.Nodup)
    (hpos : items[pos]? = some item) :
    other ∈ items.eraseIdx pos ↔ other ∈ items ∧ other ≠ item := by
  rw [List.mem_eraseIdx_iff_getElem?]
  constructor
  · rintro ⟨i, hi, hother⟩
    refine ⟨List.mem_of_getElem? hother, ?_⟩
    rintro rfl
    obtain ⟨hlt, -⟩ := List.getElem?_eq_some_iff.1 hother
    exact hi ((List.getElem?_inj hlt hnodup).1 (hother.trans hpos.symm))
  · rintro ⟨hmem, hne⟩
    obtain ⟨i, hother⟩ := List.mem_iff_getElem?.1 hmem
    refine ⟨i, ?_, hother⟩
    rintro rfl
    exact hne (Option.some.inj (hother.symm.trans hpos))

end Web3Storage.Foundations
