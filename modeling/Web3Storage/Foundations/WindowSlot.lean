import Mathlib

/-!
# A slot for the current window

A slot keeps one entry and gives it up only for an entry of another window. Over entries whose windows
never go back, it holds the first entry of the last window (`foldl_replaceSlot`). A start entry stands
for a window of its own: what comes in that window is not kept.
-/

set_option autoImplicit false
set_option relaxedAutoImplicit false

namespace Web3Storage.Foundations

variable {Window Value : Type} [LinearOrder Window]

/-- Replace the entry of a slot by one of another window. -/
def replaceSlot (slot entry : Window × Value) : Window × Value :=
  if entry.1 ≠ slot.1 then entry else slot

@[simp] theorem replaceSlot_fst (slot entry : Window × Value) : (replaceSlot slot entry).1 = entry.1 := by
  unfold replaceSlot
  by_cases hwindow : entry.1 ≠ slot.1
  · rw [if_pos hwindow]
  · rw [if_neg hwindow]
    exact (not_not.mp hwindow).symm

/-- After entries with rising windows, none before that of the start, a slot has the window of the last
entry. It holds the first entry of that window, or the start entry if that is its window. -/
theorem foldl_replaceSlot (start : Window × Value) {entries : List (Window × Value)}
    (hsorted : entries.Pairwise fun first second ↦ first.1 ≤ second.1)
    (hstart : ∀ entry ∈ entries, start.1 ≤ entry.1) :
    (entries.foldl replaceSlot start).1 = (entries.getLast?.getD start).1 ∧
      (∀ entry ∈ entries, entry.1 ≤ (entries.foldl replaceSlot start).1) ∧
        if (entries.foldl replaceSlot start).1 = start.1 then
          entries.foldl replaceSlot start = start
        else entries.find? (fun entry ↦ entry.1 = (entries.foldl replaceSlot start).1) =
          some (entries.foldl replaceSlot start) := by
  induction entries using List.reverseRecOn with
  | nil => simp
  | append_singleton earlier last ih =>
    rw [List.pairwise_append] at hsorted
    obtain ⟨hearlier, -, hbefore⟩ := hsorted
    obtain ⟨hwindow, hbelow, hentry⟩ := ih hearlier fun entry hentry ↦
      hstart entry (List.mem_append_left _ hentry)
    have hlast : ∀ entry ∈ earlier, entry.1 ≤ last.1 :=
      fun entry hentry ↦ hbefore entry hentry last List.mem_cons_self
    rw [List.foldl_append, List.foldl_cons, List.foldl_nil, replaceSlot_fst, List.getLast?_append]
    generalize earlier.foldl replaceSlot start = slot at hwindow hbelow hentry ⊢
    refine ⟨rfl, ?_, ?_⟩
    · intro entry hentry
      rcases List.mem_append.mp hentry with hmem | hmem
      · exact hlast entry hmem
      · rw [List.mem_singleton.mp hmem]
    · unfold replaceSlot
      by_cases hsame : last.1 = slot.1
      · -- the window goes on
        rw [if_neg (not_not.mpr hsame), hsame]
        by_cases hfirst : slot.1 = start.1
        · rw [if_pos hfirst] at hentry ⊢
          exact hentry
        · rw [if_neg hfirst] at hentry ⊢
          rw [List.find?_append, hentry]
          rfl
      · -- a new window: no earlier entry lies in it
        have hslot : slot.1 ≤ last.1 := by
          rw [hwindow]
          cases hearlierLast : earlier.getLast? with
          | none => exact hstart last (List.mem_append_right _ List.mem_cons_self)
          | some entry => exact hlast entry (List.mem_of_getLast? hearlierLast)
        have hlt : slot.1 < last.1 := lt_of_le_of_ne hslot (Ne.symm hsame)
        have hnone : earlier.find? (fun entry ↦ entry.1 = last.1) = none := by
          rw [List.find?_eq_none]
          intro entry hmem heq
          have hle := hbelow entry hmem
          rw [of_decide_eq_true heq] at hle
          exact absurd hlt (not_lt.mpr hle)
        have hbeyond : last.1 ≠ start.1 := by
          intro heq
          rcases earlier.eq_nil_or_concat with hnil | ⟨rest, entry, hconcat⟩
          · subst hnil
            rw [List.getLast?_nil, Option.getD_none] at hwindow
            exact hsame (heq.trans hwindow.symm)
          · have hmem : entry ∈ earlier := by
              rw [hconcat, List.concat_eq_append]
              exact List.mem_append_right _ List.mem_cons_self
            have hle := (hstart entry (List.mem_append_left _ hmem)).trans (hbelow entry hmem)
            rw [heq] at hlt
            exact absurd hlt (not_lt.mpr hle)
        rw [if_pos hsame, if_neg hbeyond, List.find?_append, hnone, List.find?_singleton]
        simp

end Web3Storage.Foundations
