import Web3Storage.Foundations.Fallible

/-!
# Refinement of fallible computations

A computation refines another one when it fails with the same errors and returns related values, except
that it may also fail with errors of its own: those of the world it runs in, which the other one leaves
out. Refinement follows the steps of a block (`Refines.bind`), so that a program is compared with its
description step by step. `Answers` follows whole operations: the described one is done, or refused, or the
world fails and it was done or not; what every described operation keeps is kept by a run of them.
-/

set_option autoImplicit false
set_option relaxedAutoImplicit false

namespace Web3Storage.Foundations

variable {ε α β γ δ : Type}

/-- A computation does what another one does up to a relation of their values, or fails with an error that
it may fail with. -/
inductive Refines (mayFail : ε → Prop) (related : α → β → Prop) : Except ε α → Except ε β → Prop
  | failed {error : ε} (other : Except ε β) (h : mayFail error) : Refines mayFail related (.error error) other
  | error (error : ε) : Refines mayFail related (.error error) (.error error)
  | ok {value : α} {value' : β} (h : related value value') :
    Refines mayFail related (.ok value) (.ok value')

namespace Refines

variable {mayFail : ε → Prop} {related related' : α → β → Prop} {after : γ → δ → Prop}
  {first : Except ε α} {first' : Except ε β}

theorem mono (h : Refines mayFail related first first')
    (hmono : ∀ value value', related value value' → related' value value') :
    Refines mayFail related' first first' := by
  cases h with
  | failed _ hfails => exact .failed _ hfails
  | error error => exact .error error
  | ok hvalue => exact .ok (hmono _ _ hvalue)

/-- Blocks whose first steps and whose rests refine each other. -/
theorem bind {rest : α → Except ε γ} {rest' : β → Except ε δ} (h : Refines mayFail related first first')
    (hrest : ∀ value value', related value value' → Refines mayFail after (rest value) (rest' value')) :
    Refines mayFail after (first >>= rest) (first' >>= rest') := by
  cases h with
  | failed other hfails => exact .failed _ hfails
  | error error => exact .error error
  | ok hvalue => exact hrest _ _ hvalue

/-- Blocks whose first steps refine each other, with what the other first step returned. -/
theorem bind_eq {rest : α → Except ε γ} {rest' : β → Except ε δ} (h : Refines mayFail related first first')
    (hrest : ∀ value value', related value value' → first' = .ok value' →
      Refines mayFail after (rest value) (rest' value')) :
    Refines mayFail after (first >>= rest) (first' >>= rest') := by
  cases h with
  | failed other hfails => exact .failed _ hfails
  | error error => exact .error error
  | ok hvalue => exact hrest _ _ hvalue rfl

/-- A first step that the other computation leaves out. -/
theorem bind_left {rest : α → Except ε γ} {other : Except ε δ} {value' : β}
    (h : Refines mayFail related first (.ok value'))
    (hrest : ∀ value, related value value' → Refines mayFail after (rest value) other) :
    Refines mayFail after (first >>= rest) other := by
  cases h with
  | failed _ hfails => exact .failed other hfails
  | ok hvalue => exact hrest _ hvalue

/-- Nothing comes after a first step that the other computation fails with. -/
theorem bind_error {rest : α → Except ε γ} {error : ε} (h : Refines mayFail related first (.error error)) :
    Refines mayFail after (first >>= rest) (.error error) := by
  cases h with
  | failed other hfails => exact .failed _ hfails
  | error error => exact .error error

/-- A value that is computed from the one of a refinement. -/
theorem map {f : α → γ} {after : γ → β → Prop} (h : Refines mayFail related first first')
    (hrelated : ∀ value value', related value value' → after (f value) value') :
    Refines mayFail after (first >>= fun value ↦ .ok (f value)) first' := by
  cases h with
  | failed other hfails => exact .failed _ hfails
  | error error => exact .error error
  | ok hvalue => exact .ok (hrelated _ _ hvalue)

/-- Errors that are renamed on both sides. -/
theorem mapError {ε' : Type} {rename : ε → ε'} {mayFail' : ε' → Prop}
    (h : Refines mayFail related first first')
    (hfails : ∀ error, mayFail error → mayFail' (rename error)) :
    Refines mayFail' related (first.mapError rename) (first'.mapError rename) := by
  cases h with
  | failed other hfailed => exact .failed _ (hfails _ hfailed)
  | error error => exact .error _
  | ok hvalue => exact .ok hvalue

/-- The same computation refines itself. -/
theorem refl (computation : Except ε α) : Refines mayFail Eq computation computation := by
  cases computation with
  | error error => exact .error error
  | ok value => exact .ok rfl

/-- The same step, before rests that refine each other. -/
theorem bind_same {rest : α → Except ε γ} {rest' : α → Except ε δ} (first : Except ε α)
    (hrest : ∀ value, first = .ok value → Refines mayFail after (rest value) (rest' value)) :
    Refines mayFail after (first >>= rest) (first >>= rest') := by
  cases first with
  | error error => exact .error error
  | ok value => exact hrest value rfl

/-- Values that are there under related conditions. -/
theorem require {value : Option α} {value' : Option β} (error : ε)
    (hnone : value = none ↔ value' = none)
    (hsome : ∀ found found', value = some found → value' = some found' → related found found') :
    Refines mayFail related (require value error) (require value' error) := by
  cases value with
  | none =>
    rw [hnone.mp rfl]
    exact .error error
  | some found =>
    cases value' with
    | none => exact absurd (hnone.mpr rfl) (by simp)
    | some found' => exact .ok (hsome found found' rfl rfl)

/-- What a refinement does when it may not fail on its own. -/
theorem of_ok {value : α} (h : Refines mayFail related (.ok value) first') :
    ∃ value', first' = .ok value' ∧ related value value' := by
  cases h with
  | ok hvalue => exact ⟨_, rfl, hvalue⟩

/-- The error that a refinement fails with, which is not its own. -/
theorem of_error {error : ε} (h : Refines (fun _ ↦ False) related (.error error) first') :
    first' = .error error := by
  cases h with
  | failed other hfails => exact hfails.elim
  | error error => rfl

end Refines

/-! ### Runs -/

section Runs

variable {σ ι : Type} (mayFail : ε → Prop) (step : σ → ι → Except ε (α × σ))

/-- How an operation on a described state is answered: as described, or with an error of the world it runs
in, and then it was done or not. -/
inductive Answers (state : σ) (op : ι) : Except ε α → σ → Prop
  | done (value : α) (after : σ) (h : step state op = .ok (value, after)) : Answers state op (.ok value) after
  | refused (error : ε) (h : step state op = .error error) : Answers state op (.error error) state
  | failed (error : ε) (after : σ) (hfails : mayFail error)
    (hafter : after = state ∨ ∃ value, step state op = .ok (value, after)) :
    Answers state op (.error error) after

/-- How a sequence of operations is answered, one after the other. -/
inductive AnswersAll : σ → List ι → List (Except ε α) → σ → Prop
  | nil (state : σ) : AnswersAll state [] [] state
  | cons {op : ι} {ops : List ι} {result : Except ε α} {results : List (Except ε α)} {state after last : σ}
    (hop : Answers mayFail step state op result after) (hops : AnswersAll after ops results last) :
    AnswersAll state (op :: ops) (result :: results) last

variable {mayFail step} {state after : σ} {property : σ → Prop}

/-- What an operation keeps holds after it however it is answered. -/
theorem Answers.keeps {op : ι} {result : Except ε α} (h : Answers mayFail step state op result after)
    (hkeeps : ∀ value after, step state op = .ok (value, after) → property after) (hstate : property state) :
    property after := by
  cases h with
  | done value after hdone => exact hkeeps value after hdone
  | refused error hrefused => exact hstate
  | failed error after hfails hafter =>
    rcases hafter with rfl | ⟨value, hdone⟩
    · exact hstate
    · exact hkeeps value after hdone

/-- What each operation of a sequence keeps holds after it. -/
theorem AnswersAll.keeps {ops : List ι} {results : List (Except ε α)}
    (h : AnswersAll mayFail step state ops results after)
    (hkeeps : ∀ state, ∀ op ∈ ops, ∀ value after, step state op = .ok (value, after) → property state →
      property after) (hstate : property state) : property after := by
  induction h with
  | nil state => exact hstate
  | cons hop hops ih =>
    refine ih (fun state op hmem ↦ hkeeps state op (List.mem_cons_of_mem _ hmem)) ?_
    exact hop.keeps (fun value after hdone ↦ hkeeps _ _ List.mem_cons_self value after hdone hstate) hstate

end Runs

end Web3Storage.Foundations
