import Mathlib

/-!
# Fallible computations and fixed-width arithmetic

The helpers a fallible procedure is written with, and the rules that take a successful run of one
apart. A procedure is a `do` block of `Except ε`; `ensure` fails with a given error unless its test
holds, and `require` reads an optional value or fails. `bind_eq_ok`, `ensure_eq_ok` and
`require_eq_ok` turn "this block returned a value" into the tests that passed and the values that
were read, so that a caller never unfolds a monad.

Unsigned machine integers are natural numbers together with the largest value of their type.
Saturating and checked operations take that value explicitly; a natural subtraction is the
saturating one.
-/

set_option autoImplicit false
set_option relaxedAutoImplicit false

namespace Web3Storage.Foundations

/-! ### Fallible computations -/

variable {ε α β : Type}

/-- Fail with an error unless a test holds. -/
def ensure (test : Bool) (error : ε) : Except ε Unit :=
  if test then .ok () else .error error

/-- Read an optional value, or fail with an error. -/
def require (value : Option α) (error : ε) : Except ε α :=
  match value with
  | some value => .ok value
  | none => .error error

/-- Run a block of checks only if a test holds. -/
def onlyIf (test : Bool) (checks : Except ε Unit) : Except ε Unit :=
  if test then checks else .ok ()

/-- A block returned a value exactly when its first step did and the rest did on that result. -/
theorem bind_eq_ok (first : Except ε α) (rest : α → Except ε β) (result : β) :
    (first >>= rest) = .ok result ↔ ∃ value, first = .ok value ∧ rest value = .ok result := by
  cases first with
  | error error => simp [Bind.bind, Except.bind]
  | ok value => simp [Bind.bind, Except.bind]

theorem pure_eq_ok (value result : α) :
    (pure value : Except ε α) = .ok result ↔ value = result := by
  simp [Pure.pure, Except.pure]

theorem ensure_eq_ok (test : Bool) (error : ε) (result : Unit) :
    ensure test error = .ok result ↔ test = true := by
  unfold ensure
  split_ifs with htest
  · simp [htest]
  · simp [htest]

theorem require_eq_ok (value : Option α) (error : ε) (result : α) :
    require value error = .ok result ↔ value = some result := by
  cases value with
  | none => simp [require]
  | some value => simp [require]

/-- A block failed exactly when its first step did or the rest did on its result. -/
theorem bind_eq_error (first : Except ε α) (rest : α → Except ε β) (error : ε) :
    (first >>= rest) = .error error ↔
      first = .error error ∨ ∃ value, first = .ok value ∧ rest value = .error error := by
  cases first with
  | error error => simp [Bind.bind, Except.bind]
  | ok value => simp [Bind.bind, Except.bind]

/-- Blocks with the same first step fail with the same error where their rests do. -/
theorem bind_error_of_rest {γ : Type} {first : Except ε α} {rest : α → Except ε β}
    {rest' : α → Except ε γ} {error : ε} (h : (first >>= rest) = .error error)
    (hrest : ∀ value, rest value = .error error → rest' value = .error error) :
    (first >>= rest') = .error error := by
  rw [bind_eq_error] at h ⊢
  exact h.imp_right fun ⟨value, hfirst, hvalue⟩ ↦ ⟨value, hfirst, hrest value hvalue⟩

/-- A block fails where its rest does after a first step with which another block returned. -/
theorem bind_error_of_ok {γ : Type} {first : Except ε α} {rest : α → Except ε β} {rest' : α → Except ε γ}
    {result : β} {error : ε} (h : (first >>= rest) = .ok result)
    (hrest : ∀ value, rest value = .ok result → rest' value = .error error) :
    (first >>= rest') = .error error := by
  obtain ⟨value, hfirst, hvalue⟩ := (bind_eq_ok _ _ _).mp h
  exact (bind_eq_error _ _ _).mpr (.inr ⟨value, hfirst, hrest value hvalue⟩)

theorem ensure_eq_error (test : Bool) (error error' : ε) :
    ensure test error = .error error' ↔ test = false ∧ error = error' := by
  unfold ensure
  split_ifs with htest
  · simp [htest]
  · simp [htest]

theorem require_eq_error (value : Option α) (error error' : ε) :
    require value error = .error error' ↔ value = none ∧ error = error' := by
  cases value with
  | none => simp [require]
  | some value => simp [require]

theorem onlyIf_eq_ok (test : Bool) (checks : Except ε Unit) (result : Unit) :
    onlyIf test checks = .ok result ↔ (test = true → checks = .ok ()) := by
  unfold onlyIf
  split_ifs with htest
  · simp [htest]
  · simp [htest]

/-- Renaming the errors of a computation keeps its results. -/
theorem mapError_eq_ok {ε' : Type} (rename : ε → ε') (computation : Except ε α) (result : α) :
    computation.mapError rename = .ok result ↔ computation = .ok result := by
  cases computation with
  | error error => simp [Except.mapError]
  | ok value => simp [Except.mapError]

/-- A value that was computed was computed without an error. -/
theorem eq_ok_of_toOption {computation : Except ε α} {value : α}
    (h : computation.toOption = some value) : computation = .ok value := by
  cases computation with
  | error error => cases h
  | ok result =>
    cases h
    rfl

/-- A test that holds lets the block go on. -/
theorem ensure_true (error : ε) : ensure true error = .ok () :=
  rfl

/-- A value that is there is read. -/
theorem require_some (value : α) (error : ε) : require (some value) error = .ok value :=
  rfl

/-- A block whose first step returned a value is the rest of the block on that value. -/
theorem ok_bind (value : α) (rest : α → Except ε β) :
    ((.ok value : Except ε α) >>= rest) = rest value :=
  rfl

/-- A block whose first step failed fails the same way. -/
theorem error_bind (error : ε) (rest : α → Except ε β) :
    ((.error error : Except ε α) >>= rest) = .error error :=
  rfl

/-- A check of every value passes exactly when it passes for each. -/
theorem forM_eq_ok {check : α → Except ε Unit} {values : List α} :
    forM values check = .ok () ↔ ∀ value ∈ values, check value = .ok () := by
  induction values with
  | nil => exact ⟨fun _ ↦ by simp, fun _ ↦ rfl⟩
  | cons first rest ih =>
    rw [List.forM_cons, bind_eq_ok, List.forall_mem_cons, ← ih]
    constructor
    · rintro ⟨done, hfirst, hrest⟩
      exact ⟨hfirst, hrest⟩
    · rintro ⟨hfirst, hrest⟩
      exact ⟨(), hfirst, hrest⟩

/-- Computations that all return a value return the list of these. -/
theorem mapM_eq_ok_map {f : α → Except ε β} {g : α → β} {values : List α}
    (h : ∀ value ∈ values, f value = .ok (g value)) : values.mapM f = .ok (values.map g) := by
  induction values with
  | nil => rfl
  | cons first rest ih =>
    rw [List.mapM_cons, h first List.mem_cons_self,
      ih fun value hvalue ↦ h value (List.mem_cons_of_mem _ hvalue)]
    rfl

/-! ### Fixed-width arithmetic -/

/-- The largest 16-bit unsigned value. -/
def u16Max : ℕ := 2 ^ 16 - 1

/-- The largest 32-bit unsigned value. -/
def u32Max : ℕ := 2 ^ 32 - 1

/-- The largest 64-bit unsigned value. -/
def u64Max : ℕ := 2 ^ 64 - 1

/-- The largest 128-bit unsigned value. -/
def u128Max : ℕ := 2 ^ 128 - 1

/-- Addition that stops at the largest value of the type. -/
def saturatingAdd (largest a b : ℕ) : ℕ := min (a + b) largest

/-- Addition that fails past the largest value of the type. -/
def checkedAdd (largest a b : ℕ) : Option ℕ :=
  if a + b ≤ largest then some (a + b) else none

/-- Multiplication that fails past the largest value of the type. -/
def checkedMul (largest a b : ℕ) : Option ℕ :=
  if a * b ≤ largest then some (a * b) else none

/-- Multiplication that wraps around past the largest value of the type. -/
def wrappingMul (largest a b : ℕ) : ℕ := a * b % (largest + 1)

theorem checkedAdd_eq_some (largest a b result : ℕ) :
    checkedAdd largest a b = some result ↔ a + b ≤ largest ∧ result = a + b := by
  unfold checkedAdd
  split_ifs with hfits
  · simp [hfits, eq_comm]
  · simp [hfits]

theorem checkedMul_eq_some (largest a b result : ℕ) :
    checkedMul largest a b = some result ↔ a * b ≤ largest ∧ result = a * b := by
  unfold checkedMul
  split_ifs with hfits
  · simp [hfits, eq_comm]
  · simp [hfits]

/-- A product that fits does not wrap. -/
theorem wrappingMul_of_le {largest a b : ℕ} (h : a * b ≤ largest) :
    wrappingMul largest a b = a * b :=
  Nat.mod_eq_of_lt (Nat.lt_succ_of_le h)

/-- A sum that fits does not saturate. -/
theorem saturatingAdd_of_le {largest a b : ℕ} (h : a + b ≤ largest) :
    saturatingAdd largest a b = a + b :=
  Nat.min_eq_left h

theorem saturatingAdd_le (largest a b : ℕ) : saturatingAdd largest a b ≤ largest :=
  Nat.min_le_right _ _

end Web3Storage.Foundations
