import Web3Storage.Foundations.FiniteMap

/-!
# Entries backed by balances

A finite map of entries, each with an owner and a weight, and a table of balances that should back
them. `ownedSum` is what the entries of an owner weigh together. The balances may equal these sums
(`Balances`) or only cover them (`Covers`). Both are kept by an insertion, a replacement or a
removal that changes the balances by the weights of the entries it changes; the covering also
survives an insertion that pays for the new entry and forgets the one it replaces.
-/

set_option autoImplicit false
set_option relaxedAutoImplicit false

namespace Web3Storage.Foundations

variable {K V A : Type} [DecidableEq A]

/-- What the entries of an owner weigh together. -/
def ownedSum (owner : K → V → A) (weight : V → ℕ) (m : FiniteMap K V) (a : A) : ℕ :=
  FiniteMap.weightedSum (fun key value ↦ if owner key value = a then weight value else 0) m

/-- What an optional entry weighs for an owner. -/
def share (owner : K → V → A) (weight : V → ℕ) (key : K) (entry : Option V) (a : A) : ℕ :=
  entry.elim 0 fun value ↦ if owner key value = a then weight value else 0

/-- The balances equal the sums of the entries. -/
def Balances (owner : K → V → A) (weight : V → ℕ) (m : FiniteMap K V) (balance : A → ℕ) : Prop :=
  ∀ a, balance a = ownedSum owner weight m a

/-- The balances cover the sums of the entries. -/
def Covers (owner : K → V → A) (weight : V → ℕ) (m : FiniteMap K V) (balance : A → ℕ) : Prop :=
  ∀ a, ownedSum owner weight m a ≤ balance a

variable {owner : K → V → A} {weight : V → ℕ} {m : FiniteMap K V} {balance balance' : A → ℕ}

@[simp] theorem share_none (key : K) (a : A) : share owner weight key none a = 0 :=
  rfl

@[simp] theorem share_some (key : K) (value : V) (a : A) :
    share owner weight key (some value) a = if owner key value = a then weight value else 0 :=
  rfl

theorem balances_empty (hbalance : ∀ a, balance a = 0) : Balances owner weight ∅ balance :=
  hbalance

theorem Balances.covers (h : Balances owner weight m balance) : Covers owner weight m balance :=
  fun a ↦ (h a).ge

/-- A table of balances with the same values backs the same entries. -/
theorem Balances.congr (h : Balances owner weight m balance)
    (hbalance : ∀ a, balance' a = balance a) : Balances owner weight m balance' :=
  fun a ↦ (hbalance a).trans (h a)

theorem Covers.congr (h : Covers owner weight m balance)
    (hbalance : ∀ a, balance' a = balance a) : Covers owner weight m balance' :=
  fun a ↦ (h a).trans (hbalance a).ge

variable [DecidableEq K]

theorem ownedSum_insert (owner : K → V → A) (weight : V → ℕ) (m : FiniteMap K V) (key : K)
    (value : V) (a : A) :
    ownedSum owner weight (m.insert key value) a + share owner weight key (m.lookup key) a =
      ownedSum owner weight m a + share owner weight key (some value) a :=
  FiniteMap.weightedSum_insert
    (fun key value ↦ if owner key value = a then weight value else 0) m key value

theorem ownedSum_erase (owner : K → V → A) (weight : V → ℕ) (m : FiniteMap K V) (key : K)
    (a : A) :
    ownedSum owner weight (m.erase key) a + share owner weight key (m.lookup key) a =
      ownedSum owner weight m a := by
  cases hlookup : m.lookup key with
  | none => rw [FiniteMap.erase_of_lookup_none hlookup, share_none, add_zero]
  | some value =>
    exact FiniteMap.weightedSum_erase
      (fun key value ↦ if owner key value = a then weight value else 0) hlookup

/-- An entry is part of the sum of its owner. -/
theorem weight_le_ownedSum {key : K} {value : V} (h : m.lookup key = some value) :
    weight value ≤ ownedSum owner weight m (owner key value) := by
  have hle := FiniteMap.weight_le_weightedSum
    (fun key' value' ↦ if owner key' value' = owner key value then weight value' else 0) h
  rw [if_pos rfl] at hle
  exact hle

/-- The balances follow an entry that is written. -/
theorem Balances.insert (h : Balances owner weight m balance) {key : K} {value : V}
    (hstep : ∀ a, balance' a + share owner weight key (m.lookup key) a =
      balance a + share owner weight key (some value) a) :
    Balances owner weight (m.insert key value) balance' := by
  intro a
  have hsum := ownedSum_insert owner weight m key value a
  have hbefore := h a
  have hafter := hstep a
  omega

/-- The balances follow an entry that is removed. -/
theorem Balances.erase (h : Balances owner weight m balance) {key : K}
    (hstep : ∀ a, balance' a + share owner weight key (m.lookup key) a = balance a) :
    Balances owner weight (m.erase key) balance' := by
  intro a
  have hsum := ownedSum_erase owner weight m key a
  have hbefore := h a
  have hafter := hstep a
  omega

/-- The covering follows an entry that is written. -/
theorem Covers.insert (h : Covers owner weight m balance) {key : K} {value : V}
    (hstep : ∀ a, balance a + share owner weight key (some value) a ≤
      balance' a + share owner weight key (m.lookup key) a) :
    Covers owner weight (m.insert key value) balance' := by
  intro a
  have hsum := ownedSum_insert owner weight m key value a
  have hbefore := h a
  have hafter := hstep a
  omega

/-- The covering follows an entry that is removed. -/
theorem Covers.erase (h : Covers owner weight m balance) {key : K}
    (hstep : ∀ a, balance a ≤ balance' a + share owner weight key (m.lookup key) a) :
    Covers owner weight (m.erase key) balance' := by
  intro a
  have hsum := ownedSum_erase owner weight m key a
  have hbefore := h a
  have hafter := hstep a
  omega

end Web3Storage.Foundations
