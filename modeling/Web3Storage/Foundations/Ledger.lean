import Web3Storage.Foundations.FiniteMap
import Web3Storage.Foundations.Fallible

/-!
# A ledger of free and held balances

A fungible currency whose accounts own a free balance and, for each reason, a balance on hold.
`hold`, `release`, `transferOnHold`, `transferAndHold`, `slash` and `resolve` move exact amounts
between these parts. What a concrete currency adds to that (an existential deposit, freezes, limits
on what may be credited) decides only whether an operation is refused, never how much a granted one
moves; it is the parameter `Rules`.

`Moves gain loss` is what an operation does to the holds: it adds `gain`, takes `loss` and keeps the
total. `hold`, `release`, `transferOnHold` and `transferAndHold` are moves of the amounts they name,
and moves compose. `slash` takes out the credit it returns; `resolve` puts it back when the
beneficiary accepts it and drops it otherwise.
-/

set_option autoImplicit false
set_option relaxedAutoImplicit false

namespace Web3Storage.Foundations

/-- One account: its free balance and its balance on hold for each reason. -/
structure AccountData (Reason : Type) where
  free : ℕ
  held : Reason → ℕ

/-- The accounts of a currency. An account that is not listed owns nothing. -/
abbrev Ledger (Account Reason : Type) := FiniteMap Account (AccountData Reason)

/-- Why the currency refused an operation. -/
inductive TokenError
  | fundsUnavailable
  | frozen
  | cannotCreate
  | cannotCreateHold
  deriving DecidableEq, Repr

/-- Whether an operation fails or does what it can when the whole amount is not available. -/
inductive Precision
  | exact
  | bestEffort
  deriving DecidableEq, Repr

/-- Whether a moved amount arrives free or on hold for the same reason. -/
inductive Restriction
  | free
  | onHold
  deriving DecidableEq, Repr

namespace Ledger

variable {Account Reason : Type}

/-- The conditions under which a concrete currency grants an operation. -/
structure Rules (Account Reason : Type) where
  /-- What may be taken from the free balance of an account that stays alive. -/
  spendable : Ledger Account Reason → Account → ℕ
  /-- Whether an account may be credited an amount. -/
  canDeposit : Ledger Account Reason → Account → ℕ → Bool
  /-- Whether an account may carry a hold for a reason. -/
  holdAvailable : Ledger Account Reason → Reason → Account → Bool
  /-- What may be taken from the holds of an account, all reasons together. -/
  liquidOnHold : Ledger Account Reason → Account → ℕ

/-- What an account owns, all parts together. -/
def ownedBy [Fintype Reason] (data : AccountData Reason) : ℕ :=
  data.free + ∑ reason, data.held reason

/-- Everything the accounts of the ledger own. -/
def total [Fintype Reason] (ledger : Ledger Account Reason) : ℕ :=
  FiniteMap.weightedSum (fun _ data ↦ ownedBy data) ledger

variable [DecidableEq Account] [DecidableEq Reason]

/-- The data of an account, empty when it is not listed. -/
def account (ledger : Ledger Account Reason) (who : Account) : AccountData Reason :=
  (ledger.lookup who).getD ⟨0, fun _ ↦ 0⟩

/-- The free balance of an account. -/
def free (ledger : Ledger Account Reason) (who : Account) : ℕ := (account ledger who).free

/-- The balance of an account on hold for a reason. -/
def held (ledger : Ledger Account Reason) (reason : Reason) (who : Account) : ℕ :=
  (account ledger who).held reason

/-! ### Elementary moves -/

def setAccount (ledger : Ledger Account Reason) (who : Account) (data : AccountData Reason) :
    Ledger Account Reason :=
  ledger.insert who data

def addFree (ledger : Ledger Account Reason) (who : Account) (amount : ℕ) :
    Ledger Account Reason :=
  setAccount ledger who ⟨(account ledger who).free + amount, (account ledger who).held⟩

def subFree (ledger : Ledger Account Reason) (who : Account) (amount : ℕ) :
    Ledger Account Reason :=
  setAccount ledger who ⟨(account ledger who).free - amount, (account ledger who).held⟩

def addHeld (ledger : Ledger Account Reason) (reason : Reason) (who : Account) (amount : ℕ) :
    Ledger Account Reason :=
  setAccount ledger who ⟨(account ledger who).free,
    Function.update (account ledger who).held reason
      ((account ledger who).held reason + amount)⟩

def subHeld (ledger : Ledger Account Reason) (reason : Reason) (who : Account) (amount : ℕ) :
    Ledger Account Reason :=
  setAccount ledger who ⟨(account ledger who).free,
    Function.update (account ledger who).held reason
      ((account ledger who).held reason - amount)⟩

omit [DecidableEq Reason] in
theorem account_setAccount (ledger : Ledger Account Reason) (who other : Account)
    (data : AccountData Reason) :
    account (setAccount ledger who data) other =
      if other = who then data else account ledger other := by
  unfold account setAccount
  rw [FiniteMap.lookup_insert_eq]
  split_ifs <;> rfl

omit [DecidableEq Reason] in
@[simp] theorem free_addFree (ledger : Ledger Account Reason) (who other : Account)
    (amount : ℕ) :
    free (addFree ledger who amount) other =
      free ledger other + if other = who then amount else 0 := by
  unfold free addFree
  rw [account_setAccount]
  split_ifs with h
  · rw [h]
  · rfl

omit [DecidableEq Reason] in
@[simp] theorem held_addFree (ledger : Ledger Account Reason) (reason : Reason)
    (who other : Account) (amount : ℕ) :
    held (addFree ledger who amount) reason other = held ledger reason other := by
  unfold held addFree
  rw [account_setAccount]
  split_ifs with h
  · rw [h]
  · rfl

omit [DecidableEq Reason] in
@[simp] theorem free_subFree (ledger : Ledger Account Reason) (who other : Account)
    (amount : ℕ) :
    free (subFree ledger who amount) other =
      free ledger other - if other = who then amount else 0 := by
  unfold free subFree
  rw [account_setAccount]
  split_ifs with h
  · rw [h]
  · rfl

omit [DecidableEq Reason] in
@[simp] theorem held_subFree (ledger : Ledger Account Reason) (reason : Reason)
    (who other : Account) (amount : ℕ) :
    held (subFree ledger who amount) reason other = held ledger reason other := by
  unfold held subFree
  rw [account_setAccount]
  split_ifs with h
  · rw [h]
  · rfl

@[simp] theorem free_addHeld (ledger : Ledger Account Reason) (reason : Reason)
    (who other : Account) (amount : ℕ) :
    free (addHeld ledger reason who amount) other = free ledger other := by
  unfold free addHeld
  rw [account_setAccount]
  split_ifs with h
  · rw [h]
  · rfl

@[simp] theorem held_addHeld (ledger : Ledger Account Reason) (reason reason' : Reason)
    (who other : Account) (amount : ℕ) :
    held (addHeld ledger reason who amount) reason' other =
      held ledger reason' other + if reason' = reason ∧ other = who then amount else 0 := by
  unfold held addHeld
  rw [account_setAccount]
  by_cases hwho : other = who
  · subst hwho
    by_cases hreason : reason' = reason
    · subst hreason
      simp
    · simp [hreason]
  · simp [hwho]

@[simp] theorem free_subHeld (ledger : Ledger Account Reason) (reason : Reason)
    (who other : Account) (amount : ℕ) :
    free (subHeld ledger reason who amount) other = free ledger other := by
  unfold free subHeld
  rw [account_setAccount]
  split_ifs with h
  · rw [h]
  · rfl

@[simp] theorem held_subHeld (ledger : Ledger Account Reason) (reason reason' : Reason)
    (who other : Account) (amount : ℕ) :
    held (subHeld ledger reason who amount) reason' other =
      held ledger reason' other - if reason' = reason ∧ other = who then amount else 0 := by
  unfold held subHeld
  rw [account_setAccount]
  by_cases hwho : other = who
  · subst hwho
    by_cases hreason : reason' = reason
    · subst hreason
      simp
    · simp [hreason]
  · simp [hwho]

section Total

variable [Fintype Reason]

omit [DecidableEq Reason] in
theorem total_setAccount (ledger : Ledger Account Reason) (who : Account)
    (data : AccountData Reason) :
    total (setAccount ledger who data) + ownedBy (account ledger who) =
      total ledger + ownedBy data := by
  have hsum := FiniteMap.weightedSum_insert
    (fun (_ : Account) (old : AccountData Reason) ↦ ownedBy old) ledger who data
  unfold total setAccount account
  cases hwho : ledger.lookup who with
  | none =>
    have hempty : ownedBy (⟨0, fun _ ↦ 0⟩ : AccountData Reason) = 0 := by simp [ownedBy]
    rw [hwho, Option.elim_none] at hsum
    rw [Option.getD_none, hempty]
    exact hsum
  | some old =>
    rw [hwho] at hsum
    exact hsum

omit [DecidableEq Account] in
/-- Writing one hold exchanges its amount in what the account owns. -/
theorem ownedBy_update (data : AccountData Reason) (reason : Reason) (amount : ℕ) :
    ownedBy ⟨data.free, Function.update data.held reason amount⟩ + data.held reason =
      ownedBy data + amount := by
  unfold ownedBy
  have hupdate := Finset.sum_update_of_mem (Finset.mem_univ reason) data.held amount
  have herase := Finset.add_sum_erase Finset.univ data.held (Finset.mem_univ reason)
  rw [Finset.sdiff_singleton_eq_erase] at hupdate
  simp only [hupdate]
  omega

omit [DecidableEq Reason] in
theorem total_addFree (ledger : Ledger Account Reason) (who : Account) (amount : ℕ) :
    total (addFree ledger who amount) = total ledger + amount := by
  have h := total_setAccount ledger who
    ⟨(account ledger who).free + amount, (account ledger who).held⟩
  unfold addFree
  simp only [ownedBy] at h
  omega

omit [DecidableEq Reason] in
theorem total_subFree {ledger : Ledger Account Reason} {who : Account} {amount : ℕ}
    (hle : amount ≤ free ledger who) :
    total (subFree ledger who amount) + amount = total ledger := by
  have h := total_setAccount ledger who
    ⟨(account ledger who).free - amount, (account ledger who).held⟩
  unfold free at hle
  unfold subFree
  simp only [ownedBy] at h
  omega

theorem total_addHeld (ledger : Ledger Account Reason) (reason : Reason) (who : Account)
    (amount : ℕ) : total (addHeld ledger reason who amount) = total ledger + amount := by
  have hset := total_setAccount ledger who ⟨(account ledger who).free,
    Function.update (account ledger who).held reason
      ((account ledger who).held reason + amount)⟩
  have howned := ownedBy_update (account ledger who) reason
    ((account ledger who).held reason + amount)
  unfold addHeld
  omega

theorem total_subHeld {ledger : Ledger Account Reason} {reason : Reason} {who : Account}
    {amount : ℕ} (hle : amount ≤ held ledger reason who) :
    total (subHeld ledger reason who amount) + amount = total ledger := by
  have hset := total_setAccount ledger who ⟨(account ledger who).free,
    Function.update (account ledger who).held reason
      ((account ledger who).held reason - amount)⟩
  have howned := ownedBy_update (account ledger who) reason
    ((account ledger who).held reason - amount)
  unfold held at hle
  unfold subHeld
  omega

omit [DecidableEq Reason] in
/-- What one account owns is part of the total. -/
theorem ownedBy_account_le_total (ledger : Ledger Account Reason) (who : Account) :
    ownedBy (account ledger who) ≤ total ledger := by
  unfold account
  cases hwho : ledger.lookup who with
  | none => simp [ownedBy]
  | some data =>
    exact FiniteMap.weight_le_weightedSum
      (fun (_ : Account) (old : AccountData Reason) ↦ ownedBy old) hwho

omit [DecidableEq Reason] in
/-- A balance on hold is part of the total. -/
theorem held_le_total (ledger : Ledger Account Reason) (reason : Reason) (who : Account) :
    held ledger reason who ≤ total ledger := by
  have hsum : (account ledger who).held reason ≤ ∑ r, (account ledger who).held r :=
    Finset.single_le_sum (f := (account ledger who).held) (fun r _ ↦ Nat.zero_le _)
      (Finset.mem_univ reason)
  have howned := ownedBy_account_le_total ledger who
  unfold ownedBy at howned
  unfold held
  omega

end Total

/-! ### Operations of the currency -/

/-- Put part of a free balance on hold. -/
def hold (rules : Rules Account Reason) (reason : Reason) (who : Account) (amount : ℕ)
    (ledger : Ledger Account Reason) : Except TokenError (Ledger Account Reason) := do
  ensure (rules.holdAvailable ledger reason who) .cannotCreateHold
  ensure (amount ≤ free ledger who ∧ amount ≤ rules.spendable ledger who) .fundsUnavailable
  return addHeld (subFree ledger who amount) reason who amount

/-- Give a balance on hold back to its account. Returns what was released. -/
def release (reason : Reason) (who : Account) (amount : ℕ) (precision : Precision)
    (ledger : Ledger Account Reason) : Except TokenError (ℕ × Ledger Account Reason) := do
  let actual := match precision with
    | .exact => amount
    | .bestEffort => min amount (held ledger reason who)
  ensure (actual ≤ held ledger reason who) .fundsUnavailable
  return (actual, addFree (subHeld ledger reason who actual) who actual)

/-- Move a balance on hold to another account, where it is free or on hold for the same reason.
Returns what was moved. -/
def transferOnHold (rules : Rules Account Reason) (reason : Reason) (source dest : Account)
    (amount : ℕ) (precision : Precision) (mode : Restriction) (ledger : Ledger Account Reason) :
    Except TokenError (ℕ × Ledger Account Reason) := do
  let liquid := rules.liquidOnHold ledger source
  let actual := match precision with
    | .exact => amount
    | .bestEffort => min (min amount liquid) (held ledger reason source)
  ensure (actual ≤ liquid) .frozen
  ensure (actual ≤ held ledger reason source) .fundsUnavailable
  ensure (rules.canDeposit ledger dest actual) .cannotCreate
  ensure (mode = .free ∨ rules.holdAvailable ledger reason dest) .cannotCreateHold
  let taken := subHeld ledger reason source actual
  return (actual, match mode with
    | .free => addFree taken dest actual
    | .onHold => addHeld taken reason dest actual)

/-- Move part of a free balance to another account and put it on hold there. -/
def transferAndHold (rules : Rules Account Reason) (reason : Reason) (source dest : Account)
    (amount : ℕ) (ledger : Ledger Account Reason) :
    Except TokenError (Ledger Account Reason) := do
  ensure (rules.holdAvailable ledger reason dest) .cannotCreateHold
  ensure (rules.canDeposit ledger dest amount) .cannotCreate
  ensure (amount ≤ free ledger source ∧ amount ≤ rules.spendable ledger source)
    .fundsUnavailable
  return addHeld (subFree ledger source amount) reason dest amount

/-- Take from a balance on hold what is there, up to an amount. Returns the credit taken and the
part of the amount that was not there. -/
def slash (reason : Reason) (who : Account) (amount : ℕ) (ledger : Ledger Account Reason) :
    ℕ × ℕ × Ledger Account Reason :=
  let credit := min amount (held ledger reason who)
  (credit, amount - credit, subHeld ledger reason who credit)

/-- Credit an account, or refuse. -/
def resolve (rules : Rules Account Reason) (who : Account) (credit : ℕ)
    (ledger : Ledger Account Reason) : Option (Ledger Account Reason) :=
  if rules.canDeposit ledger who credit then some (addFree ledger who credit) else none

section Laws

variable {rules : Rules Account Reason} {reason : Reason} {who source dest : Account}
  {amount : ℕ} {precision : Precision} {mode : Restriction} {ledger after : Ledger Account Reason}

theorem hold_eq_ok :
    hold rules reason who amount ledger = .ok after ↔
      rules.holdAvailable ledger reason who = true ∧ amount ≤ free ledger who ∧
        amount ≤ rules.spendable ledger who ∧
          after = addHeld (subFree ledger who amount) reason who amount := by
  simp only [hold, bind_eq_ok, ensure_eq_ok, pure_eq_ok, exists_const, decide_eq_true_eq,
    and_assoc]
  constructor
  · rintro ⟨havailable, hfree, hspendable, rfl⟩
    exact ⟨havailable, hfree, hspendable, rfl⟩
  · rintro ⟨havailable, hfree, hspendable, rfl⟩
    exact ⟨havailable, hfree, hspendable, rfl⟩

theorem held_of_hold (h : hold rules reason who amount ledger = .ok after) (reason' : Reason)
    (other : Account) :
    held after reason' other =
      held ledger reason' other + if reason' = reason ∧ other = who then amount else 0 := by
  obtain ⟨-, -, -, rfl⟩ := hold_eq_ok.mp h
  simp

theorem free_of_hold (h : hold rules reason who amount ledger = .ok after) (other : Account) :
    free after other + (if other = who then amount else 0) = free ledger other := by
  obtain ⟨-, hfree, -, rfl⟩ := hold_eq_ok.mp h
  rw [free_addHeld, free_subFree]
  split_ifs with hother
  · rw [hother]
    omega
  · omega

theorem release_eq_ok {result : ℕ × Ledger Account Reason} :
    release reason who amount precision ledger = .ok result ↔
      result.1 = (match precision with
        | .exact => amount
        | .bestEffort => min amount (held ledger reason who)) ∧
        result.1 ≤ held ledger reason who ∧
          result.2 = addFree (subHeld ledger reason who result.1) who result.1 := by
  obtain ⟨moved, after⟩ := result
  simp only [release, bind_eq_ok, ensure_eq_ok, pure_eq_ok, exists_const, decide_eq_true_eq,
    Prod.mk.injEq]
  constructor
  · rintro ⟨hle, rfl, rfl⟩
    exact ⟨rfl, hle, rfl⟩
  · rintro ⟨rfl, hle, rfl⟩
    exact ⟨hle, rfl, rfl⟩

/-- A best-effort release always succeeds and gives back what is there, up to the amount. -/
theorem release_bestEffort (reason : Reason) (who : Account) (amount : ℕ)
    (ledger : Ledger Account Reason) :
    release reason who amount .bestEffort ledger =
      .ok (min amount (held ledger reason who),
        addFree (subHeld ledger reason who (min amount (held ledger reason who))) who
          (min amount (held ledger reason who))) :=
  release_eq_ok.mpr ⟨rfl, Nat.min_le_right _ _, rfl⟩

theorem held_of_release {result : ℕ × Ledger Account Reason}
    (h : release reason who amount precision ledger = .ok result) (reason' : Reason)
    (other : Account) :
    held result.2 reason' other + (if reason' = reason ∧ other = who then result.1 else 0) =
      held ledger reason' other := by
  obtain ⟨-, hle, hafter⟩ := release_eq_ok.mp h
  rw [hafter, held_addFree, held_subHeld]
  split_ifs with hother
  · rw [hother.1, hother.2]
    omega
  · omega

theorem free_of_release {result : ℕ × Ledger Account Reason}
    (h : release reason who amount precision ledger = .ok result) (other : Account) :
    free result.2 other = free ledger other + if other = who then result.1 else 0 := by
  obtain ⟨-, -, hafter⟩ := release_eq_ok.mp h
  rw [hafter, free_addFree, free_subHeld]

/-- Releasing what was just put on hold gives the ledger back. -/
theorem release_of_hold {data : AccountData Reason}
    (h : hold rules reason who amount ledger = .ok after) (hdata : ledger.lookup who = some data)
    (precision : Precision) :
    release reason who amount precision after = .ok (amount, ledger) := by
  obtain ⟨-, hfree, -, rfl⟩ := hold_eq_ok.mp h
  have haccount : account ledger who = data := by
    rw [account, hdata]
    rfl
  have hback : addFree (subHeld (addHeld (subFree ledger who amount) reason who amount) reason who
      amount) who amount = ledger := by
    apply Finmap.ext_lookup
    intro other
    by_cases hother : other = who
    · subst hother
      have hamount : amount ≤ data.free := by
        rw [← haccount]
        exact hfree
      simp only [addFree, subHeld, addHeld, subFree, setAccount, account, Finmap.lookup_insert,
        Option.getD_some, hdata, Function.update_self, Function.update_idem, Nat.add_sub_cancel,
        Function.update_eq_self, Nat.sub_add_cancel hamount]
    · simp only [addFree, subHeld, addHeld, subFree, setAccount,
        Finmap.lookup_insert_of_ne _ hother]
  refine release_eq_ok.mpr ?_
  rw [hback]
  cases precision with
  | exact => simp
  | bestEffort => simp

theorem transferOnHold_eq_ok {result : ℕ × Ledger Account Reason} :
    transferOnHold rules reason source dest amount precision mode ledger = .ok result ↔
      result.1 = (match precision with
        | .exact => amount
        | .bestEffort =>
          min (min amount (rules.liquidOnHold ledger source)) (held ledger reason source)) ∧
        result.1 ≤ rules.liquidOnHold ledger source ∧
          result.1 ≤ held ledger reason source ∧
            rules.canDeposit ledger dest result.1 = true ∧
              (mode = .free ∨ rules.holdAvailable ledger reason dest = true) ∧
                result.2 = (match mode with
                  | .free => addFree (subHeld ledger reason source result.1) dest result.1
                  | .onHold =>
                    addHeld (subHeld ledger reason source result.1) reason dest result.1) := by
  obtain ⟨moved, after⟩ := result
  simp only [transferOnHold, bind_eq_ok, ensure_eq_ok, pure_eq_ok, exists_const,
    decide_eq_true_eq, Prod.mk.injEq]
  constructor
  · rintro ⟨hliquid, hheld, hdeposit, hmode, rfl, rfl⟩
    exact ⟨rfl, hliquid, hheld, hdeposit, hmode, rfl⟩
  · rintro ⟨rfl, hliquid, hheld, hdeposit, hmode, rfl⟩
    exact ⟨hliquid, hheld, hdeposit, hmode, rfl, rfl⟩

theorem held_of_transferOnHold_free {result : ℕ × Ledger Account Reason}
    (h : transferOnHold rules reason source dest amount precision .free ledger = .ok result)
    (reason' : Reason) (other : Account) :
    held result.2 reason' other + (if reason' = reason ∧ other = source then result.1 else 0) =
      held ledger reason' other := by
  obtain ⟨-, -, hle, -, -, hafter⟩ := transferOnHold_eq_ok.mp h
  rw [hafter, held_addFree, held_subHeld]
  split_ifs with hother
  · rw [hother.1, hother.2]
    omega
  · omega

theorem free_of_transferOnHold_free {result : ℕ × Ledger Account Reason}
    (h : transferOnHold rules reason source dest amount precision .free ledger = .ok result)
    (other : Account) :
    free result.2 other = free ledger other + if other = dest then result.1 else 0 := by
  obtain ⟨-, -, -, -, -, hafter⟩ := transferOnHold_eq_ok.mp h
  rw [hafter, free_addFree, free_subHeld]

theorem held_of_transferOnHold_onHold {result : ℕ × Ledger Account Reason}
    (h : transferOnHold rules reason source dest amount precision .onHold ledger = .ok result)
    (reason' : Reason) (other : Account) :
    held result.2 reason' other + (if reason' = reason ∧ other = source then result.1 else 0) =
      held ledger reason' other + if reason' = reason ∧ other = dest then result.1 else 0 := by
  obtain ⟨-, -, hle, -, -, hafter⟩ := transferOnHold_eq_ok.mp h
  rw [hafter, held_addHeld, held_subHeld]
  by_cases hother : reason' = reason ∧ other = source
  · rw [if_pos hother, hother.1, hother.2]
    omega
  · rw [if_neg hother]
    omega

theorem transferAndHold_eq_ok :
    transferAndHold rules reason source dest amount ledger = .ok after ↔
      rules.holdAvailable ledger reason dest = true ∧
        rules.canDeposit ledger dest amount = true ∧ amount ≤ free ledger source ∧
          amount ≤ rules.spendable ledger source ∧
            after = addHeld (subFree ledger source amount) reason dest amount := by
  simp only [transferAndHold, bind_eq_ok, ensure_eq_ok, pure_eq_ok, exists_const,
    decide_eq_true_eq, and_assoc]
  constructor
  · rintro ⟨havailable, hdeposit, hfree, hspendable, rfl⟩
    exact ⟨havailable, hdeposit, hfree, hspendable, rfl⟩
  · rintro ⟨havailable, hdeposit, hfree, hspendable, rfl⟩
    exact ⟨havailable, hdeposit, hfree, hspendable, rfl⟩

theorem held_of_transferAndHold
    (h : transferAndHold rules reason source dest amount ledger = .ok after)
    (reason' : Reason) (other : Account) :
    held after reason' other =
      held ledger reason' other + if reason' = reason ∧ other = dest then amount else 0 := by
  obtain ⟨-, -, -, -, rfl⟩ := transferAndHold_eq_ok.mp h
  simp

theorem free_of_transferAndHold
    (h : transferAndHold rules reason source dest amount ledger = .ok after) (other : Account) :
    free after other + (if other = source then amount else 0) = free ledger other := by
  obtain ⟨-, -, hfree, -, rfl⟩ := transferAndHold_eq_ok.mp h
  rw [free_addHeld, free_subFree]
  split_ifs with hother
  · rw [hother]
    omega
  · omega

omit [DecidableEq Reason] in
/-- Crediting an account, or dropping the credit, leaves every hold as it is. -/
theorem held_of_resolve (rules : Rules Account Reason) (who : Account) (credit : ℕ)
    (ledger : Ledger Account Reason) (reason' : Reason) (other : Account) :
    held ((resolve rules who credit ledger).getD ledger) reason' other =
      held ledger reason' other := by
  unfold resolve
  split_ifs with hdeposit
  · rw [Option.getD_some, held_addFree]
  · rfl

omit [DecidableEq Reason] in
/-- A credit that is accepted reaches its account, and one that is refused does not. -/
theorem free_of_resolve (rules : Rules Account Reason) (who : Account) (credit : ℕ)
    (ledger : Ledger Account Reason) (other : Account) :
    free ((resolve rules who credit ledger).getD ledger) other =
      free ledger other +
        if other = who then (if rules.canDeposit ledger who credit then credit else 0) else 0 := by
  unfold resolve
  split_ifs with hdeposit hother
  · rw [Option.getD_some, free_addFree, if_pos hother]
  · rw [Option.getD_some, free_addFree, if_neg hother]
  · rfl
  · rfl

section Conservation

variable [Fintype Reason]

omit [DecidableEq Reason] in
/-- A credit that is accepted adds to the total, and one that is refused does not. -/
theorem total_of_resolve (rules : Rules Account Reason) (who : Account) (credit : ℕ)
    (ledger : Ledger Account Reason) :
    total ((resolve rules who credit ledger).getD ledger) =
      total ledger + if rules.canDeposit ledger who credit then credit else 0 := by
  unfold resolve
  split_ifs with hdeposit
  · rw [Option.getD_some, total_addFree]
  · rfl

theorem total_of_hold (h : hold rules reason who amount ledger = .ok after) :
    total after = total ledger := by
  obtain ⟨-, hfree, -, rfl⟩ := hold_eq_ok.mp h
  have hsub := total_subFree hfree
  rw [total_addHeld]
  omega

theorem total_of_release {result : ℕ × Ledger Account Reason}
    (h : release reason who amount precision ledger = .ok result) :
    total result.2 = total ledger := by
  obtain ⟨-, hle, hafter⟩ := release_eq_ok.mp h
  have hsub := total_subHeld hle
  rw [hafter, total_addFree]
  omega

theorem total_of_transferOnHold {result : ℕ × Ledger Account Reason}
    (h : transferOnHold rules reason source dest amount precision mode ledger = .ok result) :
    total result.2 = total ledger := by
  obtain ⟨-, -, hle, -, -, hafter⟩ := transferOnHold_eq_ok.mp h
  have hsub := total_subHeld hle
  cases mode with
  | free =>
    rw [hafter, total_addFree]
    omega
  | onHold =>
    rw [hafter, total_addHeld]
    omega

theorem total_of_transferAndHold
    (h : transferAndHold rules reason source dest amount ledger = .ok after) :
    total after = total ledger := by
  obtain ⟨-, -, hfree, -, rfl⟩ := transferAndHold_eq_ok.mp h
  have hsub := total_subFree hfree
  rw [total_addHeld]
  omega

end Conservation

end Laws

/-! ### Moves -/

section Moves

variable [Fintype Reason]

/-- One amount on hold for one reason on one account. -/
def amountAt (reason : Reason) (who : Account) (amount : ℕ) : Reason → Account → ℕ :=
  fun reason' other ↦ if reason' = reason ∧ other = who then amount else 0

omit [Fintype Reason] in
theorem amountAt_apply (reason reason' : Reason) (who other : Account) (amount : ℕ) :
    amountAt reason who amount reason' other =
      if reason' = reason ∧ other = who then amount else 0 :=
  rfl

omit [Fintype Reason] in
@[simp] theorem amountAt_zero (reason : Reason) (who : Account) : amountAt reason who 0 = 0 := by
  funext reason' other
  simp [amountAt]

omit [Fintype Reason] in
theorem amountAt_add (reason : Reason) (who : Account) (amount amount' : ℕ) :
    amountAt reason who amount + amountAt reason who amount' =
      amountAt reason who (amount + amount') := by
  funext reason' other
  simp only [Pi.add_apply, amountAt]
  split_ifs with hother
  · rfl
  · rfl

/-- The holds gain one table of amounts and lose another, and the total stays. -/
structure Moves (gain loss : Reason → Account → ℕ) (before after : Ledger Account Reason) :
    Prop where
  held_add : ∀ reason who,
    held after reason who + loss reason who = held before reason who + gain reason who
  total_eq : total after = total before

omit [DecidableEq Reason] in
theorem Moves.refl (ledger : Ledger Account Reason) : Moves 0 0 ledger ledger :=
  ⟨fun _ _ ↦ rfl, rfl⟩

omit [DecidableEq Reason] in
/-- Gaining and losing the same amounts leaves a ledger as it is. -/
theorem Moves.same (table : Reason → Account → ℕ) (ledger : Ledger Account Reason) :
    Moves table table ledger ledger :=
  ⟨fun _ _ ↦ rfl, rfl⟩

omit [DecidableEq Reason] in
theorem Moves.trans {gain loss gain' loss' : Reason → Account → ℕ}
    {before middle after : Ledger Account Reason} (first : Moves gain loss before middle)
    (second : Moves gain' loss' middle after) : Moves (gain + gain') (loss + loss') before after := by
  refine ⟨fun reason who ↦ ?_, second.total_eq.trans first.total_eq⟩
  have hfirst := first.held_add reason who
  have hsecond := second.held_add reason who
  simp only [Pi.add_apply]
  omega

variable {rules : Rules Account Reason} {reason : Reason} {who source dest : Account}
  {amount : ℕ} {precision : Precision} {ledger after : Ledger Account Reason}

theorem hold_moves (h : hold rules reason who amount ledger = .ok after) :
    Moves (amountAt reason who amount) 0 ledger after :=
  ⟨fun reason' other ↦ held_of_hold h reason' other, total_of_hold h⟩

theorem release_moves {result : ℕ × Ledger Account Reason}
    (h : release reason who amount precision ledger = .ok result) :
    Moves 0 (amountAt reason who result.1) ledger result.2 :=
  ⟨fun reason' other ↦ held_of_release h reason' other, total_of_release h⟩

theorem transferOnHold_free_moves {result : ℕ × Ledger Account Reason}
    (h : transferOnHold rules reason source dest amount precision .free ledger = .ok result) :
    Moves 0 (amountAt reason source result.1) ledger result.2 :=
  ⟨fun reason' other ↦ held_of_transferOnHold_free h reason' other, total_of_transferOnHold h⟩

theorem transferOnHold_onHold_moves {result : ℕ × Ledger Account Reason}
    (h : transferOnHold rules reason source dest amount precision .onHold ledger = .ok result) :
    Moves (amountAt reason dest result.1) (amountAt reason source result.1) ledger result.2 :=
  ⟨fun reason' other ↦ held_of_transferOnHold_onHold h reason' other, total_of_transferOnHold h⟩

theorem transferAndHold_moves
    (h : transferAndHold rules reason source dest amount ledger = .ok after) :
    Moves (amountAt reason dest amount) 0 ledger after :=
  ⟨fun reason' other ↦ held_of_transferAndHold h reason' other, total_of_transferAndHold h⟩

end Moves

end Ledger

end Web3Storage.Foundations
