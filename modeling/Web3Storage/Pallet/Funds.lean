import Web3Storage.Pallet.State

/-!
# Movements of money

Every movement of money the pallet makes. Stake and agreement money moves exactly or the call
fails; challenge money and slashes move what is there. Each helper has a law for the held balances
and one for the total of the ledger, so that no caller looks into the currency.
-/

set_option autoImplicit false
set_option relaxedAutoImplicit false

namespace Web3Storage.Pallet

open Foundations Primitives

variable {AccountId : Type} [DecidableEq AccountId] (cfg : Config AccountId)

/-- The ledger the pallet works on. -/
abbrev Funds (AccountId : Type) := Ledger AccountId HoldReason

def holdStake (who : AccountId) (amount : ℕ) (ledger : Funds AccountId) :
    Except DispatchError (Funds AccountId) :=
  currency (Ledger.hold cfg.rules .providerStake who amount ledger)

def releaseExact (reason : HoldReason) (who : AccountId) (amount : ℕ)
    (ledger : Funds AccountId) : Except DispatchError (Funds AccountId) :=
  if amount = 0 then .ok ledger
  else currency ((Ledger.release reason who amount .exact ledger).map Prod.snd)

def releaseStake (who : AccountId) (amount : ℕ) (ledger : Funds AccountId) :
    Except DispatchError (Funds AccountId) :=
  releaseExact .providerStake who amount ledger

def holdPayment (who : AccountId) (amount : ℕ) (ledger : Funds AccountId) :
    Except DispatchError (Funds AccountId) :=
  currency (Ledger.hold cfg.rules .agreementPayment who amount ledger)

/-- Escrow for an agreement on behalf of a payer. The funds of a third party move to the owner and
are held there. -/
def holdPaymentFrom (payer owner : AccountId) (amount : ℕ) (ledger : Funds AccountId) :
    Except DispatchError (Funds AccountId) :=
  if amount = 0 then .ok ledger
  else if payer = owner then holdPayment cfg owner amount ledger
  else currency (Ledger.transferAndHold cfg.rules .agreementPayment payer owner amount ledger)

def releasePayment (who : AccountId) (amount : ℕ) (ledger : Funds AccountId) :
    Except DispatchError (Funds AccountId) :=
  releaseExact .agreementPayment who amount ledger

/-- Pay an escrowed fee out. -/
def settlePayment (owner dest : AccountId) (amount : ℕ) (ledger : Funds AccountId) :
    Except DispatchError (Funds AccountId) :=
  if amount = 0 then .ok ledger
  else
    currency ((Ledger.transferOnHold cfg.rules .agreementPayment owner dest amount .exact .free
      ledger).map Prod.snd)

/-- Move the escrow of an agreement to a new owner, where it stays on hold. -/
def transferPaymentOnHold (source dest : AccountId) (amount : ℕ)
    (ledger : Funds AccountId) : Except DispatchError (Funds AccountId) :=
  if amount = 0 then .ok ledger
  else
    currency ((Ledger.transferOnHold cfg.rules .agreementPayment source dest amount .exact .onHold
      ledger).map Prod.snd)

def holdChallengeDeposit (who : AccountId) (amount : ℕ) (ledger : Funds AccountId) :
    Except DispatchError (Funds AccountId) :=
  currency (Ledger.hold cfg.rules .challengeDeposit who amount ledger)

/-- Refund a challenger's deposit. An error of the currency leaves the ledger as it is. -/
def releaseChallengeDeposit (who : AccountId) (amount : ℕ) (ledger : Funds AccountId) :
    Funds AccountId :=
  match Ledger.release .challengeDeposit who amount .bestEffort ledger with
  | .ok (_, after) => after
  | .error _ => ledger

/-- Split a deposit after a defended challenge: the provider gets its share from the hold, and the
rest goes back to the challenger. Returns what reached the provider. -/
def settleChallengeDeposit (challenger provider : AccountId) (deposit providerShare : ℕ)
    (ledger : Funds AccountId) : ℕ × Funds AccountId :=
  let paid : ℕ × Funds AccountId :=
    if providerShare = 0 then (0, ledger)
    else
      match Ledger.transferOnHold cfg.rules .challengeDeposit challenger provider providerShare
        .bestEffort .free ledger with
      | .ok (moved, after) => (moved, after)
      | .error _ => (0, ledger)
  (paid.1, releaseChallengeDeposit challenger (deposit - paid.1) paid.2)

/-- Slash held collateral into the treasury. A credit the treasury refuses is burned. Returns what
was slashed. -/
def slashStakeToTreasury (who : AccountId) (amount : ℕ) (ledger : Funds AccountId) :
    ℕ × Funds AccountId :=
  if amount = 0 then (0, ledger)
  else
    match Ledger.slash .providerStake who amount ledger with
    | (credit, notSlashed, after) =>
      (amount - notSlashed, (Ledger.resolve cfg.rules cfg.treasury credit after).getD after)

/-- Hold the storage deposit of a record. Returns the ticket. -/
def newTicket (who : AccountId) (kind : RecordKind) (ledger : Funds AccountId) :
    Except DispatchError (ℕ × Funds AccountId) := do
  let after ← currency (Ledger.hold cfg.rules .storageDeposit who (cfg.storageDeposit kind) ledger)
  return (cfg.storageDeposit kind, after)

/-- Release the storage deposit of a record that is removed. -/
def dropTicket (who : AccountId) (ticket : ℕ) (ledger : Funds AccountId) :
    Except DispatchError (Funds AccountId) :=
  currency ((Ledger.release .storageDeposit who ticket .bestEffort ledger).map Prod.snd)

/-- The treasury accepts the credit of a slash. -/
def AcceptsSlash (who : AccountId) (amount : ℕ) (ledger : Funds AccountId) : Prop :=
  ∀ credit, credit = min amount (Ledger.held ledger .providerStake who) → 0 < credit →
    cfg.rules.canDeposit (Ledger.subHeld ledger .providerStake who credit) cfg.treasury credit = true

/-! ### Laws -/

section Laws

open Ledger (Moves amountAt held total)

variable {cfg} {who payer owner source dest challenger provider : AccountId}
  {amount deposit share : ℕ} {reason : HoldReason} {kind : RecordKind}
  {ledger after : Funds AccountId}

omit [DecidableEq AccountId] in
private theorem map_snd_eq_ok {operation : Except TokenError (ℕ × Funds AccountId)} :
    operation.map Prod.snd = .ok after ↔ ∃ moved, operation = .ok (moved, after) := by
  cases operation with
  | error error => simp [Except.map]
  | ok result =>
    obtain ⟨moved, final⟩ := result
    simp [Except.map]

theorem holdStake_moves (h : holdStake cfg who amount ledger = .ok after) :
    Moves (amountAt .providerStake who amount) 0 ledger after :=
  Ledger.hold_moves ((currency_eq_ok _ _).mp h)

theorem holdPayment_moves (h : holdPayment cfg who amount ledger = .ok after) :
    Moves (amountAt .agreementPayment who amount) 0 ledger after :=
  Ledger.hold_moves ((currency_eq_ok _ _).mp h)

theorem holdChallengeDeposit_moves
    (h : holdChallengeDeposit cfg who amount ledger = .ok after) :
    Moves (amountAt .challengeDeposit who amount) 0 ledger after :=
  Ledger.hold_moves ((currency_eq_ok _ _).mp h)

theorem releaseExact_moves (h : releaseExact reason who amount ledger = .ok after) :
    Moves 0 (amountAt reason who amount) ledger after := by
  unfold releaseExact at h
  split_ifs at h with hzero
  · cases h
    rw [hzero, Ledger.amountAt_zero]
    exact Moves.refl ledger
  · obtain ⟨moved, hrelease⟩ := map_snd_eq_ok.mp ((currency_eq_ok _ _).mp h)
    have hmoved : moved = amount := (Ledger.release_eq_ok.mp hrelease).1
    rw [← hmoved]
    exact Ledger.release_moves hrelease

theorem holdPaymentFrom_moves (h : holdPaymentFrom cfg payer owner amount ledger = .ok after) :
    Moves (amountAt .agreementPayment owner amount) 0 ledger after := by
  unfold holdPaymentFrom at h
  split_ifs at h with hzero hsame
  · cases h
    simp only [hzero, Ledger.amountAt_zero]
    exact Moves.refl ledger
  · exact holdPayment_moves h
  · exact Ledger.transferAndHold_moves ((currency_eq_ok _ _).mp h)

/-- What a payment that is held takes from the free balance of the payer. -/
theorem holdPaymentFrom_free (h : holdPaymentFrom cfg payer owner amount ledger = .ok after)
    (other : AccountId) :
    Ledger.free after other + (if other = payer then amount else 0) = Ledger.free ledger other := by
  unfold holdPaymentFrom at h
  split_ifs at h with hzero hsame
  · cases h
    simp [hzero]
  · rw [hsame]
    exact Ledger.free_of_hold ((currency_eq_ok _ _).mp h) other
  · exact Ledger.free_of_transferAndHold ((currency_eq_ok _ _).mp h) other

theorem settlePayment_moves (h : settlePayment cfg owner dest amount ledger = .ok after) :
    Moves 0 (amountAt .agreementPayment owner amount) ledger after := by
  unfold settlePayment at h
  split_ifs at h with hzero
  · cases h
    rw [hzero, Ledger.amountAt_zero]
    exact Moves.refl ledger
  · obtain ⟨moved, htransfer⟩ := map_snd_eq_ok.mp ((currency_eq_ok _ _).mp h)
    have hmoved : moved = amount := (Ledger.transferOnHold_eq_ok.mp htransfer).1
    rw [← hmoved]
    exact Ledger.transferOnHold_free_moves htransfer

/-- A settled fee arrives free on the account it is paid to. -/
theorem settlePayment_free (h : settlePayment cfg owner dest amount ledger = .ok after)
    (other : AccountId) :
    Ledger.free after other = Ledger.free ledger other + if other = dest then amount else 0 := by
  unfold settlePayment at h
  split_ifs at h with hzero
  · cases h
    simp [hzero]
  · obtain ⟨moved, htransfer⟩ := map_snd_eq_ok.mp ((currency_eq_ok _ _).mp h)
    have hmoved : moved = amount := (Ledger.transferOnHold_eq_ok.mp htransfer).1
    rw [← hmoved]
    exact Ledger.free_of_transferOnHold_free htransfer other

/-- A released hold is free on its own account. -/
theorem releaseExact_free (h : releaseExact reason who amount ledger = .ok after)
    (other : AccountId) :
    Ledger.free after other = Ledger.free ledger other + if other = who then amount else 0 := by
  unfold releaseExact at h
  split_ifs at h with hzero
  · cases h
    simp [hzero]
  · obtain ⟨moved, hrelease⟩ := map_snd_eq_ok.mp ((currency_eq_ok _ _).mp h)
    have hmoved : moved = amount := (Ledger.release_eq_ok.mp hrelease).1
    rw [← hmoved]
    exact Ledger.free_of_release hrelease other

theorem transferPaymentOnHold_moves
    (h : transferPaymentOnHold cfg source dest amount ledger = .ok after) :
    Moves (amountAt .agreementPayment dest amount) (amountAt .agreementPayment source amount)
      ledger after := by
  unfold transferPaymentOnHold at h
  split_ifs at h with hzero
  · cases h
    simp only [hzero, Ledger.amountAt_zero]
    exact Moves.refl ledger
  · obtain ⟨moved, htransfer⟩ := map_snd_eq_ok.mp ((currency_eq_ok _ _).mp h)
    have hmoved : moved = amount := (Ledger.transferOnHold_eq_ok.mp htransfer).1
    rw [← hmoved]
    exact Ledger.transferOnHold_onHold_moves htransfer

theorem newTicket_moves {result : ℕ × Funds AccountId}
    (h : newTicket cfg who kind ledger = .ok result) :
    result.1 = cfg.storageDeposit kind ∧
      Moves (amountAt .storageDeposit who (cfg.storageDeposit kind)) 0 ledger result.2 := by
  simp only [newTicket, bind_eq_ok, pure_eq_ok, currency_eq_ok] at h
  obtain ⟨after, hhold, rfl⟩ := h
  exact ⟨rfl, Ledger.hold_moves hhold⟩

theorem dropTicket_moves (h : dropTicket who amount ledger = .ok after) :
    Moves 0 (amountAt .storageDeposit who (min amount (held ledger .storageDeposit who)))
      ledger after := by
  obtain ⟨moved, hrelease⟩ := map_snd_eq_ok.mp ((currency_eq_ok _ _).mp h)
  have hmoved : moved = min amount (held ledger .storageDeposit who) :=
    (Ledger.release_eq_ok.mp hrelease).1
  rw [← hmoved]
  exact Ledger.release_moves hrelease

/-- A dropped ticket is free on the account that paid it. -/
theorem dropTicket_free (h : dropTicket who amount ledger = .ok after) :
    ∃ ticket, ∀ other, Ledger.free after other =
      Ledger.free ledger other + if other = who then ticket else 0 := by
  obtain ⟨moved, hrelease⟩ := map_snd_eq_ok.mp ((currency_eq_ok _ _).mp h)
  exact ⟨moved, Ledger.free_of_release hrelease⟩

/-- Dropping a ticket never fails. -/
theorem dropTicket_ok (who : AccountId) (amount : ℕ) (ledger : Funds AccountId) :
    ∃ after, dropTicket who amount ledger = .ok after := by
  unfold dropTicket
  rw [Ledger.release_bestEffort]
  exact ⟨_, rfl⟩

theorem releaseChallengeDeposit_moves (who : AccountId) (amount : ℕ)
    (ledger : Funds AccountId) :
    Moves 0 (amountAt .challengeDeposit who (min amount (held ledger .challengeDeposit who)))
      ledger (releaseChallengeDeposit who amount ledger) := by
  have hrelease := Ledger.release_bestEffort HoldReason.challengeDeposit who amount ledger
  unfold releaseChallengeDeposit
  rw [hrelease]
  exact Ledger.release_moves hrelease

theorem releaseChallengeDeposit_free (who : AccountId) (amount : ℕ) (ledger : Funds AccountId)
    (other : AccountId) :
    Ledger.free (releaseChallengeDeposit who amount ledger) other =
      Ledger.free ledger other +
        if other = who then min amount (held ledger .challengeDeposit who) else 0 := by
  have hrelease := Ledger.release_bestEffort HoldReason.challengeDeposit who amount ledger
  unfold releaseChallengeDeposit
  rw [hrelease]
  exact Ledger.free_of_release hrelease other

/-- A settlement pays the provider no more than its share, whether or not the currency lets it, and
releases the rest. -/
theorem settleChallengeDeposit_eq (cfg : Config AccountId) (challenger provider : AccountId)
    (deposit share : ℕ) (ledger : Funds AccountId) :
    ∃ paid after, paid ≤ share ∧ paid ≤ held ledger .challengeDeposit challenger ∧
      Moves 0 (amountAt .challengeDeposit challenger paid) ledger after ∧
        (∀ other, Ledger.free after other =
          Ledger.free ledger other + if other = provider then paid else 0) ∧
          settleChallengeDeposit cfg challenger provider deposit share ledger =
            (paid, releaseChallengeDeposit challenger (deposit - paid) after) := by
  have hnone : Moves 0 (amountAt .challengeDeposit challenger 0) ledger ledger := by
    rw [Ledger.amountAt_zero]
    exact Moves.refl ledger
  unfold settleChallengeDeposit
  split_ifs with hzero
  · exact ⟨0, ledger, Nat.zero_le _, Nat.zero_le _, hnone, by simp, rfl⟩
  · cases htransfer : Ledger.transferOnHold cfg.rules .challengeDeposit challenger provider share
        .bestEffort .free ledger with
    | error error => exact ⟨0, ledger, Nat.zero_le _, Nat.zero_le _, hnone, by simp, rfl⟩
    | ok result =>
      obtain ⟨hmoved, -, hheld, -, -, -⟩ := Ledger.transferOnHold_eq_ok.mp htransfer
      refine ⟨result.1, result.2, ?_, hheld, Ledger.transferOnHold_free_moves htransfer,
        Ledger.free_of_transferOnHold_free htransfer, rfl⟩
      simp only at hmoved
      omega

/-- A settled deposit leaves the challenger's hold, up to what is there, and no more than its share
reaches the provider. -/
theorem settleChallengeDeposit_moves (cfg : Config AccountId) (challenger provider : AccountId)
    (deposit share : ℕ) (ledger : Funds AccountId) (hshare : share ≤ deposit) :
    (settleChallengeDeposit cfg challenger provider deposit share ledger).1 ≤ share ∧
      Moves 0
        (amountAt .challengeDeposit challenger
          (min deposit (held ledger .challengeDeposit challenger)))
        ledger (settleChallengeDeposit cfg challenger provider deposit share ledger).2 := by
  obtain ⟨paid, after, hle, hheld, hmoves, -, heq⟩ :=
    settleChallengeDeposit_eq cfg challenger provider deposit share ledger
  rw [heq]
  have hleft := hmoves.held_add .challengeDeposit challenger
  have hboth := hmoves.trans (releaseChallengeDeposit_moves challenger (deposit - paid) after)
  refine ⟨hle, fun reason other ↦ ?_, hboth.total_eq⟩
  have hsum := hboth.held_add reason other
  simp only [Pi.add_apply, Ledger.amountAt_apply, Pi.zero_apply, and_self, if_true] at hsum hleft ⊢
  by_cases hother : reason = .challengeDeposit ∧ other = challenger
  · rw [hother.1, hother.2] at hsum ⊢
    simp only [and_self, if_true] at hsum ⊢
    omega
  · simp only [hother, if_false] at hsum ⊢
    omega

/-- A deposit that was held in full reaches the provider and the challenger in full. -/
theorem settleChallengeDeposit_free (cfg : Config AccountId) (challenger provider : AccountId)
    (hshare : share ≤ deposit) (hdeposit : deposit ≤ held ledger .challengeDeposit challenger)
    (other : AccountId) :
    Ledger.free (settleChallengeDeposit cfg challenger provider deposit share ledger).2 other =
      Ledger.free ledger other +
        (if other = provider then
          (settleChallengeDeposit cfg challenger provider deposit share ledger).1 else 0) +
        if other = challenger then
          deposit - (settleChallengeDeposit cfg challenger provider deposit share ledger).1
        else 0 := by
  obtain ⟨paid, after, hle, hheld, hmoves, hfree, heq⟩ :=
    settleChallengeDeposit_eq cfg challenger provider deposit share ledger
  have hleft := hmoves.held_add .challengeDeposit challenger
  simp only [Ledger.amountAt_apply, Pi.zero_apply, and_self, if_true] at hleft
  have hall : min (deposit - paid) (held after .challengeDeposit challenger) = deposit - paid := by
    omega
  rw [heq, releaseChallengeDeposit_free, hall, hfree]

/-- A slash takes what is held, up to the amount, and reports it. -/
theorem slashStakeToTreasury_held (cfg : Config AccountId) (who : AccountId) (amount : ℕ)
    (ledger : Funds AccountId) :
    (slashStakeToTreasury cfg who amount ledger).1 = min amount (held ledger .providerStake who) ∧
      ∀ reason other,
        held (slashStakeToTreasury cfg who amount ledger).2 reason other +
            amountAt .providerStake who (min amount (held ledger .providerStake who)) reason other =
          held ledger reason other := by
  have htaken : ∀ reason other,
      held (Ledger.subHeld ledger .providerStake who
          (min amount (held ledger .providerStake who))) reason other +
        amountAt .providerStake who (min amount (held ledger .providerStake who)) reason other =
          held ledger reason other := by
    intro reason other
    rw [Ledger.held_subHeld, Ledger.amountAt_apply]
    split_ifs with hother
    · rw [hother.1, hother.2]
      omega
    · omega
  unfold slashStakeToTreasury
  by_cases hzero : amount = 0
  · simp [hzero, Ledger.amountAt_apply]
  · rw [if_neg hzero]
    refine ⟨by simp only [Ledger.slash]; omega, fun reason other ↦ ?_⟩
    simp only [Ledger.slash, Ledger.held_of_resolve]
    exact htaken reason other

/-- A slash changes no free balance but the treasury's, which gets all of it or nothing. -/
theorem slashStakeToTreasury_free (cfg : Config AccountId) (who : AccountId) (amount : ℕ)
    (ledger : Funds AccountId) :
    ∃ credit, (credit = 0 ∨ credit = min amount (held ledger .providerStake who)) ∧
      ∀ other, Ledger.free (slashStakeToTreasury cfg who amount ledger).2 other =
        Ledger.free ledger other + if other = cfg.treasury then credit else 0 := by
  unfold slashStakeToTreasury
  by_cases hzero : amount = 0
  · rw [if_pos hzero]
    exact ⟨0, .inl rfl, by simp⟩
  · rw [if_neg hzero]
    have hfree : ∀ other, Ledger.free
        ((Ledger.resolve cfg.rules cfg.treasury (min amount (held ledger .providerStake who))
          (Ledger.subHeld ledger .providerStake who (min amount (held ledger .providerStake who)))).getD
          (Ledger.subHeld ledger .providerStake who (min amount (held ledger .providerStake who))))
          other = _ := fun other ↦ by
      rw [Ledger.free_of_resolve, Ledger.free_subHeld]
    refine ⟨_, ?_, hfree⟩
    split_ifs
    · exact .inr rfl
    · exact .inl rfl

/-- A slash never adds to the total, and keeps it when the treasury takes the credit. -/
theorem slashStakeToTreasury_total (cfg : Config AccountId) (who : AccountId) (amount : ℕ)
    (ledger : Funds AccountId) :
    total (slashStakeToTreasury cfg who amount ledger).2 ≤ total ledger ∧
      (AcceptsSlash cfg who amount ledger →
        total (slashStakeToTreasury cfg who amount ledger).2 = total ledger) := by
  have htaken := Ledger.total_subHeld
    (Nat.min_le_right amount (held ledger .providerStake who))
  unfold slashStakeToTreasury
  by_cases hzero : amount = 0
  · rw [if_pos hzero]
    exact ⟨le_rfl, fun _ ↦ rfl⟩
  · rw [if_neg hzero]
    simp only [Ledger.slash, Ledger.total_of_resolve]
    refine ⟨?_, fun haccepts ↦ ?_⟩
    · split_ifs with hdeposit
      · omega
      · omega
    · rcases Nat.eq_zero_or_pos (min amount (held ledger .providerStake who)) with hnone | hcredit
      · rw [hnone] at htaken ⊢
        split_ifs
        · omega
        · omega
      · rw [if_pos (haccepts _ rfl hcredit)]
        omega

end Laws

end Web3Storage.Pallet
