import Web3Storage.Pallet.Quotes

/-!
# Live agreements

Topping up, transferring, extending and settling an agreement. Every escrow sits on hold on the
owner of its agreement, whoever paid it in, and every settlement draws on that hold.
-/

set_option autoImplicit false
set_option relaxedAutoImplicit false

namespace Web3Storage.Pallet

open Foundations Primitives

variable {AccountId : Type} [DecidableEq AccountId] (cfg : Config AccountId)

/-! ### Settlement -/

/-- How the locked payment is split between the provider and the treasury. The product of the locked
payment and the percentage is a plain 128-bit multiplication. -/
def splitPayment (action : EndAction) (paymentLocked : ℕ) : ℕ × ℕ :=
  match action with
  | .pay => (paymentLocked, 0)
  | .burn burnPercent =>
    let burnAmount := wrappingMul u128Max paymentLocked (min burnPercent 100) / 100
    (paymentLocked - burnAmount, burnAmount)

/-- The sync balance an agreement has left; none for a primary. -/
def StorageAgreement.syncBalance (agreement : StorageAgreement AccountId) : ℕ :=
  match agreement.role with
  | .replica syncBalance .. => syncBalance
  | .primary => 0

/-- Return the unspent sync balance of a replica to the owner. -/
def releaseSyncBalance (agreement : StorageAgreement AccountId) (ledger : Funds AccountId) :
    Except DispatchError (Funds AccountId) :=
  match agreement.role with
  | .replica syncBalance .. => releasePayment agreement.owner syncBalance ledger
  | .primary => .ok ledger

/-- A signer bitfield without the place of a removed primary. -/
def BucketSnapshot.removeSigner (snapshot : BucketSnapshot) (pos : ℕ) : BucketSnapshot :=
  if pos < snapshot.primarySigners.length then
    { snapshot with primarySigners := snapshot.primarySigners.eraseIdx pos }
  else snapshot

/-- Remove a provider from the primaries of a bucket, and its bit from the signer bitfield. -/
def removePrimaryFromBucket (bucketId : ℕ) (provider : AccountId)
    (buckets : FiniteMap ℕ (Bucket AccountId)) : FiniteMap ℕ (Bucket AccountId) :=
  match buckets.lookup bucketId with
  | none => buckets
  | some bucket =>
    match bucket.primaryProviders.findIdx? fun p ↦ p = provider with
    | none => buckets
    | some pos => buckets.insert bucketId
      { bucket with
        primaryProviders := bucket.primaryProviders.eraseIdx pos
        snapshot := bucket.snapshot.map fun snapshot ↦ snapshot.removeSigner pos }

/-- Settle an agreement, remove it and release its storage deposit. -/
def finalizeAgreement (bucketId : ℕ) (provider : AccountId)
    (agreement : StorageAgreement AccountId) (action : EndAction) (isEarly : Bool)
    (s : State AccountId) : Except DispatchError (State AccountId) := do
  let split := splitPayment action agreement.paymentLocked
  let paid ← settlePayment cfg agreement.owner provider split.1 s.ledger
  let burned ← settlePayment cfg agreement.owner cfg.treasury split.2 paid
  let released ← releaseSyncBalance agreement burned
  let ledger ← dropTicket agreement.depositor agreement.deposit released
  let reason := if isEarly then RemovalReason.adminTerminated else .expired
  return { s with
    ledger := ledger
    providers := FiniteMap.modify provider
      (fun info ↦ { info with
        committedBytes := info.committedBytes - agreement.maxBytes
        stats := (info.stats.paid split.1).agreementClosed (split.2 > 0) }) s.providers
    buckets := if agreement.role.isPrimary then removePrimaryFromBucket bucketId provider s.buckets
      else s.buckets
    storageAgreements := s.storageAgreements.erase (bucketId, provider)
    events := s.events ++
      (if agreement.role.isPrimary then [.primaryProviderRemoved bucketId provider reason] else []) ++
        [.agreementEnded bucketId provider split.1 split.2] }

/-- Settle and close an agreement: early by an admin, or after expiry by the owner. -/
def endAgreement (who : AccountId) (bucketId : ℕ) (provider : AccountId) (action : EndAction)
    (s : State AccountId) : Except DispatchError (State AccountId) := do
  let agreement ← fetch (s.storageAgreements.lookup (bucketId, provider)) .agreementNotFound
  check (s.pendingByBucketOf bucketId provider = 0) .agreementHasPendingChallenge
  let isEarlyTermination : Bool := s.anchorBlock < agreement.expiresAt
  onlyIf isEarlyTermination do
    let bucket ← fetch (s.buckets.lookup bucketId) .bucketNotFound
    ensureAdmin who bucket
    check agreement.role.isPrimary .cannotTerminateReplica
  onlyIf (!isEarlyTermination) do
    check (agreement.owner = who) .notAgreementOwner
    check (s.anchorBlock ≤ saturatingAdd u32Max agreement.expiresAt cfg.settlementTimeout)
      .settlementWindowPassed
  finalizeAgreement cfg bucketId provider agreement action isEarlyTermination s

/-- Collect the escrow of an agreement whose owner let the settlement window pass. -/
def claimExpiredAgreement (who : AccountId) (bucketId : ℕ) (s : State AccountId) :
    Except DispatchError (State AccountId) := do
  let agreement ← fetch (s.storageAgreements.lookup (bucketId, who)) .agreementNotFound
  check (s.pendingByBucketOf bucketId who = 0) .agreementHasPendingChallenge
  check (s.anchorBlock > agreement.expiresAt) .agreementNotExpired
  check (s.anchorBlock > saturatingAdd u32Max agreement.expiresAt cfg.settlementTimeout)
    .agreementNotExpired
  finalizeAgreement cfg bucketId who agreement .pay false s

/-- Remove a provider without stake from a bucket. The whole escrow returns to the owner. -/
def removeSlashed (bucketId : ℕ) (provider : AccountId) (s : State AccountId) :
    Except DispatchError (State AccountId) := do
  let providerInfo ← fetch (s.providers.lookup provider) .providerNotFound
  check (providerInfo.stake = 0) .providerNotSlashed
  check (s.pendingByBucketOf bucketId provider = 0) .agreementHasPendingChallenge
  let agreement ← fetch (s.storageAgreements.lookup (bucketId, provider)) .agreementNotFound
  let returned := agreement.escrow
  let released ← releasePayment agreement.owner returned s.ledger
  let ledger ← dropTicket agreement.depositor agreement.deposit released
  return { s with
    ledger := ledger
    providers := FiniteMap.modify provider
      (fun info ↦ { info with committedBytes := info.committedBytes - agreement.maxBytes })
      s.providers
    buckets := if agreement.role.isPrimary then removePrimaryFromBucket bucketId provider s.buckets
      else s.buckets
    storageAgreements := s.storageAgreements.erase (bucketId, provider)
    events := s.events ++
      (if agreement.role.isPrimary then [.primaryProviderRemoved bucketId provider .slashed]
        else []) ++ [.slashedProviderRemoved bucketId provider returned] }

/-! ### Changes to a live agreement -/

/-- Buy more quota for the rest of an agreement's duration. -/
def topUpAgreement (who : AccountId) (bucketId : ℕ) (provider : AccountId)
    (additionalBytes maxPayment : ℕ) (s : State AccountId) :
    Except DispatchError (State AccountId) := do
  let providerInfo ← fetch (s.providers.lookup provider) .providerNotFound
  ensureProviderActive providerInfo
  let agreement ← fetch (s.storageAgreements.lookup (bucketId, provider)) .agreementNotFound
  check (agreement.owner = who) .notAgreementOwner
  check (s.anchorBlock < agreement.expiresAt) .agreementExpired
  let payment ← calculatePayment providerInfo.settings.pricePerByte additionalBytes
    (agreement.expiresAt - s.anchorBlock)
  check (payment ≤ maxPayment) .paymentExceedsMax
  let ledger ← holdPaymentFrom cfg who agreement.owner payment s.ledger
  let newMaxBytes ← fetch (checkedAdd u64Max agreement.maxBytes additionalBytes) .arithmeticOverflow
  let paymentLocked ← fetch (checkedAdd u128Max agreement.paymentLocked payment) .arithmeticOverflow
  return { s with
    ledger := ledger
    providers := FiniteMap.modify provider
      (fun info ↦ { info with
        committedBytes := saturatingAdd u64Max info.committedBytes additionalBytes }) s.providers
    storageAgreements := s.storageAgreements.insert (bucketId, provider)
      { agreement with maxBytes := newMaxBytes, paymentLocked := paymentLocked }
    events := s.events ++ [.agreementToppedUp bucketId provider payment newMaxBytes] }

/-- Transfer an agreement, and the hold of its escrow, to a new owner. -/
def transferAgreementOwnership (who : AccountId) (bucketId : ℕ) (provider newOwner : AccountId)
    (s : State AccountId) : Except DispatchError (State AccountId) := do
  check (newOwner ≠ who) .transferToSelf
  let agreement ← fetch (s.storageAgreements.lookup (bucketId, provider)) .agreementNotFound
  check (agreement.owner = who) .notAgreementOwner
  let escrow := agreement.escrow
  let ledger ← transferPaymentOnHold cfg who newOwner escrow s.ledger
  return { s with
    ledger := ledger
    storageAgreements := s.storageAgreements.insert (bucketId, provider)
      { agreement with owner := newOwner }
    events := s.events ++ [.agreementOwnershipTransferred bucketId provider who newOwner escrow] }

/-- What the provider earned since the start of the period, capped at the locked payment. -/
def elapsedPayment (agreement : StorageAgreement AccountId) (anchorBlock : ℕ) :
    Except DispatchError ℕ :=
  let elapsed := anchorBlock - agreement.startedAt
  if elapsed ≠ 0 then do
    let payment ← calculatePayment agreement.pricePerByte agreement.maxBytes elapsed
    return min payment agreement.paymentLocked
  else .ok 0

/-- The role of an extended agreement: a replica takes the current sync price. -/
def extendedRole (settings : ProviderSettings) : ProviderRole → Except DispatchError ProviderRole
  | .primary => .ok .primary
  | .replica syncBalance _ minSyncInterval lastSync => do
    let newSyncPrice ← fetch settings.replicaSyncPrice .providerNotAcceptingReplicas
    return .replica syncBalance newSyncPrice minSyncInterval lastSync

/-- Pay the provider for the elapsed period and lock the payment of a new one. -/
def extendAgreement (who : AccountId) (bucketId : ℕ) (provider : AccountId)
    (additionalDuration maxPayment : ℕ) (s : State AccountId) :
    Except DispatchError (State AccountId) := do
  let providerInfo ← fetch (s.providers.lookup provider) .providerNotFound
  ensureProviderActive providerInfo
  check providerInfo.settings.acceptingExtensions .providerNotAcceptingExtensions
  let agreement ← fetch (s.storageAgreements.lookup (bucketId, provider)) .agreementNotFound
  check (!agreement.extensionsBlocked) .agreementExtensionsBlocked
  validateDuration providerInfo.settings additionalDuration
  onlyIf (providerInfo.settings.pricePerByte > agreement.pricePerByte)
    (check (agreement.owner = who) .notAgreementOwner)
  check (s.anchorBlock < agreement.expiresAt) .agreementExpired
  let earned ← elapsedPayment agreement s.anchorBlock
  let settled ← settlePayment cfg agreement.owner provider earned s.ledger
  let extensionPayment ← calculatePayment providerInfo.settings.pricePerByte agreement.maxBytes
    additionalDuration
  check (extensionPayment ≤ maxPayment) .paymentExceedsMax
  let ledger ← holdPaymentFrom cfg who agreement.owner extensionPayment settled
  let role ← extendedRole providerInfo.settings agreement.role
  let expiresAt := saturatingAdd u32Max s.anchorBlock additionalDuration
  return { s with
    ledger := ledger
    providers := FiniteMap.modify provider
      (fun info ↦ { info with stats := (info.stats.paid earned).agreementExtended }) s.providers
    storageAgreements := s.storageAgreements.insert (bucketId, provider)
      { agreement with
        paymentLocked := saturatingAdd u128Max (agreement.paymentLocked - earned) extensionPayment
        pricePerByte := providerInfo.settings.pricePerByte
        expiresAt := expiresAt
        role := role
        startedAt := s.anchorBlock }
    events := s.events ++ [.agreementExtended bucketId provider expiresAt extensionPayment] }

/-- Add funds to the sync balance of a replica. -/
def topUpReplicaSyncBalance (who : AccountId) (bucketId : ℕ) (provider : AccountId) (amount : ℕ)
    (s : State AccountId) : Except DispatchError (State AccountId) := do
  let agreement ← fetch (s.storageAgreements.lookup (bucketId, provider)) .agreementNotFound
  let ledger ← holdPaymentFrom cfg who agreement.owner amount s.ledger
  match agreement.role with
  | .primary => .error (.pallet .notReplica)
  | .replica syncBalance syncPrice minSyncInterval lastSync => do
    let newTotal ← fetch (checkedAdd u128Max syncBalance amount) .arithmeticOverflow
    return { s with
      ledger := ledger
      storageAgreements := s.storageAgreements.insert (bucketId, provider)
        { agreement with role := .replica newTotal syncPrice minSyncInterval lastSync }
      events := s.events ++ [.replicaSyncBalanceToppedUp bucketId provider amount newTotal] }

/-! ### What the calls do -/

section Specification

open Ledger (Moves amountAt held)

variable {cfg} {who provider newOwner : AccountId} {bucketId : ℕ} {action : EndAction}
  {isEarly : Bool} {agreement : StorageAgreement AccountId} {s s' : State AccountId}

/-- The two parts of a settled payment make the whole, whatever the burn percentage. -/
theorem splitPayment_sum (action : EndAction) (paymentLocked : ℕ) :
    (splitPayment action paymentLocked).1 + (splitPayment action paymentLocked).2 =
      paymentLocked := by
  cases action with
  | pay => rfl
  | burn burnPercent =>
    -- even a wrapped product is at most the true one, so the burned part never exceeds the payment
    have hwrapped : wrappingMul u128Max paymentLocked (min burnPercent 100) ≤
        paymentLocked * 100 :=
      (Nat.mod_le _ _).trans (Nat.mul_le_mul_left _ (Nat.min_le_right _ _))
    simp only [splitPayment]
    omega

omit [DecidableEq AccountId] in
/-- The escrow of an agreement is its locked payment with its sync balance, if that fits. -/
theorem escrow_eq (agreement : StorageAgreement AccountId)
    (hfits : agreement.paymentLocked + agreement.syncBalance ≤ u128Max) :
    agreement.escrow = agreement.paymentLocked + agreement.syncBalance := by
  unfold StorageAgreement.escrow StorageAgreement.syncBalance at *
  cases hrole : agreement.role with
  | primary => rfl
  | replica syncBalance syncPrice minSyncInterval lastSync =>
    rw [hrole] at hfits
    exact saturatingAdd_of_le hfits

theorem releaseSyncBalance_moves {ledger after : Funds AccountId}
    (h : releaseSyncBalance agreement ledger = .ok after) :
    Moves 0 (amountAt .agreementPayment agreement.owner agreement.syncBalance) ledger after := by
  unfold releaseSyncBalance at h
  unfold StorageAgreement.syncBalance
  cases hrole : agreement.role with
  | primary =>
    rw [hrole] at h
    cases h
    simp only [Ledger.amountAt_zero]
    exact Moves.refl ledger
  | replica syncBalance syncPrice minSyncInterval lastSync =>
    rw [hrole] at h
    exact releaseExact_moves h

/-- The sync balance of an agreement is released to its owner. -/
theorem releaseSyncBalance_free {ledger after : Funds AccountId}
    (h : releaseSyncBalance agreement ledger = .ok after) (other : AccountId) :
    Ledger.free after other =
      Ledger.free ledger other + if other = agreement.owner then agreement.syncBalance else 0 := by
  unfold releaseSyncBalance at h
  unfold StorageAgreement.syncBalance
  cases hrole : agreement.role with
  | primary =>
    rw [hrole] at h
    cases h
    simp
  | replica syncBalance syncPrice minSyncInterval lastSync =>
    rw [hrole] at h
    exact releaseExact_free h other

theorem finalizeAgreement_ok
    (h : finalizeAgreement cfg bucketId provider agreement action isEarly s = .ok s') :
    ∃ ledger deposit events,
      Moves 0 (amountAt .agreementPayment agreement.owner
          (agreement.paymentLocked + agreement.syncBalance) +
        amountAt .storageDeposit agreement.depositor deposit) s.ledger ledger ∧
        s' = { s with
          ledger := ledger
          providers := FiniteMap.modify provider
            (fun info ↦ { info with
              committedBytes := info.committedBytes - agreement.maxBytes
              stats :=
                (info.stats.paid (splitPayment action agreement.paymentLocked).1).agreementClosed
                  ((splitPayment action agreement.paymentLocked).2 > 0) }) s.providers
          buckets := if agreement.role.isPrimary then
            removePrimaryFromBucket bucketId provider s.buckets else s.buckets
          storageAgreements := s.storageAgreements.erase (bucketId, provider)
          events := events } := by
  simp only [finalizeAgreement, bind_eq_ok, pure_eq_ok] at h
  obtain ⟨paid, hpaid, burned, hburned, released, hreleased, ledger, hledger, rfl⟩ := h
  have hall := (((settlePayment_moves hpaid).trans (settlePayment_moves hburned)).trans
    (releaseSyncBalance_moves hreleased)).trans (dropTicket_moves hledger)
  rw [Ledger.amountAt_add, Ledger.amountAt_add, splitPayment_sum, add_zero, add_zero,
    add_zero] at hall
  exact ⟨ledger, _, _, hall, rfl⟩

theorem endAgreement_ok (h : endAgreement cfg who bucketId provider action s = .ok s') :
    ∃ agreement isEarly, s.storageAgreements.lookup (bucketId, provider) = some agreement ∧
      s.pendingByBucketOf bucketId provider = 0 ∧
        finalizeAgreement cfg bucketId provider agreement action isEarly s = .ok s' := by
  simp only [endAgreement, bind_eq_ok, fetch_eq_ok, check_eq_ok, decide_eq_true_eq] at h
  obtain ⟨agreement, hagreement, -, hpending, -, -, -, -, h⟩ := h
  exact ⟨agreement, _, hagreement, hpending, h⟩

theorem claimExpiredAgreement_ok (h : claimExpiredAgreement cfg who bucketId s = .ok s') :
    ∃ agreement, s.storageAgreements.lookup (bucketId, who) = some agreement ∧
      s.pendingByBucketOf bucketId who = 0 ∧
        finalizeAgreement cfg bucketId who agreement .pay false s = .ok s' := by
  simp only [claimExpiredAgreement, bind_eq_ok, fetch_eq_ok, check_eq_ok, decide_eq_true_eq] at h
  obtain ⟨agreement, hagreement, -, hpending, -, -, -, -, h⟩ := h
  exact ⟨agreement, hagreement, hpending, h⟩

theorem removeSlashed_ok (h : removeSlashed bucketId provider s = .ok s') :
    ∃ info agreement ledger deposit events, s.providers.lookup provider = some info ∧
      info.stake = 0 ∧ s.pendingByBucketOf bucketId provider = 0 ∧
        s.storageAgreements.lookup (bucketId, provider) = some agreement ∧
          Moves 0 (amountAt .agreementPayment agreement.owner agreement.escrow +
            amountAt .storageDeposit agreement.depositor deposit) s.ledger ledger ∧
            s' = { s with
              ledger := ledger
              providers := FiniteMap.modify provider
                (fun info ↦ { info with
                  committedBytes := info.committedBytes - agreement.maxBytes }) s.providers
              buckets := if agreement.role.isPrimary then
                removePrimaryFromBucket bucketId provider s.buckets else s.buckets
              storageAgreements := s.storageAgreements.erase (bucketId, provider)
              events := events } := by
  simp only [removeSlashed, bind_eq_ok, pure_eq_ok, fetch_eq_ok, check_eq_ok,
    decide_eq_true_eq] at h
  obtain ⟨info, hinfo, -, hstake, -, hpending, agreement, hagreement, released, hreleased, ledger,
    hledger, rfl⟩ := h
  exact ⟨info, agreement, ledger, _, _, hinfo, hstake, hpending, hagreement,
    (releaseExact_moves hreleased).trans (dropTicket_moves hledger), rfl⟩

theorem topUpAgreement_ok {additionalBytes maxPayment : ℕ}
    (h : topUpAgreement cfg who bucketId provider additionalBytes maxPayment s = .ok s') :
    ∃ info agreement payment ledger, s.providers.lookup provider = some info ∧
      info.deregisterAt = none ∧
        s.storageAgreements.lookup (bucketId, provider) = some agreement ∧
          agreement.owner = who ∧ s.anchorBlock < agreement.expiresAt ∧
            Moves (amountAt .agreementPayment agreement.owner payment) 0 s.ledger ledger ∧
              agreement.maxBytes + additionalBytes ≤ u64Max ∧
                s' = { s with
                  ledger := ledger
                  providers := FiniteMap.modify provider
                    (fun info ↦ { info with
                      committedBytes :=
                        saturatingAdd u64Max info.committedBytes additionalBytes }) s.providers
                  storageAgreements := s.storageAgreements.insert (bucketId, provider)
                    { agreement with
                      maxBytes := agreement.maxBytes + additionalBytes
                      paymentLocked := agreement.paymentLocked + payment }
                  events := s.events ++ [.agreementToppedUp bucketId provider payment
                    (agreement.maxBytes + additionalBytes)] } := by
  simp only [topUpAgreement, ensureProviderActive, bind_eq_ok, pure_eq_ok, fetch_eq_ok,
    check_eq_ok, checkedAdd_eq_some, decide_eq_true_eq] at h
  obtain ⟨info, hinfo, -, hactive, agreement, hagreement, -, howner, -, hlive, payment, hpayment, -,
    hmax, ledger, hledger, newMaxBytes, ⟨hbytes, rfl⟩, paymentLocked, ⟨-, rfl⟩, rfl⟩ := h
  exact ⟨info, agreement, payment, ledger, hinfo, by simpa using hactive, hagreement, howner, hlive,
    holdPaymentFrom_moves hledger, hbytes, rfl⟩

theorem transferAgreementOwnership_ok
    (h : transferAgreementOwnership cfg who bucketId provider newOwner s = .ok s') :
    ∃ agreement ledger, newOwner ≠ who ∧
      s.storageAgreements.lookup (bucketId, provider) = some agreement ∧ agreement.owner = who ∧
        Moves (amountAt .agreementPayment newOwner agreement.escrow)
          (amountAt .agreementPayment who agreement.escrow) s.ledger ledger ∧
          s' = { s with
            ledger := ledger
            storageAgreements := s.storageAgreements.insert (bucketId, provider)
              { agreement with owner := newOwner }
            events := s.events ++ [.agreementOwnershipTransferred bucketId provider who newOwner
              agreement.escrow] } := by
  simp only [transferAgreementOwnership, bind_eq_ok, pure_eq_ok, fetch_eq_ok, check_eq_ok,
    decide_eq_true_eq] at h
  obtain ⟨-, hother, agreement, hagreement, -, howner, ledger, hledger, rfl⟩ := h
  exact ⟨agreement, ledger, hother, hagreement, howner, transferPaymentOnHold_moves hledger, rfl⟩

omit [DecidableEq AccountId] in
/-- What is paid for the elapsed period is part of the locked payment. -/
theorem elapsedPayment_le {anchorBlock earned : ℕ}
    (h : elapsedPayment agreement anchorBlock = .ok earned) : earned ≤ agreement.paymentLocked := by
  simp only [elapsedPayment] at h
  split_ifs at h with helapsed
  · simp only [bind_eq_ok, pure_eq_ok] at h
    obtain ⟨payment, -, rfl⟩ := h
    exact Nat.min_le_right _ _
  · cases h
    exact Nat.zero_le _

/-- An extended role keeps its kind and its sync balance. -/
theorem extendedRole_ok {settings : ProviderSettings} {role role' : ProviderRole}
    (h : extendedRole settings role = .ok role') :
    role' = role ∨ ∃ syncBalance syncPrice newSyncPrice minSyncInterval lastSync,
      role = .replica syncBalance syncPrice minSyncInterval lastSync ∧
        role' = .replica syncBalance newSyncPrice minSyncInterval lastSync := by
  cases role with
  | primary =>
    cases h
    exact .inl rfl
  | replica syncBalance syncPrice minSyncInterval lastSync =>
    simp only [extendedRole, bind_eq_ok, pure_eq_ok] at h
    obtain ⟨newSyncPrice, -, rfl⟩ := h
    exact .inr ⟨syncBalance, syncPrice, newSyncPrice, minSyncInterval, lastSync, rfl, rfl⟩

theorem extendAgreement_ok {additionalDuration maxPayment : ℕ}
    (h : extendAgreement cfg who bucketId provider additionalDuration maxPayment s = .ok s') :
    ∃ info agreement earned payment ledger role, s.providers.lookup provider = some info ∧
      info.deregisterAt = none ∧
        s.storageAgreements.lookup (bucketId, provider) = some agreement ∧
          s.anchorBlock < agreement.expiresAt ∧ earned ≤ agreement.paymentLocked ∧
            Moves (amountAt .agreementPayment agreement.owner payment)
              (amountAt .agreementPayment agreement.owner earned) s.ledger ledger ∧
              extendedRole info.settings agreement.role = .ok role ∧
                s' = { s with
                  ledger := ledger
                  providers := FiniteMap.modify provider
                    (fun info ↦ { info with
                      stats := (info.stats.paid earned).agreementExtended }) s.providers
                  storageAgreements := s.storageAgreements.insert (bucketId, provider)
                    { agreement with
                      paymentLocked :=
                        saturatingAdd u128Max (agreement.paymentLocked - earned) payment
                      pricePerByte := info.settings.pricePerByte
                      expiresAt := saturatingAdd u32Max s.anchorBlock additionalDuration
                      role := role
                      startedAt := s.anchorBlock }
                  events := s.events ++ [.agreementExtended bucketId provider
                    (saturatingAdd u32Max s.anchorBlock additionalDuration) payment] } := by
  simp only [extendAgreement, ensureProviderActive, bind_eq_ok, pure_eq_ok, fetch_eq_ok,
    check_eq_ok, decide_eq_true_eq] at h
  obtain ⟨info, hinfo, -, hactive, -, -, agreement, hagreement, -, -, -, -, -, -, -, hlive, earned,
    hearned, settled, hsettled, payment, -, -, -, ledger, hledger, role, hrole, rfl⟩ := h
  have hmoves := (settlePayment_moves hsettled).trans (holdPaymentFrom_moves hledger)
  rw [zero_add, add_zero] at hmoves
  exact ⟨info, agreement, earned, payment, ledger, role, hinfo, by simpa using hactive, hagreement,
    hlive, elapsedPayment_le hearned, hmoves, hrole, rfl⟩

theorem topUpReplicaSyncBalance_ok {amount : ℕ}
    (h : topUpReplicaSyncBalance cfg who bucketId provider amount s = .ok s') :
    ∃ agreement ledger syncBalance syncPrice minSyncInterval lastSync,
      s.storageAgreements.lookup (bucketId, provider) = some agreement ∧
        Moves (amountAt .agreementPayment agreement.owner amount) 0 s.ledger ledger ∧
          agreement.role = .replica syncBalance syncPrice minSyncInterval lastSync ∧
            s' = { s with
              ledger := ledger
              storageAgreements := s.storageAgreements.insert (bucketId, provider)
                { agreement with
                  role := .replica (syncBalance + amount) syncPrice minSyncInterval lastSync }
              events := s.events ++ [.replicaSyncBalanceToppedUp bucketId provider amount
                (syncBalance + amount)] } := by
  simp only [topUpReplicaSyncBalance, bind_eq_ok, fetch_eq_ok] at h
  obtain ⟨agreement, hagreement, ledger, hledger, h⟩ := h
  cases hrole : agreement.role with
  | primary =>
    rw [hrole] at h
    cases h
  | replica syncBalance syncPrice minSyncInterval lastSync =>
    rw [hrole] at h
    simp only [bind_eq_ok, pure_eq_ok, fetch_eq_ok, checkedAdd_eq_some] at h
    obtain ⟨newTotal, ⟨-, rfl⟩, rfl⟩ := h
    exact ⟨agreement, ledger, syncBalance, syncPrice, minSyncInterval, lastSync, hagreement,
      holdPaymentFrom_moves hledger, hrole, rfl⟩

end Specification

end Web3Storage.Pallet
