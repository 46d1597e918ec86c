import Web3Storage.Pallet.Funds

/-!
# Providers

Registration, stake, settings and the two-step exit of a provider.
-/

set_option autoImplicit false
set_option relaxedAutoImplicit false

namespace Web3Storage.Pallet

open Foundations Primitives

variable {AccountId : Type} [DecidableEq AccountId] (cfg : Config AccountId)

def ensureProviderActive (provider : ProviderInfo) : Except DispatchError Unit :=
  check provider.deregisterAt.isNone .deregisterAnnounced

/-- Validate settings against the bytes a provider committed to and its stake. -/
def validateSettings (settings : ProviderSettings) (committedBytes stake : ℕ) :
    Except DispatchError Unit := do
  check (settings.minDuration ≤ settings.maxDuration) .minDurationExceedsMaxDuration
  onlyIf (settings.maxCapacity > 0) do
    check (settings.maxCapacity ≥ committedBytes) .capacityBelowCommitted
    check (settings.minAgreementBytes ≤ settings.maxCapacity) .minAgreementBytesExceedsMaxCapacity
    let requiredStake ←
      fetch (checkedMul u128Max cfg.minStakePerByte settings.maxCapacity) .arithmeticOverflow
    check (stake ≥ requiredStake) .insufficientStakeForCapacity

/-- Register a provider with the settings given, holding its stake and its storage deposit. -/
def registerProviderInternal (who : AccountId) (multiaddr publicKey : Bytes) (stake : ℕ)
    (settings : ProviderSettings) (s : State AccountId) :
    Except DispatchError (State AccountId) := do
  check (s.providers.lookup who).isNone .providerAlreadyRegistered
  check (stake ≥ cfg.minProviderStake) .insufficientStake
  check (publicKey.length = 32 || publicKey.length = 33) .invalidPublicKey
  validateSettings cfg settings 0 stake
  let staked ← holdStake cfg who stake s.ledger
  let ticketed ← newTicket cfg who .provider staked
  let info : ProviderInfo :=
    { multiaddr := multiaddr, publicKey := publicKey, stake := stake, committedBytes := 0
      settings := settings, stats := .new s.anchorBlock, deregisterAt := none
      deposit := ticketed.1 }
  return { s with
    ledger := ticketed.2
    providers := s.providers.insert who info
    events := s.events ++ [.providerRegistered who stake] }

def registerProvider (who : AccountId) (multiaddr publicKey : Bytes) (stake : ℕ)
    (s : State AccountId) : Except DispatchError (State AccountId) :=
  registerProviderInternal cfg who multiaddr publicKey stake .default s

def addStake (who : AccountId) (amount : ℕ) (s : State AccountId) :
    Except DispatchError (State AccountId) := do
  let provider ← fetch (s.providers.lookup who) .providerNotFound
  let stake ← fetch (checkedAdd u128Max provider.stake amount) .arithmeticOverflow
  let ledger ← holdStake cfg who amount s.ledger
  return { s with
    ledger := ledger
    providers := s.providers.insert who { provider with stake := stake }
    events := s.events ++ [.providerStakeAdded who amount stake] }

/-- Switch the acceptance of primary agreements and of extensions on or off. -/
def ProviderSettings.setAccepting (settings : ProviderSettings) (accepting : Bool) :
    ProviderSettings :=
  { settings with acceptingPrimary := accepting, acceptingExtensions := accepting }

/-- Announce the exit of a provider without commitments. It takes no new ones until it cancels. -/
def deregisterProvider (who : AccountId) (s : State AccountId) :
    Except DispatchError (State AccountId) := do
  let completeAfter := saturatingAdd u32Max s.anchorBlock cfg.deregisterAnnouncementPeriod
  let provider ← fetch (s.providers.lookup who) .providerNotFound
  check (provider.committedBytes = 0) .providerHasActiveAgreements
  ensureProviderActive provider
  return { s with
    providers := s.providers.insert who
      { provider with
        settings := provider.settings.setAccepting false
        deregisterAt := some completeAfter }
    events := s.events ++ [.deregisterAnnounced who completeAfter] }

/-- Complete an announced exit once its period has elapsed and nothing can be slashed any more. -/
def completeDeregister (who : AccountId) (s : State AccountId) :
    Except DispatchError (State AccountId) := do
  let provider ← fetch (s.providers.lookup who) .providerNotFound
  let deregisterAt ← fetch provider.deregisterAt .deregisterNotAnnounced
  check (s.anchorBlock ≥ deregisterAt) .deregisterPeriodNotElapsed
  check (provider.committedBytes = 0) .providerHasActiveAgreements
  check (s.pendingOf who = 0) .providerHasPendingChallenges
  let dropped ← dropTicket who provider.deposit s.ledger
  let ledger ← releaseStake who provider.stake dropped
  return { s with
    ledger := ledger
    providers := s.providers.erase who
    events := s.events ++ [.providerDeregistered who provider.stake] }

def cancelDeregister (who : AccountId) (s : State AccountId) :
    Except DispatchError (State AccountId) := do
  let provider ← fetch (s.providers.lookup who) .providerNotFound
  check provider.deregisterAt.isSome .deregisterNotAnnounced
  return { s with
    providers := s.providers.insert who
      { provider with settings := provider.settings.setAccepting true, deregisterAt := none }
    events := s.events ++ [.deregisterCancelled who] }

def updateProviderSettings (who : AccountId) (settings : ProviderSettings) (s : State AccountId) :
    Except DispatchError (State AccountId) := do
  check (settings.minDuration ≤ settings.maxDuration) .minDurationExceedsMaxDuration
  let provider ← fetch (s.providers.lookup who) .providerNotFound
  ensureProviderActive provider
  validateSettings cfg settings provider.committedBytes provider.stake
  return { s with
    providers := s.providers.insert who { provider with settings := settings }
    events := s.events ++ [.providerSettingsUpdated who settings] }

def updateProviderMultiaddr (who : AccountId) (multiaddr : Bytes) (s : State AccountId) :
    Except DispatchError (State AccountId) := do
  let provider ← fetch (s.providers.lookup who) .providerNotFound
  return { s with
    providers := s.providers.insert who { provider with multiaddr := multiaddr }
    events := s.events ++ [.providerMultiaddrUpdated who multiaddr] }

/-- Refuse, or allow again, extensions of the caller's live agreement on a bucket. -/
def setExtensionsBlocked (who : AccountId) (bucketId : ℕ) (blocked : Bool)
    (s : State AccountId) : Except DispatchError (State AccountId) := do
  check (s.providers.lookup who).isSome .providerNotFound
  let agreement ← fetch (s.storageAgreements.lookup (bucketId, who)) .agreementNotFound
  check (s.anchorBlock < agreement.expiresAt) .agreementExpired
  return { s with
    storageAgreements := s.storageAgreements.insert (bucketId, who)
      { agreement with extensionsBlocked := blocked }
    events := s.events ++ [.extensionsBlocked bucketId who blocked] }

/-! ### What the calls do -/

section Specification

open Ledger (Moves amountAt held)

variable {cfg} {who : AccountId} {s s' : State AccountId}

omit [DecidableEq AccountId] in
/-- Valid settings keep the committed bytes within a limited capacity that the stake backs. -/
theorem validateSettings_ok {settings : ProviderSettings} {committedBytes stake : ℕ} {result : Unit}
    (h : validateSettings cfg settings committedBytes stake = .ok result) :
    settings.minDuration ≤ settings.maxDuration ∧
      (0 < settings.maxCapacity → committedBytes ≤ settings.maxCapacity ∧
        settings.minAgreementBytes ≤ settings.maxCapacity ∧
          cfg.minStakePerByte * settings.maxCapacity ≤ stake) := by
  simp only [validateSettings, bind_eq_ok, check_eq_ok, onlyIf_eq_ok, fetch_eq_ok,
    checkedMul_eq_some, decide_eq_true_eq] at h
  obtain ⟨-, hduration, hcapacity⟩ := h
  refine ⟨hduration, fun hlimited ↦ ?_⟩
  obtain ⟨-, hcommitted, -, hminimum, required, ⟨-, rfl⟩, hstake⟩ := hcapacity hlimited
  exact ⟨hcommitted, hminimum, hstake⟩

theorem registerProviderInternal_ok {multiaddr publicKey : Bytes} {stake : ℕ}
    {settings : ProviderSettings}
    (h : registerProviderInternal cfg who multiaddr publicKey stake settings s = .ok s') :
    ∃ ledger info, s.providers.lookup who = none ∧ cfg.minProviderStake ≤ stake ∧
      validateSettings cfg settings 0 stake = .ok () ∧
        Moves (amountAt .providerStake who stake +
          amountAt .storageDeposit who (cfg.storageDeposit .provider)) 0 s.ledger ledger ∧
          info = { multiaddr := multiaddr, publicKey := publicKey, stake := stake
                   committedBytes := 0, settings := settings, stats := .new s.anchorBlock
                   deregisterAt := none, deposit := cfg.storageDeposit .provider } ∧
            s' = { s with
              ledger := ledger
              providers := s.providers.insert who info
              events := s.events ++ [.providerRegistered who stake] } := by
  simp only [registerProviderInternal, bind_eq_ok, pure_eq_ok, check_eq_ok] at h
  obtain ⟨-, hnew, -, hstake, -, -, done, hsettings, staked, hstaked, ticketed, hticket, rfl⟩ := h
  obtain ⟨hamount, hmoves⟩ := newTicket_moves hticket
  refine ⟨ticketed.2, _, by simpa using hnew, by simpa using hstake, hsettings,
    (holdStake_moves hstaked).trans hmoves, ?_, rfl⟩
  rw [hamount]

theorem addStake_ok {amount : ℕ} (h : addStake cfg who amount s = .ok s') :
    ∃ provider ledger, s.providers.lookup who = some provider ∧
      Moves (amountAt .providerStake who amount) 0 s.ledger ledger ∧
        s' = { s with
          ledger := ledger
          providers := s.providers.insert who { provider with stake := provider.stake + amount }
          events := s.events ++
            [.providerStakeAdded who amount (provider.stake + amount)] } := by
  simp only [addStake, bind_eq_ok, pure_eq_ok, fetch_eq_ok, checkedAdd_eq_some] at h
  obtain ⟨provider, hprovider, stake, ⟨-, rfl⟩, ledger, hledger, rfl⟩ := h
  exact ⟨provider, ledger, hprovider, holdStake_moves hledger, rfl⟩

theorem deregisterProvider_ok (h : deregisterProvider cfg who s = .ok s') :
    ∃ provider completeAfter, s.providers.lookup who = some provider ∧
      provider.committedBytes = 0 ∧ provider.deregisterAt = none ∧
        completeAfter = saturatingAdd u32Max s.anchorBlock cfg.deregisterAnnouncementPeriod ∧
          s' = { s with
            providers := s.providers.insert who
              { provider with
                settings := provider.settings.setAccepting false
                deregisterAt := some completeAfter }
            events := s.events ++ [.deregisterAnnounced who completeAfter] } := by
  simp only [deregisterProvider, ensureProviderActive, bind_eq_ok, pure_eq_ok, fetch_eq_ok,
    check_eq_ok] at h
  obtain ⟨provider, hprovider, -, hbytes, -, hactive, rfl⟩ := h
  exact ⟨provider, _, hprovider, by simpa using hbytes, by simpa using hactive, rfl, rfl⟩

theorem completeDeregister_ok (h : completeDeregister who s = .ok s') :
    ∃ provider deregisterAt amount ledger, s.providers.lookup who = some provider ∧
      provider.deregisterAt = some deregisterAt ∧ deregisterAt ≤ s.anchorBlock ∧
        provider.committedBytes = 0 ∧ s.pendingOf who = 0 ∧
          Moves 0 (amountAt .storageDeposit who amount +
            amountAt .providerStake who provider.stake) s.ledger ledger ∧
            s' = { s with
              ledger := ledger
              providers := s.providers.erase who
              events := s.events ++ [.providerDeregistered who provider.stake] } := by
  simp only [completeDeregister, bind_eq_ok, pure_eq_ok, fetch_eq_ok, check_eq_ok,
    decide_eq_true_eq] at h
  obtain ⟨provider, hprovider, deregisterAt, hat, -, helapsed, -, hbytes, -, hpending, dropped,
    hdropped, ledger, hledger, rfl⟩ := h
  exact ⟨provider, deregisterAt, _, ledger, hprovider, hat, helapsed, hbytes, hpending,
    (dropTicket_moves hdropped).trans (releaseExact_moves hledger), rfl⟩

theorem cancelDeregister_ok (h : cancelDeregister who s = .ok s') :
    ∃ provider, s.providers.lookup who = some provider ∧ provider.deregisterAt.isSome = true ∧
      s' = { s with
        providers := s.providers.insert who
          { provider with settings := provider.settings.setAccepting true, deregisterAt := none }
        events := s.events ++ [.deregisterCancelled who] } := by
  simp only [cancelDeregister, bind_eq_ok, pure_eq_ok, fetch_eq_ok, check_eq_ok] at h
  obtain ⟨provider, hprovider, -, hannounced, rfl⟩ := h
  exact ⟨provider, hprovider, hannounced, rfl⟩

theorem updateProviderSettings_ok {settings : ProviderSettings}
    (h : updateProviderSettings cfg who settings s = .ok s') :
    ∃ provider, s.providers.lookup who = some provider ∧ provider.deregisterAt = none ∧
      validateSettings cfg settings provider.committedBytes provider.stake = .ok () ∧
        s' = { s with
          providers := s.providers.insert who { provider with settings := settings }
          events := s.events ++ [.providerSettingsUpdated who settings] } := by
  simp only [updateProviderSettings, ensureProviderActive, bind_eq_ok, pure_eq_ok, fetch_eq_ok,
    check_eq_ok] at h
  obtain ⟨-, -, provider, hprovider, -, hactive, done, hsettings, rfl⟩ := h
  exact ⟨provider, hprovider, by simpa using hactive, hsettings, rfl⟩

theorem updateProviderMultiaddr_ok {multiaddr : Bytes}
    (h : updateProviderMultiaddr who multiaddr s = .ok s') :
    ∃ provider, s.providers.lookup who = some provider ∧
      s' = { s with
        providers := s.providers.insert who { provider with multiaddr := multiaddr }
        events := s.events ++ [.providerMultiaddrUpdated who multiaddr] } := by
  simp only [updateProviderMultiaddr, bind_eq_ok, pure_eq_ok, fetch_eq_ok] at h
  obtain ⟨provider, hprovider, rfl⟩ := h
  exact ⟨provider, hprovider, rfl⟩

theorem setExtensionsBlocked_ok {bucketId : ℕ} {blocked : Bool}
    (h : setExtensionsBlocked who bucketId blocked s = .ok s') :
    ∃ agreement, s.storageAgreements.lookup (bucketId, who) = some agreement ∧
      s.anchorBlock < agreement.expiresAt ∧
        s' = { s with
          storageAgreements := s.storageAgreements.insert (bucketId, who)
            { agreement with extensionsBlocked := blocked }
          events := s.events ++ [.extensionsBlocked bucketId who blocked] } := by
  simp only [setExtensionsBlocked, bind_eq_ok, pure_eq_ok, fetch_eq_ok, check_eq_ok,
    decide_eq_true_eq] at h
  obtain ⟨-, -, agreement, hagreement, -, hlive, rfl⟩ := h
  exact ⟨agreement, hagreement, hlive, rfl⟩

end Specification

end Web3Storage.Pallet
