import Web3Storage.Pallet.Bookkeeping
import Web3Storage.Pallet.Mock

/-!
# Discovering providers

The runtime offers two searches for a provider. One lists the providers with room for a number of
bytes, the other scores every provider against requirements and says why one falls short. Both read
the settings, the stake and the committed bytes that a quote is checked against on redemption, and
each leaves one of those checks out: the first lists providers that announced their exit, the second
does not read the stake (`discovery_disagrees`). Both meet a sum beyond 64 bits, on which a redemption
fails, with a saturated one or not at all. `discovered_redeemable_iff` says of every provider found,
in every reachable state, when a quote of the size asked for passes.
-/

set_option autoImplicit false
set_option relaxedAutoImplicit false

namespace Web3Storage.Pallet

open Foundations Primitives

/-! ### Requests and answers -/

structure StorageRequirements where
  bytesNeeded : ℕ
  minDuration : ℕ
  maxPricePerByte : ℕ
  /-- Match only providers that accept primary agreements. -/
  primaryOnly : Bool

inductive PartialMatchReason
  | priceTooHigh
  | insufficientCapacity
  | durationMismatch
  | notAccepting
  | belowMinAgreementBytes
  deriving DecidableEq, Repr

structure ProviderStatsInfo where
  registeredAt : ℕ
  agreementsTotal : ℕ
  agreementsExtended : ℕ
  agreementsNotExtended : ℕ
  agreementsBurned : ℕ
  totalBytesCommitted : ℕ
  challengesReceivedAuthorized : ℕ
  challengesReceivedPublic : ℕ
  challengesFailed : ℕ
  lifetimeRevenue : ℕ
  reputation : ℕ
  deriving DecidableEq

structure ProviderInfoResponse where
  multiaddr : Bytes
  publicKey : Bytes
  stake : ℕ
  committedBytes : ℕ
  minDuration : ℕ
  maxDuration : ℕ
  pricePerByte : ℕ
  acceptingPrimary : Bool
  replicaSyncPrice : Option ℕ
  acceptingExtensions : Bool
  maxCapacity : ℕ
  minAgreementBytes : ℕ
  /-- The capacity that is left, none if it is unlimited. -/
  availableCapacity : Option ℕ
  deregisterAt : Option ℕ
  stats : ProviderStatsInfo
  deriving DecidableEq

structure MatchedProvider where
  account : Bytes
  info : ProviderInfoResponse
  matchScore : ℕ
  availableCapacity : Option ℕ
  partialReason : Option PartialMatchReason
  deriving DecidableEq

def ProviderStats.challengesDefended (stats : ProviderStats) : ℕ :=
  saturatingAdd u32Max stats.challengesReceivedAuthorized stats.challengesReceivedPublic

/-- The share of the resolved challenges that were defended, in percent. -/
def ProviderStats.reputation (stats : ProviderStats) : ℕ :=
  let total := stats.challengesDefended + stats.challengesFailed
  if total = 0 then 100 else min (stats.challengesDefended * 100 / total) 100

def ProviderStats.toInfo (stats : ProviderStats) : ProviderStatsInfo where
  registeredAt := stats.registeredAt
  agreementsTotal := stats.agreementsTotal
  agreementsExtended := stats.agreementsExtended
  agreementsNotExtended := stats.agreementsNotExtended
  agreementsBurned := stats.agreementsBurned
  totalBytesCommitted := stats.totalBytesCommitted
  challengesReceivedAuthorized := stats.challengesReceivedAuthorized
  challengesReceivedPublic := stats.challengesReceivedPublic
  challengesFailed := stats.challengesFailed
  lifetimeRevenue := stats.lifetimeRevenue
  reputation := stats.reputation

def ProviderInfo.availableCapacity (info : ProviderInfo) : Option ℕ :=
  if info.settings.maxCapacity > 0 then some (info.settings.maxCapacity - info.committedBytes)
  else none

/-- The answer about a provider. The widths of the runtime are those of the answer, so that no
conversion saturates. -/
def ProviderInfo.response (info : ProviderInfo) : ProviderInfoResponse where
  multiaddr := info.multiaddr
  publicKey := info.publicKey
  stake := info.stake
  committedBytes := info.committedBytes
  minDuration := info.settings.minDuration
  maxDuration := info.settings.maxDuration
  pricePerByte := info.settings.pricePerByte
  acceptingPrimary := info.settings.acceptingPrimary
  replicaSyncPrice := info.settings.replicaSyncPrice
  acceptingExtensions := info.settings.acceptingExtensions
  maxCapacity := info.settings.maxCapacity
  minAgreementBytes := info.settings.minAgreementBytes
  availableCapacity := info.availableCapacity
  deregisterAt := info.deregisterAt
  stats := info.stats.toInfo

/-! ### Scores -/

/-- A score with the first reason it was lowered for. -/
structure MatchOutcome where
  score : ℕ
  partialReason : Option PartialMatchReason
  deriving DecidableEq

/-- Lower a score that is not zero yet when a check fails. -/
def MatchOutcome.penalize (outcome : MatchOutcome) (fails : Bool) (penalty : ℕ)
    (reason : PartialMatchReason) : MatchOutcome :=
  if 0 < outcome.score && fails then
    ⟨outcome.score - penalty, outcome.partialReason.or (some reason)⟩
  else outcome

def notAccepting (requirements : StorageRequirements) (settings : ProviderSettings) : Bool :=
  if requirements.primaryOnly then !settings.acceptingPrimary
  else !settings.acceptingPrimary && settings.replicaSyncPrice.isNone

/-- The checks of a provider against requirements, in the order of the source. -/
def matchOutcome (requirements : StorageRequirements) (info : ProviderInfo) : MatchOutcome :=
  let settings := info.settings
  let available := info.availableCapacity.getD u64Max
  let start : MatchOutcome :=
    if notAccepting requirements settings then ⟨0, some .notAccepting⟩ else ⟨100, none⟩
  start
    |>.penalize (available < requirements.bytesNeeded) 50 .insufficientCapacity
    |>.penalize (requirements.bytesNeeded < settings.minAgreementBytes) 50 .belowMinAgreementBytes
    |>.penalize (settings.pricePerByte > requirements.maxPricePerByte) 30 .priceTooHigh
    |>.penalize (requirements.minDuration < settings.minDuration ||
        requirements.minDuration > settings.maxDuration) 20 .durationMismatch

/-- The better score comes first, and of equal scores the lower price. -/
def MatchedProvider.Precedes (a b : MatchedProvider) : Prop :=
  b.matchScore < a.matchScore ∨
    a.matchScore = b.matchScore ∧ a.info.pricePerByte ≤ b.info.pricePerByte

instance : DecidableRel MatchedProvider.Precedes :=
  fun _ _ ↦ inferInstanceAs (Decidable (_ ∨ _))

/-! ### The two searches -/

section Searches

variable {AccountId : Type} (cfg : Config AccountId)

def matchProvider (requirements : StorageRequirements) (account : AccountId)
    (info : ProviderInfo) : MatchedProvider where
  account := cfg.crypto.encodeAccount account
  info := info.response
  matchScore := (matchOutcome requirements info).score
  availableCapacity := info.availableCapacity
  partialReason := (matchOutcome requirements info).partialReason

/-- Find the providers that match requirements, the best first. The records come in the order in which
the storage iterates over them; the sort keeps the order of equals. -/
def queryFindMatchingProviders (providers : List (AccountId × ProviderInfo))
    (requirements : StorageRequirements) (limit : ℕ) : List MatchedProvider :=
  let results := (providers.filter fun entry ↦ entry.2.deregisterAt.isNone).map
    fun entry ↦ matchProvider cfg requirements entry.1 entry.2
  (results.insertionSort MatchedProvider.Precedes).take limit

/-- Whether a provider accepts some kind of agreement and has capacity and stake for more bytes. -/
def hasCapacity (bytesNeeded : ℕ) (info : ProviderInfo) : Bool :=
  if !info.settings.acceptingPrimary && info.settings.replicaSyncPrice.isNone then false
  else if info.settings.maxCapacity > 0 &&
      info.settings.maxCapacity - info.committedBytes < bytesNeeded then false
  else if bytesNeeded < info.settings.minAgreementBytes then false
  else
    let newCommitted := saturatingAdd u64Max info.committedBytes bytesNeeded
    match checkedMul u128Max cfg.minStakePerByte newCommitted with
    | some requiredStake => info.stake ≥ requiredStake
    | none => false

def queryProvidersWithCapacity (providers : List (AccountId × ProviderInfo))
    (bytesNeeded offset limit : ℕ) : List (AccountId × ProviderInfoResponse) :=
  (((providers.filter fun entry ↦ hasCapacity cfg bytesNeeded entry.2).drop offset).take limit).map
    fun entry ↦ (entry.1, entry.2.response)

/-- Every quote of a kind, size and duration passes the checks that `acceptQuote` makes on the record
of its provider. -/
def Redeemable (kind : QuoteKind) (bytes duration : ℕ) (info : ProviderInfo) : Prop :=
  ∀ terms : AgreementTerms AccountId, terms.maxBytes = bytes → terms.duration = duration →
    ensureProviderActive info = .ok () ∧ ensureAccepting kind info.settings = .ok () ∧
      ∃ newCommitted, checkCapacity cfg info terms = .ok newCommitted

end Searches

/-! ### What the searches tell -/

section Outcomes

variable {requirements : StorageRequirements} {info : ProviderInfo}

/-- A score without a reason is full, and stays so as long as no check fails. -/
theorem MatchOutcome.penalize_eq_none {outcome : MatchOutcome}
    (h : outcome.partialReason = none → outcome.score = 100) (fails : Bool) (penalty : ℕ)
    (reason : PartialMatchReason) :
    ((outcome.penalize fails penalty reason).partialReason = none ↔
      outcome.partialReason = none ∧ fails = false) ∧
      ((outcome.penalize fails penalty reason).partialReason = none →
        (outcome.penalize fails penalty reason).score = 100) := by
  unfold penalize
  by_cases hpenalty : (decide (0 < outcome.score) && fails) = true
  · rw [if_pos hpenalty]
    simp only [Bool.and_eq_true] at hpenalty
    constructor
    · simp [hpenalty.2]
    · simp
  · rw [if_neg hpenalty]
    refine ⟨⟨fun hnone ↦ ⟨hnone, ?_⟩, fun hnone ↦ hnone.1⟩, h⟩
    simpa [h hnone] using hpenalty

/-- A provider matches without a reason exactly when it passes every check of the search. -/
theorem matchOutcome_eq_none_iff : (matchOutcome requirements info).partialReason = none ↔
    notAccepting requirements info.settings = false ∧
      requirements.bytesNeeded ≤ info.availableCapacity.getD u64Max ∧
        info.settings.minAgreementBytes ≤ requirements.bytesNeeded ∧
          info.settings.pricePerByte ≤ requirements.maxPricePerByte ∧
            info.settings.minDuration ≤ requirements.minDuration ∧
              requirements.minDuration ≤ info.settings.maxDuration := by
  unfold matchOutcome
  dsimp only
  generalize hstart : (if notAccepting requirements info.settings = true then
    (⟨0, some .notAccepting⟩ : MatchOutcome) else ⟨100, none⟩) = start
  have hfull : start.partialReason = none ↔ notAccepting requirements info.settings = false := by
    subst hstart
    by_cases haccepting : notAccepting requirements info.settings = true
    · simp [haccepting]
    · simp [haccepting]
  have hscore : start.partialReason = none → start.score = 100 := by
    intro hnone
    subst hstart
    simp [hfull.1 hnone]
  -- one check after the other
  obtain ⟨hcapacity, hscore⟩ := MatchOutcome.penalize_eq_none hscore
    (info.availableCapacity.getD u64Max < requirements.bytesNeeded) 50 .insufficientCapacity
  obtain ⟨hminimum, hscore⟩ := MatchOutcome.penalize_eq_none hscore
    (requirements.bytesNeeded < info.settings.minAgreementBytes) 50 .belowMinAgreementBytes
  obtain ⟨hprice, hscore⟩ := MatchOutcome.penalize_eq_none hscore
    (info.settings.pricePerByte > requirements.maxPricePerByte) 30 .priceTooHigh
  obtain ⟨hduration, -⟩ := MatchOutcome.penalize_eq_none hscore
    (requirements.minDuration < info.settings.minDuration ||
      requirements.minDuration > info.settings.maxDuration) 20 .durationMismatch
  rw [hduration, hprice, hminimum, hcapacity, hfull]
  simp only [gt_iff_lt, decide_eq_false_iff_not, not_lt, Bool.or_eq_false_iff, and_assoc]

end Outcomes

section Agreement

variable {AccountId : Type} {cfg : Config AccountId} {info : ProviderInfo}
  {bytes duration : ℕ} {kind : QuoteKind}

/-- Capacity that is left for a positive number of bytes takes them. -/
theorem committed_le_of_available (hbytes : 0 < bytes)
    (h : bytes ≤ info.availableCapacity.getD u64Max) (hlimited : 0 < info.settings.maxCapacity) :
    info.committedBytes + bytes ≤ info.settings.maxCapacity := by
  rw [ProviderInfo.availableCapacity, if_pos hlimited, Option.getD_some] at h
  omega

/-- When quotes pass the checks on the record of their provider. -/
theorem redeemable_iff [Nonempty AccountId] (hstake : info.stake ≤ u128Max) :
    Redeemable cfg kind bytes duration info ↔
      info.deregisterAt = none ∧ ensureAccepting kind info.settings = .ok () ∧
        (info.settings.minDuration ≤ duration ∧ duration ≤ info.settings.maxDuration) ∧
          info.settings.minAgreementBytes ≤ bytes ∧ info.committedBytes + bytes ≤ u64Max ∧
            (0 < info.settings.maxCapacity →
              info.committedBytes + bytes ≤ info.settings.maxCapacity) ∧
              cfg.minStakePerByte * (info.committedBytes + bytes) ≤ info.stake := by
  constructor
  · intro h
    obtain ⟨owner⟩ := ‹Nonempty AccountId›
    have hterms := h ⟨owner, bytes, duration, 0, 0, 0, .new, none⟩ rfl rfl
    obtain ⟨hactive, haccepting, newCommitted, hcapacity⟩ := hterms
    obtain ⟨hduration, hminimum, rfl, hfits, hlimit, hbacked⟩ := checkCapacity_ok hcapacity
    simp only [ensureProviderActive, check_eq_ok, Option.isNone_iff_eq_none] at hactive
    simp only [validateDuration, bind_eq_ok, check_eq_ok, decide_eq_true_eq, exists_const] at hduration
    exact ⟨hactive, haccepting, hduration, hminimum, hfits, hlimit, hbacked⟩
  · rintro ⟨hactive, haccepting, ⟨hmin, hmax⟩, hminimum, hfits, hlimit, hbacked⟩ terms rfl rfl
    refine ⟨?_, haccepting, info.committedBytes + terms.maxBytes, ?_⟩
    · simp only [ensureProviderActive, check_eq_ok, hactive, Option.isNone_none]
    · simp only [checkCapacity, validateDuration, bind_eq_ok, pure_eq_ok, check_eq_ok, onlyIf_eq_ok,
        fetch_eq_ok, checkedAdd_eq_some, checkedMul_eq_some, decide_eq_true_eq]
      exact ⟨(), ⟨(), hmin, hmax⟩, (), hminimum, _, ⟨hfits, rfl⟩, (), hlimit, _,
        ⟨hbacked.trans hstake, rfl⟩, (), hbacked, rfl⟩

/-- What a provider with capacity passed. -/
theorem hasCapacity_spec (hbytes : 0 < bytes) (h : hasCapacity cfg bytes info = true) :
    (info.settings.acceptingPrimary = true ∨ info.settings.replicaSyncPrice.isSome = true) ∧
      (0 < info.settings.maxCapacity →
        info.committedBytes + bytes ≤ info.settings.maxCapacity) ∧
        info.settings.minAgreementBytes ≤ bytes ∧
          cfg.minStakePerByte * saturatingAdd u64Max info.committedBytes bytes ≤ info.stake := by
  unfold hasCapacity at h
  dsimp only at h
  split_ifs at h with hkind hcapacity hminimum
  simp only [Bool.and_eq_true, Bool.not_eq_true', Option.isNone_iff_eq_none, decide_eq_true_eq,
    gt_iff_lt, not_and, not_lt] at hkind hcapacity hminimum
  refine ⟨?_, ?_, hminimum, ?_⟩
  · by_cases hprimary : info.settings.acceptingPrimary = true
    · exact .inl hprimary
    · exact .inr (Option.isSome_iff_ne_none.2 (hkind (Bool.not_eq_true _ ▸ hprimary)))
  · intro hlimited
    have := hcapacity hlimited
    omega
  · split at h
    · rename_i required hrequired
      obtain ⟨-, rfl⟩ := (checkedMul_eq_some _ _ _ _).1 hrequired
      exact of_decide_eq_true h
    · cases h

/-- A provider with capacity accepts a quote of the size asked for exactly when it is not leaving and
the new total fits its field. Assumes: settings with a duration between their limits. -/
theorem redeemable_of_hasCapacity [Nonempty AccountId] (hstake : info.stake ≤ u128Max)
    (hdurations : info.settings.minDuration ≤ info.settings.maxDuration) (hbytes : 0 < bytes)
    (h : hasCapacity cfg bytes info = true) :
    (∃ kind duration, info.settings.minDuration ≤ duration ∧
      duration ≤ info.settings.maxDuration ∧ Redeemable cfg kind bytes duration info) ↔
      info.deregisterAt = none ∧ info.committedBytes + bytes ≤ u64Max := by
  obtain ⟨hkind, hlimit, hminimum, hbacked⟩ := hasCapacity_spec hbytes h
  constructor
  · rintro ⟨kind, duration, -, -, hredeemable⟩
    obtain ⟨hactive, -, -, -, hfits, -⟩ := (redeemable_iff hstake).1 hredeemable
    exact ⟨hactive, hfits⟩
  · rintro ⟨hactive, hfits⟩
    rw [saturatingAdd_of_le hfits] at hbacked
    have haccepting : ∃ kind, ensureAccepting kind info.settings = .ok () := by
      rcases hkind with hprimary | hreplica
      · exact ⟨.primary, (check_eq_ok _ _ ()).2 hprimary⟩
      · exact ⟨.replica, (check_eq_ok _ _ ()).2 hreplica⟩
    obtain ⟨kind, haccepting⟩ := haccepting
    refine ⟨kind, info.settings.minDuration, le_rfl, hdurations, (redeemable_iff hstake).2 ?_⟩
    exact ⟨hactive, haccepting, ⟨le_rfl, hdurations⟩, hminimum, hfits, hlimit, hbacked⟩

/-- A provider that matches primary requirements without a reason accepts a primary quote of the size
and the duration asked for exactly when the new total fits its field and its stake backs it. -/
theorem redeemable_of_matches [Nonempty AccountId] {requirements : StorageRequirements}
    (hstake : info.stake ≤ u128Max) (hbytes : 0 < requirements.bytesNeeded)
    (hprimary : requirements.primaryOnly = true) (hactive : info.deregisterAt = none)
    (h : (matchOutcome requirements info).partialReason = none) :
    Redeemable cfg .primary requirements.bytesNeeded requirements.minDuration info ↔
      info.committedBytes + requirements.bytesNeeded ≤ u64Max ∧
        cfg.minStakePerByte * (info.committedBytes + requirements.bytesNeeded) ≤ info.stake := by
  obtain ⟨hkind, havailable, hminimum, -, hmin, hmax⟩ := matchOutcome_eq_none_iff.1 h
  have haccepting : ensureAccepting .primary info.settings = .ok () := by
    rw [notAccepting, if_pos hprimary, Bool.not_eq_false'] at hkind
    exact (check_eq_ok _ _ ()).2 hkind
  constructor
  · intro hredeemable
    obtain ⟨-, -, -, -, hfits, -, hbacked⟩ := (redeemable_iff hstake).1 hredeemable
    exact ⟨hfits, hbacked⟩
  · rintro ⟨hfits, hbacked⟩
    exact (redeemable_iff hstake).2 ⟨hactive, haccepting, ⟨hmin, hmax⟩, hminimum, hfits,
      committed_le_of_available hbytes havailable, hbacked⟩

end Agreement

/-! ### Reachable states -/

section Reachable

variable {AccountId : Type} [DecidableEq AccountId] {cfg : Config AccountId}
  {s s' : State AccountId} {input : Input AccountId}

/-- Every provider's shortest duration is at most its longest. -/
def DurationsOrdered (s : State AccountId) : Prop :=
  ∀ p info, s.providers.lookup p = some info →
    info.settings.minDuration ≤ info.settings.maxDuration

theorem Effect.durationsOrdered (h : Effect cfg s input s') (hs : DurationsOrdered s) :
    DurationsOrdered s' := by
  intro p info hinfo
  -- the modifications of a record keep its settings
  have hkept {who : AccountId} {change : ProviderInfo → ProviderInfo}
      (hmodify : (FiniteMap.modify who change s.providers).lookup p = some info)
      (hchange : ∀ old, (change old).settings = old.settings) :
      info.settings.minDuration ≤ info.settings.maxDuration := by
    obtain ⟨old, hold, ⟨-, rfl⟩ | rfl⟩ := FiniteMap.lookup_modify_cases hmodify
    · rw [hchange old]
      exact hs p old hold
    · exact hs p info hold
  cases h with
  | rejected | advanced | outside | bucketCreated | bucketDeleted | bucketChanged | checkpointed
  | checkpointExtended | challengeOpened => exact hs p info hinfo
  | registered who multiaddr publicKey registered ledger events deposit _ _ _ _ _ _ hdurations =>
    simp only [FiniteMap.lookup_insert_eq] at hinfo
    split_ifs at hinfo with hp
    · cases hinfo
      exact hdurations
    · exact hs p info hinfo
  | providerChanged who call old new ledger events amount hold _ _ _ _ _ _ hdurations =>
    simp only [FiniteMap.lookup_insert_eq] at hinfo
    split_ifs at hinfo with hp
    · cases hinfo
      exact hdurations (hs who old hold)
    · exact hs p info hinfo
  | deregistered =>
    simp only [FiniteMap.lookup_erase_eq] at hinfo
    split_ifs at hinfo with hp
    exact hs p info hinfo
  | opened | toppedUp | amended | closed | challengeAnswered => exact hkept hinfo fun _ ↦ rfl
  | challengeExpired origin challengeId challenge hchallenge hexpired =>
    unfold slashProviderForFailedChallenge at hinfo
    split at hinfo
    · exact hs p info hinfo
    · rename_i record hrecord
      simp only [FiniteMap.lookup_insert_eq] at hinfo
      split_ifs at hinfo with hp
      · cases hinfo
        exact hs _ record hrecord
      · exact hs p info hinfo

/-- Every provider's shortest duration is at most its longest, in every reachable state. -/
theorem durationsOrdered_run (genesis : Genesis cfg) (inputs : List (Input AccountId)) :
    DurationsOrdered (run (step cfg) genesis.state inputs) := by
  refine genesis.invariant_of_effect DurationsOrdered ?_ (fun _ _ _ _ hs h ↦ h.durationsOrdered hs)
    inputs
  refine genesis.induction DurationsOrdered ?_ (fun _ _ _ _ _ _ _ hs _ h ↦ h.durationsOrdered hs)
    fun _ _ _ _ _ _ _ _ hs _ _ h ↦ h.durationsOrdered hs
  intro p info hinfo
  cases hinfo

/-- A stake fits its field, in every reachable state. -/
theorem stake_le_u128Max (genesis : Genesis cfg) (inputs : List (Input AccountId)) {p : AccountId}
    {info : ProviderInfo}
    (hinfo : (run (step cfg) genesis.state inputs).providers.lookup p = some info) :
    info.stake ≤ u128Max := by
  have hfunded := funded_run cfg genesis.funded inputs
  calc info.stake = (run (step cfg) genesis.state inputs).stakeOf p :=
        (State.stakeOf_of_lookup hinfo).symm
    _ = (run (step cfg) genesis.state inputs).held .providerStake p :=
        (stake_backed genesis inputs p).symm
    _ ≤ Ledger.total (run (step cfg) genesis.state inputs).ledger :=
        Ledger.held_le_total _ HoldReason.providerStake p
    _ ≤ u128Max := hfunded.total_le.trans maxIssuance_lt.le

/-- When a provider that was found accepts a quote, in every reachable state and whatever the order
in which the storage iterates over its records. A provider listed with capacity accepts a quote of
the size asked for, of some kind and of some duration within its limits, exactly when it has not
announced its exit and the new total fits its field. A provider that matches primary requirements
without a reason accepts a primary quote of that size and duration exactly when the new total fits
its field and the stake backs it. -/
theorem discovered_redeemable_iff (genesis : Genesis cfg) (inputs : List (Input AccountId))
    {providers : List (AccountId × ProviderInfo)}
    (hproviders : ∀ entry ∈ providers,
      (run (step cfg) genesis.state inputs).providers.lookup entry.1 = some entry.2) :
    (∀ bytes offset limit p response, 0 < bytes →
      (p, response) ∈ queryProvidersWithCapacity cfg providers bytes offset limit →
        ∃ info, (run (step cfg) genesis.state inputs).providers.lookup p = some info ∧
          response = info.response ∧
            ((∃ kind duration, info.settings.minDuration ≤ duration ∧
              duration ≤ info.settings.maxDuration ∧ Redeemable cfg kind bytes duration info) ↔
                info.deregisterAt = none ∧ info.committedBytes + bytes ≤ u64Max)) ∧
      ∀ requirements limit entry, 0 < requirements.bytesNeeded → requirements.primaryOnly = true →
        entry ∈ queryFindMatchingProviders cfg providers requirements limit →
          entry.partialReason = none →
            ∃ p info, (run (step cfg) genesis.state inputs).providers.lookup p = some info ∧
              entry = matchProvider cfg requirements p info ∧
                (Redeemable cfg .primary requirements.bytesNeeded requirements.minDuration info ↔
                  info.committedBytes + requirements.bytesNeeded ≤ u64Max ∧
                    cfg.minStakePerByte * (info.committedBytes + requirements.bytesNeeded) ≤
                      info.stake) := by
  constructor
  · intro bytes offset limit p response hbytes hfound
    obtain ⟨⟨p, info⟩, hlisted, heq⟩ := List.mem_map.1 hfound
    cases heq
    have hmem := List.mem_filter.1 (List.mem_of_mem_drop (List.mem_of_mem_take hlisted))
    have hinfo := hproviders _ hmem.1
    have : Nonempty AccountId := ⟨p⟩
    exact ⟨info, hinfo, rfl, redeemable_of_hasCapacity (stake_le_u128Max genesis inputs hinfo)
      (durationsOrdered_run genesis inputs p info hinfo) hbytes hmem.2⟩
  · intro requirements limit entry hbytes hprimary hfound hnone
    have hsorted := (List.mem_insertionSort _).1 (List.mem_of_mem_take hfound)
    obtain ⟨⟨p, info⟩, hlisted, rfl⟩ := List.mem_map.1 hsorted
    obtain ⟨hmem, hactive⟩ := List.mem_filter.1 hlisted
    have hinfo := hproviders _ hmem
    have : Nonempty AccountId := ⟨p⟩
    exact ⟨p, info, hinfo, rfl, redeemable_of_matches (stake_le_u128Max genesis inputs hinfo) hbytes
      hprimary (Option.isNone_iff_eq_none.1 hactive) hnone⟩

end Reachable

/-! ### Runs on the mock runtime -/

section MockSearch

/-- Account 2 provides with a price for syncs. -/
def replicaParties : Genesis Mock.config :=
  Mock.genesisOf [(1, 10000), (2, 10000)]
    [Mock.genesisProvider 2 1000 { ProviderSettings.default with replicaSyncPrice := some 7 }]
    Mock.endowment_le (by decide +kernel) (by decide +kernel)

/-- Its record. -/
def replicaRecord : ProviderInfo where
  multiaddr := [0x2f]
  publicKey := (Mock.keyOf 2).bytes
  stake := 1000
  committedBytes := 0
  settings := { ProviderSettings.default with replicaSyncPrice := some 7 }
  stats := .new 0
  deregisterAt := none
  deposit := 10

/-- The record once the provider announced its exit. -/
def leavingRecord : ProviderInfo :=
  { replicaRecord with
    settings := replicaRecord.settings.setAccepting false
    deregisterAt := some 150 }

/-- Primary storage for five blocks. -/
def primaryFor (bytes : ℕ) : StorageRequirements := ⟨bytes, 5, 1000, true⟩

/-- Ten bytes: the provider is listed and matches, and takes quotes of both searches. -/
theorem discovered_redeemable_ten :
    (∃ kind duration, Redeemable Mock.config kind 10 duration replicaRecord) ∧
      ∃ p info, matchProvider Mock.config (primaryFor 10) 2 replicaRecord =
          matchProvider Mock.config (primaryFor 10) p info ∧
        Redeemable Mock.config .primary 10 5 info := by
  have hproviders : ∀ entry ∈ [((2 : ℕ), replicaRecord)],
      (run (step Mock.config) replicaParties.state []).providers.lookup entry.1 = some entry.2 := by
    intro entry hentry
    obtain rfl := List.mem_singleton.1 hentry
    decide +kernel
  have hfound := discovered_redeemable_iff replicaParties [] hproviders
  constructor
  · obtain ⟨info, hinfo, -, hiff⟩ := hfound.1 10 0 10 2 replicaRecord.response (by decide)
      (by decide +kernel)
    obtain rfl := Option.some.inj ((hproviders _ (List.mem_singleton_self _)).symm.trans hinfo)
    obtain ⟨kind, duration, -, -, hredeemable⟩ := hiff.2 ⟨rfl, by decide⟩
    exact ⟨kind, duration, hredeemable⟩
  · have hmatched : matchProvider Mock.config (primaryFor 10) 2 replicaRecord ∈
        queryFindMatchingProviders Mock.config [(2, replicaRecord)] (primaryFor 10) 10 := by
      decide +kernel
    obtain ⟨p, info, -, heq, hiff⟩ := hfound.2 (primaryFor 10) 10 _ (by decide) rfl hmatched
      (by decide +kernel)
    have hcommitted : (0 : ℕ) = info.committedBytes := congrArg (·.info.committedBytes) heq
    have hstake : (1000 : ℕ) = info.stake := congrArg (·.info.stake) heq
    refine ⟨p, info, heq, hiff.2 ?_⟩
    rw [← hcommitted, ← hstake]
    decide

/-- A provider that announced its exit is listed with capacity, and none of its quotes passes. A
provider with a stake for a thousand bytes matches for two thousand without a reason, and a primary
quote of them does not pass. -/
theorem discovery_disagrees :
    ((run (step Mock.config) replicaParties.state
          [.call (.signed 2) .deregisterProvider]).providers = Finmap.insert 2 leavingRecord ∅ ∧
      (2, leavingRecord.response) ∈
        queryProvidersWithCapacity Mock.config [(2, leavingRecord)] 10 0 10 ∧
        ∀ kind duration, ¬ Redeemable Mock.config kind 10 duration leavingRecord) ∧
      (run (step Mock.config) replicaParties.state []).providers = Finmap.insert 2 replicaRecord ∅ ∧
        matchProvider Mock.config (primaryFor 2000) 2 replicaRecord ∈
          queryFindMatchingProviders Mock.config [(2, replicaRecord)] (primaryFor 2000) 10 ∧
          (matchProvider Mock.config (primaryFor 2000) 2 replicaRecord).partialReason = none ∧
            ¬ Redeemable Mock.config .primary 2000 5 replicaRecord := by
  refine ⟨⟨by decide +kernel, by decide +kernel, ?_⟩, by decide +kernel, by decide +kernel,
    by decide +kernel, ?_⟩
  · intro kind duration h
    obtain ⟨hactive, -⟩ := (redeemable_iff (by decide)).1 h
    cases hactive
  · intro h
    obtain ⟨-, -, -, -, -, -, hbacked⟩ := (redeemable_iff (by decide)).1 h
    exact absurd hbacked (by decide)

end MockSearch

end Web3Storage.Pallet
