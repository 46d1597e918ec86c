import Web3Storage.Pallet.Buckets
import Web3Storage.Pallet.Providers
import Web3Storage.Pallet.Signatures

/-!
# Redeeming quotes

A provider signs terms off chain; the owner they name redeems them once, for a new bucket, as a
further primary of an existing one or as a replica. `Opening` collects what every redeemed quote
passed: who signed it, that the provider's capacity and stake carry it, and that its whole escrow is
on hold on the owner.
-/

set_option autoImplicit false
set_option relaxedAutoImplicit false

namespace Web3Storage.Pallet

open Foundations Primitives

variable {AccountId : Type} [DecidableEq AccountId] (cfg : Config AccountId)

/-! ### Prices and limits -/

def validateDuration (settings : ProviderSettings) (duration : ℕ) : Except DispatchError Unit := do
  check (duration ≥ settings.minDuration) .durationTooShort
  check (duration ≤ settings.maxDuration) .durationTooLong

def calculatePayment (pricePerByte maxBytes duration : ℕ) : Except DispatchError ℕ := do
  let perBlock ← fetch (checkedMul u128Max pricePerByte maxBytes) .arithmeticOverflow
  fetch (checkedMul u128Max perBlock duration) .arithmeticOverflow

/-- Check duration, minimum size, capacity and stake for terms. Returns the committed bytes with
those of the terms added. -/
def checkCapacity (providerInfo : ProviderInfo) (terms : AgreementTerms AccountId) :
    Except DispatchError ℕ := do
  validateDuration providerInfo.settings terms.duration
  check (terms.maxBytes ≥ providerInfo.settings.minAgreementBytes) .maxBytesBelowMinimum
  let newCommitted ←
    fetch (checkedAdd u64Max providerInfo.committedBytes terms.maxBytes) .arithmeticOverflow
  onlyIf (providerInfo.settings.maxCapacity > 0)
    (check (newCommitted ≤ providerInfo.settings.maxCapacity) .capacityExceeded)
  let requiredStake ← fetch (checkedMul u128Max cfg.minStakePerByte newCommitted) .arithmeticOverflow
  check (providerInfo.stake ≥ requiredStake) .insufficientStakeForBytes
  return newCommitted

/-! ### Statistics of a provider -/

def ProviderStats.agreementOpened (stats : ProviderStats) (maxBytes : ℕ) : ProviderStats :=
  { stats with
    agreementsTotal := saturatingAdd u32Max stats.agreementsTotal 1
    totalBytesCommitted := saturatingAdd u64Max stats.totalBytesCommitted maxBytes }

def ProviderStats.paid (stats : ProviderStats) (amount : ℕ) : ProviderStats :=
  { stats with lifetimeRevenue := saturatingAdd u128Max stats.lifetimeRevenue amount }

def ProviderStats.agreementExtended (stats : ProviderStats) : ProviderStats :=
  { stats with agreementsExtended := saturatingAdd u32Max stats.agreementsExtended 1 }

def ProviderStats.agreementClosed (stats : ProviderStats) (burned : Bool) : ProviderStats :=
  if burned then { stats with agreementsBurned := saturatingAdd u32Max stats.agreementsBurned 1 }
  else { stats with agreementsNotExtended := saturatingAdd u32Max stats.agreementsNotExtended 1 }

/-! ### Redeeming a quote -/

/-- The agreement a call opens from a quote. -/
inductive QuoteKind
  | primary
  | replica
  deriving DecidableEq, Repr

def QuoteKind.context : QuoteKind → Bytes
  | .primary => primaryTermContext
  | .replica => replicaTermContext

/-- What an accepted quote hands to the insertion of the agreement. -/
structure AcceptedQuote where
  anchorBlock : ℕ
  newCommitted : ℕ
  payment : ℕ
  role : ProviderRole
  deriving DecidableEq

/-- Check owner, bucket target, size and validity window of terms. Returns the anchor block. -/
def validateTerms (owner : AccountId) (terms : AgreementTerms AccountId) (target : BucketTarget)
    (s : State AccountId) : Except DispatchError ℕ := do
  check (terms.owner = owner) .termsOwnerMismatch
  check (terms.bucket = target) .termsBucketMismatch
  check (terms.maxBytes > 0) .invalidMaxBytesRequest
  check (terms.validUntil ≥ s.anchorBlock) .termsExpired
  check (terms.validUntil ≤ saturatingAdd u32Max s.anchorBlock cfg.requestTimeout)
    .termsValidityTooLong
  return s.anchorBlock

/-- An existing target must be there and have no agreement with the provider yet. -/
def ensureTargetFree (provider : AccountId) (target : BucketTarget) (s : State AccountId) :
    Except DispatchError Unit :=
  match target with
  | .new => .ok ()
  | .existing bucketId => do
    check (s.buckets.lookup bucketId).isSome .bucketNotFound
    check (s.storageAgreements.lookup (bucketId, provider)).isNone .agreementAlreadyExists

/-- The role a quote of a kind gives, with the sync balance to hold for it. -/
def quotedRole (kind : QuoteKind) (terms : AgreementTerms AccountId) :
    Except DispatchError (ProviderRole × ℕ) :=
  match kind with
  | .primary => do
    check terms.replicaParams.isNone .unexpectedReplicaTerms
    return (.primary, 0)
  | .replica => do
    let replica ← fetch terms.replicaParams .missingReplicaTerms
    return (.replica replica.syncBalance replica.syncPrice replica.minSyncInterval none,
      replica.syncBalance)

def ensureAccepting (kind : QuoteKind) (settings : ProviderSettings) : Except DispatchError Unit :=
  match kind with
  | .primary => check settings.acceptingPrimary .providerNotAcceptingPrimary
  | .replica => check settings.replicaSyncPrice.isSome .providerNotAcceptingReplicas

/-- Run the checks shared by all quotes, advance the owner's nonce and hold the payment. -/
def acceptQuote (owner provider : AccountId) (terms : AgreementTerms AccountId)
    (signature : MultiSignature) (target : BucketTarget) (kind : QuoteKind)
    (s : State AccountId) : Except DispatchError (AcceptedQuote × State AccountId) := do
  let anchorBlock ← validateTerms cfg owner terms target s
  ensureTargetFree provider target s
  let quoted ← quotedRole kind terms
  let providerInfo ← fetch (s.providers.lookup provider) .providerNotFound
  verifyTermsSignature cfg providerInfo terms signature kind.context
  let nonce := (s.agreementNonces.lookup owner).getD 0
  check (terms.nonce = nonce) .nonceMismatch
  ensureProviderActive providerInfo
  ensureAccepting kind providerInfo.settings
  let newCommitted ← checkCapacity cfg providerInfo terms
  let payment ← calculatePayment terms.pricePerByte terms.maxBytes terms.duration
  let totalHold ← fetch (checkedAdd u128Max payment quoted.2) .arithmeticOverflow
  let ledger ← holdPayment cfg owner totalHold s.ledger
  return (⟨anchorBlock, newCommitted, payment, quoted.1⟩, { s with
    ledger := ledger
    agreementNonces := s.agreementNonces.insert owner (saturatingAdd u64Max nonce 1) })

/-- Store the agreement of an accepted quote, with its storage deposit. Returns its expiry. -/
def insertAgreement (bucketId : ℕ) (owner provider : AccountId) (terms : AgreementTerms AccountId)
    (accepted : AcceptedQuote) (s : State AccountId) :
    Except DispatchError (ℕ × State AccountId) := do
  let expiresAt := saturatingAdd u32Max accepted.anchorBlock terms.duration
  let ticketed ← newTicket cfg owner .agreement s.ledger
  let agreement : StorageAgreement AccountId :=
    { owner := owner, maxBytes := terms.maxBytes, paymentLocked := accepted.payment
      pricePerByte := terms.pricePerByte, expiresAt := expiresAt, extensionsBlocked := false
      role := accepted.role, startedAt := accepted.anchorBlock, depositor := owner
      deposit := ticketed.1 }
  return (expiresAt, { s with
    ledger := ticketed.2
    providers := FiniteMap.modify provider
      (fun info ↦ { info with
        committedBytes := accepted.newCommitted
        stats := info.stats.agreementOpened terms.maxBytes }) s.providers
    storageAgreements := s.storageAgreements.insert (bucketId, provider) agreement })

def insertPrimaryAgreement (bucketId : ℕ) (owner provider : AccountId)
    (terms : AgreementTerms AccountId) (accepted : AcceptedQuote) (s : State AccountId) :
    Except DispatchError (State AccountId) := do
  let (expiresAt, s) ← insertAgreement cfg bucketId owner provider terms accepted s
  return { s with
    events := s.events ++ [.providerAddedToBucket bucketId provider,
      .storageAgreementEstablished bucketId provider owner terms expiresAt] }

/-- Create a bucket with its first primary provider from a quote for a new bucket. -/
def createBucketWithPrimary (owner provider : AccountId) (terms : AgreementTerms AccountId)
    (signature : MultiSignature) (visibility : Visibility) (s : State AccountId) :
    Except DispatchError (State AccountId) := do
  let (accepted, s) ← acceptQuote cfg owner provider terms signature .new .primary s
  let (bucketId, s) ← createBucketInternal cfg owner 1 (some provider) visibility s
  insertPrimaryAgreement cfg bucketId owner provider terms accepted s

/-- A signer bitfield with one more place, unset. -/
def BucketSnapshot.pushUnset (snapshot : BucketSnapshot) : BucketSnapshot :=
  { snapshot with primarySigners := snapshot.primarySigners ++ [false] }

/-- Add a primary provider to an existing bucket. -/
def addPrimaryProvider (admin : AccountId) (bucketId : ℕ) (provider : AccountId)
    (terms : AgreementTerms AccountId) (signature : MultiSignature) (s : State AccountId) :
    Except DispatchError (State AccountId) := do
  let bucket ← fetch (s.buckets.lookup bucketId) .bucketNotFound
  ensureAdmin admin bucket
  check (bucket.primaryProviders.length < cfg.maxPrimaryProviders) .maxPrimaryProvidersReached
  let extended : Bucket AccountId := { bucket with
    primaryProviders := bucket.primaryProviders ++ [provider]
    snapshot := bucket.snapshot.map BucketSnapshot.pushUnset }
  let (accepted, s) ←
    acceptQuote cfg admin provider terms signature (.existing bucketId) .primary s
  insertPrimaryAgreement cfg bucketId admin provider terms accepted
    { s with buckets := s.buckets.insert bucketId extended }

/-- Open a replica agreement on an existing bucket. -/
def addReplicaProvider (owner : AccountId) (bucketId : ℕ) (provider : AccountId)
    (terms : AgreementTerms AccountId) (signature : MultiSignature) (s : State AccountId) :
    Except DispatchError (State AccountId) := do
  let (accepted, s) ←
    acceptQuote cfg owner provider terms signature (.existing bucketId) .replica s
  let (expiresAt, s) ← insertAgreement cfg bucketId owner provider terms accepted s
  return { s with
    events := s.events ++ [.replicaAgreementEstablished bucketId provider owner terms expiresAt] }

/-! ### What the calls do -/

section Specification

open Ledger (Moves amountAt held)

/-- What a redeemed quote passed, with the record of its provider, the agreement it opens and the
ledger after its payment and `deposits` of storage deposit are held on the owner. -/
structure Opening (s : State AccountId) (owner provider : AccountId)
    (terms : AgreementTerms AccountId) (signature : MultiSignature) (target : BucketTarget)
    (kind : QuoteKind) (info : ProviderInfo) (agreement : StorageAgreement AccountId)
    (deposits : ℕ) (ledger : Funds AccountId) : Prop where
  owner_eq : terms.owner = owner
  target_eq : terms.bucket = target
  bytes_pos : 0 < terms.maxBytes
  validUntil_ge : s.anchorBlock ≤ terms.validUntil
  validUntil_le : terms.validUntil ≤ saturatingAdd u32Max s.anchorBlock cfg.requestTimeout
  target_free : ensureTargetFree provider target s = .ok ()
  lookup_info : s.providers.lookup provider = some info
  signed : verifyTermsSignature cfg info terms signature kind.context = .ok ()
  nonce_eq : terms.nonce = (s.agreementNonces.lookup owner).getD 0
  active : info.deregisterAt = none
  accepting : ensureAccepting kind info.settings = .ok ()
  duration_ok : validateDuration info.settings terms.duration = .ok ()
  minimum_le : info.settings.minAgreementBytes ≤ terms.maxBytes
  committed_le : info.committedBytes + terms.maxBytes ≤ u64Max
  capacity_le : 0 < info.settings.maxCapacity →
    info.committedBytes + terms.maxBytes ≤ info.settings.maxCapacity
  stake_ge : cfg.minStakePerByte * (info.committedBytes + terms.maxBytes) ≤ info.stake
  role_eq : ∃ syncBalance, quotedRole kind terms = .ok (agreement.role, syncBalance)
  payment_eq :
    calculatePayment terms.pricePerByte terms.maxBytes terms.duration = .ok agreement.paymentLocked
  agreement_eq : agreement =
    { owner := owner, maxBytes := terms.maxBytes, paymentLocked := agreement.paymentLocked
      pricePerByte := terms.pricePerByte
      expiresAt := saturatingAdd u32Max s.anchorBlock terms.duration, extensionsBlocked := false
      role := agreement.role, startedAt := s.anchorBlock, depositor := owner
      deposit := cfg.storageDeposit .agreement }
  moves : Moves (amountAt .agreementPayment owner agreement.escrow +
    amountAt .storageDeposit owner deposits) 0 s.ledger ledger

variable {cfg} {owner provider admin : AccountId} {terms : AgreementTerms AccountId}
  {signature : MultiSignature} {target : BucketTarget} {kind : QuoteKind} {bucketId : ℕ}
  {visibility : Visibility} {s s' : State AccountId}

omit [DecidableEq AccountId] in
/-- A role quoted as primary is primary, and one quoted as replica is not. -/
theorem quotedRole_isPrimary {quoted : ProviderRole × ℕ} (h : quotedRole kind terms = .ok quoted) :
    quoted.1.isPrimary = (kind == .primary) := by
  cases kind with
  | primary =>
    simp only [quotedRole, bind_eq_ok, pure_eq_ok] at h
    obtain ⟨-, -, rfl⟩ := h
    rfl
  | replica =>
    simp only [quotedRole, bind_eq_ok, pure_eq_ok] at h
    obtain ⟨replica, -, rfl⟩ := h
    rfl

omit [DecidableEq AccountId] in
theorem checkCapacity_ok {info : ProviderInfo} {newCommitted : ℕ}
    (h : checkCapacity cfg info terms = .ok newCommitted) :
    validateDuration info.settings terms.duration = .ok () ∧
      info.settings.minAgreementBytes ≤ terms.maxBytes ∧
        newCommitted = info.committedBytes + terms.maxBytes ∧ newCommitted ≤ u64Max ∧
          (0 < info.settings.maxCapacity → newCommitted ≤ info.settings.maxCapacity) ∧
            cfg.minStakePerByte * newCommitted ≤ info.stake := by
  simp only [checkCapacity, bind_eq_ok, pure_eq_ok, check_eq_ok, onlyIf_eq_ok, fetch_eq_ok,
    checkedAdd_eq_some, checkedMul_eq_some, decide_eq_true_eq] at h
  obtain ⟨done, hduration, -, hminimum, committed, ⟨hfits, hcommitted⟩, -, hcapacity, required,
    ⟨-, rfl⟩, -, hstake, rfl⟩ := h
  exact ⟨hduration, hminimum, hcommitted, hcommitted ▸ hfits, hcapacity, hstake⟩

omit [DecidableEq AccountId] in
/-- The escrow of an agreement whose role was quoted is its payment with the sync balance. -/
theorem escrow_of_quoted {agreement : StorageAgreement AccountId} {syncBalance : ℕ}
    (hrole : quotedRole kind terms = .ok (agreement.role, syncBalance))
    (hfits : agreement.paymentLocked + syncBalance ≤ u128Max) :
    agreement.escrow = agreement.paymentLocked + syncBalance := by
  cases kind with
  | primary =>
    simp only [quotedRole, bind_eq_ok, pure_eq_ok, Prod.mk.injEq] at hrole
    obtain ⟨-, -, hprimary, rfl⟩ := hrole
    simp [StorageAgreement.escrow, ← hprimary]
  | replica =>
    simp only [quotedRole, bind_eq_ok, pure_eq_ok, Prod.mk.injEq] at hrole
    obtain ⟨replica, -, hreplica, rfl⟩ := hrole
    simp [StorageAgreement.escrow, ← hreplica, saturatingAdd_of_le hfits]

/-- An accepted quote, further storage deposits of the owner and the ticket of the agreement make an
opening. -/
theorem opening_of_acceptQuote {accepted : AcceptedQuote} {s₁ : State AccountId}
    {middle : Funds AccountId} {deposits : ℕ} {ticketed : ℕ × Funds AccountId}
    (haccept : acceptQuote cfg owner provider terms signature target kind s = .ok (accepted, s₁))
    (hmiddle : Moves (amountAt .storageDeposit owner deposits) 0 s₁.ledger middle)
    (hticket : newTicket cfg owner .agreement middle = .ok ticketed) :
    ∃ info, Opening cfg s owner provider terms signature target kind info
        { owner := owner, maxBytes := terms.maxBytes, paymentLocked := accepted.payment
          pricePerByte := terms.pricePerByte
          expiresAt := saturatingAdd u32Max accepted.anchorBlock terms.duration
          extensionsBlocked := false, role := accepted.role, startedAt := accepted.anchorBlock
          depositor := owner, deposit := ticketed.1 }
        (deposits + cfg.storageDeposit .agreement) ticketed.2 ∧
      accepted.newCommitted = info.committedBytes + terms.maxBytes ∧
        s₁ = { s with
          ledger := s₁.ledger
          agreementNonces := s.agreementNonces.insert owner
            (saturatingAdd u64Max ((s.agreementNonces.lookup owner).getD 0) 1) } := by
  simp only [acceptQuote, validateTerms, ensureProviderActive, bind_eq_ok, pure_eq_ok, fetch_eq_ok,
    check_eq_ok, checkedAdd_eq_some, decide_eq_true_eq, Prod.mk.injEq] at haccept
  obtain ⟨anchorBlock, ⟨-, howner, -, htarget, -, hbytes, -, hvalid, -, hwindow, rfl⟩, done, hfree,
    ⟨role, syncBalance⟩, hrole, info, hinfo, done', hsigned, -, hnonce, -, hactive, done'',
    haccepting, newCommitted, hcapacity, payment, hpayment, totalHold, ⟨hfits, rfl⟩, ledger, hhold,
    rfl, rfl⟩ := haccept
  obtain ⟨hduration, hminimum, rfl, hcommitted, hlimit, hstake⟩ := checkCapacity_ok hcapacity
  obtain ⟨hamount, hmoves⟩ := newTicket_moves hticket
  refine ⟨info, ?_, rfl, rfl⟩
  refine
    { owner_eq := howner, target_eq := htarget, bytes_pos := hbytes, validUntil_ge := hvalid
      validUntil_le := hwindow, target_free := hfree, lookup_info := hinfo, signed := hsigned
      nonce_eq := hnonce, active := by simpa using hactive, accepting := haccepting
      duration_ok := hduration, minimum_le := hminimum, committed_le := hcommitted
      capacity_le := hlimit, stake_ge := hstake, role_eq := ⟨syncBalance, hrole⟩
      payment_eq := hpayment, agreement_eq := by rw [hamount], moves := ?_ }
  have hall := ((holdPayment_moves hhold).trans hmiddle).trans hmoves
  rw [add_assoc, Ledger.amountAt_add, add_zero, add_zero] at hall
  rw [escrow_of_quoted hrole hfits]
  exact hall

theorem createBucketWithPrimary_ok
    (h : createBucketWithPrimary cfg owner provider terms signature visibility s = .ok s') :
    ∃ info agreement bucket ledger deposits,
      Opening cfg s owner provider terms signature .new .primary info agreement deposits ledger ∧
        bucket = { members := [⟨owner, .admin, owner, cfg.storageDeposit .member⟩]
                   visibility := visibility
                   frozenStartSeq := none
                   minProviders := 1
                   primaryProviders := [provider]
                   snapshot := none
                   historicalRoots := fun _ ↦ (0, Commitment.default)
                   totalSnapshots := 0
                   creator := owner
                   deposit := cfg.storageDeposit .bucket } ∧
          s' = { s with
            ledger := ledger
            providers := FiniteMap.modify provider
              (fun old ↦ { old with
                committedBytes := info.committedBytes + terms.maxBytes
                stats := old.stats.agreementOpened terms.maxBytes }) s.providers
            agreementNonces := s.agreementNonces.insert owner
              (saturatingAdd u64Max ((s.agreementNonces.lookup owner).getD 0) 1)
            nextBucketId := saturatingAdd u64Max s.nextBucketId 1
            buckets := s.buckets.insert s.nextBucketId bucket
            storageAgreements :=
              s.storageAgreements.insert (s.nextBucketId, provider) agreement
            memberBuckets := s.memberBuckets.insert owner
              (bucketsOf s.memberBuckets owner ++ [s.nextBucketId])
            events := s.events ++ [.bucketCreated s.nextBucketId owner] ++
              [.providerAddedToBucket s.nextBucketId provider,
                .storageAgreementEstablished s.nextBucketId provider owner terms
                  agreement.expiresAt] } := by
  simp only [createBucketWithPrimary, insertPrimaryAgreement, insertAgreement, bind_eq_ok,
    pure_eq_ok] at h
  obtain ⟨⟨accepted, s₁⟩, haccept, ⟨bucketId, s₂⟩, hcreate, ⟨expiresAt, s₃⟩,
    ⟨ticketed, hticket, hinsert⟩, rfl⟩ := h
  obtain ⟨middle, bucket, hid, hmiddle, hbucket, hs₂⟩ := createBucketInternal_ok hcreate
  simp only at hid hs₂ hinsert
  subst hid hs₂
  obtain ⟨rfl, rfl⟩ := Prod.mk.inj hinsert
  rw [Ledger.amountAt_add] at hmiddle
  obtain ⟨info, hopening, hcommitted, hs₁⟩ := opening_of_acceptQuote haccept hmiddle hticket
  refine ⟨info, _, bucket, ticketed.2, _, hopening, ?_, ?_⟩
  · rw [hbucket]
    rfl
  · rw [hcommitted, hs₁]

theorem addPrimaryProvider_ok
    (h : addPrimaryProvider cfg admin bucketId provider terms signature s = .ok s') :
    ∃ info agreement bucket ledger deposits,
      Opening cfg s admin provider terms signature (.existing bucketId) .primary info agreement
          deposits ledger ∧
        s.buckets.lookup bucketId = some bucket ∧
          s' = { s with
            ledger := ledger
            providers := FiniteMap.modify provider
              (fun old ↦ { old with
                committedBytes := info.committedBytes + terms.maxBytes
                stats := old.stats.agreementOpened terms.maxBytes }) s.providers
            agreementNonces := s.agreementNonces.insert admin
              (saturatingAdd u64Max ((s.agreementNonces.lookup admin).getD 0) 1)
            buckets := s.buckets.insert bucketId
              { bucket with
                primaryProviders := bucket.primaryProviders ++ [provider]
                snapshot := bucket.snapshot.map BucketSnapshot.pushUnset }
            storageAgreements := s.storageAgreements.insert (bucketId, provider) agreement
            events := s.events ++ [.providerAddedToBucket bucketId provider,
              .storageAgreementEstablished bucketId provider admin terms
                agreement.expiresAt] } := by
  simp only [addPrimaryProvider, insertPrimaryAgreement, insertAgreement, bind_eq_ok, pure_eq_ok,
    fetch_eq_ok] at h
  obtain ⟨bucket, hbucket, -, -, -, -, ⟨accepted, s₁⟩, haccept, ⟨expiresAt, s₂⟩,
    ⟨ticketed, hticket, hinsert⟩, rfl⟩ := h
  simp only at hinsert hticket
  obtain ⟨rfl, rfl⟩ := Prod.mk.inj hinsert
  have hnone : Moves (amountAt .storageDeposit admin 0) 0 s₁.ledger s₁.ledger := by
    rw [Ledger.amountAt_zero]
    exact Moves.refl s₁.ledger
  obtain ⟨info, hopening, hcommitted, hs₁⟩ := opening_of_acceptQuote haccept hnone hticket
  refine ⟨info, _, bucket, ticketed.2, _, hopening, hbucket, ?_⟩
  rw [hcommitted, hs₁]

theorem addReplicaProvider_ok
    (h : addReplicaProvider cfg owner bucketId provider terms signature s = .ok s') :
    ∃ info agreement ledger deposits,
      Opening cfg s owner provider terms signature (.existing bucketId) .replica info agreement
          deposits ledger ∧
        s' = { s with
          ledger := ledger
          providers := FiniteMap.modify provider
            (fun old ↦ { old with
              committedBytes := info.committedBytes + terms.maxBytes
              stats := old.stats.agreementOpened terms.maxBytes }) s.providers
          agreementNonces := s.agreementNonces.insert owner
            (saturatingAdd u64Max ((s.agreementNonces.lookup owner).getD 0) 1)
          storageAgreements := s.storageAgreements.insert (bucketId, provider) agreement
          events := s.events ++ [.replicaAgreementEstablished bucketId provider owner terms
            agreement.expiresAt] } := by
  simp only [addReplicaProvider, insertAgreement, bind_eq_ok, pure_eq_ok] at h
  obtain ⟨⟨accepted, s₁⟩, haccept, ⟨expiresAt, s₂⟩, ⟨ticketed, hticket, hinsert⟩, rfl⟩ := h
  simp only at hinsert hticket
  obtain ⟨rfl, rfl⟩ := Prod.mk.inj hinsert
  have hnone : Moves (amountAt .storageDeposit owner 0) 0 s₁.ledger s₁.ledger := by
    rw [Ledger.amountAt_zero]
    exact Moves.refl s₁.ledger
  obtain ⟨info, hopening, hcommitted, hs₁⟩ := opening_of_acceptQuote haccept hnone hticket
  refine ⟨info, _, ticketed.2, _, hopening, ?_⟩
  rw [hcommitted, hs₁]

end Specification

end Web3Storage.Pallet
