import Web3Storage.Foundations.Ledger
import Web3Storage.Primitives.Mmr

/-!
# The state of the storage provider pallet

The records the pallet keeps, its configuration, its errors and events. A `Config` carries the
conditions the pallet's integrity test asserts as fields, so that a configuration that breaks them
cannot be built. Records keep the fields of the source; a storage-deposit ticket is the amount it
holds. Numbers are natural numbers, and the operations on them say where they saturate or fail.
-/

set_option autoImplicit false
set_option relaxedAutoImplicit false

namespace Web3Storage.Pallet

open Foundations Primitives

/-- Why the pallet holds somebody's funds. -/
inductive HoldReason
  | providerStake
  | agreementPayment
  | challengeDeposit
  | storageDeposit
  deriving DecidableEq, Repr

instance : Fintype HoldReason where
  elems := {.providerStake, .agreementPayment, .challengeDeposit, .storageDeposit}
  complete reason := by cases reason <;> decide

/-- The kinds of record a storage deposit is paid for. -/
inductive RecordKind
  | provider
  | member
  | agreement
  | bucket
  deriving DecidableEq, Repr

/-! ### Configuration -/

/-- The host functions for hashes and signatures. -/
structure Crypto (AccountId : Type) where
  blake2256 : Bytes → H256
  /-- Whether a signature over a message is by an account. -/
  verify : MultiSignature → Bytes → H256 → Bool
  /-- The account of a raw public key of the length its scheme asks for. -/
  intoAccount : SignatureScheme → Bytes → H256
  encodeAccount : AccountId → Bytes

/-- The configuration of the pallet. -/
structure Config (AccountId : Type) where
  rules : Ledger.Rules AccountId HoldReason
  crypto : Crypto AccountId
  mmr : MmrLibrary
  treasury : AccountId
  minStakePerByte : ℕ
  maxMultiaddrLength : ℕ
  maxMembers : ℕ
  maxPrimaryProviders : ℕ
  minProviderStake : ℕ
  maxChunkSize : ℕ
  challengeTimeout : ℕ
  challengeDeposit : ℕ
  settlementTimeout : ℕ
  requestTimeout : ℕ
  maxBucketsPerMember : ℕ
  /-- The price of the storage deposit for each kind of record. -/
  storageDeposit : RecordKind → ℕ
  deregisterAnnouncementPeriod : ℕ
  maxChallengesPerDeadline : ℕ
  challengeTimeout_lt : challengeTimeout < deregisterAnnouncementPeriod
  chunkSize_le : defaultChunkSize ≤ maxChunkSize
  maxChallengesPerDeadline_le : maxChallengesPerDeadline ≤ u16Max

/-! ### Records -/

/-- Prices and limits a provider sets. -/
structure ProviderSettings where
  minDuration : ℕ
  maxDuration : ℕ
  pricePerByte : ℕ
  acceptingPrimary : Bool
  replicaSyncPrice : Option ℕ
  acceptingExtensions : Bool
  maxCapacity : ℕ
  minAgreementBytes : ℕ
  deriving DecidableEq, Repr

def ProviderSettings.default : ProviderSettings where
  minDuration := 0
  maxDuration := u32Max
  pricePerByte := 0
  acceptingPrimary := true
  replicaSyncPrice := none
  acceptingExtensions := true
  maxCapacity := 0
  minAgreementBytes := 0

/-- What the chain counts about a provider. -/
structure ProviderStats where
  registeredAt : ℕ
  agreementsTotal : ℕ
  agreementsExtended : ℕ
  agreementsNotExtended : ℕ
  agreementsBurned : ℕ
  totalBytesCommitted : ℕ
  challengesReceivedAuthorized : ℕ
  challengesReceivedPublic : ℕ
  challengesFailed : ℕ
  lifetimeRevenue : ℕ
  deriving DecidableEq, Repr

def ProviderStats.new (registeredAt : ℕ) : ProviderStats :=
  ⟨registeredAt, 0, 0, 0, 0, 0, 0, 0, 0, 0⟩

structure ProviderInfo where
  multiaddr : Bytes
  publicKey : Bytes
  stake : ℕ
  committedBytes : ℕ
  settings : ProviderSettings
  stats : ProviderStats
  deregisterAt : Option ℕ
  deposit : ℕ
  deriving DecidableEq

variable (AccountId : Type)

structure Member where
  account : AccountId
  role : Role
  depositor : AccountId
  deposit : ℕ
  deriving DecidableEq

structure BucketSnapshot where
  commitment : Commitment
  checkpointBlock : ℕ
  primarySigners : List Bool
  deriving DecidableEq

structure Bucket where
  members : List (Member AccountId)
  visibility : Visibility
  frozenStartSeq : Option ℕ
  minProviders : ℕ
  primaryProviders : List AccountId
  snapshot : Option BucketSnapshot
  historicalRoots : Fin 6 → ℕ × Commitment
  totalSnapshots : ℕ
  creator : AccountId
  deposit : ℕ

structure StorageAgreement where
  owner : AccountId
  maxBytes : ℕ
  paymentLocked : ℕ
  pricePerByte : ℕ
  expiresAt : ℕ
  extensionsBlocked : Bool
  role : ProviderRole
  startedAt : ℕ
  depositor : AccountId
  deposit : ℕ
  deriving DecidableEq

/-- What an agreement keeps on hold on its owner: the prepaid fee and, for a replica, the unspent
sync balance. -/
def StorageAgreement.escrow {AccountId : Type} (agreement : StorageAgreement AccountId) : ℕ :=
  match agreement.role with
  | .replica syncBalance .. => saturatingAdd u128Max agreement.paymentLocked syncBalance
  | .primary => agreement.paymentLocked

structure Challenge where
  bucketId : ℕ
  provider : AccountId
  challenger : AccountId
  commitment : Commitment
  target : ChunkLocation
  deposit : ℕ
  authorized : Bool
  createdAt : ℕ
  deriving DecidableEq

inductive ChallengeResponse
  | proof (chunkData : Bytes) (mmrProof : MmrProof) (chunkProof : List H256)
  | chunkOutOfRange (mmrProof : MmrProof)
  | deleted (newMmrRoot : H256) (newStartSeq : ℕ) (admin : AccountId)
      (adminSignature : MultiSignature)
  | superseded
  deriving DecidableEq

/-! ### Events and errors -/

inductive Event
  | providerRegistered (provider : AccountId) (stake : ℕ)
  | providerDeregistered (provider : AccountId) (stakeReturned : ℕ)
  | deregisterAnnounced (provider : AccountId) (completeAfter : ℕ)
  | deregisterCancelled (provider : AccountId)
  | providerStakeAdded (provider : AccountId) (amount totalStake : ℕ)
  | providerSettingsUpdated (provider : AccountId) (settings : ProviderSettings)
  | providerMultiaddrUpdated (provider : AccountId) (multiaddr : Bytes)
  | extensionsBlocked (bucketId : ℕ) (provider : AccountId) (blocked : Bool)
  | bucketCreated (bucketId : ℕ) (admin : AccountId)
  | bucketFrozen (bucketId : ℕ) (frozenStartSeq : ℕ)
  | bucketDeleted (bucketId : ℕ)
  | bucketVisibilityChanged (bucketId : ℕ) (visibility : Visibility)
  | memberSet (bucketId : ℕ) (member : AccountId) (role : Role)
  | memberRemoved (bucketId : ℕ) (member : AccountId)
  | bucketCheckpointed (bucketId : ℕ) (commitment : Commitment)
      (providers : List AccountId)
  | providerAddedToBucket (bucketId : ℕ) (provider : AccountId)
  | primaryProviderRemoved (bucketId : ℕ) (provider : AccountId) (reason : RemovalReason)
  | slashedProviderRemoved (bucketId : ℕ) (provider : AccountId)
      (paymentReturnedToOwner : ℕ)
  | replicaSynced (bucketId : ℕ) (provider : AccountId) (mmrRoot : H256)
      (positionMatched : ℕ) (syncPayment : ℕ)
  | replicaSyncBalanceToppedUp (bucketId : ℕ) (provider : AccountId)
      (amount newTotal : ℕ)
  | agreementToppedUp (bucketId : ℕ) (provider : AccountId) (amount : ℕ)
      (newMaxBytes : ℕ)
  | agreementExtended (bucketId : ℕ) (provider : AccountId) (newExpiresAt : ℕ)
      (payment : ℕ)
  | agreementOwnershipTransferred (bucketId : ℕ) (provider oldOwner newOwner : AccountId)
      (escrow : ℕ)
  | agreementEnded (bucketId : ℕ) (provider : AccountId)
      (paymentToProvider burned : ℕ)
  | storageAgreementEstablished (bucketId : ℕ) (provider owner : AccountId)
      (terms : AgreementTerms AccountId) (expiresAt : ℕ)
  | replicaAgreementEstablished (bucketId : ℕ) (provider owner : AccountId)
      (terms : AgreementTerms AccountId) (expiresAt : ℕ)
  | challengeCreated (challengeId : ChallengeId) (bucketId : ℕ)
      (provider challenger : AccountId) (respondBy : ℕ)
  | challengeDefended (challengeId : ChallengeId) (provider : AccountId)
      (responseTimeBlocks : ℕ) (challengerCost providerCost : ℕ)
  | challengeSlashed (challengeId : ChallengeId) (provider : AccountId)
      (slashedAmount : ℕ)
  deriving DecidableEq

inductive Error
  | providerAlreadyRegistered
  | providerNotFound
  | insufficientStake
  | insufficientStakeForBytes
  | providerHasActiveAgreements
  | providerNotAcceptingPrimary
  | providerNotAcceptingReplicas
  | providerNotAcceptingExtensions
  | providerNotSlashed
  | capacityBelowCommitted
  | capacityExceeded
  | insufficientStakeForCapacity
  | minDurationExceedsMaxDuration
  | minAgreementBytesExceedsMaxCapacity
  | deregisterAnnounced
  | deregisterNotAnnounced
  | deregisterPeriodNotElapsed
  | bucketNotFound
  | bucketFrozen
  | notBucketAdmin
  | notBucketWriter
  | memberNotFound
  | cannotDemoteAdmin
  | lastAdminCannotBeRemoved
  | maxMembersReached
  | maxPrimaryProvidersReached
  | minProvidersNotMet
  | invalidMinProviders
  | notAuthorizedForPrivateBucket
  | agreementNotFound
  | agreementAlreadyExists
  | agreementExpired
  | agreementNotExpired
  | agreementExtensionsBlocked
  | notAgreementOwner
  | transferToSelf
  | durationTooShort
  | durationTooLong
  | paymentExceedsMax
  | cannotTerminateReplica
  | settlementWindowPassed
  | notReplica
  | syncTooFrequent
  | invalidSyncRoot
  | insufficientSyncBalance
  | selfChallenge
  | challengeNotFound
  | challengeExpired
  | challengeNotExpired
  | notChallengeProvider
  | invalidProof
  | invalidDeletionClaim
  | invalidSupersededClaim
  | providerNotInSnapshot
  | leafNotInCommitment
  | providerHasPendingChallenges
  | agreementHasPendingChallenge
  | tooManyChallengesThisBlock
  | invalidSignature
  | noSnapshot
  | snapshotViolatesFrozen
  | insufficientSignatures
  | arithmeticOverflow
  | invalidPublicKey
  | tooManyBucketsForMember
  | invalidProviderSignature
  | termsExpired
  | termsValidityTooLong
  | nonceMismatch
  | termsOwnerMismatch
  | missingReplicaTerms
  | unexpectedReplicaTerms
  | termsBucketMismatch
  | invalidMaxBytesRequest
  | maxBytesBelowMinimum
  | bucketHasPendingChallenge
  | bucketNotEmpty
  deriving DecidableEq, Repr

/-- Why a call was refused: by its origin, by the pallet or by the currency. -/
inductive DispatchError
  | badOrigin
  | pallet (error : Error)
  | token (error : TokenError)
  deriving DecidableEq, Repr

/-! ### Storage -/

/-- The storage of the pallet, the anchor clock it reads, the ledger of the currency and the events
of the last call. -/
structure State where
  anchorBlock : ℕ
  ledger : Ledger AccountId HoldReason
  providers : FiniteMap AccountId ProviderInfo
  agreementNonces : FiniteMap AccountId ℕ
  nextBucketId : ℕ
  buckets : FiniteMap ℕ (Bucket AccountId)
  storageAgreements : FiniteMap (ℕ × AccountId) (StorageAgreement AccountId)
  challenges : FiniteMap ChallengeId (Challenge AccountId)
  nextChallengeIndex : FiniteMap ℕ ℕ
  pendingChallenges : FiniteMap AccountId ℕ
  pendingChallengesByBucket : FiniteMap (ℕ × AccountId) ℕ
  memberBuckets : FiniteMap AccountId (List ℕ)
  events : List (Event AccountId)

variable {AccountId}

/-- Fail with an error of the pallet unless a test holds. -/
def check (test : Bool) (error : Error) : Except DispatchError Unit :=
  ensure test (.pallet error)

/-- Read an optional value, or fail with an error of the pallet. -/
def fetch {α : Type} (value : Option α) (error : Error) : Except DispatchError α :=
  require value (.pallet error)

/-- Run an operation of the currency. -/
def currency {α : Type} (operation : Except TokenError α) : Except DispatchError α :=
  operation.mapError .token

theorem check_eq_ok (test : Bool) (error : Error) (result : Unit) :
    check test error = .ok result ↔ test = true :=
  ensure_eq_ok test _ result

theorem fetch_eq_ok {α : Type} (value : Option α) (error : Error) (result : α) :
    fetch value error = .ok result ↔ value = some result :=
  require_eq_ok value _ result

theorem currency_eq_ok {α : Type} (operation : Except TokenError α) (result : α) :
    currency operation = .ok result ↔ operation = .ok result :=
  mapError_eq_ok _ operation result

variable [DecidableEq AccountId]

namespace State

/-- The balance of an account on hold for a reason. -/
def held (s : State AccountId) (reason : HoldReason) (who : AccountId) : ℕ :=
  Ledger.held s.ledger reason who

/-- The number of open challenges recorded against a provider. -/
def pendingOf (s : State AccountId) (provider : AccountId) : ℕ :=
  (s.pendingChallenges.lookup provider).getD 0

/-- The number of open challenges recorded against a provider on a bucket. -/
def pendingByBucketOf (s : State AccountId) (bucketId : ℕ) (provider : AccountId) : ℕ :=
  (s.pendingChallengesByBucket.lookup (bucketId, provider)).getD 0

/-- The next challenge index of a deadline. -/
def nextIndexOf (s : State AccountId) (deadline : ℕ) : ℕ :=
  (s.nextChallengeIndex.lookup deadline).getD 0

end State

end Web3Storage.Pallet
