import Web3Storage.Pallet.Checkpoints

/-!
# Challenges

A challenge names one chunk of a commitment of a provider. The provider answers before the deadline,
or anyone resolves the expired challenge and the provider's whole stake goes to the treasury. Two
counters of open challenges, for each provider and for each provider on a bucket, stand in the way
of an exit.
-/

set_option autoImplicit false
set_option relaxedAutoImplicit false

namespace Web3Storage.Pallet

open Foundations Primitives

variable {AccountId : Type} [DecidableEq AccountId] (cfg : Config AccountId)

/-! ### Statistics and counters -/

def ProviderStats.challengeDefended (stats : ProviderStats) (authorized : Bool) : ProviderStats :=
  if authorized then
    { stats with
      challengesReceivedAuthorized := saturatingAdd u32Max stats.challengesReceivedAuthorized 1 }
  else
    { stats with
      challengesReceivedPublic := saturatingAdd u32Max stats.challengesReceivedPublic 1 }

def ProviderStats.challengeFailed (stats : ProviderStats) : ProviderStats :=
  { stats with challengesFailed := saturatingAdd u32Max stats.challengesFailed 1 }

/-- One challenge less; a count that reaches zero is deleted. -/
def decrementOrDelete (count : Option ℕ) : Option ℕ :=
  (count.bind fun n ↦ if 1 ≤ n then some (n - 1) else none).filter fun n ↦ 0 < n

/-- One challenge more, up to the largest 32-bit count. -/
def incrementCount (count : Option ℕ) : Option ℕ :=
  some (saturatingAdd u32Max (count.getD 0) 1)

/-! ### Opening a challenge -/

/-- Validate the target, hold the challenger's deposit and store the challenge under a new id. -/
def createChallenge (challenger : AccountId) (bucketId : ℕ) (bucket : Bucket AccountId)
    (provider : AccountId) (providerRole : ProviderRole) (commitment : Commitment)
    (target : ChunkLocation) (s : State AccountId) :
    Except DispatchError (ChallengeId × State AccountId) := do
  check (challenger ≠ provider) .selfChallenge
  check (target.leafIndex < commitment.leafCount) .leafNotInCommitment
  onlyIf (bucket.visibility = .privateRead && providerRole.isPrimary)
    (check (isAuthorizedForPrivate s challenger bucketId bucket) .notAuthorizedForPrivateBucket)
  let authorized := isAuthorized s challenger bucketId bucket
  let deposit := cfg.challengeDeposit
  let ledger ← holdChallengeDeposit cfg challenger deposit s.ledger
  let deadline := saturatingAdd u32Max s.anchorBlock cfg.challengeTimeout
  let challenge : Challenge AccountId :=
    { bucketId := bucketId, provider := provider, challenger := challenger
      commitment := commitment, target := target, deposit := deposit, authorized := authorized
      createdAt := s.anchorBlock }
  let index := s.nextIndexOf deadline
  check (index < cfg.maxChallengesPerDeadline) .tooManyChallengesThisBlock
  let challengeId : ChallengeId := ⟨deadline, index⟩
  return (challengeId, { s with
    ledger := ledger
    challenges := s.challenges.insert challengeId challenge
    nextChallengeIndex := s.nextChallengeIndex.insert deadline (saturatingAdd u16Max index 1)
    pendingChallenges := FiniteMap.alter provider incrementCount s.pendingChallenges
    pendingChallengesByBucket :=
      FiniteMap.alter (bucketId, provider) incrementCount s.pendingChallengesByBucket
    events := s.events ++ [.challengeCreated challengeId bucketId provider challenger deadline] })

/-- Challenge a provider's signature on the current snapshot. -/
def challengeCheckpoint (who : AccountId) (bucketId : ℕ) (provider : AccountId)
    (target : ChunkLocation) (s : State AccountId) : Except DispatchError (State AccountId) := do
  let bucket ← fetch (s.buckets.lookup bucketId) .bucketNotFound
  let snapshot ← fetch bucket.snapshot .noSnapshot
  let providerIndex ← fetch (bucket.primaryProviders.findIdx? fun p ↦ p = provider)
    .providerNotInSnapshot
  check (snapshot.primarySigners[providerIndex]? = some true) .providerNotInSnapshot
  let agreement ← fetch (s.storageAgreements.lookup (bucketId, provider)) .agreementNotFound
  check (s.anchorBlock < agreement.expiresAt) .agreementExpired
  let created ← createChallenge cfg who bucketId bucket provider agreement.role snapshot.commitment
    target s
  return created.2

/-- Challenge a commitment the provider signed off chain. -/
def challengeOffchain (who : AccountId) (bucketId : ℕ) (provider : AccountId)
    (commitment : Commitment) (target : ChunkLocation) (providerSignature : MultiSignature)
    (s : State AccountId) : Except DispatchError (State AccountId) := do
  let bucket ← fetch (s.buckets.lookup bucketId) .bucketNotFound
  let agreement ← fetch (s.storageAgreements.lookup (bucketId, provider)) .agreementNotFound
  check (s.anchorBlock < agreement.expiresAt) .agreementExpired
  verifySignature cfg s.providers providerSignature
    (CommitmentPayload.new bucketId commitment).encode provider
  let created ← createChallenge cfg who bucketId bucket provider agreement.role commitment target s
  return created.2

/-- The commitment of the last sync a role confirmed. -/
def syncedCommitment : ProviderRole → Except DispatchError Commitment
  | .primary => .error (.pallet .notReplica)
  | .replica _ _ _ lastSync => do
    let record ← fetch lastSync .invalidSyncRoot
    return record.commitment

/-- Challenge a replica on the last sync it confirmed. -/
def challengeReplica (who : AccountId) (bucketId : ℕ) (provider : AccountId)
    (target : ChunkLocation) (s : State AccountId) : Except DispatchError (State AccountId) := do
  let agreement ← fetch (s.storageAgreements.lookup (bucketId, provider)) .agreementNotFound
  check (s.anchorBlock < agreement.expiresAt) .agreementExpired
  let commitment ← syncedCommitment agreement.role
  let bucket ← fetch (s.buckets.lookup bucketId) .bucketNotFound
  let created ← createChallenge cfg who bucketId bucket provider agreement.role commitment target s
  return created.2

/-! ### Answering a challenge -/

/-- Check that a proof proves the challenged leaf under the challenged commitment. Returns the data
root and the chunk count of the leaf. -/
def verifyChallengedLeaf (challenge : Challenge AccountId) (mmrProof : MmrProof) :
    Except DispatchError (H256 × ℕ) := do
  let chunkCount ← fetch mmrProof.leaf.chunkCount .invalidProof
  check (verifyMmrProof cfg.crypto.blake2256 cfg.mmr mmrProof challenge.target.leafIndex
    challenge.commitment) .invalidProof
  return (mmrProof.leaf.dataRoot, chunkCount)

/-- Whether the challenged provider has a primary agreement on the bucket. -/
def responderIsPrimary (s : State AccountId) (challenge : Challenge AccountId) : Bool :=
  (s.storageAgreements.lookup (challenge.bucketId, challenge.provider)).any
    fun agreement ↦ agreement.role.isPrimary

/-- The sequence number a challenge is about. -/
def challengedSeq (challenge : Challenge AccountId) : ℕ :=
  saturatingAdd u64Max challenge.commitment.startSeq challenge.target.leafIndex

/-- Whether an operation succeeded. -/
def isOk {α : Type} : Except DispatchError α → Bool
  | .ok _ => true
  | .error _ => false

/-- Check a response to a challenge. -/
def verifyResponse (challenge : Challenge AccountId) (bucket : Bucket AccountId)
    (response : ChallengeResponse AccountId) (s : State AccountId) :
    Except DispatchError Unit :=
  match response with
  | .proof chunkData mmrProof chunkProof => do
    let leaf ← verifyChallengedLeaf cfg challenge mmrProof
    check (verifyMerkleProof cfg.crypto.blake2256 (hashLeaf cfg.crypto.blake2256 chunkData)
      challenge.target.chunkIndex leaf.2 chunkProof leaf.1) .invalidProof
  | .chunkOutOfRange mmrProof => do
    let leaf ← verifyChallengedLeaf cfg challenge mmrProof
    check (challenge.target.chunkIndex ≥ leaf.2) .invalidProof
  | .deleted newMmrRoot newStartSeq admin adminSignature => do
    ensureAdmin admin bucket
    check (responderIsPrimary s challenge) .invalidDeletionClaim
    check (challengedSeq challenge < newStartSeq) .invalidDeletionClaim
    let payload := CommitmentPayload.new challenge.bucketId ⟨newMmrRoot, newStartSeq, 0⟩
    check (isOk (verifySignature cfg s.providers adminSignature payload.encode admin))
      .invalidDeletionClaim
  | .superseded => do
    check (responderIsPrimary s challenge) .invalidSupersededClaim
    let snapshot ← fetch bucket.snapshot .invalidSupersededClaim
    check (challenge.commitment.mmrRoot ≠ snapshot.commitment.mmrRoot &&
      snapshot.commitment.containsSeq (challengedSeq challenge)) .invalidSupersededClaim

/-- The challenger's part of the response cost, in percent. -/
def challengerPercent (authorized : Bool) (responseTime : ℕ) : ℕ :=
  if !authorized then 100
  else if responseTime ≤ 1 then 90
  else if responseTime ≤ 5 then 80
  else if responseTime ≤ 24 then 70
  else if responseTime ≤ 95 then 60
  else 50

/-- The part of a deposit that pays for the response. The product is a plain 128-bit one. -/
def challengerShare (deposit percent : ℕ) : ℕ := wrappingMul u128Max deposit percent / 100

/-- Answer a challenge. An error leaves everything as it was, the challenge included. -/
def respondToChallenge (who : AccountId) (challengeId : ChallengeId)
    (response : ChallengeResponse AccountId) (s : State AccountId) :
    Except DispatchError (State AccountId) := do
  let challenge ← fetch (s.challenges.lookup challengeId) .challengeNotFound
  check (challenge.provider = who) .notChallengeProvider
  check (s.anchorBlock ≤ challengeId.deadline) .challengeExpired
  let bucket ← fetch (s.buckets.lookup challenge.bucketId) .bucketNotFound
  verifyResponse cfg challenge bucket response s
  let responseTime := s.anchorBlock - challenge.createdAt
  let share := challengerShare challenge.deposit
    (challengerPercent challenge.authorized responseTime)
  let settled := settleChallengeDeposit cfg challenge.challenger challenge.provider
    challenge.deposit share s.ledger
  return { s with
    ledger := settled.2
    providers := FiniteMap.modify who
      (fun info ↦ { info with stats := info.stats.challengeDefended challenge.authorized })
      s.providers
    challenges := s.challenges.erase challengeId
    pendingChallenges := FiniteMap.alter challenge.provider decrementOrDelete s.pendingChallenges
    pendingChallengesByBucket := FiniteMap.alter (challenge.bucketId, challenge.provider)
      decrementOrDelete s.pendingChallengesByBucket
    events := s.events ++ [.challengeDefended challengeId who responseTime settled.1
      (challenge.deposit - settled.1)] }

/-! ### Resolving an expired challenge -/

/-- Slash a provider for a challenge that expired unanswered, and refund the challenger. Without a
provider record nothing happens. -/
def slashProviderForFailedChallenge (challenge : Challenge AccountId) (challengeId : ChallengeId)
    (s : State AccountId) : State AccountId :=
  match s.providers.lookup challenge.provider with
  | none => s
  | some info =>
    let slashed := slashStakeToTreasury cfg challenge.provider info.stake s.ledger
    { s with
      ledger := releaseChallengeDeposit challenge.challenger challenge.deposit slashed.2
      providers := s.providers.insert challenge.provider
        { info with
          stake := info.stake - slashed.1
          stats := info.stats.challengeFailed }
      events := s.events ++ [.challengeSlashed challengeId challenge.provider slashed.1] }

/-- Resolve a challenge whose deadline has passed. -/
def resolveExpiredChallenge (challengeId : ChallengeId) (s : State AccountId) :
    Except DispatchError (State AccountId) := do
  check (s.anchorBlock > challengeId.deadline) .challengeNotExpired
  let challenge ← fetch (s.challenges.lookup challengeId) .challengeNotFound
  return slashProviderForFailedChallenge cfg challenge challengeId { s with
    challenges := s.challenges.erase challengeId
    nextChallengeIndex := s.nextChallengeIndex.erase challengeId.deadline
    pendingChallenges := FiniteMap.alter challenge.provider decrementOrDelete s.pendingChallenges
    pendingChallengesByBucket := FiniteMap.alter (challenge.bucketId, challenge.provider)
      decrementOrDelete s.pendingChallengesByBucket }

/-! ### What the calls do -/

section Specification

open Ledger (Moves amountAt held total)

variable {cfg} {who challenger provider : AccountId} {bucketId : ℕ} {bucket : Bucket AccountId}
  {role : ProviderRole} {commitment : Commitment} {target : ChunkLocation}
  {challengeId : ChallengeId} {s s' : State AccountId}

theorem createChallenge_ok
    (h : createChallenge cfg challenger bucketId bucket provider role commitment target s =
      .ok (challengeId, s')) :
    ∃ ledger challenge, challenger ≠ provider ∧ target.leafIndex < commitment.leafCount ∧
      challengeId.deadline = saturatingAdd u32Max s.anchorBlock cfg.challengeTimeout ∧
        challengeId.index = s.nextIndexOf challengeId.deadline ∧
          challengeId.index < cfg.maxChallengesPerDeadline ∧
            Moves (amountAt .challengeDeposit challenger cfg.challengeDeposit) 0 s.ledger ledger ∧
              challenge =
                { bucketId := bucketId, provider := provider, challenger := challenger
                  commitment := commitment, target := target, deposit := cfg.challengeDeposit
                  authorized := isAuthorized s challenger bucketId bucket
                  createdAt := s.anchorBlock } ∧
                s' = { s with
                  ledger := ledger
                  challenges := s.challenges.insert challengeId challenge
                  nextChallengeIndex := s.nextChallengeIndex.insert challengeId.deadline
                    (saturatingAdd u16Max challengeId.index 1)
                  pendingChallenges :=
                    FiniteMap.alter provider incrementCount s.pendingChallenges
                  pendingChallengesByBucket := FiniteMap.alter (bucketId, provider)
                    incrementCount s.pendingChallengesByBucket
                  events := s.events ++ [.challengeCreated challengeId bucketId provider
                    challenger challengeId.deadline] } := by
  simp only [createChallenge, bind_eq_ok, pure_eq_ok, check_eq_ok, decide_eq_true_eq,
    Prod.mk.injEq] at h
  obtain ⟨-, hother, -, hleaf, -, -, ledger, hledger, -, hindex, rfl, rfl⟩ := h
  exact ⟨ledger, _, hother, hleaf, rfl, rfl, hindex, holdChallengeDeposit_moves hledger, rfl, rfl⟩

theorem challengeCheckpoint_ok (h : challengeCheckpoint cfg who bucketId provider target s = .ok s') :
    ∃ bucket snapshot index agreement challengeId, s.buckets.lookup bucketId = some bucket ∧
      bucket.snapshot = some snapshot ∧
        bucket.primaryProviders.findIdx? (fun p ↦ p = provider) = some index ∧
          snapshot.primarySigners[index]? = some true ∧
            s.storageAgreements.lookup (bucketId, provider) = some agreement ∧
              s.anchorBlock < agreement.expiresAt ∧
                createChallenge cfg who bucketId bucket provider agreement.role
                  snapshot.commitment target s = .ok (challengeId, s') := by
  simp only [challengeCheckpoint, bind_eq_ok, pure_eq_ok, fetch_eq_ok, check_eq_ok,
    decide_eq_true_eq] at h
  obtain ⟨bucket, hbucket, snapshot, hsnapshot, index, hindex, -, hsigned, agreement, hagreement, -,
    hlive, ⟨challengeId, after⟩, hcreated, rfl⟩ := h
  exact ⟨bucket, snapshot, index, agreement, challengeId, hbucket, hsnapshot, hindex, hsigned,
    hagreement, hlive, hcreated⟩

theorem challengeOffchain_ok {signature : MultiSignature}
    (h : challengeOffchain cfg who bucketId provider commitment target signature s = .ok s') :
    ∃ bucket agreement challengeId, s.buckets.lookup bucketId = some bucket ∧
      s.storageAgreements.lookup (bucketId, provider) = some agreement ∧
        s.anchorBlock < agreement.expiresAt ∧
          verifySignature cfg s.providers signature
            (CommitmentPayload.new bucketId commitment).encode provider = .ok () ∧
            createChallenge cfg who bucketId bucket provider agreement.role commitment target s =
              .ok (challengeId, s') := by
  simp only [challengeOffchain, bind_eq_ok, pure_eq_ok, fetch_eq_ok, check_eq_ok,
    decide_eq_true_eq] at h
  obtain ⟨bucket, hbucket, agreement, hagreement, -, hlive, done, hsigned, ⟨challengeId, after⟩,
    hcreated, rfl⟩ := h
  exact ⟨bucket, agreement, challengeId, hbucket, hagreement, hlive, hsigned, hcreated⟩

theorem challengeReplica_ok (h : challengeReplica cfg who bucketId provider target s = .ok s') :
    ∃ bucket agreement commitment challengeId, s.buckets.lookup bucketId = some bucket ∧
      s.storageAgreements.lookup (bucketId, provider) = some agreement ∧
        s.anchorBlock < agreement.expiresAt ∧ syncedCommitment agreement.role = .ok commitment ∧
          createChallenge cfg who bucketId bucket provider agreement.role commitment target s =
            .ok (challengeId, s') := by
  simp only [challengeReplica, bind_eq_ok, pure_eq_ok, fetch_eq_ok, check_eq_ok,
    decide_eq_true_eq] at h
  obtain ⟨agreement, hagreement, -, hlive, commitment, hcommitment, bucket, hbucket,
    ⟨challengeId, after⟩, hcreated, rfl⟩ := h
  exact ⟨bucket, agreement, commitment, challengeId, hbucket, hagreement, hlive, hcommitment,
    hcreated⟩

/-- The challenger pays at least half and at most all of the response cost. -/
theorem challengerPercent_bounds (authorized : Bool) (responseTime : ℕ) :
    50 ≤ challengerPercent authorized responseTime ∧
      challengerPercent authorized responseTime ≤ 100 := by
  unfold challengerPercent
  split_ifs <;> omega

/-- The share that pays for a response is part of the deposit. -/
theorem challengerShare_le (deposit : ℕ) {percent : ℕ} (hpercent : percent ≤ 100) :
    challengerShare deposit percent ≤ deposit := by
  have hwrapped : wrappingMul u128Max deposit percent ≤ deposit * 100 :=
    (Nat.mod_le _ _).trans (Nat.mul_le_mul_left _ hpercent)
  unfold challengerShare
  omega

theorem respondToChallenge_ok {response : ChallengeResponse AccountId}
    (h : respondToChallenge cfg who challengeId response s = .ok s') :
    ∃ challenge bucket ledger paid, s.challenges.lookup challengeId = some challenge ∧
      challenge.provider = who ∧ s.anchorBlock ≤ challengeId.deadline ∧
        s.buckets.lookup challenge.bucketId = some bucket ∧
          verifyResponse cfg challenge bucket response s = .ok () ∧ paid ≤ challenge.deposit ∧
            Moves 0 (amountAt .challengeDeposit challenge.challenger
              (min challenge.deposit (held s.ledger .challengeDeposit challenge.challenger)))
                s.ledger ledger ∧
              (paid, ledger) = settleChallengeDeposit cfg challenge.challenger challenge.provider
                challenge.deposit (challengerShare challenge.deposit (challengerPercent
                  challenge.authorized (s.anchorBlock - challenge.createdAt))) s.ledger ∧
              s' = { s with
                ledger := ledger
                providers := FiniteMap.modify who
                  (fun info ↦ { info with
                    stats := info.stats.challengeDefended challenge.authorized }) s.providers
                challenges := s.challenges.erase challengeId
                pendingChallenges :=
                  FiniteMap.alter challenge.provider decrementOrDelete s.pendingChallenges
                pendingChallengesByBucket :=
                  FiniteMap.alter (challenge.bucketId, challenge.provider) decrementOrDelete
                    s.pendingChallengesByBucket
                events := s.events ++ [.challengeDefended challengeId who
                  (s.anchorBlock - challenge.createdAt) paid (challenge.deposit - paid)] } := by
  simp only [respondToChallenge, bind_eq_ok, pure_eq_ok, fetch_eq_ok, check_eq_ok,
    decide_eq_true_eq] at h
  obtain ⟨challenge, hchallenge, -, hprovider, -, hdeadline, bucket, hbucket, done, hresponse,
    rfl⟩ := h
  have hshare := challengerShare_le challenge.deposit
    (challengerPercent_bounds challenge.authorized (s.anchorBlock - challenge.createdAt)).2
  obtain ⟨hpaid, hmoves⟩ := settleChallengeDeposit_moves cfg challenge.challenger
    challenge.provider challenge.deposit _ s.ledger hshare
  exact ⟨challenge, bucket, _, _, hchallenge, hprovider, hdeadline, hbucket, hresponse,
    hpaid.trans hshare, hmoves, rfl, rfl⟩

theorem resolveExpiredChallenge_ok (h : resolveExpiredChallenge cfg challengeId s = .ok s') :
    ∃ challenge, s.challenges.lookup challengeId = some challenge ∧
      challengeId.deadline < s.anchorBlock ∧
        s' = slashProviderForFailedChallenge cfg challenge challengeId { s with
          challenges := s.challenges.erase challengeId
          nextChallengeIndex := s.nextChallengeIndex.erase challengeId.deadline
          pendingChallenges :=
            FiniteMap.alter challenge.provider decrementOrDelete s.pendingChallenges
          pendingChallengesByBucket := FiniteMap.alter (challenge.bucketId, challenge.provider)
            decrementOrDelete s.pendingChallengesByBucket } := by
  simp only [resolveExpiredChallenge, bind_eq_ok, pure_eq_ok, fetch_eq_ok, check_eq_ok,
    decide_eq_true_eq] at h
  obtain ⟨-, hexpired, challenge, hchallenge, rfl⟩ := h
  exact ⟨challenge, hchallenge, hexpired, rfl⟩

/-- The slash of a registered provider takes its stake, up to what is held, and refunds the
challenger's deposit, up to what is held. -/
theorem slashProvider_of_some (cfg : Config AccountId) {challenge : Challenge AccountId}
    (challengeId : ChallengeId) {info : ProviderInfo}
    (hinfo : s.providers.lookup challenge.provider = some info) :
    ∃ ledger slashed, slashed = min info.stake (held s.ledger .providerStake challenge.provider) ∧
      (∀ reason other, held ledger reason other +
        (amountAt .providerStake challenge.provider slashed reason other +
          amountAt .challengeDeposit challenge.challenger
            (min challenge.deposit (held s.ledger .challengeDeposit challenge.challenger))
              reason other) = held s.ledger reason other) ∧
        (total ledger ≤ total s.ledger ∧
          (AcceptsSlash cfg challenge.provider info.stake s.ledger →
            total ledger = total s.ledger)) ∧
          (∃ credit, (credit = 0 ∨ credit = slashed) ∧ ∀ other, Ledger.free ledger other =
            Ledger.free s.ledger other + (if other = cfg.treasury then credit else 0) +
              if other = challenge.challenger then
                min challenge.deposit (held s.ledger .challengeDeposit challenge.challenger)
              else 0) ∧
          slashProviderForFailedChallenge cfg challenge challengeId s = { s with
            ledger := ledger
            providers := s.providers.insert challenge.provider
              { info with
                stake := info.stake - slashed
                stats := info.stats.challengeFailed }
            events := s.events ++
              [.challengeSlashed challengeId challenge.provider slashed] } := by
  obtain ⟨hslashed, hheld⟩ :=
    slashStakeToTreasury_held cfg challenge.provider info.stake s.ledger
  obtain ⟨htotal, haccepted⟩ :=
    slashStakeToTreasury_total cfg challenge.provider info.stake s.ledger
  have hrefund := releaseChallengeDeposit_moves challenge.challenger challenge.deposit
    (slashStakeToTreasury cfg challenge.provider info.stake s.ledger).2
  -- the slash leaves the challenger's deposit where it is
  have hdeposit := hheld .challengeDeposit challenge.challenger
  rw [Ledger.amountAt_apply, if_neg (by simp), add_zero] at hdeposit
  rw [hdeposit] at hrefund
  refine ⟨releaseChallengeDeposit challenge.challenger challenge.deposit
    (slashStakeToTreasury cfg challenge.provider info.stake s.ledger).2, _, hslashed,
    fun reason other ↦ ?_, ⟨?_, fun haccepts ↦ ?_⟩, ?_, ?_⟩
  · have hfirst := hheld reason other
    have hsecond := hrefund.held_add reason other
    rw [hslashed]
    simp only [Pi.zero_apply] at hsecond
    omega
  · exact hrefund.total_eq.trans_le htotal
  · exact hrefund.total_eq.trans (haccepted haccepts)
  · obtain ⟨credit, hcredit, hfree⟩ :=
      slashStakeToTreasury_free cfg challenge.provider info.stake s.ledger
    rw [← hslashed] at hcredit
    exact ⟨credit, hcredit, fun other ↦ by
      rw [releaseChallengeDeposit_free, hfree, hdeposit]⟩
  · unfold slashProviderForFailedChallenge
    rw [hinfo]

theorem slashProvider_of_none (cfg : Config AccountId) {challenge : Challenge AccountId}
    (challengeId : ChallengeId)
    (hinfo : s.providers.lookup challenge.provider = none) :
    slashProviderForFailedChallenge cfg challenge challengeId s = s := by
  unfold slashProviderForFailedChallenge
  rw [hinfo]

end Specification

end Web3Storage.Pallet
