import Web3Storage.Foundations.Backing
import Web3Storage.Pallet.Dispatch

/-!
# What a step can do

`Effect` says once, for every input, what a step does to the records of the pallet and to its holds.
The calls fall into a few families: a provider record is added, changed or removed; a bucket is
created, changed or deleted; an agreement is opened, amended or closed; a challenge is opened,
answered or expires. `effect_of_step` sorts the steps of the machine into these families; the
invariants of the pallet are case analyses of `Effect`.

The holds of an amended or closed agreement move by its escrow. That is exact only because no escrow
saturates, which `Funded` ensures: the holds cover the escrows, and the ledger stays within its
bound.
-/

set_option autoImplicit false
set_option relaxedAutoImplicit false

namespace Web3Storage.Pallet

open Foundations Primitives
open Ledger (Moves amountAt)

variable {AccountId : Type} [DecidableEq AccountId]

/-- Every account's hold covers the escrows of the agreements it owns, and the ledger stays within
its bound. -/
structure Funded (s : State AccountId) : Prop where
  covers : Covers (fun _ agreement ↦ agreement.owner) StorageAgreement.escrow s.storageAgreements
    (s.held .agreementPayment)
  total_le : Ledger.total s.ledger ≤ maxIssuance

/-- A table of amounts that touches storage deposits only. -/
def DepositsOnly (table : HoldReason → AccountId → ℕ) : Prop :=
  ∀ reason who, reason ≠ .storageDeposit → table reason who = 0

/-- What the opening of an agreement does to the buckets and the counter of ids. -/
inductive BucketsOpened (s : State AccountId) (bucketId : ℕ) (provider : AccountId) :
    BucketTarget → QuoteKind → FiniteMap ℕ (Bucket AccountId) → ℕ → Prop
  | created (bucket : Bucket AccountId) (hid : bucketId = s.nextBucketId)
      (hprimaries : bucket.primaryProviders = [provider]) (hsnapshot : bucket.snapshot = none)
      (hfrozen : bucket.frozenStartSeq = none) :
      BucketsOpened s bucketId provider .new .primary (s.buckets.insert bucketId bucket)
        (saturatingAdd u64Max bucketId 1)
  | joined (bucket : Bucket AccountId) (hbucket : s.buckets.lookup bucketId = some bucket) :
      BucketsOpened s bucketId provider (.existing bucketId) .primary
        (s.buckets.insert bucketId
          { bucket with
            primaryProviders := bucket.primaryProviders ++ [provider]
            snapshot := bucket.snapshot.map BucketSnapshot.pushUnset }) s.nextBucketId
  | replicated : BucketsOpened s bucketId provider (.existing bucketId) .replica s.buckets
      s.nextBucketId

/-- What a call that changes a provider record does to the exit it announced. -/
inductive ExitChange (cfg : Config AccountId) (s : State AccountId) (call : Call AccountId)
    (old new : ProviderInfo) : Prop
  | kept (hat : new.deregisterAt = old.deregisterAt)
  | announced (hcall : call = .deregisterProvider) (hcommitted : old.committedBytes = 0)
      (hat : new.deregisterAt =
        some (saturatingAdd u32Max s.anchorBlock cfg.deregisterAnnouncementPeriod))
  | cancelled (hcall : call = .cancelDeregister) (hat : new.deregisterAt = none)

/-- The event by which a call that changes a provider record makes the change known. A stake that was
added has an event of its own. -/
inductive ChangeAnnounced (who : AccountId) (call : Call AccountId)
    (events : List (Event AccountId)) : Prop
  | stakeAdded (amount : ℕ) (hcall : call = .addStake amount)
  | exitAnnounced (completeAfter : ℕ) (hevent : .deregisterAnnounced who completeAfter ∈ events)
  | exitCancelled (hevent : .deregisterCancelled who ∈ events)
  | settingsUpdated (settings : ProviderSettings)
      (hevent : .providerSettingsUpdated who settings ∈ events)
  | multiaddrUpdated (multiaddr : Bytes)
      (hevent : .providerMultiaddrUpdated who multiaddr ∈ events)

/-- What a call that amends an agreement does to the last sync it records. -/
inductive SyncChange (s : State AccountId) (who : AccountId) (call : Call AccountId) (bucketId : ℕ)
    (provider : AccountId) (old new : StorageAgreement AccountId) : Prop
  | kept (hsame : new.role.lastSync = old.role.lastSync)
  | confirmed (roots : Fin 7 → Option H256) (signature : MultiSignature)
      (bucket : Bucket AccountId) (matched : ℕ × Commitment)
      (hcall : call = .confirmReplicaSync bucketId roots signature) (hwho : provider = who)
      (hbucket : s.buckets.lookup bucketId = some bucket)
      (hmatched : findMatchingRoot bucket roots = .ok matched)
      (hnew : ∀ record, old.role.lastSync = some record →
        matched.2.mmrRoot ≠ record.commitment.mmrRoot)
      (hrecord : new.role.lastSync = some ⟨matched.2, s.anchorBlock⟩)

/-- The effect of an input on a state. -/
inductive Effect (cfg : Config AccountId) (s : State AccountId) :
    Input AccountId → State AccountId → Prop
  | rejected (origin : Origin AccountId) (call : Call AccountId) :
      Effect cfg s (.call origin call) s.withoutEvents
  | advanced (block : ℕ) (hnow : s.anchorBlock ≤ block) (hfits : block ≤ u32Max) :
      Effect cfg s (.advance block) { s with anchorBlock := block }
  | outside (input : Input AccountId) (ledger : Funds AccountId) (nonces : FiniteMap AccountId ℕ)
      (hinput : ∀ origin call, input ≠ .call origin call)
      (hheld : ∀ reason who, Ledger.held ledger reason who = s.held reason who)
      (htotal : Ledger.total s.ledger ≤ maxIssuance → Ledger.total ledger ≤ maxIssuance) :
      Effect cfg s input { s with ledger := ledger, agreementNonces := nonces }
  | registered (who : AccountId) (multiaddr publicKey : Bytes) (info : ProviderInfo)
      (ledger : Funds AccountId) (events : List (Event AccountId)) (deposit : ℕ)
      (hnew : s.providers.lookup who = none) (hcommitted : info.committedBytes = 0)
      (hcapacity : 0 < info.settings.maxCapacity →
        cfg.minStakePerByte * info.settings.maxCapacity ≤ info.stake)
      (hactive : info.deregisterAt = none)
      (hmoves : Moves (amountAt .providerStake who info.stake +
        amountAt .storageDeposit who deposit) 0 s.ledger ledger)
      (hevent : .providerRegistered who info.stake ∈ events)
      (hdurations : info.settings.minDuration ≤ info.settings.maxDuration) :
      Effect cfg s (.call (.signed who) (.registerProvider multiaddr publicKey info.stake))
        { s with ledger := ledger, providers := s.providers.insert who info, events := events }
  | providerChanged (who : AccountId) (call : Call AccountId) (old new : ProviderInfo)
      (ledger : Funds AccountId) (events : List (Event AccountId)) (amount : ℕ)
      (hold : s.providers.lookup who = some old)
      (hcommitted : new.committedBytes = old.committedBytes)
      (hstake : new.stake = old.stake + amount)
      (hcapacity : new.settings.maxCapacity = old.settings.maxCapacity ∨
        (0 < new.settings.maxCapacity → old.committedBytes ≤ new.settings.maxCapacity))
      (hmoves : Moves (amountAt .providerStake who amount) 0 s.ledger ledger)
      (hexit : ExitChange cfg s call old new) (hannounced : ChangeAnnounced who call events)
      (hdurations : old.settings.minDuration ≤ old.settings.maxDuration →
        new.settings.minDuration ≤ new.settings.maxDuration) :
      Effect cfg s (.call (.signed who) call)
        { s with ledger := ledger, providers := s.providers.insert who new, events := events }
  | deregistered (who : AccountId) (old : ProviderInfo) (ledger : Funds AccountId)
      (events : List (Event AccountId)) (deposit : ℕ)
      (hold : s.providers.lookup who = some old) (hcommitted : old.committedBytes = 0)
      (hpending : s.pendingOf who = 0)
      (hmoves : Moves 0 (amountAt .storageDeposit who deposit +
        amountAt .providerStake who old.stake) s.ledger ledger)
      (helapsed : ∃ completeAfter, old.deregisterAt = some completeAfter ∧
        completeAfter ≤ s.anchorBlock)
      (hevent : .providerDeregistered who old.stake ∈ events) :
      Effect cfg s (.call (.signed who) .completeDeregister)
        { s with ledger := ledger, providers := s.providers.erase who, events := events }
  | bucketCreated (who : AccountId) (minProviders : ℕ) (visibility : Visibility)
      (bucket : Bucket AccountId) (ledger : Funds AccountId)
      (memberBuckets : FiniteMap AccountId (List ℕ)) (events : List (Event AccountId))
      (gain : HoldReason → AccountId → ℕ)
      (hprimaries : bucket.primaryProviders = []) (hsnapshot : bucket.snapshot = none)
      (hfrozen : bucket.frozenStartSeq = none) (hgain : DepositsOnly gain)
      (hmoves : Moves gain 0 s.ledger ledger)
      (hmembers : bucket.members = [⟨who, .admin, who, cfg.storageDeposit .member⟩])
      (hindex : memberBuckets = s.memberBuckets.insert who
        (bucketsOf s.memberBuckets who ++ [s.nextBucketId])) :
      Effect cfg s (.call (.signed who) (.createBucket minProviders visibility))
        { s with
          ledger := ledger
          nextBucketId := saturatingAdd u64Max s.nextBucketId 1
          buckets := s.buckets.insert s.nextBucketId bucket
          memberBuckets := memberBuckets
          events := events }
  | bucketDeleted (who : AccountId) (bucketId : ℕ) (ledger : Funds AccountId)
      (memberBuckets : FiniteMap AccountId (List ℕ)) (events : List (Event AccountId))
      (loss : HoldReason → AccountId → ℕ)
      (hagreements : ∀ provider, s.storageAgreements.lookup (bucketId, provider) = none)
      (hpending : ∀ provider, s.pendingChallengesByBucket.lookup (bucketId, provider) = none)
      (hloss : DepositsOnly loss) (hmoves : Moves 0 loss s.ledger ledger)
      (hindex : ∃ bucket, s.buckets.lookup bucketId = some bucket ∧
        memberBuckets = bucket.members.foldl
          (fun index m ↦ removeFromMemberIndex m.account bucketId index) s.memberBuckets) :
      Effect cfg s (.call (.signed who) (.deleteBucket bucketId))
        { s with
          ledger := ledger
          buckets := s.buckets.erase bucketId
          memberBuckets := memberBuckets
          events := events }
  | bucketChanged (who : AccountId) (call : Call AccountId) (bucketId : ℕ)
      (old new : Bucket AccountId) (ledger : Funds AccountId)
      (memberBuckets : FiniteMap AccountId (List ℕ)) (events : List (Event AccountId))
      (gain loss : HoldReason → AccountId → ℕ)
      (hold : s.buckets.lookup bucketId = some old)
      (hprimaries : new.primaryProviders = old.primaryProviders)
      (hsnapshot : new.snapshot = old.snapshot)
      (hfrozen : new.frozenStartSeq = old.frozenStartSeq ∨
        old.frozenStartSeq = none ∧ call = .freezeBucket bucketId ∧
          ∃ snapshot, old.snapshot = some snapshot ∧
            new.frozenStartSeq = some snapshot.commitment.startSeq)
      (hgain : DepositsOnly gain) (hloss : DepositsOnly loss)
      (hmoves : Moves gain loss s.ledger ledger)
      (hmembers : MembersChange who bucketId old s.memberBuckets new.members memberBuckets)
      (hroots : new.historicalRoots = old.historicalRoots) :
      Effect cfg s (.call (.signed who) call)
        { s with
          ledger := ledger
          buckets := s.buckets.insert bucketId new
          memberBuckets := memberBuckets
          events := events }
  | checkpointed (who : AccountId) (bucketId : ℕ) (commitment : Commitment)
      (signatures : List (AccountId × MultiSignature)) (old new : Bucket AccountId)
      (bits : List Bool) (signers : List AccountId) (events : List (Event AccountId))
      (hok : checkpoint cfg who bucketId commitment signatures s.withoutEvents =
        .ok { s with buckets := s.buckets.insert bucketId new, events := events })
      (hold : s.buckets.lookup bucketId = some old)
      (hpinned : ∀ frozenStart, old.frozenStartSeq = some frozenStart →
        commitment.startSeq = frozenStart)
      (hsigned : collectSigners cfg s.providers (CommitmentPayload.new bucketId commitment).encode
        old.primaryProviders signatures (List.replicate old.primaryProviders.length false) [] =
          .ok (bits, signers))
      (hprimaries : new.primaryProviders = old.primaryProviders)
      (hfrozen : new.frozenStartSeq = old.frozenStartSeq)
      (hsnapshot : new.snapshot = some ⟨commitment, s.anchorBlock, bits⟩)
      (hmembers : new.members = old.members) :
      Effect cfg s (.call (.signed who) (.checkpoint bucketId commitment signatures))
        { s with buckets := s.buckets.insert bucketId new, events := events }
  | checkpointExtended (who : AccountId) (bucketId : ℕ)
      (signatures : List (AccountId × MultiSignature)) (old new : Bucket AccountId)
      (snapshot : BucketSnapshot) (bits : List Bool) (signers : List AccountId)
      (events : List (Event AccountId))
      (hok : extendCheckpoint cfg who bucketId signatures s.withoutEvents =
        .ok { s with buckets := s.buckets.insert bucketId new, events := events })
      (hold : s.buckets.lookup bucketId = some old) (hsnapshotOld : old.snapshot = some snapshot)
      (hsigned : collectLateSigners cfg s.providers
        (CommitmentPayload.new bucketId snapshot.commitment).encode old.primaryProviders signatures
          snapshot.primarySigners [] = .ok (bits, signers))
      (hprimaries : new.primaryProviders = old.primaryProviders)
      (hfrozen : new.frozenStartSeq = old.frozenStartSeq)
      (hsnapshot : new.snapshot = some { snapshot with primarySigners := bits })
      (hmembers : new.members = old.members) :
      Effect cfg s (.call (.signed who) (.extendCheckpoint bucketId signatures))
        { s with buckets := s.buckets.insert bucketId new, events := events }
  | opened (owner : AccountId) (call : Call AccountId) (bucketId : ℕ) (provider : AccountId)
      (terms : AgreementTerms AccountId) (signature : MultiSignature) (target : BucketTarget)
      (kind : QuoteKind) (info : ProviderInfo) (agreement : StorageAgreement AccountId)
      (deposits : ℕ) (ledger : Funds AccountId) (buckets : FiniteMap ℕ (Bucket AccountId))
      (nextBucketId : ℕ) (nonces : FiniteMap AccountId ℕ)
      (memberBuckets : FiniteMap AccountId (List ℕ)) (events : List (Event AccountId))
      (hopening : Opening cfg s owner provider terms signature target kind info agreement deposits
        ledger)
      (hbuckets : BucketsOpened s bucketId provider target kind buckets nextBucketId)
      (hcall : target = .new → ∃ visibility,
        call = .createBucketWithPrimary provider terms signature visibility)
      (hredemption : call.redemption owner = some ⟨owner, provider, terms, signature, target, kind⟩)
      (hnonces : nonces = s.agreementNonces.insert owner
        (saturatingAdd u64Max ((s.agreementNonces.lookup owner).getD 0) 1))
      (hmembers : target = .new → ∃ bucket, buckets.lookup bucketId = some bucket ∧
        bucket.members = [⟨owner, .admin, owner, cfg.storageDeposit .member⟩] ∧
          memberBuckets = s.memberBuckets.insert owner
            (bucketsOf s.memberBuckets owner ++ [bucketId]))
      (hindex : target ≠ .new → memberBuckets = s.memberBuckets) :
      Effect cfg s (.call (.signed owner) call)
        { s with
          ledger := ledger
          providers := FiniteMap.modify provider
            (fun old ↦ { old with
              committedBytes := info.committedBytes + terms.maxBytes
              stats := old.stats.agreementOpened terms.maxBytes }) s.providers
          agreementNonces := nonces
          nextBucketId := nextBucketId
          buckets := buckets
          storageAgreements := s.storageAgreements.insert (bucketId, provider) agreement
          memberBuckets := memberBuckets
          events := events }
  | toppedUp (who : AccountId) (bucketId : ℕ) (provider : AccountId)
      (additionalBytes maxPayment : ℕ) (info : ProviderInfo)
      (old new : StorageAgreement AccountId) (ledger : Funds AccountId)
      (events : List (Event AccountId)) (hinfo : s.providers.lookup provider = some info)
      (hactive : info.deregisterAt = none)
      (hold : s.storageAgreements.lookup (bucketId, provider) = some old)
      (hrole : new.role = old.role) (hbytes : new.maxBytes = old.maxBytes + additionalBytes)
      (hmoves : Moves (amountAt .agreementPayment new.owner new.escrow)
        (amountAt .agreementPayment old.owner old.escrow) s.ledger ledger) :
      Effect cfg s
        (.call (.signed who) (.topUpAgreement bucketId provider additionalBytes maxPayment))
        { s with
          ledger := ledger
          providers := FiniteMap.modify provider
            (fun info ↦ { info with
              committedBytes := saturatingAdd u64Max info.committedBytes additionalBytes })
            s.providers
          storageAgreements := s.storageAgreements.insert (bucketId, provider) new
          events := events }
  | amended (who : AccountId) (call : Call AccountId) (bucketId : ℕ) (provider : AccountId)
      (old new : StorageAgreement AccountId) (ledger : Funds AccountId)
      (stats : ProviderStats → ProviderStats) (events : List (Event AccountId))
      (hold : s.storageAgreements.lookup (bucketId, provider) = some old)
      (hrole : new.role.isPrimary = old.role.isPrimary) (hbytes : new.maxBytes = old.maxBytes)
      (hmoves : Moves (amountAt .agreementPayment new.owner new.escrow)
        (amountAt .agreementPayment old.owner old.escrow) s.ledger ledger)
      (hsync : SyncChange s who call bucketId provider old new) :
      Effect cfg s (.call (.signed who) call)
        { s with
          ledger := ledger
          providers := FiniteMap.modify provider
            (fun info ↦ { info with stats := stats info.stats }) s.providers
          storageAgreements := s.storageAgreements.insert (bucketId, provider) new
          events := events }
  | closed (who : AccountId) (call : Call AccountId) (bucketId : ℕ) (provider : AccountId)
      (old : StorageAgreement AccountId) (ledger : Funds AccountId) (deposit : ℕ)
      (stats : ProviderStats → ProviderStats) (events : List (Event AccountId))
      (hpending : s.pendingByBucketOf bucketId provider = 0)
      (hold : s.storageAgreements.lookup (bucketId, provider) = some old)
      (hmoves : Moves 0 (amountAt .agreementPayment old.owner old.escrow +
        amountAt .storageDeposit old.depositor deposit) s.ledger ledger)
      (hcall : call = .removeSlashed bucketId provider ∨
        (∃ action, call = .endAgreement bucketId provider action) ∨
          call = .claimExpiredAgreement bucketId ∧ provider = who) :
      Effect cfg s (.call (.signed who) call)
        { s with
          ledger := ledger
          providers := FiniteMap.modify provider
            (fun info ↦ { info with
              committedBytes := info.committedBytes - old.maxBytes
              stats := stats info.stats }) s.providers
          buckets := if old.role.isPrimary then removePrimaryFromBucket bucketId provider s.buckets
            else s.buckets
          storageAgreements := s.storageAgreements.erase (bucketId, provider)
          events := events }
  | challengeOpened (who : AccountId) (call : Call AccountId) (bucketId : ℕ)
      (provider : AccountId) (bucket : Bucket AccountId) (agreement : StorageAgreement AccountId)
      (commitment : Commitment) (target : ChunkLocation) (challengeId : ChallengeId)
      (challenge : Challenge AccountId) (ledger : Funds AccountId)
      (events : List (Event AccountId))
      (hcall : (call = .challengeCheckpoint bucketId provider target) ∨
        (∃ signature, call = .challengeOffchain bucketId provider commitment target signature) ∨
          call = .challengeReplica bucketId provider target)
      (hbucket : s.buckets.lookup bucketId = some bucket)
      (hagreement : s.storageAgreements.lookup (bucketId, provider) = some agreement)
      (hlive : s.anchorBlock < agreement.expiresAt)
      (hleaf : target.leafIndex < commitment.leafCount)
      (hdeadline : challengeId.deadline = saturatingAdd u32Max s.anchorBlock cfg.challengeTimeout)
      (hindex : challengeId.index = s.nextIndexOf challengeId.deadline)
      (hbound : challengeId.index < cfg.maxChallengesPerDeadline)
      (hchallenge : challenge =
        { bucketId := bucketId, provider := provider, challenger := who, commitment := commitment
          target := target, deposit := cfg.challengeDeposit
          authorized := isAuthorized s who bucketId bucket, createdAt := s.anchorBlock })
      (hmoves : Moves (amountAt .challengeDeposit who challenge.deposit) 0 s.ledger ledger) :
      Effect cfg s (.call (.signed who) call)
        { s with
          ledger := ledger
          challenges := s.challenges.insert challengeId challenge
          nextChallengeIndex := s.nextChallengeIndex.insert challengeId.deadline
            (saturatingAdd u16Max challengeId.index 1)
          pendingChallenges := FiniteMap.alter provider incrementCount s.pendingChallenges
          pendingChallengesByBucket := FiniteMap.alter (bucketId, provider) incrementCount
            s.pendingChallengesByBucket
          events := events }
  | challengeAnswered (who : AccountId) (challengeId : ChallengeId)
      (response : ChallengeResponse AccountId) (challenge : Challenge AccountId)
      (bucket : Bucket AccountId) (paid : ℕ) (ledger : Funds AccountId)
      (hchallenge : s.challenges.lookup challengeId = some challenge)
      (hprovider : challenge.provider = who) (hdeadline : s.anchorBlock ≤ challengeId.deadline)
      (hbucket : s.buckets.lookup challenge.bucketId = some bucket)
      (hresponse : verifyResponse cfg challenge bucket response s.withoutEvents = .ok ())
      (hpaid : paid ≤ challenge.deposit)
      (hmoves : Moves 0 (amountAt .challengeDeposit challenge.challenger
        (min challenge.deposit (s.held .challengeDeposit challenge.challenger))) s.ledger ledger)
      (hsettled : (paid, ledger) = settleChallengeDeposit cfg challenge.challenger
        challenge.provider challenge.deposit (challengerShare challenge.deposit (challengerPercent
          challenge.authorized (s.anchorBlock - challenge.createdAt))) s.ledger) :
      Effect cfg s (.call (.signed who) (.respondToChallenge challengeId response))
        { s with
          ledger := ledger
          providers := FiniteMap.modify who
            (fun info ↦ { info with
              stats := info.stats.challengeDefended challenge.authorized }) s.providers
          challenges := s.challenges.erase challengeId
          pendingChallenges :=
            FiniteMap.alter challenge.provider decrementOrDelete s.pendingChallenges
          pendingChallengesByBucket := FiniteMap.alter (challenge.bucketId, challenge.provider)
            decrementOrDelete s.pendingChallengesByBucket
          events := [.challengeDefended challengeId who (s.anchorBlock - challenge.createdAt) paid
            (challenge.deposit - paid)] }
  | challengeExpired (origin : Origin AccountId) (challengeId : ChallengeId)
      (challenge : Challenge AccountId) (hchallenge : s.challenges.lookup challengeId = some challenge)
      (hexpired : challengeId.deadline < s.anchorBlock) :
      Effect cfg s (.call origin (.resolveExpiredChallenge challengeId))
        (slashProviderForFailedChallenge cfg challenge challengeId
          { s with
            challenges := s.challenges.erase challengeId
            nextChallengeIndex := s.nextChallengeIndex.erase challengeId.deadline
            pendingChallenges :=
              FiniteMap.alter challenge.provider decrementOrDelete s.pendingChallenges
            pendingChallengesByBucket := FiniteMap.alter (challenge.bucketId, challenge.provider)
              decrementOrDelete s.pendingChallengesByBucket
            events := [] })

/-! ### Escrow of a funded state -/

section Escrow

variable {s : State AccountId} {key : ℕ × AccountId} {old new : StorageAgreement AccountId}
  {ledger : Funds AccountId} {paidIn paidOut : ℕ}

theorem maxIssuance_lt : maxIssuance < u128Max := by
  decide

theorem Funded.escrow_le_held (hs : Funded s) (hold : s.storageAgreements.lookup key = some old) :
    old.escrow ≤ s.held .agreementPayment old.owner := by
  have hsum : old.escrow ≤ ownedSum (fun _ agreement ↦ agreement.owner) StorageAgreement.escrow
      s.storageAgreements old.owner := weight_le_ownedSum hold
  exact hsum.trans (hs.covers old.owner)

theorem Funded.held_le (hs : Funded s) (reason : HoldReason) (who : AccountId) :
    s.held reason who ≤ maxIssuance :=
  (Ledger.held_le_total s.ledger reason who).trans hs.total_le

/-- No escrow of a funded state saturates. -/
theorem Funded.escrow_eq (hs : Funded s) (hold : s.storageAgreements.lookup key = some old) :
    old.escrow = old.paymentLocked + old.syncBalance := by
  have hescrow := hs.escrow_le_held hold
  have hheld := hs.held_le .agreementPayment old.owner
  have hbound := maxIssuance_lt
  unfold StorageAgreement.escrow StorageAgreement.syncBalance at *
  cases hrole : old.role with
  | primary => rfl
  | replica syncBalance syncPrice minSyncInterval lastSync =>
    rw [hrole] at hescrow
    simp only [saturatingAdd] at hescrow ⊢
    omega

/-- What an agreement holds after payments in and out of its owner's hold stays within the bound of
the ledger. -/
theorem Funded.escrow_add_le (hs : Funded s) (hold : s.storageAgreements.lookup key = some old)
    (hmoves : Moves (amountAt .agreementPayment old.owner paidIn)
      (amountAt .agreementPayment old.owner paidOut) s.ledger ledger) :
    old.paymentLocked + old.syncBalance + paidIn ≤ maxIssuance + paidOut := by
  have hescrow := hs.escrow_le_held hold
  rw [hs.escrow_eq hold] at hescrow
  have hheld := hmoves.held_add .agreementPayment old.owner
  have hafter := Ledger.held_le_total ledger .agreementPayment old.owner
  rw [hmoves.total_eq] at hafter
  have htotal := hs.total_le
  simp only [Ledger.amountAt_apply, and_self, if_true] at hheld
  unfold State.held at hescrow
  omega

/-- Payments in and out of the owner's hold that an agreement records change its escrow by as
much. -/
theorem Funded.moves_escrow (hs : Funded s) (hold : s.storageAgreements.lookup key = some old)
    (howner : new.owner = old.owner)
    (hrecorded : new.paymentLocked + new.syncBalance + paidOut =
      old.paymentLocked + old.syncBalance + paidIn)
    (hmoves : Moves (amountAt .agreementPayment old.owner paidIn)
      (amountAt .agreementPayment old.owner paidOut) s.ledger ledger) :
    Moves (amountAt .agreementPayment new.owner new.escrow)
      (amountAt .agreementPayment old.owner old.escrow) s.ledger ledger := by
  have hbound := hs.escrow_add_le hold hmoves
  have hmax := maxIssuance_lt
  have hnew : new.escrow = new.paymentLocked + new.syncBalance := Pallet.escrow_eq new (by omega)
  refine ⟨fun reason who ↦ ?_, hmoves.total_eq⟩
  have hheld := hmoves.held_add reason who
  rw [howner, hnew, hs.escrow_eq hold]
  simp only [Ledger.amountAt_apply] at hheld ⊢
  split_ifs at hheld ⊢ with hwho
  · omega
  · omega

end Escrow

/-! ### Sorting the steps -/

section Sorting

variable {cfg : Config AccountId} {s s' : State AccountId} {who : AccountId}

theorem depositsOnly_amountAt (who : AccountId) (amount : ℕ) :
    DepositsOnly (amountAt .storageDeposit who amount) := by
  intro reason other hreason
  simp [Ledger.amountAt_apply, hreason]

omit [DecidableEq AccountId] in
private theorem depositsOnly_zero : DepositsOnly (0 : HoldReason → AccountId → ℕ) :=
  fun _ _ _ ↦ rfl

omit [DecidableEq AccountId] in
theorem DepositsOnly.add {gain gain' : HoldReason → AccountId → ℕ}
    (h : DepositsOnly gain) (h' : DepositsOnly gain') : DepositsOnly (gain + gain') := by
  intro reason other hreason
  simp [h reason other hreason, h' reason other hreason]

/-- The events of the last call play no part in an opening. -/
theorem Opening.ofWithoutEvents {owner provider : AccountId}
    {terms : AgreementTerms AccountId} {signature : MultiSignature} {target : BucketTarget}
    {kind : QuoteKind} {info : ProviderInfo} {agreement : StorageAgreement AccountId}
    {deposits : ℕ} {ledger : Funds AccountId}
    (h : Opening cfg s.withoutEvents owner provider terms signature target kind info agreement
      deposits ledger) :
    Opening cfg s owner provider terms signature target kind info agreement deposits ledger :=
  ⟨h.owner_eq, h.target_eq, h.bytes_pos, h.validUntil_ge, h.validUntil_le, h.target_free,
    h.lookup_info, h.signed, h.nonce_eq, h.active, h.accepting, h.duration_ok, h.minimum_le,
    h.committed_le, h.capacity_le, h.stake_ge, h.role_eq, h.payment_eq, h.agreement_eq, h.moves⟩

/-- A call that changes one provider record without touching money. -/
private theorem effect_providerChanged {call : Call AccountId} {old new : ProviderInfo}
    {events : List (Event AccountId)} (hold : s.providers.lookup who = some old)
    (hcommitted : new.committedBytes = old.committedBytes) (hstake : new.stake = old.stake)
    (hcapacity : new.settings.maxCapacity = old.settings.maxCapacity ∨
      (0 < new.settings.maxCapacity → old.committedBytes ≤ new.settings.maxCapacity))
    (hexit : ExitChange cfg s call old new) (hannounced : ChangeAnnounced who call events)
    (hdurations : old.settings.minDuration ≤ old.settings.maxDuration →
      new.settings.minDuration ≤ new.settings.maxDuration) :
    Effect cfg s (.call (.signed who) call)
      { s with providers := s.providers.insert who new, events := events } := by
  have hmoves : Moves (amountAt .providerStake who 0) 0 s.ledger s.ledger := by
    rw [Ledger.amountAt_zero]
    exact Moves.refl s.ledger
  exact .providerChanged who call old new s.ledger events 0 hold hcommitted hstake hcapacity hmoves
    hexit hannounced hdurations

/-- A call that changes one bucket and neither its members, its primaries nor its snapshot, nor any
money. -/
private theorem effect_bucketChanged {call : Call AccountId} {bucketId : ℕ}
    {old new : Bucket AccountId} {events : List (Event AccountId)}
    (hold : s.buckets.lookup bucketId = some old)
    (hprimaries : new.primaryProviders = old.primaryProviders)
    (hsnapshot : new.snapshot = old.snapshot)
    (hfrozen : new.frozenStartSeq = old.frozenStartSeq ∨
      old.frozenStartSeq = none ∧ call = .freezeBucket bucketId ∧
        ∃ snapshot, old.snapshot = some snapshot ∧
          new.frozenStartSeq = some snapshot.commitment.startSeq)
    (hmembers : new.members = old.members) (hroots : new.historicalRoots = old.historicalRoots) :
    Effect cfg s (.call (.signed who) call)
      { s with buckets := s.buckets.insert bucketId new, events := events } := by
  have hkept : MembersChange who bucketId old s.memberBuckets new.members s.memberBuckets := by
    rw [hmembers]
    exact .kept
  exact .bucketChanged who call bucketId old new s.ledger s.memberBuckets events 0 0 hold hprimaries
    hsnapshot hfrozen depositsOnly_zero depositsOnly_zero (Moves.refl s.ledger) hkept hroots

/-- An amendment that leaves the provider record and the last sync as they are. -/
private theorem effect_amended {call : Call AccountId} {bucketId : ℕ} {provider : AccountId}
    {old new : StorageAgreement AccountId} {ledger : Funds AccountId}
    {events : List (Event AccountId)}
    (hold : s.storageAgreements.lookup (bucketId, provider) = some old)
    (hrole : new.role.isPrimary = old.role.isPrimary) (hbytes : new.maxBytes = old.maxBytes)
    (hsync : new.role.lastSync = old.role.lastSync)
    (hmoves : Moves (amountAt .agreementPayment new.owner new.escrow)
      (amountAt .agreementPayment old.owner old.escrow) s.ledger ledger) :
    Effect cfg s (.call (.signed who) call)
      { s with
        ledger := ledger
        storageAgreements := s.storageAgreements.insert (bucketId, provider) new
        events := events } := by
  have hproviders : FiniteMap.modify provider
      (fun info ↦ { info with stats := id info.stats }) s.providers = s.providers :=
    FiniteMap.modify_of_forall_eq (fun _ ↦ rfl) provider s.providers
  have heffect : Effect cfg s (.call (.signed who) call) _ :=
    .amended who call bucketId provider old new ledger id events hold hrole hbytes hmoves
      (.kept hsync)
  rw [hproviders] at heffect
  exact heffect

/-- A finalized agreement is closed by its whole escrow. -/
private theorem effect_finalized {call : Call AccountId} {bucketId : ℕ} {provider : AccountId}
    {old : StorageAgreement AccountId} {action : EndAction} {isEarly : Bool} (hs : Funded s)
    (hpending : s.pendingByBucketOf bucketId provider = 0)
    (hold : s.storageAgreements.lookup (bucketId, provider) = some old)
    (hcall : call = .removeSlashed bucketId provider ∨
      (∃ action, call = .endAgreement bucketId provider action) ∨
        call = .claimExpiredAgreement bucketId ∧ provider = who)
    (h : finalizeAgreement cfg bucketId provider old action isEarly s.withoutEvents = .ok s') :
    Effect cfg s (.call (.signed who) call) s' := by
  obtain ⟨ledger, deposit, events, hmoves, rfl⟩ := finalizeAgreement_ok h
  rw [← hs.escrow_eq hold] at hmoves
  exact .closed who call bucketId provider old ledger deposit
    (fun stats ↦ (stats.paid (splitPayment action old.paymentLocked).1).agreementClosed
      ((splitPayment action old.paymentLocked).2 > 0)) events hpending hold hmoves hcall

/-- A created challenge, whatever call asked for it. -/
private theorem effect_challengeOpened {call : Call AccountId} {bucketId : ℕ}
    {provider : AccountId} {bucket : Bucket AccountId} {agreement : StorageAgreement AccountId}
    {commitment : Commitment} {target : ChunkLocation} {challengeId : ChallengeId}
    (hcall : (call = .challengeCheckpoint bucketId provider target) ∨
      (∃ signature, call = .challengeOffchain bucketId provider commitment target signature) ∨
        call = .challengeReplica bucketId provider target)
    (hbucket : s.buckets.lookup bucketId = some bucket)
    (hagreement : s.storageAgreements.lookup (bucketId, provider) = some agreement)
    (hlive : s.anchorBlock < agreement.expiresAt)
    (h : createChallenge cfg who bucketId bucket provider agreement.role commitment target
      s.withoutEvents = .ok (challengeId, s')) :
    Effect cfg s (.call (.signed who) call) s' := by
  obtain ⟨ledger, challenge, -, hleaf, hdeadline, hindex, hbound, hmoves, hchallenge, rfl⟩ :=
    createChallenge_ok h
  have hdeposit : challenge.deposit = cfg.challengeDeposit := by rw [hchallenge]
  rw [← hdeposit] at hmoves
  exact .challengeOpened who call bucketId provider bucket agreement commitment target challengeId
    challenge ledger _ hcall hbucket hagreement hlive hleaf hdeadline hindex hbound hchallenge hmoves

private theorem effect_resolved {origin : Origin AccountId} {challengeId : ChallengeId}
    (h : resolveExpiredChallenge cfg challengeId s.withoutEvents = .ok s') :
    Effect cfg s (.call origin (.resolveExpiredChallenge challengeId)) s' := by
  obtain ⟨challenge, hchallenge, hexpired, rfl⟩ := resolveExpiredChallenge_ok h
  exact .challengeExpired origin challengeId challenge hchallenge hexpired

/-- The effect of a call that a signed origin made. Assumes: a funded state. -/
theorem effect_of_dispatchSigned {call : Call AccountId} (hs : Funded s)
    (h : dispatchSigned cfg who call s.withoutEvents = .ok s') :
    Effect cfg s (.call (.signed who) call) s' := by
  cases call with
  | registerProvider multiaddr publicKey stake =>
    obtain ⟨ledger, info, hnew, -, hsettings, hmoves, rfl, rfl⟩ := registerProviderInternal_ok h
    exact .registered who multiaddr publicKey
      ⟨multiaddr, publicKey, stake, 0, .default, .new s.anchorBlock, none,
        cfg.storageDeposit .provider⟩ ledger _ _ hnew rfl
      (fun hlimited ↦ ((validateSettings_ok hsettings).2 hlimited).2.2) rfl hmoves (by simp)
      (validateSettings_ok hsettings).1
  | addStake amount =>
    obtain ⟨old, ledger, hold, hmoves, rfl⟩ := addStake_ok h
    exact .providerChanged who _ old _ ledger _ amount hold rfl rfl (.inl rfl) hmoves (.kept rfl)
      (.stakeAdded amount rfl) id
  | deregisterProvider =>
    obtain ⟨old, completeAfter, hold, hcommitted, -, hafter, rfl⟩ := deregisterProvider_ok h
    exact effect_providerChanged hold rfl rfl (.inl rfl)
      (.announced rfl hcommitted (congrArg some hafter)) (.exitAnnounced completeAfter (by simp))
      id
  | completeDeregister =>
    obtain ⟨old, deregisterAt, deposit, ledger, hold, hat, helapsed, hcommitted, hpending, hmoves,
      rfl⟩ := completeDeregister_ok h
    exact .deregistered who old ledger _ deposit hold hcommitted hpending hmoves
      ⟨deregisterAt, hat, helapsed⟩ (by simp)
  | cancelDeregister =>
    obtain ⟨old, hold, -, rfl⟩ := cancelDeregister_ok h
    exact effect_providerChanged hold rfl rfl (.inl rfl) (.cancelled rfl rfl) (.exitCancelled (by simp))
      id
  | updateProviderSettings settings =>
    obtain ⟨old, hold, -, hsettings, rfl⟩ := updateProviderSettings_ok h
    exact effect_providerChanged hold rfl rfl
      (.inr fun hlimited ↦ ((validateSettings_ok hsettings).2 hlimited).1) (.kept rfl)
      (.settingsUpdated settings (by simp)) fun _ ↦ (validateSettings_ok hsettings).1
  | updateProviderMultiaddr multiaddr =>
    obtain ⟨old, hold, rfl⟩ := updateProviderMultiaddr_ok h
    exact effect_providerChanged hold rfl rfl (.inl rfl) (.kept rfl)
      (.multiaddrUpdated multiaddr (by simp)) id
  | setExtensionsBlocked bucketId blocked =>
    obtain ⟨old, hold, -, rfl⟩ := setExtensionsBlocked_ok h
    exact effect_amended hold rfl rfl rfl (Moves.same _ s.ledger)
  | createBucket minProviders visibility =>
    obtain ⟨ledger, bucket, -, hmoves, hbucket, hs'⟩ := createBucketInternal_ok (createBucket_ok h)
    simp only at hs'
    subst hs'
    exact .bucketCreated who minProviders visibility bucket ledger _ _ _ (by rw [hbucket]; rfl)
      (by rw [hbucket]) (by rw [hbucket])
      ((depositsOnly_amountAt who _).add (depositsOnly_amountAt who _)) hmoves (by rw [hbucket]) rfl
  | deleteBucket bucketId =>
    obtain ⟨bucket, ledger, memberBuckets, loss, hbucket, hagreements, hpending, hloss, hmoves,
      hindex, rfl⟩ := deleteBucket_ok h
    exact .bucketDeleted who bucketId ledger memberBuckets _ loss hagreements hpending hloss hmoves
      ⟨bucket, hbucket, hindex⟩
  | createBucketWithPrimary provider terms signature visibility =>
    obtain ⟨info, agreement, bucket, ledger, deposits, hopening, rfl, rfl⟩ :=
      createBucketWithPrimary_ok h
    exact .opened who _ s.nextBucketId provider terms signature .new .primary info agreement
      deposits ledger _ _ _ _ _ hopening.ofWithoutEvents (.created _ rfl rfl rfl rfl)
      (fun _ ↦ ⟨visibility, rfl⟩) rfl rfl
      (fun _ ↦ ⟨_, Finmap.lookup_insert _, rfl, rfl⟩) fun hold ↦ absurd rfl hold
  | addPrimaryProvider bucketId provider terms signature =>
    obtain ⟨info, agreement, bucket, ledger, deposits, hopening, hbucket, rfl⟩ :=
      addPrimaryProvider_ok h
    exact .opened who _ bucketId provider terms signature (.existing bucketId) .primary info
      agreement deposits ledger _ _ _ _ _ hopening.ofWithoutEvents (.joined bucket hbucket)
      (fun htarget ↦ by cases htarget) rfl rfl (fun htarget ↦ by cases htarget) fun _ ↦ rfl
  | addReplicaProvider bucketId provider terms signature =>
    obtain ⟨info, agreement, ledger, deposits, hopening, rfl⟩ := addReplicaProvider_ok h
    exact .opened who _ bucketId provider terms signature (.existing bucketId) .replica info
      agreement deposits ledger _ _ _ _ _ hopening.ofWithoutEvents .replicated
      (fun htarget ↦ by cases htarget) rfl rfl (fun htarget ↦ by cases htarget) fun _ ↦ rfl
  | setMinProviders bucketId minProviders =>
    obtain ⟨old, hold, rfl⟩ := setMinProviders_ok h
    exact effect_bucketChanged hold rfl rfl (.inl rfl) rfl rfl
  | freezeBucket bucketId =>
    obtain ⟨old, snapshot, hold, hfrozen, hsnapshot, rfl⟩ := freezeBucket_ok h
    exact effect_bucketChanged hold rfl rfl (.inr ⟨hfrozen, rfl, snapshot, hsnapshot, rfl⟩) rfl rfl
  | setBucketVisibility bucketId visibility =>
    obtain ⟨old, hold, rfl⟩ := setBucketVisibility_ok h
    exact effect_bucketChanged hold rfl rfl (.inl rfl) rfl rfl
  | setMember bucketId member role =>
    obtain ⟨old, members, ledger, memberBuckets, amount, hold, hmoves, hmembers, rfl⟩ :=
      setMember_ok h
    exact .bucketChanged who _ bucketId old _ ledger memberBuckets _ _ 0 hold rfl rfl (.inl rfl)
      (depositsOnly_amountAt who amount) depositsOnly_zero hmoves hmembers rfl
  | removeMember bucketId member =>
    obtain ⟨old, members, ledger, memberBuckets, depositor, amount, hold, hmoves, hmembers, rfl⟩ :=
      removeMember_ok h
    exact .bucketChanged who _ bucketId old _ ledger memberBuckets _ 0 _ hold rfl rfl (.inl rfl)
      depositsOnly_zero (depositsOnly_amountAt depositor amount) hmoves hmembers rfl
  | removeSlashed bucketId provider =>
    obtain ⟨info, old, ledger, deposit, events, -, -, hpending, hold, hmoves, rfl⟩ :=
      removeSlashed_ok h
    exact .closed who _ bucketId provider old ledger deposit id events hpending hold hmoves (.inl rfl)
  | endAgreement bucketId provider action =>
    obtain ⟨old, isEarly, hold, hpending, hfinalize⟩ := endAgreement_ok h
    exact effect_finalized hs hpending hold (.inr (.inl ⟨action, rfl⟩)) hfinalize
  | claimExpiredAgreement bucketId =>
    obtain ⟨old, hold, hpending, hfinalize⟩ := claimExpiredAgreement_ok h
    exact effect_finalized hs hpending hold (.inr (.inr ⟨rfl, rfl⟩)) hfinalize
  | topUpAgreement bucketId provider additionalBytes maxPayment =>
    obtain ⟨info, old, payment, ledger, hinfo, hactive, hold, -, -, hmoves, -, rfl⟩ :=
      topUpAgreement_ok h
    rw [← Ledger.amountAt_zero .agreementPayment old.owner] at hmoves
    refine .toppedUp who bucketId provider additionalBytes maxPayment info old _ ledger _ hinfo
      hactive hold ?_ ?_ (hs.moves_escrow hold ?_ ?_ hmoves)
    · rfl
    · rfl
    · rfl
    · simp only [StorageAgreement.syncBalance]
      omega
  | transferAgreementOwnership bucketId provider newOwner =>
    obtain ⟨old, ledger, -, hold, howner, hmoves, rfl⟩ := transferAgreementOwnership_ok h
    rw [← howner] at hmoves
    exact effect_amended hold rfl rfl rfl hmoves
  | extendAgreement bucketId provider additionalDuration maxPayment =>
    obtain ⟨info, old, earned, payment, ledger, role, -, -, hold, -, hearned, hmoves, hrole, rfl⟩ :=
      extendAgreement_ok h
    have hbound := hs.escrow_add_le hold hmoves
    have hmax := maxIssuance_lt
    have hfits : old.paymentLocked - earned + payment ≤ u128Max := by omega
    refine .amended who _ bucketId provider old _ ledger
      (fun stats ↦ (stats.paid earned).agreementExtended) _ hold ?_ ?_
      (hs.moves_escrow hold ?_ ?_ hmoves) (.kept ?_)
    · rcases extendedRole_ok hrole with hsame | ⟨_, _, _, _, _, hold', hnew'⟩
      · rw [hsame]
      · rw [hold', hnew']
        rfl
    · rfl
    · rfl
    · have hsync : StorageAgreement.syncBalance { old with role := role } = old.syncBalance := by
        unfold StorageAgreement.syncBalance
        rcases extendedRole_ok hrole with hsame | ⟨_, _, _, _, _, hold', hnew'⟩
        · rw [hsame]
        · rw [hold', hnew']
      simp only [StorageAgreement.syncBalance, saturatingAdd_of_le hfits] at hsync ⊢
      omega
    · rcases extendedRole_ok hrole with hsame | ⟨_, _, _, _, _, hold', hnew'⟩
      · rw [hsame]
      · rw [hold', hnew']
        rfl
  | checkpoint bucketId commitment signatures =>
    have hok := h
    obtain ⟨old, signed, hold, hpinned, hsigned, -, rfl⟩ := checkpoint_ok h
    exact .checkpointed who bucketId commitment signatures old _ signed.1 signed.2 _ hok hold
      hpinned hsigned rfl rfl rfl rfl
  | extendCheckpoint bucketId signatures =>
    have hok := h
    obtain ⟨old, snapshot, signed, hold, hsnapshot, hsigned, rfl⟩ := extendCheckpoint_ok h
    exact .checkpointExtended who bucketId signatures old _ snapshot signed.1 signed.2 _ hok hold
      hsnapshot hsigned rfl rfl rfl rfl
  | challengeCheckpoint bucketId provider target =>
    obtain ⟨bucket, snapshot, index, agreement, challengeId, hbucket, -, -, -, hagreement, hlive,
      hcreate⟩ := challengeCheckpoint_ok h
    exact effect_challengeOpened (.inl rfl) hbucket hagreement hlive hcreate
  | challengeOffchain bucketId provider commitment target signature =>
    obtain ⟨bucket, agreement, challengeId, hbucket, hagreement, hlive, -, hcreate⟩ :=
      challengeOffchain_ok h
    exact effect_challengeOpened (.inr (.inl ⟨signature, rfl⟩)) hbucket hagreement hlive hcreate
  | challengeReplica bucketId provider target =>
    obtain ⟨bucket, agreement, commitment, challengeId, hbucket, hagreement, hlive, -, hcreate⟩ :=
      challengeReplica_ok h
    exact effect_challengeOpened (.inr (.inr rfl)) hbucket hagreement hlive hcreate
  | respondToChallenge challengeId response =>
    obtain ⟨challenge, bucket, ledger, paid, hchallenge, hprovider, hdeadline, hbucket, hresponse,
      hpaid, hmoves, hsettled, rfl⟩ := respondToChallenge_ok h
    exact .challengeAnswered who challengeId response challenge bucket paid ledger hchallenge
      hprovider hdeadline hbucket hresponse hpaid hmoves hsettled
  | resolveExpiredChallenge challengeId => exact effect_resolved h
  | confirmReplicaSync bucketId roots signature =>
    obtain ⟨bucket, old, ledger, syncBalance, syncPrice, minSyncInterval, lastSync, matched, hbucket,
      hold, hrole, hmatched, hnew, hprice, hmoves, rfl⟩ := confirmReplicaSync_ok h
    rw [← Ledger.amountAt_zero .agreementPayment old.owner] at hmoves
    have hlast : old.role.lastSync = lastSync := by
      rw [hrole]
      rfl
    rw [← hlast] at hnew
    refine .amended who _ bucketId who old _ ledger (fun stats ↦ stats.paid syncPrice) _ hold ?_ ?_
      (hs.moves_escrow hold ?_ ?_ hmoves)
      (.confirmed roots signature bucket matched rfl rfl hbucket hmatched hnew rfl)
    · rw [hrole]
      rfl
    · rfl
    · rfl
    · simp only [StorageAgreement.syncBalance, hrole]
      omega
  | topUpReplicaSyncBalance bucketId provider amount =>
    obtain ⟨old, ledger, syncBalance, syncPrice, minSyncInterval, lastSync, hold, hmoves, hrole,
      rfl⟩ := topUpReplicaSyncBalance_ok h
    rw [← Ledger.amountAt_zero .agreementPayment old.owner] at hmoves
    refine effect_amended hold ?_ ?_ ?_ (hs.moves_escrow hold ?_ ?_ hmoves)
    · rw [hrole]
      rfl
    · rfl
    · rw [hrole]
      rfl
    · rfl
    · simp only [StorageAgreement.syncBalance, hrole]
      omega

/-- The effect of a call from any origin. Assumes: a funded state. -/
theorem effect_of_dispatch {origin : Origin AccountId} {call : Call AccountId} (hs : Funded s)
    (h : dispatch cfg origin call s.withoutEvents = .ok s') :
    Effect cfg s (.call origin call) s' := by
  unfold dispatch at h
  split at h
  · exact effect_of_dispatchSigned hs h
  · exact effect_resolved h
  · cases h

/-- An input outside the pallet that leaves the state as it is. -/
private theorem effect_ignored {input : Input AccountId}
    (hinput : ∀ origin call, input ≠ .call origin call) : Effect cfg s input s :=
  .outside input s.ledger s.agreementNonces hinput (fun _ _ ↦ rfl) id

/-- Every step from a funded state is one of the effects. -/
theorem effect_of_step (hs : Funded s) (input : Input AccountId) :
    Effect cfg s input (step cfg s input) := by
  cases input with
  | call origin call =>
    simp only [step]
    split_ifs with hfits
    · cases hdispatch : dispatch cfg origin call s.withoutEvents with
      | ok after => exact effect_of_dispatch hs hdispatch
      | error error => exact .rejected origin call
    · exact .rejected origin call
  | advance block =>
    simp only [step]
    split_ifs with hblock
    · exact .advanced block hblock.1 hblock.2
    · exact effect_ignored fun _ _ hinput ↦ by cases hinput
  | credit who amount =>
    simp only [step]
    split_ifs with hbound
    · refine .outside _ _ s.agreementNonces (fun _ _ hinput ↦ by cases hinput)
        (fun reason other ↦ ?_) fun _ ↦ ?_
      · exact Ledger.held_addFree s.ledger reason who other amount
      · rw [Ledger.total_addFree]
        exact hbound
    · exact effect_ignored fun _ _ hinput ↦ by cases hinput
  | debit who amount =>
    simp only [step]
    split_ifs with hfree
    · refine .outside _ _ s.agreementNonces (fun _ _ hinput ↦ by cases hinput) (fun reason other ↦ ?_)
        fun htotal ↦ ?_
      · exact Ledger.held_subFree s.ledger reason who other amount
      · have hsub := Ledger.total_subFree hfree
        omega
    · exact effect_ignored fun _ _ hinput ↦ by cases hinput
  | reap who =>
    simp only [step]
    split_ifs with hunheld
    · exact .outside _ s.ledger _ (fun _ _ hinput ↦ by cases hinput) (fun _ _ ↦ rfl) id
    · exact effect_ignored fun _ _ hinput ↦ by cases hinput

end Sorting

end Web3Storage.Pallet
