import Web3Storage.Pallet.Members

/-!
# Buckets

Creation and removal of buckets, and the calls by which an admin edits one. The id of a new bucket
is the value of a counter that saturates at the largest 64-bit number.
-/

set_option autoImplicit false
set_option relaxedAutoImplicit false

namespace Web3Storage.Pallet

open Foundations Primitives

variable {AccountId : Type} [DecidableEq AccountId] (cfg : Config AccountId)

/-- Create a bucket with one admin and, if given, a first primary provider. Returns its id. -/
def createBucketInternal (admin : AccountId) (minProviders : ℕ) (initialPrimary : Option AccountId)
    (visibility : Visibility) (s : State AccountId) :
    Except DispatchError (ℕ × State AccountId) := do
  check (1 ≤ minProviders && minProviders ≤ cfg.maxPrimaryProviders) .invalidMinProviders
  let bucketId := s.nextBucketId
  let memberTicket ← newTicket cfg admin .member s.ledger
  check (0 < cfg.maxMembers) .maxMembersReached
  check (initialPrimary.isNone || 0 < cfg.maxPrimaryProviders) .maxPrimaryProvidersReached
  let bucketTicket ← newTicket cfg admin .bucket memberTicket.2
  let bucket : Bucket AccountId :=
    { members := [⟨admin, .admin, admin, memberTicket.1⟩]
      visibility := visibility
      frozenStartSeq := none
      minProviders := minProviders
      primaryProviders := initialPrimary.toList
      snapshot := none
      historicalRoots := fun _ ↦ (0, Commitment.default)
      totalSnapshots := 0
      creator := admin
      deposit := bucketTicket.1 }
  let indexed := bucketsOf s.memberBuckets admin
  check (indexed.length < cfg.maxBucketsPerMember) .tooManyBucketsForMember
  return (bucketId, { s with
    ledger := bucketTicket.2
    nextBucketId := saturatingAdd u64Max bucketId 1
    buckets := s.buckets.insert bucketId bucket
    memberBuckets := s.memberBuckets.insert admin (indexed ++ [bucketId])
    events := s.events ++ [.bucketCreated bucketId admin] })

def createBucket (who : AccountId) (minProviders : ℕ) (visibility : Visibility)
    (s : State AccountId) : Except DispatchError (State AccountId) := do
  let created ← createBucketInternal cfg who minProviders none visibility s
  return created.2

/-- Release the deposit of every member and clear their reverse index entries. -/
def releaseMembers (bucketId : ℕ) : List (Member AccountId) → Funds AccountId →
    FiniteMap AccountId (List ℕ) →
      Except DispatchError (Funds AccountId × FiniteMap AccountId (List ℕ))
  | [], ledger, memberBuckets => .ok (ledger, memberBuckets)
  | member :: rest, ledger, memberBuckets => do
    let dropped ← dropTicket member.depositor member.deposit ledger
    releaseMembers bucketId rest dropped
      (removeFromMemberIndex member.account bucketId memberBuckets)

/-- Remove a bucket that has no agreements left. -/
def removeBucketInternal (bucketId : ℕ) (bucket : Bucket AccountId) (s : State AccountId) :
    Except DispatchError (State AccountId) := do
  let released ← releaseMembers bucketId bucket.members s.ledger s.memberBuckets
  let ledger ← dropTicket bucket.creator bucket.deposit released.1
  return { s with
    ledger := ledger
    buckets := s.buckets.erase bucketId
    memberBuckets := released.2
    events := s.events ++ [.bucketDeleted bucketId] }

def ensureNoPendingChallenge (bucketId : ℕ) (s : State AccountId) : Except DispatchError Unit :=
  check (!FiniteMap.anyEntry (fun key _ ↦ key.1 = bucketId) s.pendingChallengesByBucket)
    .bucketHasPendingChallenge

def deleteBucket (who : AccountId) (bucketId : ℕ) (s : State AccountId) :
    Except DispatchError (State AccountId) := do
  let bucket ← fetch (s.buckets.lookup bucketId) .bucketNotFound
  ensureAdmin who bucket
  check (!FiniteMap.anyEntry (fun key _ ↦ key.1 = bucketId) s.storageAgreements) .bucketNotEmpty
  ensureNoPendingChallenge bucketId s
  removeBucketInternal bucketId bucket s

def setMinProviders (who : AccountId) (bucketId minProviders : ℕ) (s : State AccountId) :
    Except DispatchError (State AccountId) := do
  let bucket ← fetch (s.buckets.lookup bucketId) .bucketNotFound
  ensureAdmin who bucket
  check (1 ≤ minProviders && minProviders ≤ bucket.primaryProviders.length) .invalidMinProviders
  return { s with
    buckets := s.buckets.insert bucketId { bucket with minProviders := minProviders } }

/-- The number of set bits of a signer bitfield. -/
def countOnes (bits : List Bool) : ℕ := bits.count true

/-- Make a bucket append-only from its current snapshot on. -/
def freezeBucket (who : AccountId) (bucketId : ℕ) (s : State AccountId) :
    Except DispatchError (State AccountId) := do
  let bucket ← fetch (s.buckets.lookup bucketId) .bucketNotFound
  ensureAdmin who bucket
  check bucket.frozenStartSeq.isNone .bucketFrozen
  let snapshot ← fetch bucket.snapshot .noSnapshot
  check (countOnes snapshot.primarySigners ≥ max bucket.minProviders 1) .minProvidersNotMet
  return { s with
    buckets := s.buckets.insert bucketId
      { bucket with frozenStartSeq := some snapshot.commitment.startSeq }
    events := s.events ++ [.bucketFrozen bucketId snapshot.commitment.startSeq] }

def setBucketVisibility (who : AccountId) (bucketId : ℕ) (visibility : Visibility)
    (s : State AccountId) : Except DispatchError (State AccountId) := do
  let bucket ← fetch (s.buckets.lookup bucketId) .bucketNotFound
  ensureAdmin who bucket
  return { s with
    buckets := s.buckets.insert bucketId { bucket with visibility := visibility }
    events := s.events ++ [.bucketVisibilityChanged bucketId visibility] }

/-! ### What the calls do -/

section Specification

open Ledger (Moves amountAt held)

variable {cfg} {who admin : AccountId} {bucketId minProviders : ℕ} {visibility : Visibility}
  {initialPrimary : Option AccountId} {bucket : Bucket AccountId} {s s' : State AccountId}

theorem createBucketInternal_ok {created : ℕ × State AccountId}
    (h : createBucketInternal cfg admin minProviders initialPrimary visibility s = .ok created) :
    ∃ ledger bucket, created.1 = s.nextBucketId ∧
      Moves (amountAt .storageDeposit admin (cfg.storageDeposit .member) +
        amountAt .storageDeposit admin (cfg.storageDeposit .bucket)) 0 s.ledger ledger ∧
        bucket = { members := [⟨admin, .admin, admin, cfg.storageDeposit .member⟩]
                   visibility := visibility
                   frozenStartSeq := none
                   minProviders := minProviders
                   primaryProviders := initialPrimary.toList
                   snapshot := none
                   historicalRoots := fun _ ↦ (0, Commitment.default)
                   totalSnapshots := 0
                   creator := admin
                   deposit := cfg.storageDeposit .bucket } ∧
          created.2 = { s with
            ledger := ledger
            nextBucketId := saturatingAdd u64Max s.nextBucketId 1
            buckets := s.buckets.insert s.nextBucketId bucket
            memberBuckets := s.memberBuckets.insert admin
              (bucketsOf s.memberBuckets admin ++ [s.nextBucketId])
            events := s.events ++ [.bucketCreated s.nextBucketId admin] } := by
  simp only [createBucketInternal, bind_eq_ok, pure_eq_ok] at h
  obtain ⟨-, -, memberTicket, hmember, -, -, -, -, bucketTicket, hbucket, -, -, rfl⟩ := h
  obtain ⟨hmemberAmount, hmemberMoves⟩ := newTicket_moves hmember
  obtain ⟨hbucketAmount, hbucketMoves⟩ := newTicket_moves hbucket
  refine ⟨bucketTicket.2, _, rfl, hmemberMoves.trans hbucketMoves, rfl, ?_⟩
  rw [hmemberAmount, hbucketAmount]

theorem createBucket_ok (h : createBucket cfg who minProviders visibility s = .ok s') :
    createBucketInternal cfg who minProviders none visibility s = .ok (s.nextBucketId, s') := by
  simp only [createBucket, bind_eq_ok, pure_eq_ok] at h
  obtain ⟨created, hcreated, rfl⟩ := h
  obtain ⟨ledger, bucket, hid, -⟩ := createBucketInternal_ok hcreated
  rw [hcreated, ← hid]

/-- Releasing members moves storage deposits only, and takes the bucket from the index of each. -/
theorem releaseMembers_ok {members : List (Member AccountId)} {ledger : Funds AccountId}
    {memberBuckets : FiniteMap AccountId (List ℕ)}
    {released : Funds AccountId × FiniteMap AccountId (List ℕ)}
    (h : releaseMembers bucketId members ledger memberBuckets = .ok released) :
    ∃ loss, (∀ reason who, reason ≠ HoldReason.storageDeposit → loss reason who = 0) ∧
      Moves 0 loss ledger released.1 ∧
        released.2 = members.foldl
          (fun index m ↦ removeFromMemberIndex m.account bucketId index) memberBuckets := by
  induction members generalizing ledger memberBuckets with
  | nil =>
    cases h
    exact ⟨0, fun _ _ _ ↦ rfl, Moves.refl ledger, rfl⟩
  | cons member rest ih =>
    simp only [releaseMembers, bind_eq_ok] at h
    obtain ⟨dropped, hdropped, hrest⟩ := h
    obtain ⟨loss, hloss, hmoves, hindex⟩ := ih hrest
    refine ⟨_, fun reason who hreason ↦ ?_, (dropTicket_moves hdropped).trans hmoves, hindex⟩
    simp [Ledger.amountAt_apply, hreason, hloss reason who hreason]

theorem deleteBucket_ok (h : deleteBucket who bucketId s = .ok s') :
    ∃ bucket ledger memberBuckets loss, s.buckets.lookup bucketId = some bucket ∧
      (∀ provider, s.storageAgreements.lookup (bucketId, provider) = none) ∧
        (∀ provider, s.pendingChallengesByBucket.lookup (bucketId, provider) = none) ∧
          (∀ reason who, reason ≠ HoldReason.storageDeposit → loss reason who = 0) ∧
            Moves 0 loss s.ledger ledger ∧
              memberBuckets = bucket.members.foldl
                (fun index m ↦ removeFromMemberIndex m.account bucketId index) s.memberBuckets ∧
              s' = { s with
                ledger := ledger
                buckets := s.buckets.erase bucketId
                memberBuckets := memberBuckets
                events := s.events ++ [.bucketDeleted bucketId] } := by
  simp only [deleteBucket, ensureNoPendingChallenge, removeBucketInternal, bind_eq_ok, pure_eq_ok,
    fetch_eq_ok, check_eq_ok] at h
  obtain ⟨bucket, hbucket, -, -, -, hagreements, -, hpending, released, hreleased, ledger, hledger,
    rfl⟩ := h
  obtain ⟨loss, hloss, hmoves, hindex⟩ := releaseMembers_ok hreleased
  refine ⟨bucket, ledger, released.2, _, hbucket, fun provider ↦ ?_, fun provider ↦ ?_,
    fun reason who hreason ↦ ?_, hmoves.trans (dropTicket_moves hledger), hindex, rfl⟩
  · exact FiniteMap.lookup_eq_none_of_anyEntry (by simpa using hagreements) fun _ ↦ by simp
  · exact FiniteMap.lookup_eq_none_of_anyEntry (by simpa using hpending) fun _ ↦ by simp
  · simp [Ledger.amountAt_apply, hreason, hloss reason who hreason]

theorem setMinProviders_ok (h : setMinProviders who bucketId minProviders s = .ok s') :
    ∃ bucket, s.buckets.lookup bucketId = some bucket ∧
      s' = { s with
        buckets := s.buckets.insert bucketId { bucket with minProviders := minProviders } } := by
  simp only [setMinProviders, bind_eq_ok, pure_eq_ok, fetch_eq_ok] at h
  obtain ⟨bucket, hbucket, -, -, -, -, rfl⟩ := h
  exact ⟨bucket, hbucket, rfl⟩

theorem freezeBucket_ok (h : freezeBucket who bucketId s = .ok s') :
    ∃ bucket snapshot, s.buckets.lookup bucketId = some bucket ∧
      bucket.frozenStartSeq = none ∧ bucket.snapshot = some snapshot ∧
        s' = { s with
          buckets := s.buckets.insert bucketId
            { bucket with frozenStartSeq := some snapshot.commitment.startSeq }
          events := s.events ++ [.bucketFrozen bucketId snapshot.commitment.startSeq] } := by
  simp only [freezeBucket, bind_eq_ok, pure_eq_ok, fetch_eq_ok, check_eq_ok] at h
  obtain ⟨bucket, hbucket, -, -, -, hfrozen, snapshot, hsnapshot, -, -, rfl⟩ := h
  exact ⟨bucket, snapshot, hbucket, by simpa using hfrozen, hsnapshot, rfl⟩

theorem setBucketVisibility_ok (h : setBucketVisibility who bucketId visibility s = .ok s') :
    ∃ bucket, s.buckets.lookup bucketId = some bucket ∧
      s' = { s with
        buckets := s.buckets.insert bucketId { bucket with visibility := visibility }
        events := s.events ++ [.bucketVisibilityChanged bucketId visibility] } := by
  simp only [setBucketVisibility, bind_eq_ok, pure_eq_ok, fetch_eq_ok] at h
  obtain ⟨bucket, hbucket, -, -, rfl⟩ := h
  exact ⟨bucket, hbucket, rfl⟩

end Specification

end Web3Storage.Pallet
