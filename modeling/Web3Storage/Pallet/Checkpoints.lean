import Web3Storage.Pallet.Agreements

/-!
# Checkpoints and replica syncs

A checkpoint makes a commitment that primaries signed the canonical state of a bucket and keeps one
bit for each primary. A replica confirms that it holds a recent root and is paid for it.
-/

set_option autoImplicit false
set_option relaxedAutoImplicit false

namespace Web3Storage.Pallet

open Foundations Primitives

variable {AccountId : Type} [DecidableEq AccountId] (cfg : Config AccountId)

/-! ### Historical roots -/

/-- Record a commitment at each place whose window has moved since it was last written. -/
def updateHistoricalRoots (roots : Fin 6 → ℕ × Commitment) (anchorBlock : ℕ)
    (commitment : Commitment) : Fin 6 → ℕ × Commitment :=
  let blockNum := if anchorBlock ≤ u32Max then anchorBlock else 0
  fun i ↦
    let quotient := blockNum / historicalRootPrimes i
    if quotient ≠ (roots i).1 then (quotient, commitment) else roots i

/-- The commitment a replica sync matched, with its position: 0 is the current snapshot and `p + 1`
the place `p` of the recorded history. A zero root is a place no checkpoint has written yet. -/
def findMatchingRoot (bucket : Bucket AccountId) (roots : Fin 7 → Option H256) :
    Except DispatchError (ℕ × Commitment) :=
  let current : Option (ℕ × Commitment) := do
    let snapshot ← bucket.snapshot
    let root ← roots 0
    if snapshot.commitment.mmrRoot = root then some (0, snapshot.commitment) else none
  let historical : Option (ℕ × Commitment) :=
    (List.finRange 6).findSome? fun i ↦
      let entry := (bucket.historicalRoots i).2
      if entry.mmrRoot ≠ H256.zero ∧ roots i.succ = some entry.mmrRoot then
        some (i.val + 1, entry)
      else none
  fetch (current.or historical) .invalidSyncRoot

/-! ### Checkpoints -/

/-- Verify signatures and set the bit of every signer. Returns the bits and the signers in the order
in which their bit was first set. -/
def collectSigners (registry : FiniteMap AccountId ProviderInfo) (payload : Bytes)
    (primaries : List AccountId) : List (AccountId × MultiSignature) → List Bool →
      List AccountId → Except DispatchError (List Bool × List AccountId)
  | [], bits, signers => .ok (bits, signers)
  | (signer, signature) :: rest, bits, signers => do
    let index ← fetch (primaries.findIdx? fun p ↦ p = signer) .providerNotInSnapshot
    verifySignature cfg registry signature payload signer
    let alreadySigned ← fetch bits[index]? .providerNotInSnapshot
    collectSigners registry payload primaries rest (bits.set index true)
      (if alreadySigned then signers else signers ++ [signer])

/-- Make a signed commitment the canonical state of a bucket. -/
def checkpoint (who : AccountId) (bucketId : ℕ) (commitment : Commitment)
    (signatures : List (AccountId × MultiSignature)) (s : State AccountId) :
    Except DispatchError (State AccountId) := do
  let bucket ← fetch (s.buckets.lookup bucketId) .bucketNotFound
  ensureWriterOrAdmin who bucket
  check (bucket.frozenStartSeq.all fun frozenStart ↦ commitment.startSeq = frozenStart)
    .snapshotViolatesFrozen
  let signed ← collectSigners cfg s.providers (CommitmentPayload.new bucketId commitment).encode
    bucket.primaryProviders signatures (List.replicate bucket.primaryProviders.length false) []
  check (countOnes signed.1 ≥ max bucket.minProviders 1) .insufficientSignatures
  return { s with
    buckets := s.buckets.insert bucketId
      { bucket with
        snapshot := some ⟨commitment, s.anchorBlock, signed.1⟩
        historicalRoots := updateHistoricalRoots bucket.historicalRoots s.anchorBlock commitment
        totalSnapshots := saturatingAdd u32Max bucket.totalSnapshots 1 }
    events := s.events ++ [.bucketCheckpointed bucketId commitment signed.2] }

/-- Verify late signatures and set the bits of their signers. A signer whose bit is set is skipped
without verification. -/
def collectLateSigners (registry : FiniteMap AccountId ProviderInfo) (payload : Bytes)
    (primaries : List AccountId) : List (AccountId × MultiSignature) → List Bool →
      List AccountId → Except DispatchError (List Bool × List AccountId)
  | [], bits, added => .ok (bits, added)
  | (signer, signature) :: rest, bits, added => do
    let index ← fetch (primaries.findIdx? fun p ↦ p = signer) .providerNotInSnapshot
    let signed ← fetch bits[index]? .providerNotInSnapshot
    if signed then collectLateSigners registry payload primaries rest bits added
    else do
      verifySignature cfg registry signature payload signer
      collectLateSigners registry payload primaries rest (bits.set index true) (added ++ [signer])

/-- Add late signatures to the current snapshot of a bucket. -/
def extendCheckpoint (who : AccountId) (bucketId : ℕ)
    (additionalSignatures : List (AccountId × MultiSignature)) (s : State AccountId) :
    Except DispatchError (State AccountId) := do
  let bucket ← fetch (s.buckets.lookup bucketId) .bucketNotFound
  ensureWriterOrAdmin who bucket
  let snapshot ← fetch bucket.snapshot .noSnapshot
  let signed ← collectLateSigners cfg s.providers
    (CommitmentPayload.new bucketId snapshot.commitment).encode bucket.primaryProviders
    additionalSignatures snapshot.primarySigners []
  return { s with
    buckets := s.buckets.insert bucketId
      { bucket with snapshot := some { snapshot with primarySigners := signed.1 } }
    events := s.events ++ [.bucketCheckpointed bucketId snapshot.commitment signed.2] }

/-! ### Replica syncs -/

/-- The encoding of the roots a replica attests. -/
def encodeRoots (roots : Fin 7 → Option H256) : Bytes :=
  (List.ofFn roots).flatMap (encodeOption H256.bytes)

/-- Confirm a sync of the calling replica and pay it from its sync balance. -/
def confirmReplicaSync (who : AccountId) (bucketId : ℕ) (roots : Fin 7 → Option H256)
    (signature : MultiSignature) (s : State AccountId) :
    Except DispatchError (State AccountId) := do
  verifySignature cfg s.providers signature (encodeRoots roots) who
  let bucket ← fetch (s.buckets.lookup bucketId) .bucketNotFound
  let agreement ← fetch (s.storageAgreements.lookup (bucketId, who)) .agreementNotFound
  match agreement.role with
  | .primary => .error (.pallet .notReplica)
  | .replica syncBalance syncPrice minSyncInterval lastSync => do
    check (s.anchorBlock < agreement.expiresAt) .agreementExpired
    check (lastSync.all fun record ↦
      saturatingAdd u32Max record.block minSyncInterval ≤ s.anchorBlock) .syncTooFrequent
    let matched ← findMatchingRoot bucket roots
    check (lastSync.all fun record ↦ matched.2.mmrRoot ≠ record.commitment.mmrRoot)
      .invalidSyncRoot
    check (syncPrice ≤ syncBalance) .insufficientSyncBalance
    let ledger ← settlePayment cfg agreement.owner who syncPrice s.ledger
    return { s with
      ledger := ledger
      providers := FiniteMap.modify who
        (fun info ↦ { info with stats := info.stats.paid syncPrice }) s.providers
      storageAgreements := s.storageAgreements.insert (bucketId, who)
        { agreement with
          role := .replica (syncBalance - syncPrice) syncPrice minSyncInterval
            (some ⟨matched.2, s.anchorBlock⟩) }
      events := s.events ++
        [.replicaSynced bucketId who matched.2.mmrRoot matched.1 syncPrice] }

/-! ### What the calls do -/

section Specification

open Ledger (Moves amountAt held)

variable {cfg} {who : AccountId} {bucketId : ℕ} {commitment : Commitment}
  {signatures : List (AccountId × MultiSignature)} {s s' : State AccountId}

theorem checkpoint_ok (h : checkpoint cfg who bucketId commitment signatures s = .ok s') :
    ∃ bucket signed, s.buckets.lookup bucketId = some bucket ∧
      (∀ frozenStart, bucket.frozenStartSeq = some frozenStart →
        commitment.startSeq = frozenStart) ∧
        collectSigners cfg s.providers (CommitmentPayload.new bucketId commitment).encode
          bucket.primaryProviders signatures
            (List.replicate bucket.primaryProviders.length false) [] = .ok signed ∧
          max bucket.minProviders 1 ≤ countOnes signed.1 ∧
            s' = { s with
              buckets := s.buckets.insert bucketId
                { bucket with
                  snapshot := some ⟨commitment, s.anchorBlock, signed.1⟩
                  historicalRoots :=
                    updateHistoricalRoots bucket.historicalRoots s.anchorBlock commitment
                  totalSnapshots := saturatingAdd u32Max bucket.totalSnapshots 1 }
              events := s.events ++ [.bucketCheckpointed bucketId commitment signed.2] } := by
  simp only [checkpoint, bind_eq_ok, pure_eq_ok, fetch_eq_ok, check_eq_ok, decide_eq_true_eq] at h
  obtain ⟨bucket, hbucket, -, -, -, hfrozen, signed, hsigned, -, hcount, rfl⟩ := h
  refine ⟨bucket, signed, hbucket, fun frozenStart hstart ↦ ?_, hsigned, hcount, rfl⟩
  rw [hstart] at hfrozen
  simpa using hfrozen

theorem extendCheckpoint_ok (h : extendCheckpoint cfg who bucketId signatures s = .ok s') :
    ∃ bucket snapshot signed, s.buckets.lookup bucketId = some bucket ∧
      bucket.snapshot = some snapshot ∧
        collectLateSigners cfg s.providers
          (CommitmentPayload.new bucketId snapshot.commitment).encode bucket.primaryProviders
            signatures snapshot.primarySigners [] = .ok signed ∧
          s' = { s with
            buckets := s.buckets.insert bucketId
              { bucket with snapshot := some { snapshot with primarySigners := signed.1 } }
            events := s.events ++
              [.bucketCheckpointed bucketId snapshot.commitment signed.2] } := by
  simp only [extendCheckpoint, bind_eq_ok, pure_eq_ok, fetch_eq_ok] at h
  obtain ⟨bucket, hbucket, -, -, snapshot, hsnapshot, signed, hsigned, rfl⟩ := h
  exact ⟨bucket, snapshot, signed, hbucket, hsnapshot, hsigned, rfl⟩

theorem confirmReplicaSync_ok {roots : Fin 7 → Option H256} {signature : MultiSignature}
    (h : confirmReplicaSync cfg who bucketId roots signature s = .ok s') :
    ∃ bucket agreement ledger syncBalance syncPrice minSyncInterval lastSync matched,
      s.buckets.lookup bucketId = some bucket ∧
        s.storageAgreements.lookup (bucketId, who) = some agreement ∧
          agreement.role = .replica syncBalance syncPrice minSyncInterval lastSync ∧
            findMatchingRoot bucket roots = .ok matched ∧
            (∀ record, lastSync = some record →
              matched.2.mmrRoot ≠ record.commitment.mmrRoot) ∧ syncPrice ≤ syncBalance ∧
              Moves 0 (amountAt .agreementPayment agreement.owner syncPrice) s.ledger ledger ∧
                s' = { s with
                  ledger := ledger
                  providers := FiniteMap.modify who
                    (fun info ↦ { info with stats := info.stats.paid syncPrice }) s.providers
                  storageAgreements := s.storageAgreements.insert (bucketId, who)
                    { agreement with
                      role := .replica (syncBalance - syncPrice) syncPrice minSyncInterval
                        (some ⟨matched.2, s.anchorBlock⟩) }
                  events := s.events ++ [.replicaSynced bucketId who matched.2.mmrRoot matched.1
                    syncPrice] } := by
  simp only [confirmReplicaSync, bind_eq_ok, fetch_eq_ok] at h
  obtain ⟨-, -, bucket, hbucket, agreement, hagreement, h⟩ := h
  cases hrole : agreement.role with
  | primary =>
    rw [hrole] at h
    cases h
  | replica syncBalance syncPrice minSyncInterval lastSync =>
    rw [hrole] at h
    simp only [bind_eq_ok, pure_eq_ok, check_eq_ok, decide_eq_true_eq] at h
    obtain ⟨-, -, -, -, matched, hmatched, -, hnew, -, hprice, ledger, hledger, rfl⟩ := h
    refine ⟨bucket, agreement, ledger, syncBalance, syncPrice, minSyncInterval, lastSync, matched,
      hbucket, hagreement, hrole, hmatched, fun record hrecord ↦ ?_, hprice,
      settlePayment_moves hledger, rfl⟩
    rw [hrecord] at hnew
    simpa using hnew

end Specification

end Web3Storage.Pallet
