import Web3Storage.Pallet.Membership
import Web3Storage.Pallet.OpenChallenges

/-!
# No empty entries

A counter of open challenges is deleted when it reaches zero, and the list of an account's buckets when its
last bucket goes: no reachable state stores a zero or an empty list (`no_empty_entries`), whether or not a
counter has saturated. A leftover counter would keep its bucket from being deleted; so the deletion of a
bucket asks for no more than that no challenge is counted on it.
-/

set_option autoImplicit false
set_option relaxedAutoImplicit false

namespace Web3Storage.Pallet

open Foundations Primitives

variable {AccountId : Type} [DecidableEq AccountId] {cfg : Config AccountId}
  {s s' : State AccountId} {input : Input AccountId}

/-! ### Counters and lists -/

theorem incrementCount_ne_zero (count : Option ℕ) : incrementCount count ≠ some 0 := by
  unfold incrementCount saturatingAdd
  have hlast : 0 < u32Max := by decide
  rw [Ne, Option.some.injEq]
  omega

theorem decrementOrDelete_ne_zero (count : Option ℕ) : decrementOrDelete count ≠ some 0 := by
  intro hzero
  unfold decrementOrDelete at hzero
  rw [Option.filter_eq_some_iff] at hzero
  exact absurd (of_decide_eq_true hzero.2) (lt_irrefl 0)

/-- A member index without empty lists stays so when a bucket leaves it. -/
theorem omits_removeFromMemberIndex {index : FiniteMap AccountId (List ℕ)} (h : Omits [] index)
    (member : AccountId) (bucketId : ℕ) : Omits [] (removeFromMemberIndex member bucketId index) := by
  rw [removeFromMemberIndex_eq]
  exact h.dropEntry member bucketId

theorem MembersChange.omits {who : AccountId} {bucketId : ℕ} {old : Bucket AccountId}
    {index index' : FiniteMap AccountId (List ℕ)} {members : List (Member AccountId)}
    (h : MembersChange who bucketId old index members index') (hindex : Omits [] index) :
    Omits [] index' := by
  cases h with
  | kept => exact hindex
  | roleSet member role place hplace hadmin => exact hindex
  | added member role deposit hplace =>
    refine hindex.insert ?_
    split_ifs with hlisted
    · exact List.ne_nil_of_mem hlisted
    · exact List.append_ne_nil_of_right_ne_nil _ (List.cons_ne_nil _ _)
  | removed member place hplace hadmin => exact omits_removeFromMemberIndex hindex member bucketId

/-! ### Every run -/

/-- No counter of open challenges is stored at zero, and no account has an empty list of buckets. -/
structure NoEmptyEntries (s : State AccountId) : Prop where
  pending : Omits 0 s.pendingChallenges
  pendingByBucket : Omits 0 s.pendingChallengesByBucket
  memberBuckets : Omits [] s.memberBuckets

theorem slashProvider_memberBuckets (challenge : Challenge AccountId) (challengeId : ChallengeId)
    (s : State AccountId) :
    (slashProviderForFailedChallenge cfg challenge challengeId s).memberBuckets = s.memberBuckets := by
  unfold slashProviderForFailedChallenge
  split
  · rfl
  · rfl

/-- Every effect keeps the counters and lists nonempty. -/
theorem Effect.noEmptyEntries (h : Effect cfg s input s') (hs : NoEmptyEntries s) : NoEmptyEntries s' := by
  obtain ⟨hpending, hpendingByBucket, hindex⟩ := hs
  cases h with
  | rejected | advanced | outside | registered | providerChanged | deregistered | checkpointed
  | checkpointExtended | toppedUp | amended | closed => exact ⟨hpending, hpendingByBucket, hindex⟩
  | bucketCreated who minProviders visibility bucket ledger memberBuckets events gain hprimaries
      hsnapshot hfrozen hgain hmoves hmembers hlisted =>
    subst hlisted
    exact ⟨hpending, hpendingByBucket,
      hindex.insert (List.append_ne_nil_of_right_ne_nil _ (List.cons_ne_nil _ _))⟩
  | bucketDeleted who bucketId ledger memberBuckets events loss hagreements hnone hloss hmoves
      hremoved =>
    obtain ⟨bucket, -, rfl⟩ := hremoved
    refine ⟨hpending, hpendingByBucket, ?_⟩
    exact List.foldlRecOn bucket.members _ hindex
      fun index hleft m _ ↦ omits_removeFromMemberIndex hleft m.account bucketId
  | bucketChanged who call bucketId old new ledger memberBuckets events gain loss hold hprimaries
      hsnapshot hfrozen hgain hloss hmoves hmembers =>
    exact ⟨hpending, hpendingByBucket, hmembers.omits hindex⟩
  | opened owner call bucketId provider terms signature target kind info agreement deposits ledger
      buckets nextBucketId nonces memberBuckets events hopening hbuckets hcall hredemption hnonces
      hmembers hkept =>
    refine ⟨hpending, hpendingByBucket, ?_⟩
    by_cases hnew : target = .new
    · obtain ⟨bucket, -, -, rfl⟩ := hmembers hnew
      exact hindex.insert (List.append_ne_nil_of_right_ne_nil _ (List.cons_ne_nil _ _))
    · rw [hkept hnew]
      exact hindex
  | challengeOpened =>
    exact ⟨hpending.alter incrementCount_ne_zero, hpendingByBucket.alter incrementCount_ne_zero, hindex⟩
  | challengeAnswered =>
    exact ⟨hpending.alter decrementOrDelete_ne_zero, hpendingByBucket.alter decrementOrDelete_ne_zero,
      hindex⟩
  | challengeExpired origin challengeId challenge hchallenge hexpired =>
    refine ⟨?_, ?_, ?_⟩
    · rw [(slashProvider_counters challenge challengeId _).1]
      exact hpending.alter decrementOrDelete_ne_zero
    · rw [(slashProvider_counters challenge challengeId _).2]
      exact hpendingByBucket.alter decrementOrDelete_ne_zero
    · rw [slashProvider_memberBuckets]
      exact hindex

theorem Genesis.noEmptyEntries (genesis : Genesis cfg) : NoEmptyEntries genesis.state :=
  genesis.induction NoEmptyEntries ⟨omits_empty, omits_empty, omits_empty⟩
    (fun _ _ _ _ _ _ _ hs _ h ↦ h.noEmptyEntries hs) (fun _ _ _ _ _ _ _ _ hs _ _ h ↦ h.noEmptyEntries hs)

/-- Without empty entries, the deletion of a bucket is open exactly when no challenge is counted on it. -/
theorem NoEmptyEntries.ensureNoPendingChallenge_iff (hs : NoEmptyEntries s) (bucketId : ℕ) :
    ensureNoPendingChallenge bucketId s = .ok () ↔ ∀ provider, s.pendingByBucketOf bucketId provider = 0 := by
  rw [ensureNoPendingChallenge, check_eq_ok, Bool.not_eq_true', ← Bool.not_eq_true, FiniteMap.anyEntry_iff]
  constructor
  · intro hnone provider
    rw [State.pendingByBucketOf]
    cases hentry : s.pendingChallengesByBucket.lookup (bucketId, provider) with
    | none => rfl
    | some count => exact absurd ⟨_, _, hentry, decide_eq_true rfl⟩ hnone
  · rintro hzero ⟨⟨id, provider⟩, count, hentry, hid⟩
    obtain rfl : id = bucketId := of_decide_eq_true hid
    have hcount := hzero provider
    rw [State.pendingByBucketOf, hentry, Option.getD_some] at hcount
    exact hs.pendingByBucket (id, provider) (hcount ▸ hentry)

/-- **No empty entries.** In every reachable state no counter of open challenges is stored at zero and no
account has an empty list of buckets, so that the check for pending challenges lets a bucket be deleted
exactly when its counters are all zero. -/
theorem no_empty_entries (genesis : Genesis cfg) (inputs : List (Input AccountId)) :
    NoEmptyEntries (run (step cfg) genesis.state inputs) ∧
      ∀ bucketId, ensureNoPendingChallenge bucketId (run (step cfg) genesis.state inputs) = .ok () ↔
        ∀ provider, (run (step cfg) genesis.state inputs).pendingByBucketOf bucketId provider = 0 := by
  have hrun : NoEmptyEntries (run (step cfg) genesis.state inputs) :=
    genesis.invariant_of_effect NoEmptyEntries genesis.noEmptyEntries
      (fun _ _ _ _ hs h ↦ h.noEmptyEntries hs) inputs
  exact ⟨hrun, hrun.ensureNoPendingChallenge_iff⟩

end Web3Storage.Pallet
