import Web3Storage.Node.Coordinator
import Web3Storage.Pallet.BucketIds
import Web3Storage.Pallet.Mock

/-!
# What invalidates a cached access entry

A node caches, for each bucket, the members with their roles, the visibility and whether it serves
the bucket under a replica agreement of its own. Entries are dropped on the block events that name
the bucket, or all at once when it is unknown what changed. `access_changes_announced` says that each
change of members, roles, visibility or existence of a bucket, and each replica agreement of the node
that is opened, comes with an event that drops the entry.
-/

set_option autoImplicit false
set_option relaxedAutoImplicit false

namespace Web3Storage.Node

open Foundations Primitives
open Pallet (Bucket Call Config Effect Event Funded Genesis Input Origin State accepted step)

/-! ### The entry -/

/-- A bucket member and the role it holds. -/
structure Member (AccountId : Type) where
  account : AccountId
  role : Role
  deriving DecidableEq

/-- The bucket state that access control needs. -/
structure BucketAccess (AccountId : Type) where
  members : List (Member AccountId)
  visibility : Visibility
  deriving DecidableEq

variable {AccountId : Type}

/-- A bucket that only its members read. -/
def BucketAccess.privateTo (members : List (Member AccountId)) : BucketAccess AccountId :=
  ⟨members, .privateRead⟩

def memberRoles (members : List (Pallet.Member AccountId)) : List (Member AccountId) :=
  members.map fun m ↦ ⟨m.account, m.role⟩

/-- What a bucket gives to access control. -/
def bucketAccess (bucket : Bucket AccountId) : BucketAccess AccountId :=
  ⟨memberRoles bucket.members, bucket.visibility⟩

/-- The access of a bucket. One that does not exist has no members and is private. -/
def fetchAccess (s : State AccountId) (bucketId : ℕ) : BucketAccess AccountId :=
  match s.buckets.lookup bucketId with
  | none => .privateTo []
  | some bucket => bucketAccess bucket

variable [DecidableEq AccountId]

/-- Whether the node's own account has a replica agreement on a bucket. -/
def fetchServesAsReplica (providerAccount : Option AccountId) (s : State AccountId) (bucketId : ℕ) :
    Bool :=
  match providerAccount with
  | none => false
  | some own =>
    (s.storageAgreements.lookup (bucketId, own)).any fun agreement ↦ !agreement.role.isPrimary

/-! ### The feed -/

/-- What a drain of the feed found: nothing, some buckets, or a change of unknown scope. -/
inductive Invalidation
  | none
  | buckets (ids : List ℕ)
  | all
  deriving DecidableEq, Repr

/-- An invalidation drops the entry of a bucket. -/
def Invalidation.Covers : Invalidation → ℕ → Prop
  | .none, _ => False
  | .buckets ids, bucketId => bucketId ∈ ids
  | .all, _ => True

/-- What the feed receives before it is empty or closed: events, or that it missed some. -/
inductive Received (AccountId : Type)
  | event (event : BlockEvent AccountId)
  | lagged

/-- Receive until the feed is empty. After a change of unknown scope buckets are not collected. -/
def receiveAll : List (Received AccountId) → List ℕ → Bool → List ℕ × Bool
  | [], buckets, all => (buckets, all)
  | .lagged :: rest, buckets, _ => receiveAll rest buckets true
  | .event event :: rest, buckets, all =>
    match event with
    | .bucketMembershipChanged bucketId =>
      receiveAll rest (if all then buckets else buckets ++ [bucketId]) all
    | .replicaAgreementEstablished bucketId _ =>
      receiveAll rest (if all then buckets else buckets ++ [bucketId]) all
    | .resubscribed _ => receiveAll rest buckets true
    | .membershipScopeUnknown _ => receiveAll rest buckets true
    | .challengeCreated .. | .bucketCheckpointed _ => receiveAll rest buckets all

/-- Every invalidation received since the last drain. -/
def drain (received : List (Received AccountId)) : Invalidation :=
  let (buckets, all) := receiveAll received [] false
  if all then .all else if buckets.isEmpty then .none else .buckets buckets

section Drain

omit [DecidableEq AccountId]

/-- What was collected stays collected, or all entries are dropped. -/
private theorem receiveAll_kept {received : List (Received AccountId)} {buckets : List ℕ} {all : Bool}
    {bucketId : ℕ} (h : all = true ∨ bucketId ∈ buckets) :
    (receiveAll received buckets all).2 = true ∨ bucketId ∈ (receiveAll received buckets all).1 := by
  induction received generalizing buckets all with
  | nil => exact h
  | cons first rest ih =>
    have hpush (other : ℕ) : all = true ∨ bucketId ∈ (if all then buckets else buckets ++ [other]) := by
      rcases h with rfl | hmem
      · exact .inl rfl
      · right
        split_ifs
        · exact hmem
        · exact List.mem_append_left _ hmem
    cases first with
    | lagged => exact ih (.inl rfl)
    | event event =>
      cases event with
      | bucketMembershipChanged other => exact ih (hpush other)
      | replicaAgreementEstablished other provider => exact ih (hpush other)
      | resubscribed atBlock => exact ih (.inl rfl)
      | membershipScopeUnknown atBlock => exact ih (.inl rfl)
      | challengeCreated | bucketCheckpointed => exact ih h

/-- A message drops the entry of a bucket: it names the bucket, or it is unknown what changed. -/
def Received.Covers (bucketId : ℕ) : Received AccountId → Prop
  | .lagged => True
  | .event (.bucketMembershipChanged id) => id = bucketId
  | .event (.replicaAgreementEstablished id _) => id = bucketId
  | .event (.resubscribed _) | .event (.membershipScopeUnknown _) => True
  | .event (.challengeCreated ..) | .event (.bucketCheckpointed _) => False

/-- A drain that receives a message that drops an entry drops it. -/
theorem covers_drain {received : List (Received AccountId)} {message : Received AccountId}
    {bucketId : ℕ} (hreceived : message ∈ received) (hcovers : message.Covers bucketId) :
    (drain received).Covers bucketId := by
  have hcollected (buckets : List ℕ) (all : Bool) : (receiveAll received buckets all).2 = true ∨
      bucketId ∈ (receiveAll received buckets all).1 := by
    induction received generalizing buckets all with
    | nil => cases hreceived
    | cons first rest ih =>
      rcases List.mem_cons.1 hreceived with rfl | hrest
      · have hpush : all = true ∨ bucketId ∈ (if all then buckets else buckets ++ [bucketId]) := by
          cases all with
          | true => exact .inl rfl
          | false => simp
        cases message with
        | lagged =>
          rw [receiveAll]
          exact receiveAll_kept (.inl rfl)
        | event event =>
          cases event with
          | bucketMembershipChanged other =>
            cases hcovers
            rw [receiveAll]
            exact receiveAll_kept hpush
          | replicaAgreementEstablished other provider =>
            cases hcovers
            rw [receiveAll]
            exact receiveAll_kept hpush
          | resubscribed | membershipScopeUnknown =>
            rw [receiveAll]
            exact receiveAll_kept (.inl rfl)
          | challengeCreated | bucketCheckpointed => exact hcovers.elim
      · cases first with
        | lagged => exact ih hrest _ _
        | event other => cases other <;> exact ih hrest _ _
  unfold drain
  rcases hcollected [] false with hall | hmem
  · simp [hall, Invalidation.Covers]
  · simp only
    split_ifs with hall hempty
    · trivial
    · rw [List.isEmpty_iff] at hempty
      rw [hempty] at hmem
      cases hmem
    · exact hmem

end Drain

/-! ### Events of a call -/

/-- What a node decodes of the events of a call. -/
def decodedEvents (blockNumber : ℕ) (events : List (Event AccountId)) : List (BlockEvent AccountId) :=
  (decodeBlockContents blockNumber (events.map (.storageProvider · true))).events

section Decoded

omit [DecidableEq AccountId]

/-- Every event that means something to the coordinators is relevant. -/
theorem relevant_of_blockEvent {event : Event AccountId} {decoded : BlockEvent AccountId}
    (h : blockEvent event = some decoded) :
    isMembershipEvent event = true ∨ isOtherRelevantEvent event = true := by
  unfold blockEvent at h
  split at h
  · exact .inr rfl
  · exact .inr rfl
  · exact .inr rfl
  · exact .inl rfl
  · exact .inl rfl
  · exact .inl rfl
  · exact .inl rfl
  · exact .inl rfl
  · cases h

/-- An event that means something to the coordinators is decoded. -/
theorem mem_decodedEvents (blockNumber : ℕ) {events : List (Event AccountId)}
    {event : Event AccountId} {decoded : BlockEvent AccountId} (hmem : event ∈ events)
    (h : blockEvent event = some decoded) : decoded ∈ decodedEvents blockNumber events := by
  induction events with
  | nil => cases hmem
  | cons first rest ih =>
    have hkept : (decodedEvents blockNumber (first :: rest)) =
        (if !isMembershipEvent first && !isOtherRelevantEvent first then []
          else (blockEvent first).toList) ++ decodedEvents blockNumber rest := by
      simp only [decodedEvents, List.map_cons, decodeBlockContents]
      split_ifs
      · rfl
      · rfl
    rw [hkept]
    rcases List.mem_cons.1 hmem with rfl | hrest
    · refine List.mem_append_left _ ?_
      rcases relevant_of_blockEvent h with hrelevant | hrelevant
      · simp [hrelevant, h]
      · simp [hrelevant, h]
    · exact List.mem_append_right _ (ih hrest)

end Decoded

/-! ### Every call -/

section Calls

variable {cfg : Config AccountId} {s s' : State AccountId} {who : AccountId} {bucketId : ℕ}

omit [DecidableEq AccountId] in
/-- A bucket written with the members and the visibility it had changes no access. -/
private theorem access_insert {target : ℕ} {old new : Bucket AccountId}
    (hbuckets : s'.buckets = s.buckets.insert target new)
    (hold : s.buckets.lookup target = some old) (hsame : bucketAccess new = bucketAccess old) :
    (s'.buckets.lookup bucketId).map bucketAccess = (s.buckets.lookup bucketId).map bucketAccess := by
  rw [hbuckets, FiniteMap.lookup_insert_eq]
  split_ifs with htarget
  · rw [htarget, hold, Option.map_some, Option.map_some, hsame]
  · rfl

/-- The removal of a primary changes no access. -/
private theorem access_removePrimary (target : ℕ) (provider : AccountId)
    (buckets : FiniteMap ℕ (Bucket AccountId)) :
    ((Pallet.removePrimaryFromBucket target provider buckets).lookup bucketId).map bucketAccess =
      (buckets.lookup bucketId).map bucketAccess := by
  unfold Pallet.removePrimaryFromBucket
  split
  · rfl
  · rename_i bucket hbucket
    split
    · rfl
    · rw [FiniteMap.lookup_insert_eq]
      split_ifs with htarget
      · rw [htarget, hbucket]
        rfl
      · rfl

/-- The end of an agreement changes no access. -/
private theorem access_closed (primary : Bool) (target : ℕ) (provider : AccountId)
    (hbuckets : s'.buckets =
      if primary then Pallet.removePrimaryFromBucket target provider s.buckets else s.buckets) :
    (s'.buckets.lookup bucketId).map bucketAccess = (s.buckets.lookup bucketId).map bucketAccess := by
  rw [hbuckets]
  split_ifs
  · exact access_removePrimary target provider s.buckets
  · rfl

/-- The bucket events that change its access. -/
def ChangesAccess (bucketId : ℕ) (events : List (Event AccountId)) : Prop :=
  ∃ event ∈ events, blockEvent event = some (.bucketMembershipChanged bucketId)

omit [DecidableEq AccountId] in
/-- A step that writes or erases one bucket under an event of it. -/
private theorem changesAccess_of_others {target : ℕ} {event : Event AccountId}
    (hothers : bucketId ≠ target → s'.buckets.lookup bucketId = s.buckets.lookup bucketId)
    (hmem : event ∈ s'.events) (hevent : blockEvent event = some (.bucketMembershipChanged target)) :
    (s'.buckets.lookup bucketId).map bucketAccess = (s.buckets.lookup bucketId).map bucketAccess ∨
      ChangesAccess bucketId s'.events := by
  by_cases htarget : bucketId = target
  · subst htarget
    exact .inr ⟨event, hmem, hevent⟩
  · exact .inl (congrArg (Option.map bucketAccess) (hothers htarget))

/-- An accepted call that changes the members, the roles, the visibility or the existence of a bucket
has an event that says so. -/
theorem changesAccess_of_dispatchSigned {call : Call AccountId}
    (h : Pallet.dispatchSigned cfg who call s.withoutEvents = .ok s') :
    (s'.buckets.lookup bucketId).map bucketAccess = (s.buckets.lookup bucketId).map bucketAccess ∨
      ChangesAccess bucketId s'.events := by
  cases call with
  | registerProvider multiaddr publicKey stake =>
    obtain ⟨ledger, info, -, -, -, -, -, rfl⟩ := Pallet.registerProviderInternal_ok h
    exact .inl rfl
  | addStake amount =>
    obtain ⟨info, ledger, -, -, rfl⟩ := Pallet.addStake_ok h
    exact .inl rfl
  | deregisterProvider =>
    obtain ⟨info, completeAfter, -, -, -, -, rfl⟩ := Pallet.deregisterProvider_ok h
    exact .inl rfl
  | completeDeregister =>
    obtain ⟨info, deregisterAt, deposit, ledger, -, -, -, -, -, -, rfl⟩ :=
      Pallet.completeDeregister_ok h
    exact .inl rfl
  | cancelDeregister =>
    obtain ⟨info, -, -, rfl⟩ := Pallet.cancelDeregister_ok h
    exact .inl rfl
  | updateProviderSettings settings =>
    obtain ⟨info, -, -, -, rfl⟩ := Pallet.updateProviderSettings_ok h
    exact .inl rfl
  | updateProviderMultiaddr multiaddr =>
    obtain ⟨info, -, rfl⟩ := Pallet.updateProviderMultiaddr_ok h
    exact .inl rfl
  | setExtensionsBlocked target blocked =>
    obtain ⟨agreement, -, -, rfl⟩ := Pallet.setExtensionsBlocked_ok h
    exact .inl rfl
  | createBucket minProviders visibility =>
    obtain ⟨ledger, bucket, -, -, -, hs'⟩ :=
      Pallet.createBucketInternal_ok (Pallet.createBucket_ok h)
    simp only at hs'
    subst hs'
    refine changesAccess_of_others (fun hother ↦ ?_)
      (List.mem_append_right _ List.mem_cons_self) rfl
    exact Finmap.lookup_insert_of_ne _ hother
  | deleteBucket target =>
    obtain ⟨bucket, ledger, memberBuckets, loss, -, -, -, -, -, -, rfl⟩ := Pallet.deleteBucket_ok h
    refine changesAccess_of_others (fun hother ↦ ?_)
      (List.mem_append_right _ List.mem_cons_self) rfl
    exact Finmap.lookup_erase_ne hother
  | createBucketWithPrimary provider terms signature visibility =>
    obtain ⟨info, agreement, bucket, ledger, deposits, -, -, rfl⟩ :=
      Pallet.createBucketWithPrimary_ok h
    refine changesAccess_of_others (fun hother ↦ ?_)
      (List.mem_append_left _ (List.mem_append_right _ List.mem_cons_self)) rfl
    exact Finmap.lookup_insert_of_ne _ hother
  | addPrimaryProvider target provider terms signature =>
    obtain ⟨info, agreement, bucket, ledger, deposits, -, hbucket, rfl⟩ :=
      Pallet.addPrimaryProvider_ok h
    exact .inl (access_insert rfl hbucket rfl)
  | addReplicaProvider target provider terms signature =>
    obtain ⟨info, agreement, ledger, deposits, -, rfl⟩ := Pallet.addReplicaProvider_ok h
    exact .inl rfl
  | setMinProviders target minProviders =>
    obtain ⟨bucket, hbucket, rfl⟩ := Pallet.setMinProviders_ok h
    exact .inl (access_insert rfl hbucket rfl)
  | freezeBucket target =>
    obtain ⟨bucket, snapshot, hbucket, -, -, rfl⟩ := Pallet.freezeBucket_ok h
    exact .inl (access_insert rfl hbucket rfl)
  | setBucketVisibility target visibility =>
    obtain ⟨bucket, -, rfl⟩ := Pallet.setBucketVisibility_ok h
    refine changesAccess_of_others (fun hother ↦ ?_)
      (List.mem_append_right _ List.mem_cons_self) rfl
    exact Finmap.lookup_insert_of_ne _ hother
  | setMember target member role =>
    obtain ⟨bucket, members, ledger, memberBuckets, amount, -, -, -, rfl⟩ := Pallet.setMember_ok h
    refine changesAccess_of_others (fun hother ↦ ?_)
      (List.mem_append_right _ List.mem_cons_self) rfl
    exact Finmap.lookup_insert_of_ne _ hother
  | removeMember target member =>
    obtain ⟨bucket, members, ledger, memberBuckets, depositor, amount, -, -, -, rfl⟩ :=
      Pallet.removeMember_ok h
    refine changesAccess_of_others (fun hother ↦ ?_)
      (List.mem_append_right _ List.mem_cons_self) rfl
    exact Finmap.lookup_insert_of_ne _ hother
  | removeSlashed target provider =>
    obtain ⟨info, agreement, ledger, deposit, events, -, -, -, -, -, rfl⟩ := Pallet.removeSlashed_ok h
    exact .inl (access_closed _ target provider rfl)
  | endAgreement target provider action =>
    obtain ⟨agreement, isEarly, -, -, hfinalize⟩ := Pallet.endAgreement_ok h
    obtain ⟨ledger, deposit, events, -, rfl⟩ := Pallet.finalizeAgreement_ok hfinalize
    exact .inl (access_closed _ target provider rfl)
  | claimExpiredAgreement target =>
    obtain ⟨agreement, -, -, hfinalize⟩ := Pallet.claimExpiredAgreement_ok h
    obtain ⟨ledger, deposit, events, -, rfl⟩ := Pallet.finalizeAgreement_ok hfinalize
    exact .inl (access_closed _ target who rfl)
  | topUpAgreement target provider additionalBytes maxPayment =>
    obtain ⟨info, agreement, payment, ledger, -, -, -, -, -, -, -, rfl⟩ := Pallet.topUpAgreement_ok h
    exact .inl rfl
  | transferAgreementOwnership target provider newOwner =>
    obtain ⟨agreement, ledger, -, -, -, -, rfl⟩ := Pallet.transferAgreementOwnership_ok h
    exact .inl rfl
  | extendAgreement target provider additionalDuration maxPayment =>
    obtain ⟨info, agreement, earned, payment, ledger, role, -, -, -, -, -, -, -, rfl⟩ :=
      Pallet.extendAgreement_ok h
    exact .inl rfl
  | checkpoint target commitment signatures =>
    obtain ⟨bucket, signed, hbucket, -, -, -, rfl⟩ := Pallet.checkpoint_ok h
    exact .inl (access_insert rfl hbucket rfl)
  | extendCheckpoint target signatures =>
    obtain ⟨bucket, snapshot, signed, hbucket, -, -, rfl⟩ := Pallet.extendCheckpoint_ok h
    exact .inl (access_insert rfl hbucket rfl)
  | challengeCheckpoint target provider location =>
    obtain ⟨bucket, snapshot, index, agreement, challengeId, -, -, -, -, -, -, hcreate⟩ :=
      Pallet.challengeCheckpoint_ok h
    obtain ⟨ledger, challenge, -, -, -, -, -, -, -, rfl⟩ := Pallet.createChallenge_ok hcreate
    exact .inl rfl
  | challengeOffchain target provider commitment location signature =>
    obtain ⟨bucket, agreement, challengeId, -, -, -, -, hcreate⟩ := Pallet.challengeOffchain_ok h
    obtain ⟨ledger, challenge, -, -, -, -, -, -, -, rfl⟩ := Pallet.createChallenge_ok hcreate
    exact .inl rfl
  | challengeReplica target provider location =>
    obtain ⟨bucket, agreement, commitment, challengeId, -, -, -, -, hcreate⟩ :=
      Pallet.challengeReplica_ok h
    obtain ⟨ledger, challenge, -, -, -, -, -, -, -, rfl⟩ := Pallet.createChallenge_ok hcreate
    exact .inl rfl
  | respondToChallenge challengeId response =>
    obtain ⟨challenge, bucket, ledger, paid, -, -, -, -, -, -, -, -, rfl⟩ :=
      Pallet.respondToChallenge_ok h
    exact .inl rfl
  | resolveExpiredChallenge challengeId =>
    obtain ⟨challenge, -, -, rfl⟩ := Pallet.resolveExpiredChallenge_ok h
    rw [(Pallet.slashProvider_buckets challenge challengeId _).1]
    exact .inl rfl
  | confirmReplicaSync target roots signature =>
    obtain ⟨bucket, agreement, ledger, syncBalance, syncPrice, minSyncInterval, lastSync, matched, -,
      -, -, -, -, -, -, rfl⟩ := Pallet.confirmReplicaSync_ok h
    exact .inl rfl
  | topUpReplicaSyncBalance target provider amount =>
    obtain ⟨agreement, ledger, syncBalance, syncPrice, minSyncInterval, lastSync, -, -, -, rfl⟩ :=
      Pallet.topUpReplicaSyncBalance_ok h
    exact .inl rfl

/-! ### Replica agreements -/

/-- An agreement that is written does not make its provider a replica, unless it was one. -/
private theorem serves_insert {key : ℕ × AccountId} {new : Pallet.StorageAgreement AccountId}
    {provider : AccountId} (hagreements : s'.storageAgreements = s.storageAgreements.insert key new)
    (hrole : new.role.isPrimary = false → fetchServesAsReplica (some key.2) s key.1 = true)
    (h : fetchServesAsReplica (some provider) s' bucketId = true) :
    fetchServesAsReplica (some provider) s bucketId = true := by
  simp only [fetchServesAsReplica] at h hrole ⊢
  rw [hagreements, FiniteMap.lookup_insert_eq] at h
  split_ifs at h with hkey
  · subst hkey
    exact hrole (by simpa using h)
  · exact h

/-- A replica agreement appears only by the redemption of a quote for it. -/
theorem redemption_of_serves {input : Input AccountId} {provider : AccountId}
    (heffect : Effect cfg s input s') (hbefore : fetchServesAsReplica (some provider) s bucketId = false)
    (hafter : fetchServesAsReplica (some provider) s' bucketId = true) :
    ∃ owner call redemption, input = .call (.signed owner) call ∧
      call.redemption owner = some redemption ∧ redemption.provider = provider ∧
        redemption.target = .existing bucketId ∧ redemption.kind = .replica := by
  have hcontra (hkept : fetchServesAsReplica (some provider) s bucketId = true) : False := by
    rw [hbefore] at hkept
    cases hkept
  have hsame {key : ℕ × AccountId} {old new : Pallet.StorageAgreement AccountId}
      (hold : s.storageAgreements.lookup key = some old)
      (hrole : new.role.isPrimary = old.role.isPrimary) (hnew : new.role.isPrimary = false) :
      fetchServesAsReplica (some key.2) s key.1 = true := by
    simp only [fetchServesAsReplica, hold, Option.any_some, ← hrole, hnew, Bool.not_false]
  cases heffect with
  | rejected | advanced | outside | registered | providerChanged | deregistered | bucketCreated
  | bucketDeleted | bucketChanged | checkpointed | checkpointExtended | challengeOpened
  | challengeAnswered => exact (hcontra hafter).elim
  | opened owner call id opened terms signature target kind info agreement deposits ledger buckets
      nextBucketId nonces memberBuckets events hopening hbuckets _ hredemption =>
    obtain ⟨syncBalance, hquoted⟩ := hopening.role_eq
    have hkind : agreement.role.isPrimary = (kind == .primary) := Pallet.quotedRole_isPrimary hquoted
    cases hbuckets with
    | created | joined =>
      refine (hcontra (serves_insert rfl (fun hreplica ↦ ?_) hafter)).elim
      rw [hkind] at hreplica
      cases hreplica
    | replicated =>
      refine ⟨owner, call, _, rfl, hredemption, ?_⟩
      by_cases hkey : (bucketId, provider) = (id, opened)
      · cases hkey
        exact ⟨rfl, rfl, rfl⟩
      · simp only [fetchServesAsReplica, Finmap.lookup_insert_of_ne _ hkey] at hafter
        exact (hcontra hafter).elim
  | toppedUp who id extended additionalBytes maxPayment info old new ledger events _ _ hold hrole =>
    exact (hcontra (serves_insert rfl (hsame hold (congrArg _ hrole)) hafter)).elim
  | amended who call id amended old new ledger stats events hold hrole =>
    exact (hcontra (serves_insert rfl (hsame hold hrole) hafter)).elim
  | closed who call id closed old =>
    simp only [fetchServesAsReplica, FiniteMap.lookup_erase_eq] at hafter
    split_ifs at hafter with hkey
    · cases hafter
    · exact (hcontra hafter).elim
  | challengeExpired origin challengeId challenge =>
    simp only [fetchServesAsReplica,
      (Pallet.slashProvider_escrow challenge challengeId _ challenge.provider).1] at hafter
    exact (hcontra hafter).elim

end Calls

/-! ### The feed drops what changed -/

/-- A call changes the members, the roles, the visibility or the existence of a bucket. -/
def BucketChanges (bucketId : ℕ) (s s' : State AccountId) : Prop :=
  fetchAccess s' bucketId ≠ fetchAccess s bucketId ∨
    (s'.buckets.lookup bucketId).isSome ≠ (s.buckets.lookup bucketId).isSome

/-- A call gives a provider a replica agreement on a bucket. -/
def ReplicaOpens (provider : AccountId) (bucketId : ℕ) (s s' : State AccountId) : Prop :=
  fetchServesAsReplica (some provider) s bucketId = false ∧
    fetchServesAsReplica (some provider) s' bucketId = true

/-- What the events of a call say about the cached entry of a bucket on a provider's node. -/
structure AccessAnnounced (provider : AccountId) (bucketId blockNumber : ℕ) (s s' : State AccountId) :
    Prop where
  bucket_changed : BucketChanges bucketId s s' →
    .bucketMembershipChanged bucketId ∈ decodedEvents blockNumber s'.events
  replica_opened : ReplicaOpens provider bucketId s s' →
    .replicaAgreementEstablished bucketId provider ∈ decodedEvents blockNumber s'.events
  entry_dropped : BucketChanges bucketId s s' ∨ ReplicaOpens provider bucketId s s' →
    ∀ received : List (Received AccountId),
      (∀ event ∈ decodedEvents blockNumber s'.events, .event event ∈ received) →
        (drain received).Covers bucketId

section Announced

variable {cfg : Config AccountId} {s : State AccountId} {provider : AccountId} {bucketId : ℕ}

omit [DecidableEq AccountId] in
/-- A state has the events of its last call only, so a refused call changes nothing. -/
private theorem not_bucketChanges_withoutEvents : ¬ BucketChanges bucketId s s.withoutEvents := by
  rintro (h | h)
  · exact h rfl
  · exact h rfl

/-- A call that changes a bucket has an event of its own for that. -/
theorem changesAccess_of_bucketChanges {origin : Origin AccountId} {call : Call AccountId}
    (h : BucketChanges bucketId s (step cfg s (.call origin call))) :
    ChangesAccess bucketId (step cfg s (.call origin call)).events := by
  cases haccepted : accepted cfg s origin call with
  | false =>
    rw [Pallet.step_of_refused haccepted] at h
    exact absurd h not_bucketChanges_withoutEvents
  | true =>
    have hdispatch := Pallet.dispatch_of_accepted haccepted
    generalize step cfg s (.call origin call) = s' at hdispatch h ⊢
    have hcases : (s'.buckets.lookup bucketId).map bucketAccess =
        (s.buckets.lookup bucketId).map bucketAccess ∨ ChangesAccess bucketId s'.events := by
      unfold Pallet.dispatch at hdispatch
      split at hdispatch
      · exact changesAccess_of_dispatchSigned hdispatch
      · obtain ⟨challenge, -, -, rfl⟩ := Pallet.resolveExpiredChallenge_ok hdispatch
        rw [(Pallet.slashProvider_buckets challenge _ _).1]
        exact .inl rfl
      · cases hdispatch
    refine hcases.resolve_left fun hsame ↦ ?_
    rcases h with haccess | hexists
    · apply haccess
      have hfetch (t : State AccountId) : fetchAccess t bucketId =
          ((t.buckets.lookup bucketId).map bucketAccess).getD (.privateTo []) := by
        unfold fetchAccess
        cases t.buckets.lookup bucketId with
        | none => rfl
        | some bucket => rfl
      rw [hfetch, hfetch, hsame]
    · apply hexists
      have hisSome := congrArg Option.isSome hsame
      rwa [Option.isSome_map, Option.isSome_map] at hisSome

/-- A call that gives a provider a replica agreement has an event of its own for that. -/
theorem established_of_replicaOpens {origin : Origin AccountId} {call : Call AccountId}
    (hs : Funded s) (h : ReplicaOpens provider bucketId s (step cfg s (.call origin call))) :
    ∃ event ∈ (step cfg s (.call origin call)).events,
      blockEvent event = some (.replicaAgreementEstablished bucketId provider) := by
  obtain ⟨hbefore, hafter⟩ := h
  have heffect : Effect cfg s (.call origin call) (step cfg s (.call origin call)) :=
    Pallet.effect_of_step hs _
  obtain ⟨owner, call', redemption, hinput, hredemption, hprovider, htarget, hkind⟩ :=
    redemption_of_serves heffect hbefore hafter
  cases hinput
  cases haccepted : accepted cfg s (.signed owner) call with
  | false =>
    rw [Pallet.step_of_refused haccepted] at hafter
    exact absurd (hbefore.symm.trans hafter) (by decide)
  | true =>
    have hdispatch : Pallet.dispatchSigned cfg owner call s.withoutEvents =
        .ok (step cfg s (.call (.signed owner) call)) := Pallet.dispatch_of_accepted haccepted
    generalize step cfg s (.call (.signed owner) call) = s' at hdispatch ⊢
    unfold Call.redemption at hredemption
    split at hredemption
    · cases hredemption
      cases hkind
    · cases hredemption
      cases hkind
    · cases hredemption
      cases htarget
      subst hprovider
      obtain ⟨info, agreement, ledger, deposits, -, rfl⟩ := Pallet.addReplicaProvider_ok hdispatch
      exact ⟨_, List.mem_append_right _ List.mem_cons_self, rfl⟩
    · cases hredemption

/-- In every reachable state, each call that changes a bucket has a membership event of it, each call
that gives a provider a replica agreement has an event of that, and the feed drops the entry on
either. -/
theorem access_changes_announced (genesis : Genesis cfg) (inputs : List (Input AccountId))
    (origin : Origin AccountId) (call : Call AccountId) (provider : AccountId)
    (bucketId blockNumber : ℕ) :
    AccessAnnounced provider bucketId blockNumber (run (step cfg) genesis.state inputs)
      (step cfg (run (step cfg) genesis.state inputs) (.call origin call)) := by
  have hs : Funded (run (step cfg) genesis.state inputs) := Pallet.funded_run cfg genesis.funded inputs
  generalize run (step cfg) genesis.state inputs = s at hs
  have hbucket (h : BucketChanges bucketId s (step cfg s (.call origin call))) :
      .bucketMembershipChanged bucketId ∈
        decodedEvents blockNumber (step cfg s (.call origin call)).events := by
    obtain ⟨event, hmem, hevent⟩ := changesAccess_of_bucketChanges h
    exact mem_decodedEvents blockNumber hmem hevent
  have hreplica (h : ReplicaOpens provider bucketId s (step cfg s (.call origin call))) :
      .replicaAgreementEstablished bucketId provider ∈
        decodedEvents blockNumber (step cfg s (.call origin call)).events := by
    obtain ⟨event, hmem, hevent⟩ := established_of_replicaOpens hs h
    exact mem_decodedEvents blockNumber hmem hevent
  refine ⟨hbucket, hreplica, ?_⟩
  rintro (h | h) received hreceived
  · exact covers_drain (hreceived _ (hbucket h)) rfl
  · exact covers_drain (hreceived _ (hreplica h)) rfl

end Announced

/-! ### A replica of the mock runtime -/

section MockReplica

open Pallet (Mock.config Mock.genesisOf Mock.genesisProvider Mock.quote)

/-- Account 1 owns the quotes, account 2 provides replicas for nothing. -/
def replicaGenesis : Genesis Mock.config :=
  Mock.genesisOf [(1, 10000), (2, 10000)]
    [Mock.genesisProvider 2 1000
      { Pallet.ProviderSettings.default with replicaSyncPrice := some 0 }]
    Pallet.Mock.endowment_le (by decide +kernel) (by decide +kernel)

/-- Ten bytes for five blocks as a replica of bucket 0. -/
def replicaTerms : AgreementTerms ℕ := ⟨1, 10, 5, 0, 20, 0, .existing 0, some ⟨0, 1, 0⟩⟩

/-- Account 1 redeems a quote of provider 2 for a replica. -/
def openReplica : Input ℕ :=
  .call (.signed 1) (.addReplicaProvider 0 2 replicaTerms
    (Mock.quote replicaTerms replicaTermContext 2))

/-- A private bucket of account 1. -/
def withoutReplica : State ℕ :=
  run (step Mock.config) replicaGenesis.state [.call (.signed 1) (.createBucket 1 .privateRead)]

/-- The bucket after provider 2 became a replica. -/
def withReplica : State ℕ := step Mock.config withoutReplica openReplica

/-- The bucket after provider 2 claimed the expired agreement. -/
def replicaClaimed : State ℕ :=
  run (step Mock.config) withReplica [.advance 60, .call (.signed 2) (.claimExpiredAgreement 0)]

/-- The replica agreement is opened and later claimed, and neither call has a membership event. -/
theorem replica_unannounced :
    fetchServesAsReplica (some 2) withoutReplica 0 = false ∧
      fetchServesAsReplica (some 2) withReplica 0 = true ∧
        decodedEvents 1 withReplica.events = [.replicaAgreementEstablished 0 2] ∧
          fetchServesAsReplica (some 2) replicaClaimed 0 = false ∧
            decodedEvents 2 replicaClaimed.events = [] := by
  refine ⟨?_, ?_, ?_, ?_, ?_⟩
  · decide +kernel
  · decide +kernel
  · decide +kernel
  · decide +kernel
  · decide +kernel

end MockReplica

end Web3Storage.Node
