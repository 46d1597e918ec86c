import Web3Storage.Pallet.Funding
import Web3Storage.Pallet.Mock

/-!
# Payments for replica syncs

A replica is paid for the roots it confirms. The agreement remembers the last one only, so what it is
paid for twice is a root it goes back to: along a run in which the replica, when a sync is due, never
asks again for a root it left, no commitment is paid twice (`syncs_paid_once`). A replica that
alternates between the current snapshot and an older root is paid every time
(`alternating_syncs_paid`).
-/

set_option autoImplicit false
set_option relaxedAutoImplicit false

namespace Web3Storage.Pallet

open Foundations Primitives

variable {AccountId : Type} [DecidableEq AccountId]

/-! ### Requests and payments -/

/-- The commitment a call of a replica asks to be paid for. -/
def syncRequest (bucketId : ℕ) (who : AccountId) (s : State AccountId) :
    Input AccountId → Option Commitment
  | .call (.signed caller) (.confirmReplicaSync target roots _) =>
    if caller = who ∧ target = bucketId then
      (s.buckets.lookup bucketId).bind fun bucket ↦
        (findMatchingRoot bucket roots).toOption.map Prod.snd
    else none
  | _ => none

variable (cfg : Config AccountId)

/-- Whether a sync of a replica is due: its confirmation is signed, its agreement has not expired, the
interval is over and the balance covers the price. -/
def syncDue (bucketId : ℕ) (who : AccountId) (roots : Fin 7 → Option H256)
    (signature : MultiSignature) (s : State AccountId) : Bool :=
  isOk (verifySignature cfg s.providers signature (encodeRoots roots) who) &&
    (s.storageAgreements.lookup (bucketId, who)).any fun agreement ↦
      decide (s.anchorBlock < agreement.expiresAt) &&
        match agreement.role with
        | .primary => false
        | .replica syncBalance syncPrice minSyncInterval lastSync =>
          lastSync.all (fun record ↦
            saturatingAdd u32Max record.block minSyncInterval ≤ s.anchorBlock) &&
            decide (syncPrice ≤ syncBalance)

/-- The commitment a call of a replica asks to be paid for when a sync is due. -/
def dueRequest (bucketId : ℕ) (who : AccountId) (s : State AccountId) :
    Input AccountId → Option Commitment
  | .call (.signed caller) (.confirmReplicaSync target roots signature) =>
    if (Call.confirmReplicaSync target roots signature : Call AccountId).fits cfg &&
        syncDue cfg target caller roots signature s then
      syncRequest bucketId who s (.call (.signed caller) (.confirmReplicaSync target roots signature))
    else none
  | _ => none

/-- The commitment a step pays a replica for. -/
def syncPaid (bucketId : ℕ) (who : AccountId) (s : State AccountId) :
    Input AccountId → Option Commitment
  | .call (.signed caller) (.confirmReplicaSync target roots signature) =>
    if (Call.confirmReplicaSync target roots signature : Call AccountId).fits cfg &&
        isOk (confirmReplicaSync cfg caller target roots signature s.withoutEvents) then
      syncRequest bucketId who s (.call (.signed caller) (.confirmReplicaSync target roots signature))
    else none
  | _ => none

/-- The roots a replica asks to be paid for along a run when a sync is due. -/
def requestedRoots (bucketId : ℕ) (who : AccountId) :
    State AccountId → List (Input AccountId) → List H256
  | _, [] => []
  | s, input :: rest =>
    ((dueRequest cfg bucketId who s input).map Commitment.mmrRoot).toList ++
      requestedRoots bucketId who (step cfg s input) rest

/-- The commitments a replica is paid for along a run. -/
def paidSyncs (bucketId : ℕ) (who : AccountId) :
    State AccountId → List (Input AccountId) → List Commitment
  | _, [] => []
  | s, input :: rest =>
    (syncPaid cfg bucketId who s input).toList ++
      paidSyncs bucketId who (step cfg s input) rest

/-- What was left does not come back: after the first other value a value is not listed again. -/
def NeverReturns {α : Type} [DecidableEq α] : List α → Prop
  | [] => True
  | value :: rest => value ∉ rest.dropWhile (· = value) ∧ NeverReturns rest

instance {α : Type} [DecidableEq α] : DecidablePred (NeverReturns : List α → Prop) := by
  intro values
  induction values with
  | nil => exact .isTrue trivial
  | cons value rest ih =>
    unfold NeverReturns
    infer_instance

/-! ### One step -/

variable {cfg} {s s' : State AccountId} {input : Input AccountId} {bucketId : ℕ} {who : AccountId}

/-- The agreement, while it exists as a replica's, has a root as its last sync. -/
def LastSynced (s : State AccountId) (bucketId : ℕ) (who : AccountId) (root : H256) : Prop :=
  ∀ agreement, s.storageAgreements.lookup (bucketId, who) = some agreement →
    agreement.role.isPrimary = true ∨ ∃ record, agreement.role.lastSync = some record ∧
      record.commitment.mmrRoot = root

/-- A sync that is confirmed was due. -/
private theorem syncDue_of_confirmed {roots : Fin 7 → Option H256} {signature : MultiSignature}
    (h : confirmReplicaSync cfg who bucketId roots signature s = .ok s') :
    syncDue cfg bucketId who roots signature s = true := by
  simp only [confirmReplicaSync, bind_eq_ok, fetch_eq_ok] at h
  obtain ⟨_, hsigned, bucket, hbucket, agreement, hagreement, h⟩ := h
  unfold syncDue
  rw [hsigned, hagreement]
  cases hrole : agreement.role with
  | primary =>
    rw [hrole] at h
    cases h
  | replica syncBalance syncPrice minSyncInterval lastSync =>
    rw [hrole] at h
    simp only [bind_eq_ok, check_eq_ok, decide_eq_true_eq] at h
    obtain ⟨-, hlive, -, helapsed, matched, hmatched, -, hnew, -, hprice, hrest⟩ := h
    simp [isOk, hlive, hrole, helapsed, hprice]

/-- A call that takes place asks for what is due. -/
private theorem dueRequest_of_takesPlace (h : TakesPlace cfg s input) :
    dueRequest cfg bucketId who s input = syncRequest bucketId who s input := by
  unfold dueRequest
  split
  · next caller target roots signature =>
    rw [TakesPlace, accepted, Bool.and_eq_true] at h
    obtain ⟨hfits, hok⟩ := h
    cases hconfirm : confirmReplicaSync cfg caller target roots signature s.withoutEvents with
    | error error => simp [dispatch, dispatchSigned, hconfirm, isOk] at hok
    | ok after =>
      have hdue : syncDue cfg target caller roots signature s.withoutEvents = true :=
        syncDue_of_confirmed hconfirm
      change syncDue cfg target caller roots signature s = true at hdue
      rw [hfits, hdue]
      rfl
  · next hother =>
    unfold syncRequest
    split
    · next caller target roots signature => exact absurd rfl (hother caller target roots signature)
    · rfl

/-- What is paid was due, and was not the last sync; it is the last sync afterwards. -/
private theorem syncPaid_ok {commitment : Commitment}
    (h : syncPaid cfg bucketId who s input = some commitment) :
    dueRequest cfg bucketId who s input = some commitment ∧
      ¬ LastSynced s bucketId who commitment.mmrRoot ∧
        LastSynced (step cfg s input) bucketId who commitment.mmrRoot := by
  unfold syncPaid at h
  split at h
  · next caller target roots signature =>
    split_ifs at h with hok
    have hplace : TakesPlace cfg s
        (.call (.signed caller) (.confirmReplicaSync target roots signature)) := hok
    refine ⟨(dueRequest_of_takesPlace hplace).trans h, ?_⟩
    rw [Bool.and_eq_true] at hok
    cases hconfirm : confirmReplicaSync cfg caller target roots signature s.withoutEvents with
    | error error => simp [hconfirm, isOk] at hok
    | ok after =>
      have hstep : step cfg s (.call (.signed caller) (.confirmReplicaSync target roots signature)) =
          after := step_of_dispatchSigned hok.1 hconfirm
      rw [hstep]
      obtain ⟨bucket, agreement, ledger, syncBalance, syncPrice, minSyncInterval, lastSync, matched,
        hbucket, hagreement, hrole, hmatched, hnew, -, -, rfl⟩ := confirmReplicaSync_ok hconfirm
      simp only [syncRequest] at h
      split_ifs at h with hcaller
      obtain ⟨rfl, rfl⟩ := hcaller
      simp only [State.withoutEvents] at hbucket hagreement
      rw [hbucket, Option.bind_some, hmatched] at h
      simp only [Except.toOption, Option.map_some, Option.some.injEq] at h
      subst h
      refine ⟨fun hlast ↦ ?_, fun changed hchanged ↦ ?_⟩
      · rcases hlast agreement hagreement with hprimary | ⟨record, hrecord, hroot⟩
        · rw [hrole] at hprimary
          cases hprimary
        · rw [hrole] at hrecord
          exact hnew record hrecord hroot.symm
      · rw [Finmap.lookup_insert] at hchanged
        cases hchanged
        exact .inr ⟨_, rfl, rfl⟩
  · cases h

/-- The last sync stays while the agreement exists and no other root is asked for. -/
theorem Effect.lastSynced (h : Effect cfg s input s') {root : H256}
    (hexists : s.storageAgreements.lookup (bucketId, who) ≠ none)
    (hasked : ∀ commitment, syncRequest bucketId who s input = some commitment →
      commitment.mmrRoot = root)
    (hs : LastSynced s bucketId who root) : LastSynced s' bucketId who root := by
  cases h with
  | rejected | advanced | outside | registered | providerChanged | deregistered | bucketCreated
  | bucketDeleted | bucketChanged | checkpointed | checkpointExtended | challengeOpened
  | challengeAnswered => exact hs
  | opened owner call target provider terms signature bucketTarget kind info agreement deposits
      ledger buckets nextBucketId nonces memberBuckets events hopening hbuckets =>
    intro changed hchanged
    simp only [FiniteMap.lookup_insert_eq] at hchanged
    split_ifs at hchanged with hkey
    · cases hchanged
      obtain ⟨rfl, rfl⟩ := Prod.mk.inj hkey
      obtain ⟨syncBalance, hrole⟩ := hopening.role_eq
      have hprimary := quotedRole_isPrimary hrole
      cases hbuckets with
      | created => exact .inl hprimary
      | joined => exact .inl hprimary
      | replicated =>
        -- a replica joins only where it has no agreement
        exact absurd hopening.lookup_eq_none hexists
    · exact hs changed hchanged
  | toppedUp caller target provider additionalBytes maxPayment info old new ledger events hinfo
      hactive hold hrole =>
    intro changed hchanged
    simp only [FiniteMap.lookup_insert_eq] at hchanged
    split_ifs at hchanged with hkey
    · cases hchanged
      rw [hrole]
      exact hs old (hkey ▸ hold)
    · exact hs changed hchanged
  | amended caller call target provider old new ledger stats events hold hrole hbytes hmoves hsync =>
    intro changed hchanged
    simp only [FiniteMap.lookup_insert_eq] at hchanged
    split_ifs at hchanged with hkey
    · cases hchanged
      obtain ⟨rfl, rfl⟩ := Prod.mk.inj hkey
      cases hsync with
      | kept hsame =>
        rw [hrole, hsame]
        exact hs old hold
      | confirmed roots signature bucket matched hcall hwho hbucket hmatched hnew hrecord =>
        subst hcall hwho
        refine .inr ⟨_, hrecord, hasked matched.2 ?_⟩
        simp only [syncRequest, and_self, if_true, hbucket, Option.bind_some, hmatched]
        rfl
    · exact hs changed hchanged
  | closed caller call target provider old ledger deposit stats events hpending hold hmoves =>
    intro changed hchanged
    simp only [FiniteMap.lookup_erase_eq] at hchanged
    split_ifs at hchanged
    exact hs changed hchanged
  | challengeExpired origin challengeId challenge hchallenge hexpired =>
    intro changed hchanged
    rw [(slashProvider_escrow challenge challengeId _ challenge.provider).1] at hchanged
    exact hs changed hchanged

/-! ### Whole runs -/

/-- The last sync stays while the agreement exists and no other root is due. -/
theorem lastSynced_step (hs : Funded s) {root : H256}
    (hexists : s.storageAgreements.lookup (bucketId, who) ≠ none)
    (hasked : ∀ commitment, dueRequest cfg bucketId who s input = some commitment →
      commitment.mmrRoot = root)
    (hlast : LastSynced s bucketId who root) : LastSynced (step cfg s input) bucketId who root := by
  rcases takesPlace_or cfg s input with hplace | hrefused
  · rw [dueRequest_of_takesPlace hplace] at hasked
    exact (effect_of_step hs input).lastSynced hexists hasked hlast
  · rw [hrefused]
    exact hlast

/-- What is paid along a run was asked for. -/
private theorem paidSyncs_subset (s : State AccountId) (inputs : List (Input AccountId)) :
    (paidSyncs cfg bucketId who s inputs).map Commitment.mmrRoot ⊆
      requestedRoots cfg bucketId who s inputs := by
  induction inputs generalizing s with
  | nil => exact List.Subset.refl _
  | cons input rest ih =>
    rw [paidSyncs, requestedRoots, List.map_append]
    refine List.append_subset.mpr ⟨?_, fun root hroot ↦ List.mem_append_right _ (ih _ hroot)⟩
    cases hpaid : syncPaid cfg bucketId who s input with
    | none => exact List.nil_subset _
    | some commitment =>
      rw [(syncPaid_ok hpaid).1]
      exact List.subset_append_left _ _

/-- The last sync is paid again only after another root was asked for. -/
private theorem mem_dropWhile_of_paid (hs : Funded s) {root : H256} {inputs : List (Input AccountId)}
    (hexists : StepsMeet (step cfg)
      (fun s _ ↦ s.storageAgreements.lookup (bucketId, who) ≠ none) s inputs)
    (hlast : LastSynced s bucketId who root)
    (hpaid : root ∈ (paidSyncs cfg bucketId who s inputs).map Commitment.mmrRoot) :
    root ∈ (requestedRoots cfg bucketId who s inputs).dropWhile (· = root) := by
  induction inputs generalizing s with
  | nil => cases hpaid
  | cons input rest ih =>
    have hnext : Funded (step cfg s input) := (effect_of_step hs input).funded hs
    by_cases hother : ∃ commitment, dueRequest cfg bucketId who s input = some commitment ∧
        commitment.mmrRoot ≠ root
    · -- another root comes first, so nothing is dropped
      obtain ⟨commitment, hrequest, hroot⟩ := hother
      have hasked := paidSyncs_subset s (input :: rest) hpaid
      rw [requestedRoots, hrequest] at hasked ⊢
      simpa [List.dropWhile_cons, hroot] using hasked
    · have hsame : ∀ commitment, dueRequest cfg bucketId who s input = some commitment →
          commitment.mmrRoot = root := by
        intro commitment hrequest
        by_contra hroot
        exact hother ⟨commitment, hrequest, hroot⟩
      have hkept := lastSynced_step hs hexists.1 hsame hlast
      have hunpaid : syncPaid cfg bucketId who s input = none := by
        cases hpaid' : syncPaid cfg bucketId who s input with
        | none => rfl
        | some commitment =>
          obtain ⟨hrequest, hnew, -⟩ := syncPaid_ok hpaid'
          exact absurd (hsame commitment hrequest ▸ hlast) hnew
      rw [paidSyncs, hunpaid] at hpaid
      have hlater := ih hnext hexists.2 hkept hpaid
      rw [requestedRoots]
      cases hrequest : dueRequest cfg bucketId who s input with
      | none => exact hlater
      | some commitment => simpa [List.dropWhile_cons, hsame commitment hrequest] using hlater

/-- A replica that never goes back to a root is paid for each root once. -/
private theorem paidSyncs_nodup (hs : Funded s) {inputs : List (Input AccountId)}
    (hexists : StepsMeet (step cfg)
      (fun s _ ↦ s.storageAgreements.lookup (bucketId, who) ≠ none) s inputs)
    (hforward : NeverReturns (requestedRoots cfg bucketId who s inputs)) :
    ((paidSyncs cfg bucketId who s inputs).map Commitment.mmrRoot).Nodup := by
  induction inputs generalizing s with
  | nil => exact List.nodup_nil
  | cons input rest ih =>
    have hnext : Funded (step cfg s input) := (effect_of_step hs input).funded hs
    rw [requestedRoots] at hforward
    rw [paidSyncs]
    cases hpaid : syncPaid cfg bucketId who s input with
    | none =>
      refine ih hnext hexists.2 ?_
      cases hrequest : dueRequest cfg bucketId who s input with
      | none =>
        rw [hrequest] at hforward
        exact hforward
      | some commitment =>
        rw [hrequest] at hforward
        exact hforward.2
    | some commitment =>
      obtain ⟨hrequest, -, hlast⟩ := syncPaid_ok hpaid
      rw [hrequest] at hforward
      refine List.nodup_cons.mpr ⟨fun hagain ↦ ?_, ih hnext hexists.2 hforward.2⟩
      exact hforward.1 (mem_dropWhile_of_paid hnext hexists.2 hlast hagain)

/-- A replica is paid once for each commitment. Assumes: a part of a run during which the agreement of
the replica exists, in which the replica, when a sync is due, never asks again for a root after it
asked for another. -/
theorem syncs_paid_once (genesis : Genesis cfg) (before during : List (Input AccountId))
    (bucketId : ℕ) (who : AccountId)
    (hexists : StepsMeet (step cfg) (fun s _ ↦ s.storageAgreements.lookup (bucketId, who) ≠ none)
      (run (step cfg) genesis.state before) during)
    (hforward : NeverReturns
      (requestedRoots cfg bucketId who (run (step cfg) genesis.state before) during)) :
    (paidSyncs cfg bucketId who (run (step cfg) genesis.state before) during).Nodup :=
  List.Nodup.of_map _ (paidSyncs_nodup (funded_run cfg genesis.funded before) hexists hforward)

/-! ### Going back -/

/-- Provider 4 keeps replicas for one unit a sync. -/
def withReplica : Genesis Mock.config :=
  Mock.genesisOf [(1, 10000), (2, 10000), (4, 10000)]
    [Mock.genesisProvider 2 1000 .default,
      Mock.genesisProvider 4 1000 { ProviderSettings.default with replicaSyncPrice := some 1 }]
    (by decide +kernel) (by decide +kernel) (by decide +kernel)

/-- Ten units for the syncs of a replica of the first bucket. -/
def replicaQuote : AgreementTerms ℕ := ⟨1, 10, 50, 0, 20, 1, .existing 0, some ⟨10, 0, 1⟩⟩

/-- A bucket whose history lists one leaf and whose snapshot two, with a replica. -/
def twoRoots : List (Input ℕ) :=
  [Mock.redeemLong, .call (.signed 1) (.addReplicaProvider 0 4 replicaQuote
      (Mock.quote replicaQuote replicaTermContext 4)),
    .advance 3, Mock.checkpointSigned Mock.oneLeaf, Mock.checkpointSigned Mock.twoLeaves]

/-- The replica confirms the root at one position. -/
def confirmAt (position : Fin 7) (root : H256) : Input ℕ :=
  let roots : Fin 7 → Option H256 := Function.update (fun _ ↦ none) position (some root)
  .call (.signed 4) (.confirmReplicaSync 0 roots (Mock.sign (Mock.keyOf 4) (encodeRoots roots)))

/-- The replica confirms the older root and then the current one. -/
def catchUp : List (Input ℕ) :=
  [confirmAt ⟨1, by decide⟩ Mock.oneLeaf.mmrRoot, confirmAt ⟨0, by decide⟩ Mock.twoLeaves.mmrRoot]

theorem syncs_paid_once_catchUp :
    (paidSyncs Mock.config 0 4 (run (step Mock.config) withReplica.state twoRoots) catchUp).Nodup :=
  syncs_paid_once withReplica twoRoots catchUp 0 4 (by decide +kernel) (by decide +kernel)

/-- A confirmation changes no bucket. -/
private theorem buckets_confirmAt (s : State ℕ) (position : Fin 7) (root : H256) :
    (step Mock.config s (confirmAt position root)).buckets = s.buckets := by
  simp only [confirmAt, step]
  split_ifs with hfits
  · simp only [dispatch, dispatchSigned]
    split
    · next after hafter =>
      obtain ⟨_, _, _, _, _, _, _, _, -, -, -, -, -, -, -, rfl⟩ := confirmReplicaSync_ok hafter
      rfl
    · rfl
  · rfl

/-- A replica that goes back and forth between two roots of an unchanged bucket is paid each time: the
four confirmations take four units of its owner's escrow. -/
theorem alternating_syncs_paid :
    (∀ during, during <+: catchUp ++ catchUp →
      (run (step Mock.config) (run (step Mock.config) withReplica.state twoRoots) during).buckets =
        (run (step Mock.config) withReplica.state twoRoots).buckets) ∧
      paidSyncs Mock.config 0 4 (run (step Mock.config) withReplica.state twoRoots)
          (catchUp ++ catchUp) = [Mock.oneLeaf, Mock.twoLeaves, Mock.oneLeaf, Mock.twoLeaves] ∧
        (run (step Mock.config) withReplica.state (twoRoots ++ (catchUp ++ catchUp))).held
            .agreementPayment 1 + 4 =
          (run (step Mock.config) withReplica.state twoRoots).held .agreementPayment 1 := by
  refine ⟨fun during hduring ↦ ?_, by decide +kernel, by decide +kernel⟩
  have hconfirms : ∀ input ∈ during, ∃ position root, input = confirmAt position root := by
    intro input hinput
    have hmem := hduring.subset hinput
    simp only [catchUp, List.cons_append, List.nil_append, List.mem_cons, List.not_mem_nil,
      or_false] at hmem
    rcases hmem with rfl | rfl | rfl | rfl
    · exact ⟨_, _, rfl⟩
    · exact ⟨_, _, rfl⟩
    · exact ⟨_, _, rfl⟩
    · exact ⟨_, _, rfl⟩
  clear hduring
  generalize run (step Mock.config) withReplica.state twoRoots = start
  induction during generalizing start with
  | nil => rfl
  | cons input rest ih =>
    obtain ⟨position, root, rfl⟩ := hconfirms input (List.mem_cons_self ..)
    rw [run_cons, ih (fun other hother ↦ hconfirms other (List.mem_cons_of_mem _ hother)),
      buckets_confirmAt]

end Web3Storage.Pallet
