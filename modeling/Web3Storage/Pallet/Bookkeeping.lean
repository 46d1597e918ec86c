import Web3Storage.Pallet.BucketIds
import Web3Storage.Pallet.Mock

/-!
# Holds equal bookkeeping

The holds for agreement payments on an account equal the escrows of the agreements it owns, and the
hold of a provider's stake equals the stake its record states. The second law holds in every
reachable state. The first one needs that no agreement is written over: the calls that add a
provider to an existing bucket refuse a taken key, but the creation of a bucket with its first
primary relies on the new id, and the counter of bucket ids saturates (`holds_back_bookkeeping`).
At the largest id the second such creation writes over the first agreement, whose escrow stays on
hold for nobody (`hold_without_agreement`).
-/

set_option autoImplicit false
set_option relaxedAutoImplicit false

namespace Web3Storage.Pallet

open Foundations Primitives
open Ledger (Moves amountAt)

variable {AccountId : Type} [DecidableEq AccountId] {cfg : Config AccountId}
  {s s' : State AccountId} {input : Input AccountId}

/-- What the agreements of an owner keep on hold. -/
def State.escrowOf (s : State AccountId) (a : AccountId) : ℕ :=
  ownedSum (fun _ agreement ↦ agreement.owner) StorageAgreement.escrow s.storageAgreements a

/-- The stake that the provider record of an account states, zero without a record. -/
def State.stakeOf (s : State AccountId) (a : AccountId) : ℕ :=
  ((s.providers.lookup a).map ProviderInfo.stake).getD 0

/-- A bucket created with a primary finds no agreement of that provider under its new id. -/
def CreatesAtFreeKey (s : State AccountId) : Input AccountId → Prop
  | .call (.signed _) (.createBucketWithPrimary provider _ _ _) =>
    s.storageAgreements.lookup (s.nextBucketId, provider) = none
  | _ => True

instance (s : State AccountId) (input : Input AccountId) : Decidable (CreatesAtFreeKey s input) := by
  unfold CreatesAtFreeKey
  split
  · infer_instance
  · infer_instance

/-! ### Escrows -/

/-- A step at a free key keeps the holds equal to the escrows. -/
theorem EscrowChange.held_eq (h : EscrowChange s input s') (hfree : CreatesAtFreeKey s input)
    (hs : ∀ a, s.held .agreementPayment a = s.escrowOf a) (a : AccountId) :
    s'.held .agreementPayment a = s'.escrowOf a := by
  have hbalances : Balances (fun _ agreement ↦ agreement.owner) StorageAgreement.escrow
      s.storageAgreements (s.held .agreementPayment) := hs
  unfold State.escrowOf
  cases h with
  | kept input s' hagreements hheld =>
    rw [hagreements]
    exact hbalances.congr hheld a
  | written input s' key new hagreements hheld =>
    rw [hagreements]
    exact hbalances.insert hheld a
  | overwritten s' who provider terms signature visibility old new hold hagreements hheld =>
    have hnone : s.storageAgreements.lookup (s.nextBucketId, provider) = none := hfree
    rw [hold] at hnone
    cases hnone
  | erased input s' key hagreements hheld =>
    rw [hagreements]
    exact hbalances.erase hheld a

/-! ### Stakes -/

theorem State.stakeOf_of_lookup {a : AccountId} {info : ProviderInfo}
    (h : s.providers.lookup a = some info) : s.stakeOf a = info.stake := by
  rw [State.stakeOf, h]
  rfl

/-- A written provider record changes the stake of its account only. -/
theorem State.stakeOf_insert {who : AccountId} {info : ProviderInfo}
    (hproviders : s'.providers = s.providers.insert who info) (a : AccountId) :
    s'.stakeOf a = if a = who then info.stake else s.stakeOf a := by
  rw [State.stakeOf, hproviders, FiniteMap.lookup_insert_eq]
  split_ifs with hwho
  · rfl
  · rfl

/-- A modified provider record keeps its stake when the modification does. -/
private theorem stakeOf_modify {who : AccountId} {change : ProviderInfo → ProviderInfo}
    (hproviders : s'.providers = FiniteMap.modify who change s.providers)
    (hchange : ∀ info, (change info).stake = info.stake) (a : AccountId) :
    s'.stakeOf a = s.stakeOf a := by
  rw [State.stakeOf, State.stakeOf, hproviders, FiniteMap.map_lookup_modify hchange]

/-- A step that moves no stake and changes no record's stake keeps the stakes backed. -/
private theorem stake_kept {gain loss : HoldReason → AccountId → ℕ} {a : AccountId}
    (hmoves : Moves gain loss s.ledger s'.ledger) (hgain : gain .providerStake a = 0)
    (hloss : loss .providerStake a = 0) (hstake : s'.stakeOf a = s.stakeOf a)
    (hs : s.held .providerStake a = s.stakeOf a) : s'.held .providerStake a = s'.stakeOf a := by
  have hheld := hmoves.held_add .providerStake a
  rw [hgain, hloss] at hheld
  rw [hstake, ← hs]
  exact hheld

/-- An expired challenge takes the same amount from the hold and from the record. -/
theorem slashProvider_stake (cfg : Config AccountId) (challenge : Challenge AccountId)
    (challengeId : ChallengeId) (hs : ∀ a, s.held .providerStake a = s.stakeOf a) (a : AccountId) :
    (slashProviderForFailedChallenge cfg challenge challengeId s).held .providerStake a =
      (slashProviderForFailedChallenge cfg challenge challengeId s).stakeOf a := by
  cases hinfo : s.providers.lookup challenge.provider with
  | none =>
    rw [slashProvider_of_none cfg challengeId hinfo]
    exact hs a
  | some info =>
    obtain ⟨ledger, slashed, hslashed, hheld, -, -, hs'⟩ := slashProvider_of_some cfg challengeId hinfo
    have hbacked := hs challenge.provider
    rw [State.stakeOf_of_lookup hinfo] at hbacked
    have hother := hs a
    have hafter := hheld .providerStake a
    simp only [Ledger.amountAt_apply, reduceCtorEq, false_and, true_and, if_false] at hafter
    rw [hs', State.stakeOf_insert rfl]
    simp only [State.held] at hbacked hother ⊢
    split_ifs at hafter ⊢ with ha
    · subst ha
      omega
    · omega

/-- Every effect keeps the stakes backed. -/
theorem Effect.stake_eq (h : Effect cfg s input s')
    (hs : ∀ a, s.held .providerStake a = s.stakeOf a) (a : AccountId) :
    s'.held .providerStake a = s'.stakeOf a := by
  cases h with
  | rejected origin call => exact hs a
  | advanced block hnow hfits => exact hs a
  | outside input ledger nonces hinput hheld htotal => exact (hheld .providerStake a).trans (hs a)
  | registered who multiaddr publicKey info ledger events deposit hnew hcommitted hcapacity hactive
      hmoves =>
    have hheld := hmoves.held_add .providerStake a
    have hbefore := hs a
    rw [State.stakeOf_insert rfl]
    simp only [Ledger.amountAt_apply, Pi.add_apply, Pi.zero_apply, reduceCtorEq, true_and,
      false_and, if_false] at hheld
    simp only [State.held] at hbefore ⊢
    split_ifs at hheld ⊢ with ha
    · subst ha
      have hnone : s.stakeOf a = 0 := by rw [State.stakeOf, hnew]; rfl
      omega
    · omega
  | providerChanged who call old new ledger events amount hold hcommitted hstake hcapacity hmoves =>
    have hheld := hmoves.held_add .providerStake a
    have hbefore := hs a
    rw [State.stakeOf_insert rfl]
    simp only [Ledger.amountAt_apply, Pi.zero_apply, true_and] at hheld
    simp only [State.held] at hbefore ⊢
    split_ifs at hheld ⊢ with ha
    · subst ha
      rw [State.stakeOf_of_lookup hold] at hbefore
      omega
    · omega
  | deregistered who old ledger events deposit hold hcommitted hpending hmoves =>
    have hheld := hmoves.held_add .providerStake a
    have hbefore := hs a
    rw [State.stakeOf, FiniteMap.lookup_erase_eq]
    simp only [Ledger.amountAt_apply, Pi.add_apply, Pi.zero_apply, reduceCtorEq, true_and,
      false_and, if_false] at hheld
    simp only [State.held] at hbefore ⊢
    split_ifs at hheld ⊢ with ha
    · subst ha
      rw [State.stakeOf_of_lookup hold] at hbefore
      simp only [Option.map_none, Option.getD_none]
      omega
    · rw [State.stakeOf] at hbefore
      omega
  | bucketCreated who minProviders visibility bucket ledger memberBuckets events gain hprimaries
      hsnapshot hfrozen hgain hmoves =>
    exact stake_kept hmoves (hgain _ a (by decide)) rfl rfl (hs a)
  | bucketDeleted who bucketId ledger memberBuckets events loss hagreements hpending hloss hmoves =>
    exact stake_kept hmoves rfl (hloss _ a (by decide)) rfl (hs a)
  | bucketChanged who call bucketId old new ledger memberBuckets events gain loss hold hprimaries
      hsnapshot hfrozen hgain hloss hmoves =>
    exact stake_kept hmoves (hgain _ a (by decide)) (hloss _ a (by decide)) rfl (hs a)
  | checkpointed who bucketId commitment signatures old new bits signers events hok hold hpinned
      hsigned hprimaries hfrozen hsnapshot => exact hs a
  | checkpointExtended who bucketId signatures old new snapshot bits signers events hok hold
      hsnapshotOld hsigned hprimaries hfrozen hsnapshot => exact hs a
  | opened owner call bucketId provider terms signature target kind info agreement deposits ledger
      buckets nextBucketId nonces memberBuckets events hopening hbuckets hcall =>
    exact stake_kept hopening.moves (by simp [Ledger.amountAt_apply]) rfl
      (stakeOf_modify rfl (fun _ ↦ by rfl) a) (hs a)
  | toppedUp who bucketId provider additionalBytes maxPayment info old new ledger events hinfo
      hactive hold hrole hbytes hmoves =>
    exact stake_kept hmoves (by simp [Ledger.amountAt_apply]) (by simp [Ledger.amountAt_apply])
      (stakeOf_modify rfl (fun _ ↦ by rfl) a) (hs a)
  | amended who call bucketId provider old new ledger stats events hold hrole hbytes hmoves =>
    exact stake_kept hmoves (by simp [Ledger.amountAt_apply]) (by simp [Ledger.amountAt_apply])
      (stakeOf_modify rfl (fun _ ↦ by rfl) a) (hs a)
  | closed who call bucketId provider old ledger deposit stats events hpending hold hmoves =>
    exact stake_kept hmoves rfl (by simp [Ledger.amountAt_apply])
      (stakeOf_modify rfl (fun _ ↦ by rfl) a) (hs a)
  | challengeOpened who call bucketId provider bucket agreement commitment target challengeId
      challenge ledger events hcall hbucket hagreement hlive hleaf hdeadline hindex hbound
      hchallenge hmoves =>
    exact stake_kept hmoves (by simp [Ledger.amountAt_apply]) rfl rfl (hs a)
  | challengeAnswered who challengeId response challenge bucket paid ledger hchallenge hprovider
      hdeadline hbucket hresponse hpaid hmoves =>
    exact stake_kept hmoves rfl (by simp [Ledger.amountAt_apply])
      (stakeOf_modify rfl (fun _ ↦ by rfl) a) (hs a)
  | challengeExpired origin challengeId challenge hchallenge hexpired =>
    refine slashProvider_stake cfg challenge challengeId ?_ a
    exact hs

/-! ### Whole runs -/

private theorem Genesis.escrow_eq (genesis : Genesis cfg) (a : AccountId) :
    genesis.state.held .agreementPayment a = genesis.state.escrowOf a :=
  genesis.induction (fun s ↦ ∀ a, s.held .agreementPayment a = s.escrowOf a)
    (genesis.unheld .agreementPayment)
    (fun _ _ _ _ _ _ _ hs _ h ↦ h.escrowChange.held_eq trivial hs)
    (fun _ _ _ _ _ _ _ _ hs _ _ h ↦ h.escrowChange.held_eq trivial hs) a

private theorem Genesis.stake_eq (genesis : Genesis cfg) (a : AccountId) :
    genesis.state.held .providerStake a = genesis.state.stakeOf a :=
  genesis.induction (fun s ↦ ∀ a, s.held .providerStake a = s.stakeOf a)
    (genesis.unheld .providerStake) (fun _ _ _ _ _ _ _ hs _ h ↦ h.stake_eq hs)
    (fun _ _ _ _ _ _ _ _ hs _ _ h ↦ h.stake_eq hs) a

/-- The hold of a provider's stake equals the stake of its record, in every reachable state. -/
theorem stake_backed (genesis : Genesis cfg) (inputs : List (Input AccountId)) (a : AccountId) :
    (run (step cfg) genesis.state inputs).held .providerStake a =
      (run (step cfg) genesis.state inputs).stakeOf a :=
  genesis.invariant_of_effect (fun s ↦ ∀ a, s.held .providerStake a = s.stakeOf a)
    genesis.stake_eq (fun _ _ _ _ hs h ↦ h.stake_eq hs) inputs a

/-- Escrow exactness. Assumes: a run from genesis in which no bucket is created with a primary while
an agreement of that provider is stored under the next bucket id. In its last state, and so in every
state on the way, the payments held on an account are the escrows of its agreements, and the stake
held on it is the stake of its provider record. -/
theorem holds_back_bookkeeping (genesis : Genesis cfg) (inputs : List (Input AccountId))
    (hinputs : StepsMeet (step cfg) (OfAccepted cfg CreatesAtFreeKey) genesis.state inputs)
    (a : AccountId) :
    (run (step cfg) genesis.state inputs).held .agreementPayment a =
        (run (step cfg) genesis.state inputs).escrowOf a ∧
      (run (step cfg) genesis.state inputs).held .providerStake a =
        (run (step cfg) genesis.state inputs).stakeOf a := by
  refine ⟨?_, stake_backed genesis inputs a⟩
  exact genesis.invariant_of_accepted (fun s ↦ ∀ a, s.held .agreementPayment a = s.escrowOf a)
    genesis.escrow_eq (fun _ hs ↦ hs) (fun _ _ _ _ hs hfree h ↦ h.escrowChange.held_eq hfree hs) hinputs a

/-! ### A run on the mock runtime -/

theorem holds_back_bookkeeping_redeemed :
    (run (step Mock.config) Mock.twoParties.state [Mock.redeemNewBucket 2 0]).held
        .agreementPayment 1 =
      (run (step Mock.config) Mock.twoParties.state [Mock.redeemNewBucket 2 0]).escrowOf 1 ∧
    (run (step Mock.config) Mock.twoParties.state [Mock.redeemNewBucket 2 0]).held
        .providerStake 1 =
      (run (step Mock.config) Mock.twoParties.state [Mock.redeemNewBucket 2 0]).stakeOf 1 :=
  holds_back_bookkeeping Mock.twoParties [Mock.redeemNewBucket 2 0]
    (stepsMeet_ofAccepted (by decide +kernel)) 1

/-- After all ids but the last are used up, two quotes of one provider are redeemed for a new
bucket: both get the last id. -/
def reuseLastId : List (Input ℕ) :=
  churn 1 u64Max ++ [Mock.redeemNewBucket 2 0, Mock.redeemNewBucket 2 1]

/-- The second agreement replaces the first, whose payment stays on hold. -/
theorem hold_without_agreement :
    (run (step Mock.config) Mock.twoParties.state reuseLastId).held .agreementPayment 1 = 200 ∧
      (run (step Mock.config) Mock.twoParties.state reuseLastId).escrowOf 1 = 100 := by
  have hcreated : isOk (createBucket Mock.config 1 1 .publicRead Mock.twoParties.state) = true := by
    decide +kernel
  have hrun : run (step Mock.config) Mock.twoParties.state reuseLastId =
      run (step Mock.config) { Mock.twoParties.state with nextBucketId := u64Max }
        [Mock.redeemNewBucket 2 0, Mock.redeemNewBucket 2 1] :=
    run_churn_append rfl rfl rfl rfl rfl rfl rfl
      (Mock.eq_ok_getD_of_isOk Mock.twoParties.state hcreated) _ _ _
  rw [hrun]
  decide +kernel

end Web3Storage.Pallet
