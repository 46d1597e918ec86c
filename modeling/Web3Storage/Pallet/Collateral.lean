import Web3Storage.Pallet.CommittedBytes

/-!
# Collateral

A redeemed quote is checked against the stake and the declared capacity of its provider, new
settings against the bytes already committed. A top-up commits more bytes with neither check
(`top_up_beyond_collateral`). When every top-up stays within stake and capacity, the stake of every
provider that was not slashed since its registration backs its committed bytes, and these stay
within its capacity (`collateral_backs_commitments`).
-/

set_option autoImplicit false
set_option relaxedAutoImplicit false

namespace Web3Storage.Pallet

open Foundations Primitives

variable {AccountId : Type} [DecidableEq AccountId] {cfg : Config AccountId}
  {s s' : State AccountId} {input : Input AccountId}

/-- The stake of a provider and its capacity, if limited, allow a number of bytes. -/
def Allows (cfg : Config AccountId) (info : ProviderInfo) (bytes : ℕ) : Prop :=
  cfg.minStakePerByte * bytes ≤ info.stake ∧
    (0 < info.settings.maxCapacity → bytes ≤ info.settings.maxCapacity)

instance (cfg : Config AccountId) (info : ProviderInfo) (bytes : ℕ) :
    Decidable (Allows cfg info bytes) :=
  inferInstanceAs (Decidable (_ ∧ _))

/-- A top-up stays within what the provider's stake and capacity allow. -/
def TopUpAllowed (cfg : Config AccountId) (s : State AccountId) : Input AccountId → Prop
  | .call (.signed _) (.topUpAgreement _ provider additionalBytes _) =>
    ∀ info ∈ s.providers.lookup provider, Allows cfg info (info.committedBytes + additionalBytes)
  | _ => True

instance (cfg : Config AccountId) (s : State AccountId) (input : Input AccountId) :
    Decidable (TopUpAllowed cfg s input) := by
  induction input using Input.casesOn with
  | call origin call =>
    induction origin using Origin.casesOn with
    | signed who =>
      induction call using Call.casesOn with
      | topUpAgreement bucketId provider additionalBytes maxPayment => exact inferInstanceAs (Decidable
          (∀ info ∈ s.providers.lookup provider, Allows cfg info (info.committedBytes + additionalBytes)))
      | _ => exact .isTrue trivial
    | _ => exact .isTrue trivial
  | _ => exact .isTrue trivial

/-- Whether an event reports a slash of a provider. -/
def Event.slashes (p : AccountId) : Event AccountId → Bool
  | .challengeSlashed _ provider _ => provider = p
  | _ => false

/-- A step slashes a provider. -/
def Slashes (cfg : Config AccountId) (p : AccountId) (s : State AccountId)
    (input : Input AccountId) : Prop :=
  ∃ event ∈ (step cfg s input).events, event.slashes p = true

instance (cfg : Config AccountId) (p : AccountId) (s : State AccountId)
    (input : Input AccountId) : Decidable (Slashes cfg p s input) :=
  inferInstanceAs (Decidable (∃ event ∈ (step cfg s input).events, event.slashes p = true))

/-- A provider was slashed in a run and has had a record ever since. -/
def SlashedSinceRegistration (cfg : Config AccountId) (start : State AccountId)
    (inputs : List (Input AccountId)) (p : AccountId) : Prop :=
  Since (step cfg) (Slashes cfg p) (fun s ↦ p ∈ s.providers) start inputs

omit [DecidableEq AccountId] in
/-- Fewer bytes are allowed by more stake and the same capacity. -/
private theorem Allows.mono {old new : ProviderInfo} {bytes fewer : ℕ}
    (h : Allows cfg old bytes) (hbytes : fewer ≤ bytes) (hstake : old.stake ≤ new.stake)
    (hcapacity : new.settings.maxCapacity = old.settings.maxCapacity) : Allows cfg new fewer := by
  refine ⟨?_, fun hlimited ↦ ?_⟩
  · calc cfg.minStakePerByte * fewer ≤ cfg.minStakePerByte * bytes :=
          Nat.mul_le_mul_left _ hbytes
      _ ≤ old.stake := h.1
      _ ≤ new.stake := hstake
  · rw [hcapacity] at hlimited ⊢
    exact hbytes.trans (h.2 hlimited)

/-- Every effect that does not slash a provider keeps what it committed allowed. Assumes: top-ups
within stake and capacity. -/
theorem Effect.allows (h : Effect cfg s input s') (htopUp : TopUpAllowed cfg s input)
    {p : AccountId} (hslashed : ¬ ∃ event ∈ s'.events, event.slashes p = true)
    (hs : ∀ info, s.providers.lookup p = some info → Allows cfg info info.committedBytes)
    {info : ProviderInfo} (hinfo : s'.providers.lookup p = some info) :
    Allows cfg info info.committedBytes := by
  -- the modifications that keep stake, capacity and committed bytes
  have hkept {who : AccountId} {change : ProviderInfo → ProviderInfo}
      (hmodify : (FiniteMap.modify who change s.providers).lookup p = some info)
      (hchange : ∀ old, (change old).stake = old.stake ∧ (change old).settings = old.settings ∧
        (change old).committedBytes ≤ old.committedBytes) :
      Allows cfg info info.committedBytes := by
    obtain ⟨old, hold, ⟨-, rfl⟩ | rfl⟩ := FiniteMap.lookup_modify_cases hmodify
    · obtain ⟨hstake, hsettings, hcommitted⟩ := hchange old
      exact (hs old hold).mono hcommitted hstake.ge (by rw [hsettings])
    · exact hs info hold
  cases h with
  | rejected | advanced | outside | bucketCreated | bucketDeleted | bucketChanged | checkpointed
  | checkpointExtended | challengeOpened => exact hs info hinfo
  | registered who multiaddr publicKey registered ledger events deposit hnew hcommitted hcapacity
      hactive hmoves =>
    simp only [FiniteMap.lookup_insert_eq] at hinfo
    split_ifs at hinfo with hp
    · cases hinfo
      rw [hcommitted]
      exact ⟨Nat.zero_le _, fun _ ↦ Nat.zero_le _⟩
    · exact hs info hinfo
  | providerChanged who call old new ledger events amount hold hcommitted hstake hcapacity hmoves =>
    simp only [FiniteMap.lookup_insert_eq] at hinfo
    split_ifs at hinfo with hp
    · cases hinfo
      subst hp
      have hbefore := hs old hold
      rw [hcommitted]
      rcases hcapacity with hsame | hchecked
      · exact hbefore.mono le_rfl (by omega) hsame
      · exact ⟨hbefore.1.trans (by omega), hchecked⟩
    · exact hs info hinfo
  | deregistered who old ledger events deposit hold hcommitted hpending hmoves =>
    simp only [FiniteMap.lookup_erase_eq] at hinfo
    split_ifs at hinfo with hp
    exact hs info hinfo
  | opened owner call bucketId provider terms signature target kind record agreement deposits ledger
      buckets nextBucketId nonces memberBuckets events hopening hbuckets hcall =>
    obtain ⟨old, hold, ⟨rfl, rfl⟩ | rfl⟩ := FiniteMap.lookup_modify_cases hinfo
    · rw [hopening.lookup_info] at hold
      cases hold
      exact ⟨hopening.stake_ge, hopening.capacity_le⟩
    · exact hs info hold
  | toppedUp who bucketId provider additionalBytes maxPayment record old new ledger events hrecord
      hactive hold hrole hbytes hmoves =>
    obtain ⟨before, hbefore, ⟨rfl, rfl⟩ | rfl⟩ := FiniteMap.lookup_modify_cases hinfo
    · have hallowed : Allows cfg before (before.committedBytes + additionalBytes) :=
        htopUp before hbefore
      exact hallowed.mono (Nat.min_le_left _ _) le_rfl rfl
    · exact hs info hbefore
  | amended who call bucketId provider old new ledger stats events hold hrole hbytes hmoves =>
    exact hkept hinfo fun _ ↦ ⟨rfl, rfl, le_rfl⟩
  | closed who call bucketId provider old ledger deposit stats events hpending hold hmoves =>
    exact hkept hinfo fun _ ↦ ⟨rfl, rfl, Nat.sub_le _ _⟩
  | challengeAnswered who challengeId response challenge bucket paid ledger hchallenge hprovider
      hdeadline hbucket hresponse hpaid hmoves =>
    exact hkept hinfo fun _ ↦ ⟨rfl, rfl, le_rfl⟩
  | challengeExpired origin challengeId challenge hchallenge hexpired =>
    unfold slashProviderForFailedChallenge at hinfo hslashed
    split at hinfo
    · exact hs info hinfo
    · rename_i record hrecord
      simp only [hrecord] at hslashed
      simp only [FiniteMap.lookup_insert_eq] at hinfo
      split_ifs at hinfo with hp
      · subst hp
        exact absurd ⟨_, List.mem_append_right _ (List.mem_singleton.mpr rfl), by simp [Event.slashes]⟩
          hslashed
      · exact hs info hinfo

/-! ### Whole runs -/

private theorem Genesis.committed_eq_zero (genesis : Genesis cfg) :
    ∀ p info, genesis.state.providers.lookup p = some info → info.committedBytes = 0 := by
  refine genesis.induction
    (fun s ↦ ∀ p info, s.providers.lookup p = some info → info.committedBytes = 0) ?_ ?_ ?_
  · intro p info hinfo
    cases hinfo
  · intro s who multiaddr publicKey registered ledger events hs hcommitted _ p info hinfo
    simp only [FiniteMap.lookup_insert_eq] at hinfo
    split_ifs at hinfo with hp
    · cases hinfo
      exact hcommitted
    · exact hs p info hinfo
  · intro s who minProviders visibility bucket ledger memberBuckets events hs _ _ _
    exact hs

/-- Collateral backs commitments. Assumes: a run from genesis whose top-ups stay within the stake
and the capacity of the provider, and a provider that was not slashed since its registration. Its
stake covers its committed bytes, and they stay within its capacity if that is limited. -/
theorem collateral_backs_commitments (genesis : Genesis cfg) (inputs : List (Input AccountId))
    (hinputs : StepsMeet (step cfg) (OfAccepted cfg (TopUpAllowed cfg)) genesis.state inputs)
    (p : AccountId) (info : ProviderInfo)
    (hinfo : (run (step cfg) genesis.state inputs).providers.lookup p = some info)
    (hslashed : ¬ SlashedSinceRegistration cfg genesis.state inputs p) :
    cfg.minStakePerByte * info.committedBytes ≤ info.stake ∧
      (0 < info.settings.maxCapacity → info.committedBytes ≤ info.settings.maxCapacity) := by
  -- induction on the last step: the slashes since registration grow with the run
  induction inputs using List.reverseRecOn generalizing info with
  | nil =>
    rw [genesis.committed_eq_zero p info hinfo]
    exact ⟨Nat.zero_le _, fun _ ↦ Nat.zero_le _⟩
  | append_singleton inputs input ih =>
    rw [run_concat] at hinfo
    rw [SlashedSinceRegistration, since_concat, not_and, not_or] at hslashed
    obtain ⟨hearlier, hnow⟩ := hslashed (Finmap.mem_of_lookup_eq_some hinfo)
    have heffect : Effect cfg (run (step cfg) genesis.state inputs) input _ :=
      effect_of_step (funded_run cfg genesis.funded inputs) input
    rcases hinputs.right.1.cases with hallowed | hrefused
    · refine heffect.allows hallowed hnow (fun before hbefore ↦ ?_) hinfo
      exact ih hinputs.left before hbefore hearlier
    · rw [hrefused] at hinfo
      exact ih hinputs.left info hinfo hearlier

/-! ### Runs on the mock runtime -/

theorem collateral_backs_commitments_topUp :
    ∃ info, (run (step Mock.config) Mock.twoParties.state (topUpSecond 5)).providers.lookup 2 =
        some info ∧
      Mock.config.minStakePerByte * info.committedBytes ≤ info.stake ∧
        (0 < info.settings.maxCapacity → info.committedBytes ≤ info.settings.maxCapacity) := by
  have hmem : ((run (step Mock.config) Mock.twoParties.state
      (topUpSecond 5)).providers.lookup 2).isSome = true := by
    decide +kernel
  obtain ⟨info, hinfo⟩ := Option.isSome_iff_exists.mp hmem
  refine ⟨info, hinfo, collateral_backs_commitments Mock.twoParties (topUpSecond 5)
    (stepsMeet_ofAccepted (by decide +kernel)) 2 info hinfo (not_since_of_stepsMeet ?_)⟩
  decide +kernel

/-- A provider with a stake of 1000 at one unit a byte is topped up to 5000 bytes, unslashed. -/
theorem top_up_beyond_collateral :
    ¬ SlashedSinceRegistration Mock.config Mock.twoParties.state (topUpSecond 4980) 2 ∧
      ((run (step Mock.config) Mock.twoParties.state (topUpSecond 4980)).providers.lookup 2).map
        (fun info ↦ (info.stake, info.committedBytes)) = some (1000, 5000) := by
  refine ⟨not_since_of_stepsMeet ?_, ?_⟩
  · decide +kernel
  · decide +kernel

end Web3Storage.Pallet
