import Web3Storage.Node.Coordinator
import Web3Storage.Pallet.CommittedBytes
import Web3Storage.Pallet.Mock

/-!
# Whether a node's view of its provider record stays current

A node reads its record at the bootstrap and after every block with a lifecycle event of its account.
Added stake, redeemed quotes, top-ups, closed agreements and slashes change the record under events
that are not lifecycle events. A view is current after every block of a run in which each block with
such a change also has a lifecycle call of the provider (`view_current`); without one the view is
stale for good (`view_stale`).
-/

set_option autoImplicit false
set_option relaxedAutoImplicit false

namespace Web3Storage.Node

open Foundations Primitives
open Pallet (Call CommittedFits Config Effect Event Funded Genesis Input Origin State accepted step)

/-! ### What a view is to agree in -/

/-- The part of a provider record that quotes are made from. -/
structure Standing where
  stake : ℕ
  committedBytes : ℕ
  settings : Pallet.ProviderSettings
  multiaddr : String
  deregisterAt : Option ℕ
  deriving DecidableEq

def ProviderInfo.standing (info : ProviderInfo) : Standing :=
  ⟨info.stake, info.committedBytes, info.settings, info.multiaddr, info.deregisterAt⟩

/-- The standing of a record of the runtime. -/
def recordStanding (info : Pallet.ProviderInfo) : Standing := (providerInfoFromRuntime info).standing

/-- A view agrees with a record: both are missing, or they have the same standing. -/
def Agrees (view : Option ProviderInfo) (record : Option Pallet.ProviderInfo) : Prop :=
  view.map ProviderInfo.standing = record.map recordStanding

variable {AccountId : Type} [DecidableEq AccountId]

/-- The standing of a provider on the chain. -/
def standingOf (provider : AccountId) (s : State AccountId) : Option Standing :=
  (s.providers.lookup provider).map recordStanding

/-! ### Calls that change a standing -/

/-- Whether a call has a lifecycle event when it is accepted. -/
def isLifecycleCall : Call AccountId → Bool
  | .registerProvider .. | .deregisterProvider | .completeDeregister | .cancelDeregister
  | .updateProviderSettings _ | .updateProviderMultiaddr _ => true
  | _ => false

/-- Whether an accepted call changes the standing of a provider without a lifecycle event. -/
def changesSilently (provider : AccountId) (s : State AccountId) :
    Origin AccountId → Call AccountId → Bool
  | .signed who, .addStake amount => who = provider && 0 < amount
  | .signed _, .createBucketWithPrimary quoted _ _ _ => quoted = provider
  | .signed _, .addPrimaryProvider _ quoted _ _ => quoted = provider
  | .signed _, .addReplicaProvider _ quoted _ _ => quoted = provider
  | .signed _, .topUpAgreement _ extended additionalBytes _ =>
    extended = provider && 0 < additionalBytes
  | .signed _, .removeSlashed _ closed => closed = provider
  | .signed _, .endAgreement _ closed _ => closed = provider
  | .signed who, .claimExpiredAgreement _ => who = provider
  | _, .resolveExpiredChallenge challengeId =>
    (s.challenges.lookup challengeId).any (·.provider = provider) &&
      (s.providers.lookup provider).any (0 < ·.stake)
  | _, _ => false

variable (cfg : Config AccountId)

/-- A lifecycle call of a provider is accepted. -/
def announces (provider : AccountId) (s : State AccountId) : Input AccountId → Bool
  | .call (.signed who) call =>
    who = provider && isLifecycleCall call && accepted cfg s (.signed who) call
  | _ => false

/-- A call that changes the standing of a provider without a lifecycle event is accepted. -/
def silent (provider : AccountId) (s : State AccountId) : Input AccountId → Bool
  | .call origin call => accepted cfg s origin call && changesSilently provider s origin call
  | _ => false

/-- A block without a lifecycle call of a provider does not change its standing silently. -/
def Announced (provider : AccountId) (s : State AccountId) (inputs : List (Input AccountId)) : Prop :=
  StepsMeet (step cfg) (fun s input ↦ announces cfg provider s input = false) s inputs →
    StepsMeet (step cfg) (fun s input ↦ silent cfg provider s input = false) s inputs

variable {cfg} {provider : AccountId} {s s' : State AccountId}

/-! ### One step -/

section Step

theorem standingOf_insert {info : Pallet.ProviderInfo} {who : AccountId}
    (h : who = provider → some (recordStanding info) = standingOf provider s)
    (hproviders : s'.providers = s.providers.insert who info) :
    standingOf provider s' = standingOf provider s := by
  unfold standingOf at h ⊢
  rw [hproviders, FiniteMap.lookup_insert_eq]
  split_ifs with hwho
  · exact h hwho.symm
  · rfl

/-- A change of one record that keeps the standing of the provider, or is another's. -/
theorem standingOf_modify {change : Pallet.ProviderInfo → Pallet.ProviderInfo} {who : AccountId}
    (h : who = provider → ∀ info, s.providers.lookup provider = some info →
      recordStanding (change info) = recordStanding info)
    (hproviders : s'.providers = FiniteMap.modify who change s.providers) :
    standingOf provider s' = standingOf provider s := by
  unfold standingOf
  rw [hproviders, FiniteMap.lookup_modify_eq]
  split_ifs with hwho
  · cases hinfo : s.providers.lookup provider with
    | none => rfl
    | some info => exact congrArg some (h hwho.symm info hinfo)
  · rfl

/-- A redemption at a provider is silent. -/
private theorem changesSilently_of_redemption {who : AccountId} {call : Call AccountId}
    {redemption : Pallet.Redemption AccountId} (h : call.redemption who = some redemption) :
    changesSilently redemption.provider s (.signed who) call = true := by
  unfold Call.redemption at h
  split at h
  · cases h
    simp [changesSilently]
  · cases h
    simp [changesSilently]
  · cases h
    simp [changesSilently]
  · cases h

/-- A stake of nothing changes nothing. -/
private theorem standingOf_addStake {who : AccountId} {amount : ℕ}
    (hamount : who = provider → amount = 0)
    (h : Pallet.addStake cfg who amount s.withoutEvents = .ok s') :
    standingOf provider s' = standingOf provider s := by
  obtain ⟨info, ledger, hinfo, -, rfl⟩ := Pallet.addStake_ok h
  refine standingOf_insert (fun hwho ↦ ?_) rfl
  obtain rfl := hamount hwho
  subst hwho
  unfold standingOf
  rw [show s.providers.lookup who = some info from hinfo]
  rfl

/-- A slash keeps the standing of others, and of a provider without a stake. -/
private theorem standingOf_slashProvider (challenge : Pallet.Challenge AccountId)
    (challengeId : ChallengeId)
    (h : challenge.provider = provider → ∀ info, s.providers.lookup provider = some info →
      info.stake = 0) :
    standingOf provider (Pallet.slashProviderForFailedChallenge cfg challenge challengeId s) =
      standingOf provider s := by
  unfold Pallet.slashProviderForFailedChallenge
  split
  · rfl
  · rename_i info hinfo
    refine standingOf_insert (fun hprovider ↦ ?_) rfl
    subst hprovider
    have hstake := h rfl info hinfo
    unfold standingOf
    rw [hinfo]
    simp [recordStanding, providerInfoFromRuntime, ProviderInfo.standing, hstake]

/-- An accepted call that neither has a lifecycle event of a provider nor changes its standing
silently keeps the standing. -/
private theorem standingOf_accepted {origin : Origin AccountId} {call : Call AccountId} (hs : Funded s)
    (hfits : CommittedFits s) (haccepted : accepted cfg s origin call = true)
    (hsilent : changesSilently provider s origin call = false)
    (hquiet : ∀ event ∈ (step cfg s (.call origin call)).events,
      lifecycleAccount event ≠ some provider) :
    standingOf provider (step cfg s (.call origin call)) = standingOf provider s := by
  have hdispatch := Pallet.dispatch_of_accepted haccepted
  have heffect : Effect cfg s (.call origin call) (step cfg s (.call origin call)) :=
    Pallet.effect_of_step hs _
  generalize step cfg s (.call origin call) = s' at hdispatch heffect hquiet
  cases heffect with
  | rejected | outside | bucketCreated | bucketDeleted | bucketChanged | checkpointed
  | checkpointExtended | challengeOpened => rfl
  | registered who multiaddr publicKey info ledger events deposit _ _ _ _ _ hevent =>
    refine standingOf_insert (fun hwho ↦ ?_) rfl
    subst hwho
    exact absurd rfl (hquiet _ hevent)
  | providerChanged who call old new ledger events amount _ _ _ _ _ _ hannounced =>
    cases hannounced with
    | stakeAdded amount hcall =>
      subst hcall
      refine standingOf_addStake (fun hwho ↦ ?_) hdispatch
      simpa [changesSilently, hwho] using hsilent
    | exitAnnounced completeAfter hevent =>
      refine standingOf_insert (fun hwho ↦ ?_) rfl
      subst hwho
      exact absurd rfl (hquiet _ hevent)
    | exitCancelled hevent =>
      refine standingOf_insert (fun hwho ↦ ?_) rfl
      subst hwho
      exact absurd rfl (hquiet _ hevent)
    | settingsUpdated settings hevent =>
      refine standingOf_insert (fun hwho ↦ ?_) rfl
      subst hwho
      exact absurd rfl (hquiet _ hevent)
    | multiaddrUpdated multiaddr hevent =>
      refine standingOf_insert (fun hwho ↦ ?_) rfl
      subst hwho
      exact absurd rfl (hquiet _ hevent)
  | deregistered who old ledger events deposit _ _ _ _ _ hevent =>
    have hother : provider ≠ who := by
      rintro rfl
      exact hquiet _ hevent rfl
    unfold standingOf
    rw [FiniteMap.lookup_erase_eq, if_neg hother]
  | opened owner call bucketId quoted terms signature target kind info agreement deposits ledger
      buckets nextBucketId nonces memberBuckets events _ _ _ hredemption =>
    refine standingOf_modify (fun hquoted ↦ ?_) rfl
    subst hquoted
    rw [changesSilently_of_redemption hredemption] at hsilent
    cases hsilent
  | toppedUp who bucketId extended additionalBytes maxPayment info old new ledger events hinfo =>
    refine standingOf_modify (fun hextended info hlookup ↦ ?_) rfl
    subst hextended
    obtain rfl : additionalBytes = 0 := by simpa [changesSilently] using hsilent
    have hcommitted : info.committedBytes ≤ u64Max := by
      rw [← State.committedOf_of_lookup hlookup]
      exact hfits extended
    simp [recordStanding, providerInfoFromRuntime, ProviderInfo.standing, saturatingAdd, hcommitted]
  | amended =>
    refine standingOf_modify (fun _ info _ ↦ ?_) rfl
    rfl
  | closed who call bucketId closed old ledger deposit stats events _ _ _ hcall =>
    refine standingOf_modify (fun hclosed ↦ ?_) rfl
    rcases hcall with rfl | ⟨action, rfl⟩ | ⟨rfl, rfl⟩
    · simp [changesSilently, hclosed] at hsilent
    · simp [changesSilently, hclosed] at hsilent
    · simp [changesSilently, hclosed] at hsilent
  | challengeAnswered =>
    refine standingOf_modify (fun _ info _ ↦ ?_) rfl
    rfl
  | challengeExpired origin challengeId challenge hchallenge =>
    refine standingOf_slashProvider challenge challengeId fun hprovider info hinfo ↦ ?_
    subst hprovider
    have hinfo' : s.providers.lookup challenge.provider = some info := hinfo
    simpa [changesSilently, hchallenge, hinfo'] using hsilent

end Step

/-! ### A block -/

section Block

/-- An accepted lifecycle call has a lifecycle event of its caller. -/
theorem lifecycle_of_announces {input : Input AccountId} (h : announces cfg provider s input = true) :
    ∃ event ∈ emitted cfg s input, lifecycleAccount event = some provider := by
  unfold announces at h
  split at h
  · rename_i who call
    simp only [Bool.and_eq_true, decide_eq_true_eq] at h
    obtain ⟨⟨rfl, hcall⟩, haccepted⟩ := h
    have hdispatch : Pallet.dispatchSigned cfg who call s.withoutEvents =
        .ok (step cfg s (.call (.signed who) call)) := Pallet.dispatch_of_accepted haccepted
    change ∃ event ∈ (step cfg s (.call (.signed who) call)).events, lifecycleAccount event = some who
    generalize step cfg s (.call (.signed who) call) = s' at hdispatch ⊢
    cases call with
    | registerProvider multiaddr publicKey stake =>
      obtain ⟨ledger, info, -, -, -, -, -, rfl⟩ := Pallet.registerProviderInternal_ok hdispatch
      exact ⟨.providerRegistered who stake, by simp, rfl⟩
    | deregisterProvider =>
      obtain ⟨info, completeAfter, -, -, -, -, rfl⟩ := Pallet.deregisterProvider_ok hdispatch
      exact ⟨.deregisterAnnounced who completeAfter, by simp, rfl⟩
    | completeDeregister =>
      obtain ⟨info, deregisterAt, deposit, ledger, -, -, -, -, -, -, rfl⟩ :=
        Pallet.completeDeregister_ok hdispatch
      exact ⟨.providerDeregistered who info.stake, by simp, rfl⟩
    | cancelDeregister =>
      obtain ⟨info, -, -, rfl⟩ := Pallet.cancelDeregister_ok hdispatch
      exact ⟨.deregisterCancelled who, by simp, rfl⟩
    | updateProviderSettings settings =>
      obtain ⟨info, -, -, -, rfl⟩ := Pallet.updateProviderSettings_ok hdispatch
      exact ⟨.providerSettingsUpdated who settings, by simp, rfl⟩
    | updateProviderMultiaddr multiaddr =>
      obtain ⟨info, -, rfl⟩ := Pallet.updateProviderMultiaddr_ok hdispatch
      exact ⟨.providerMultiaddrUpdated who multiaddr, by simp, rfl⟩
    | _ => cases hcall
  · cases h

/-- A step without a lifecycle event of a provider that does not change its standing silently keeps
the standing. -/
theorem standingOf_step (hs : Funded s) (hfits : CommittedFits s) {input : Input AccountId}
    (hsilent : silent cfg provider s input = false)
    (hquiet : ∀ event ∈ emitted cfg s input, lifecycleAccount event ≠ some provider) :
    standingOf provider (step cfg s input) = standingOf provider s := by
  cases input with
  | call origin call =>
    cases haccepted : accepted cfg s origin call with
    | false =>
      rw [Pallet.step_of_refused haccepted]
      rfl
    | true =>
      rw [silent, haccepted, Bool.true_and] at hsilent
      exact standingOf_accepted hs hfits haccepted hsilent hquiet
  | advance block =>
    simp only [step]
    split_ifs
    · rfl
    · rfl
  | credit who amount =>
    simp only [step]
    split_ifs
    · rfl
    · rfl
  | debit who amount =>
    simp only [step]
    split_ifs
    · rfl
    · rfl
  | reap who =>
    simp only [step]
    split_ifs
    · rfl
    · rfl

/-- A block without a lifecycle event of a provider has no lifecycle call of it. -/
theorem not_announces_of_quiet {inputs : List (Input AccountId)}
    (hquiet : ∀ event ∈ blockEvents cfg s inputs, lifecycleAccount event ≠ some provider) :
    StepsMeet (step cfg) (fun s input ↦ announces cfg provider s input = false) s inputs := by
  induction inputs generalizing s with
  | nil => trivial
  | cons input rest ih =>
    refine ⟨?_, ih fun event hevent ↦ hquiet event (List.mem_append_right _ hevent)⟩
    by_contra hannounces
    obtain ⟨event, hevent, haccount⟩ :=
      lifecycle_of_announces (Bool.not_eq_false _ ▸ hannounces)
    exact hquiet event (List.mem_append_left _ hevent) haccount

/-- A block that changes no standing silently and has no lifecycle event of a provider keeps its
standing. -/
theorem standingOf_block (hs : Funded s) (hfits : CommittedFits s) {inputs : List (Input AccountId)}
    (hannounced : Announced cfg provider s inputs)
    (hquiet : ∀ event ∈ blockEvents cfg s inputs, lifecycleAccount event ≠ some provider) :
    standingOf provider (run (step cfg) s inputs) = standingOf provider s := by
  have hsilent := hannounced (not_announces_of_quiet hquiet)
  clear hannounced
  induction inputs generalizing s with
  | nil => rfl
  | cons input rest ih =>
    have heffect : Effect cfg s input (step cfg s input) := Pallet.effect_of_step hs input
    rw [run_cons, ih (heffect.funded hs) (heffect.committedFits hfits)
      (fun event hevent ↦ hquiet event (List.mem_append_right _ hevent)) hsilent.2]
    exact standingOf_step hs hfits hsilent.1
      fun event hevent ↦ hquiet event (List.mem_append_left _ hevent)

end Block

/-! ### The view -/

section View

variable (chain : FinalizedChain cfg)

/-- Every state between two blocks is funded, and its committed bytes are within 64 bits. -/
private theorem chain_invariant (n : ℕ) : Funded (chain.state n) ∧ CommittedFits (chain.state n) := by
  unfold FinalizedChain.state
  induction n with
  | zero => exact ⟨chain.genesis.funded, chain.genesis.committedFits⟩
  | succ n ih =>
    refine invariant_of_every_step (fun s ↦ Funded s ∧ CommittedFits s) ?_ ih (chain.blocks n)
    rintro s input ⟨hs, hfits⟩
    have heffect : Effect cfg s input (step cfg s input) := Pallet.effect_of_step hs input
    exact ⟨heffect.funded hs, heffect.committedFits hfits⟩

/-- A block without a lifecycle event of the provider keeps the view and the standing. -/
private theorem providerInfo_followBlock (followed : Followed AccountId) (n : ℕ) :
    (followBlock provider followed (chain.delivery provider n)).chainState.providerInfo =
        (chain.record provider (chain.latest (n + 1))).map providerInfoFromRuntime ∨
      (followBlock provider followed (chain.delivery provider n)).chainState.providerInfo =
          followed.chainState.providerInfo ∧
        ∀ event ∈ blockEvents cfg (chain.state n) (chain.blocks n),
          lifecycleAccount event ≠ some provider := by
  have hlifecycle := lifecycle_decodeBlockContents ((n + 1) % 2 ^ 32) (chain.readable n)
  rw [chain.events_eq n] at hlifecycle
  simp only [followBlock, FinalizedChain.delivery, refreshIfRelevantEvent]
  split_ifs with hmem
  · exact .inl rfl
  · refine .inr ⟨rfl, fun event hevent haccount ↦ hmem ?_⟩
    rw [hlifecycle]
    exact List.mem_filterMap.2 ⟨event, hevent, haccount⟩

/-- The view of a node agrees with the record of its provider at the processed block or a later one.
Assumes: no followed block changes the standing of the provider silently without a lifecycle call of
the provider in it. -/
theorem view_current (chainState : ChainState) (start count : ℕ)
    (hannounced : ∀ n, start ≤ n → n < start + count →
      Announced cfg provider (chain.state n) (chain.blocks n)) :
    ∃ n, start + count ≤ n ∧
      Agrees (follow provider (chain.connection provider start count) chainState).chainState.providerInfo
        (chain.record provider n) := by
  unfold follow
  induction count with
  | zero =>
    refine ⟨chain.latest start, chain.le_latest start, ?_⟩
    exact congrArg (Option.map ProviderInfo.standing) rfl |>.trans (Option.map_map _ _ _)
  | succ count ih =>
    obtain ⟨n, hn, hagrees⟩ := ih fun m hstart hm ↦ hannounced m hstart (by omega)
    have hdeliveries : (chain.connection provider start (count + 1)).deliveries =
        (chain.connection provider start count).deliveries ++
          [chain.delivery provider (start + count)] := by
      simp [FinalizedChain.connection, List.range_succ]
    rw [hdeliveries, run_concat]
    rcases providerInfo_followBlock chain (run (followBlock provider)
        (bootstrap (chain.connection provider start (count + 1)) chainState)
        (chain.connection provider start count).deliveries) (start + count) with hread | ⟨hkept, hquiet⟩
    · -- the view was read at the head or later
      refine ⟨chain.latest (start + count + 1), chain.le_latest _, ?_⟩
      unfold Agrees
      rw [hread, Option.map_map]
      rfl
    · -- the record has stayed as it was
      obtain ⟨hs, hfits⟩ := chain_invariant chain (start + count)
      have hstanding : standingOf provider (chain.state (start + count + 1)) =
          standingOf provider (chain.state (start + count)) :=
        standingOf_block hs hfits (hannounced _ (by omega) (by omega)) hquiet
      rcases Nat.lt_or_ge (start + count) n with hlater | hsame
      · refine ⟨n, hlater, ?_⟩
        unfold Agrees
        rw [hkept]
        exact hagrees
      · obtain rfl : n = start + count := le_antisymm hsame hn
        refine ⟨start + count + 1, le_rfl, ?_⟩
        unfold Agrees
        rw [hkept]
        exact hagrees.trans hstanding.symm

end View

/-! ### Chains of the mock runtime -/

section MockChains

/-- The blocks of a chain that has a list of blocks and stays empty after them. -/
def blocksOf (blocks : List (List (Input AccountId))) (n : ℕ) : List (Input AccountId) :=
  (blocks[n]?).getD []

/-- A chain with no other pallets, which a node follows without delay. -/
def chainOf (genesis : Genesis cfg) (blocks : List (List (Input AccountId))) : FinalizedChain cfg where
  genesis := genesis
  blocks := blocksOf blocks
  rawEvents n := (blockEvents cfg (stateAt cfg genesis (blocksOf blocks) n) (blocksOf blocks n)).map
    (.storageProvider · true)
  latest n := n
  events_eq n := by
    rw [List.filterMap_map]
    exact List.filterMap_some
  readable n raw hraw := by
    obtain ⟨event, -, rfl⟩ := List.mem_map.1 hraw
    rfl
  le_latest _ := le_rfl

/-- Nothing happens after the last block. -/
theorem state_chainOf (genesis : Genesis cfg) (blocks : List (List (Input AccountId))) {n : ℕ}
    (h : blocks.length ≤ n) : (chainOf genesis blocks).state n =
      (chainOf genesis blocks).state blocks.length := by
  induction n, h using Nat.le_induction with
  | base => rfl
  | succ n hn ih =>
    have hempty : (chainOf genesis blocks).blocks n = [] := by
      change (blocks[n]?).getD [] = []
      rw [List.getElem?_eq_none hn]
      rfl
    rw [← ih]
    change run (step cfg) ((chainOf genesis blocks).state n) ((chainOf genesis blocks).blocks n) = _
    rw [hempty]
    rfl

/-- A quote is redeemed at provider 2, which changes its address in the same block. -/
def announcedChain : FinalizedChain Pallet.Mock.config :=
  chainOf Pallet.Mock.twoParties
    [[Pallet.Mock.redeemNewBucket 2 0, .call (.signed 2) (.updateProviderMultiaddr [0x2f, 0x2f])]]

/-- A quote is redeemed at provider 2. -/
def silentChain : FinalizedChain Pallet.Mock.config :=
  chainOf Pallet.Mock.twoParties [[Pallet.Mock.redeemNewBucket 2 0]]

/-- A node of provider 2 before it meets the chain. -/
def unknownChain : ChainState := ⟨0, none, none⟩

/-- The view is current after the block with the change of address. -/
theorem view_current_announced : ∃ n, 1 ≤ n ∧
    Agrees (follow 2 (announcedChain.connection 2 0 1) unknownChain).chainState.providerInfo
      (announcedChain.record 2 n) := by
  refine view_current announcedChain unknownChain 0 1 fun n _ hn hquiet ↦ ?_
  obtain rfl : n = 0 := by omega
  have hannounces : ¬ StepsMeet (step Pallet.Mock.config)
      (fun s input ↦ announces Pallet.Mock.config 2 s input = false) (announcedChain.state 0)
        (announcedChain.blocks 0) := by
    decide +kernel
  exact absurd hquiet hannounces

/-- The redemption changes the committed bytes without a lifecycle event, and the view of provider 2
agrees with its record never again. -/
theorem view_stale :
    standingOf 2 (silentChain.state 1) ≠ standingOf 2 (silentChain.state 0) ∧
      (∀ event ∈ blockEvents Pallet.Mock.config (silentChain.state 0) (silentChain.blocks 0),
        lifecycleAccount event = none) ∧
        ¬ ∃ n, 1 ≤ n ∧
          Agrees (follow 2 (silentChain.connection 2 0 1) unknownChain).chainState.providerInfo
            (silentChain.record 2 n) := by
  refine ⟨by decide +kernel, by decide +kernel, ?_⟩
  rintro ⟨n, hn, hagrees⟩
  have hstate : silentChain.state n = silentChain.state 1 := state_chainOf _ _ hn
  have hrecord : silentChain.record 2 n = silentChain.record 2 1 := by
    unfold FinalizedChain.record
    rw [hstate]
  rw [hrecord] at hagrees
  revert hagrees
  unfold Agrees
  decide +kernel

end MockChains

end Web3Storage.Node
