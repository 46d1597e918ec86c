import Web3Storage.Pallet.OpenChallenges

/-!
# Challenge deposits

A challenger's hold is the sum of the deposits of its open challenges, and each challenge leaves the
map once: by an accepted response, which splits the deposit, or by expiry, which refunds it
(`deposits_settled_once`). The exception is an expiry that finds no record of the challenged
provider: it removes the challenge and refunds nothing. Exact counters of open challenges rule it out
(`expiryFindsProvider_of_countable`); saturated ones do not (`deposit_stranded`).
-/

set_option autoImplicit false
set_option relaxedAutoImplicit false

namespace Web3Storage.Pallet

open Foundations Primitives
open Ledger (Moves)

variable {AccountId : Type} [DecidableEq AccountId] {cfg : Config AccountId}
  {s s' : State AccountId} {input : Input AccountId} {id : ChallengeId}
  {challenge : Challenge AccountId}

/-- The deposits of the open challenges of an account. -/
def State.depositsOf (s : State AccountId) (a : AccountId) : ℕ :=
  ownedSum (fun _ challenge ↦ challenge.challenger) Challenge.deposit s.challenges a

/-- A challenge that is resolved by expiry finds the record of its provider. -/
def ExpiryFindsProvider (s : State AccountId) : Input AccountId → Prop
  | .call _ (.resolveExpiredChallenge id) => ∀ challenge ∈ s.challenges.lookup id,
    id.deadline < s.anchorBlock → challenge.provider ∈ s.providers
  | _ => True

instance (s : State AccountId) (input : Input AccountId) :
    Decidable (ExpiryFindsProvider s input) := by
  induction input using Input.casesOn with
  | call origin call =>
    induction call using Call.casesOn with
    | resolveExpiredChallenge id => exact inferInstanceAs (Decidable (∀ challenge ∈ s.challenges.lookup id,
        id.deadline < s.anchorBlock → challenge.provider ∈ s.providers))
    | _ => exact .isTrue trivial
  | _ => exact .isTrue trivial

/-! ### Holds -/

/-- Every account holds the deposits of its open challenges. -/
def DepositsBacked (s : State AccountId) : Prop :=
  Balances (fun _ challenge ↦ challenge.challenger) Challenge.deposit s.challenges
    (s.held .challengeDeposit)

/-- The deposit of an open challenge is on hold. -/
theorem DepositsBacked.deposit_le (hs : DepositsBacked s)
    (hchallenge : s.challenges.lookup id = some challenge) :
    challenge.deposit ≤ s.held .challengeDeposit challenge.challenger := by
  have hle : challenge.deposit ≤ ownedSum (fun _ challenge ↦ challenge.challenger)
      Challenge.deposit s.challenges challenge.challenger := weight_le_ownedSum hchallenge
  rw [hs challenge.challenger]
  exact hle

/-- A step that moves no deposit and keeps the challenges. -/
private theorem DepositsBacked.kept (hs : DepositsBacked s) {gain loss : HoldReason → AccountId → ℕ}
    (hmoves : Moves gain loss s.ledger s'.ledger) (hgain : ∀ a, gain .challengeDeposit a = 0)
    (hloss : ∀ a, loss .challengeDeposit a = 0) (hchallenges : s'.challenges = s.challenges) :
    DepositsBacked s' := by
  unfold DepositsBacked
  rw [hchallenges]
  refine Balances.congr hs fun a ↦ ?_
  have hheld := hmoves.held_add .challengeDeposit a
  rw [hgain, hloss] at hheld
  exact hheld

/-- A step that removes a challenge and takes its deposit from the hold. -/
private theorem DepositsBacked.removed (hs : DepositsBacked s)
    (hchallenge : s.challenges.lookup id = some challenge)
    (hchallenges : s'.challenges = s.challenges.erase id)
    (hheld : ∀ a, s'.held .challengeDeposit a +
      (if challenge.challenger = a then challenge.deposit else 0) = s.held .challengeDeposit a) :
    DepositsBacked s' := by
  unfold DepositsBacked
  rw [hchallenges]
  refine Balances.erase hs fun a ↦ ?_
  rw [hchallenge, share_some]
  exact hheld a

/-- The hold of a challenger loses the deposit of an expired challenge when its provider has a
record. -/
private theorem slashProvider_deposit (cfg : Config AccountId) (hs : DepositsBacked s)
    (hchallenge : s.challenges.lookup id = some challenge)
    (hprovider : challenge.provider ∈ s.providers) {before : State AccountId}
    (hproviders : before.providers = s.providers) (hledger : before.ledger = s.ledger)
    (a : AccountId) :
    (slashProviderForFailedChallenge cfg challenge id before).held .challengeDeposit a +
      (if challenge.challenger = a then challenge.deposit else 0) =
        s.held .challengeDeposit a := by
  obtain ⟨info, hinfo⟩ := Option.isSome_iff_exists.mp (Finmap.lookup_isSome.mpr hprovider)
  rw [← hproviders] at hinfo
  obtain ⟨ledger, slashed, -, hheld, -, -, hafter⟩ := slashProvider_of_some cfg id hinfo
  have hdeposit := hs.deposit_le hchallenge
  have hthis := hheld .challengeDeposit a
  rw [hledger] at hthis
  rw [hafter]
  simp only [Ledger.amountAt_apply, reduceCtorEq, false_and, true_and, if_false, State.held]
    at hthis hdeposit ⊢
  rw [Nat.min_eq_left hdeposit] at hthis
  simp only [eq_comm (a := challenge.challenger)]
  omega

/-- Every effect keeps the deposits backed. Assumes: an expiry finds the record of the challenged
provider. -/
theorem Effect.depositsBacked (h : Effect cfg s input s') (hfinds : ExpiryFindsProvider s input)
    (hids : IdsSpent s) (hs : DepositsBacked s) : DepositsBacked s' := by
  cases h with
  | rejected | advanced | checkpointed | checkpointExtended => exact hs
  | outside input ledger nonces hinput hheld htotal =>
    exact Balances.congr hs fun a ↦ hheld .challengeDeposit a
  | registered who multiaddr publicKey info ledger events deposit hnew hcommitted hcapacity hactive
      hmoves =>
    exact hs.kept hmoves (by simp [Ledger.amountAt_apply]) (fun _ ↦ rfl) rfl
  | providerChanged who call old new ledger events amount hold hcommitted hstake hcapacity hmoves =>
    exact hs.kept hmoves (by simp [Ledger.amountAt_apply]) (fun _ ↦ rfl) rfl
  | deregistered who old ledger events deposit hold hcommitted hpending hmoves =>
    exact hs.kept hmoves (fun _ ↦ rfl) (by simp [Ledger.amountAt_apply]) rfl
  | bucketCreated who minProviders visibility bucket ledger memberBuckets events gain hprimaries
      hsnapshot hfrozen hgain hmoves =>
    exact hs.kept hmoves (fun a ↦ hgain _ a (by decide)) (fun _ ↦ rfl) rfl
  | bucketDeleted who bucketId ledger memberBuckets events loss hagreements hpending hloss hmoves =>
    exact hs.kept hmoves (fun _ ↦ rfl) (fun a ↦ hloss _ a (by decide)) rfl
  | bucketChanged who call bucketId old new ledger memberBuckets events gain loss hold hprimaries
      hsnapshot hfrozen hgain hloss hmoves =>
    exact hs.kept hmoves (fun a ↦ hgain _ a (by decide)) (fun a ↦ hloss _ a (by decide)) rfl
  | opened owner call bucketId provider terms signature target kind info agreement deposits ledger
      buckets nextBucketId nonces memberBuckets events hopening hbuckets hcall =>
    exact hs.kept hopening.moves (by simp [Ledger.amountAt_apply]) (fun _ ↦ rfl) rfl
  | toppedUp who bucketId provider additionalBytes maxPayment info old new ledger events hinfo
      hactive hold hrole hbytes hmoves =>
    exact hs.kept hmoves (by simp [Ledger.amountAt_apply]) (by simp [Ledger.amountAt_apply]) rfl
  | amended who call bucketId provider old new ledger stats events hold hrole hbytes hmoves =>
    exact hs.kept hmoves (by simp [Ledger.amountAt_apply]) (by simp [Ledger.amountAt_apply]) rfl
  | closed who call bucketId provider old ledger deposit stats events hpending hold hmoves =>
    exact hs.kept hmoves (fun _ ↦ rfl) (by simp [Ledger.amountAt_apply]) rfl
  | challengeOpened who call bucketId provider bucket agreement commitment target challengeId
      challenge ledger events hcall hbucket hagreement hlive hleaf hdeadline hindex hbound
      hchallenge hmoves =>
    refine Balances.insert hs fun a ↦ ?_
    have hheld := hmoves.held_add .challengeDeposit a
    rw [hids.lookup_eq_none hdeadline hindex, share_none, share_some, hchallenge]
    simp only [Ledger.amountAt_apply, true_and, Pi.zero_apply, hchallenge, eq_comm (a := a),
      State.held] at hheld ⊢
    exact hheld
  | challengeAnswered who challengeId response challenge bucket paid ledger hchallenge hprovider
      hdeadline hbucket hresponse hpaid hmoves hsettled =>
    refine hs.removed hchallenge rfl fun a ↦ ?_
    have hheld := hmoves.held_add .challengeDeposit a
    rw [Nat.min_eq_left (hs.deposit_le hchallenge)] at hheld
    simp only [Ledger.amountAt_apply, true_and, Pi.zero_apply, eq_comm (a := a), State.held]
      at hheld ⊢
    exact hheld
  | challengeExpired origin challengeId challenge hchallenge hexpired =>
    have hprovider := hfinds challenge hchallenge hexpired
    exact hs.removed hchallenge (slashProvider_ids challenge challengeId _).2.2
      (slashProvider_deposit cfg hs hchallenge hprovider rfl rfl)

/-! ### How a challenge leaves -/

/-- How a challenge leaves the map. An answer comes in time and splits the deposit between the two
parties; an expiry comes late, refunds the deposit and takes the provider's whole stake. -/
inductive Settlement (cfg : Config AccountId) (s : State AccountId) (id : ChallengeId)
    (challenge : Challenge AccountId) : Input AccountId → State AccountId → Prop
  | answered (response : ChallengeResponse AccountId) (s' : State AccountId)
      (challengerCost providerCost : ℕ) (hclock : s.anchorBlock ≤ id.deadline)
      (hcosts : challengerCost + providerCost = challenge.deposit)
      (hevents : s'.events = [.challengeDefended id challenge.provider
        (s.anchorBlock - challenge.createdAt) challengerCost providerCost])
      (hheld : s'.held .challengeDeposit challenge.challenger + challenge.deposit =
        s.held .challengeDeposit challenge.challenger)
      (hfree : ∀ a, Ledger.free s'.ledger a = Ledger.free s.ledger a +
        (if a = challenge.provider then challengerCost else 0) +
          if a = challenge.challenger then providerCost else 0) :
      Settlement cfg s id challenge
        (.call (.signed challenge.provider) (.respondToChallenge id response)) s'
  | expired (origin : Origin AccountId) (s' : State AccountId) (credit : ℕ)
      (hclock : id.deadline < s.anchorBlock)
      (hheld : s'.held .challengeDeposit challenge.challenger + challenge.deposit =
        s.held .challengeDeposit challenge.challenger)
      (hcredit : credit = 0 ∨ credit = s.stakeOf challenge.provider)
      (hfree : ∀ a, Ledger.free s'.ledger a = Ledger.free s.ledger a +
        (if a = cfg.treasury then credit else 0) +
          if a = challenge.challenger then challenge.deposit else 0)
      (hslashed : s'.stakeOf challenge.provider = 0 ∧ s'.held .providerStake challenge.provider = 0) :
      Settlement cfg s id challenge (.call origin (.resolveExpiredChallenge id)) s'

/-- An expired challenge is settled. -/
private theorem settlement_of_expiry (hs : DepositsBacked s)
    (hstakes : ∀ a, s.held .providerStake a = s.stakeOf a)
    (hchallenge : s.challenges.lookup id = some challenge)
    (hprovider : challenge.provider ∈ s.providers) (hexpired : id.deadline < s.anchorBlock)
    (origin : Origin AccountId) {before : State AccountId}
    (hproviders : before.providers = s.providers) (hledger : before.ledger = s.ledger) :
    Settlement cfg s id challenge (.call origin (.resolveExpiredChallenge id))
      (slashProviderForFailedChallenge cfg challenge id before) := by
  obtain ⟨info, hinfo⟩ := Option.isSome_iff_exists.mp (Finmap.lookup_isSome.mpr hprovider)
  have hstake := hstakes challenge.provider
  rw [State.stakeOf_of_lookup hinfo] at hstake
  have hdeposit := hs.deposit_le hchallenge
  have hheld := slashProvider_deposit cfg hs hchallenge hprovider hproviders hledger
    challenge.challenger
  rw [if_pos rfl] at hheld
  have hbacked : ∀ a, before.held .providerStake a = before.stakeOf a := by
    intro a
    rw [State.held, State.stakeOf, hledger, hproviders]
    exact hstakes a
  have hstakeAfter := slashProvider_stake cfg challenge id hbacked challenge.provider
  rw [← hproviders] at hinfo
  obtain ⟨ledger, slashed, hslashed, -, -, ⟨credit, hcredit, hfree⟩, hafter⟩ :=
    slashProvider_of_some cfg id hinfo
  rw [hledger] at hslashed hfree
  have hall : slashed = info.stake := by
    rw [hslashed]
    exact Nat.min_eq_left hstake.ge
  have hzero :
      (slashProviderForFailedChallenge cfg challenge id before).stakeOf challenge.provider = 0 := by
    rw [hafter, State.stakeOf_insert rfl, if_pos rfl, hall]
    exact Nat.sub_self _
  refine .expired origin _ credit hexpired hheld ?_ (fun a ↦ ?_) ⟨hzero, hstakeAfter.trans hzero⟩
  · rw [← hstakes, hstake, ← hall]
    exact hcredit
  · rw [hafter]
    have hdepositAll : min challenge.deposit
        (Ledger.held s.ledger .challengeDeposit challenge.challenger) = challenge.deposit :=
      Nat.min_eq_left hdeposit
    rw [hdepositAll] at hfree
    exact hfree a

/-- A challenge stays open or is settled. Assumes: a state whose deposits and stakes are backed, and
an expiry finds the record of the challenged provider. -/
theorem Effect.challenge_settled (h : Effect cfg s input s') (hfinds : ExpiryFindsProvider s input)
    (hids : IdsSpent s) (hs : DepositsBacked s)
    (hstakes : ∀ a, s.held .providerStake a = s.stakeOf a)
    (hopen : s.challenges.lookup id = some challenge) :
    s'.challenges.lookup id = some challenge ∨
      id ∉ s'.challenges ∧ Settlement cfg s id challenge input s' := by
  cases h with
  | rejected | outside | advanced | registered | providerChanged | deregistered | bucketCreated
  | bucketDeleted | bucketChanged | checkpointed | checkpointExtended | opened | toppedUp | amended
  | closed => exact .inl hopen
  | challengeOpened who call bucketId provider bucket agreement commitment target challengeId
      challenge' ledger events hcall hbucket hagreement hlive hleaf hdeadline hindex hbound
      hchallenge hmoves =>
    left
    have hfresh := hids.lookup_eq_none hdeadline hindex
    have hne : id ≠ challengeId := by
      rintro rfl
      rw [hfresh] at hopen
      cases hopen
    rw [FiniteMap.lookup_insert_eq, if_neg hne]
    exact hopen
  | challengeAnswered who challengeId response challenge' bucket paid ledger hchallenge hprovider
      hdeadline hbucket hresponse hpaid hmoves hsettled =>
    by_cases hid : id = challengeId
    · subst hid
      rw [hopen] at hchallenge
      cases hchallenge
      subst hprovider
      have hdeposit := hs.deposit_le hopen
      have hheld := hmoves.held_add .challengeDeposit challenge.challenger
      rw [Nat.min_eq_left hdeposit] at hheld
      simp only [Ledger.amountAt_apply, and_self, if_true, Pi.zero_apply, add_zero] at hheld
      have hshare := challengerShare_le challenge.deposit
        (challengerPercent_bounds challenge.authorized (s.anchorBlock - challenge.createdAt)).2
      have hfree := settleChallengeDeposit_free cfg challenge.challenger challenge.provider hshare
        hdeposit
      rw [← hsettled] at hfree
      exact .inr ⟨fun hmem ↦ (Finmap.mem_erase.mp hmem).1 rfl, .answered response _ paid
        (challenge.deposit - paid) hdeadline (by omega) rfl hheld hfree⟩
    · left
      rw [FiniteMap.lookup_erase_eq, if_neg hid]
      exact hopen
  | challengeExpired origin challengeId challenge' hchallenge hexpired =>
    by_cases hid : id = challengeId
    · subst hid
      rw [hopen] at hchallenge
      cases hchallenge
      refine .inr ⟨fun hmem ↦ ?_, settlement_of_expiry hs hstakes hopen
        (hfinds challenge hopen hexpired) hexpired origin rfl rfl⟩
      rw [(slashProvider_ids challenge id _).2.2] at hmem
      exact (Finmap.mem_erase.mp hmem).1 rfl
    · left
      rw [(slashProvider_ids challenge' challengeId _).2.2, FiniteMap.lookup_erase_eq, if_neg hid]
      exact hopen

/-- A challenge that left does not come back: its id is spent. -/
theorem Effect.challenge_gone (h : Effect cfg s input s') (hclock : s.anchorBlock ≤ u32Max)
    (hspent : IdSpent s id) (hgone : id ∉ s.challenges) : id ∉ s'.challenges := by
  cases h with
  | rejected | outside | advanced | registered | providerChanged | deregistered | bucketCreated
  | bucketDeleted | bucketChanged | checkpointed | checkpointExtended | opened | toppedUp | amended
  | closed => exact hgone
  | challengeOpened who call bucketId provider bucket agreement commitment target challengeId
      challenge ledger events hcall hbucket hagreement hlive hleaf hdeadline hindex hbound
      hchallenge hmoves =>
    intro hmem
    rcases Finmap.mem_insert.mp hmem with rfl | hold
    · exact not_idSpent hclock hdeadline hindex hspent
    · exact hgone hold
  | challengeAnswered => exact fun hmem ↦ hgone (Finmap.mem_erase.mp hmem).2
  | challengeExpired origin challengeId challenge hchallenge hexpired =>
    rw [(slashProvider_ids challenge challengeId _).2.2]
    exact fun hmem ↦ hgone (Finmap.mem_erase.mp hmem).2

/-! ### Whole runs -/

private theorem Genesis.depositsBacked (genesis : Genesis cfg) :
    IdsSpent genesis.state ∧ DepositsBacked genesis.state := by
  refine genesis.induction (fun s ↦ IdsSpent s ∧ DepositsBacked s) ⟨?_, ?_⟩
    (fun _ _ _ _ _ _ _ hs _ h ↦ ⟨h.idsSpent hs.1, h.depositsBacked trivial hs.1 hs.2⟩)
    (fun _ _ _ _ _ _ _ _ hs _ _ h ↦ ⟨h.idsSpent hs.1, h.depositsBacked trivial hs.1 hs.2⟩)
  · exact ⟨Nat.zero_le _, fun id hid ↦ absurd hid Finmap.notMem_empty⟩
  · exact balances_empty (genesis.unheld .challengeDeposit)

/-- In every state of a run whose expiries find their providers, the deposits are backed. -/
theorem depositsBacked_run (genesis : Genesis cfg) {inputs : List (Input AccountId)}
    (hinputs : StepsMeet (step cfg) ExpiryFindsProvider genesis.state inputs) :
    DepositsBacked (run (step cfg) genesis.state inputs) := by
  have hboth := genesis.invariant (fun s ↦ IdsSpent s ∧ DepositsBacked s) genesis.depositsBacked
    (fun _ _ _ _ hs hfinds h ↦ ⟨h.idsSpent hs.1, h.depositsBacked hfinds hs.1 hs.2⟩) hinputs
  exact hboth.2

/-- Exact counters keep the provider of every open challenge in place. Assumes: the bytes of every
provider's agreements fit 64 bits and every new challenge is countable. -/
theorem expiryFindsProvider_of_countable (genesis : Genesis cfg) (inputs : List (Input AccountId))
    (hbytes : StepsMeet (step cfg) (BytesFit cfg) genesis.state inputs)
    (hcountable : StepsMeet (step cfg) (OfAccepted cfg ChallengeCountable) genesis.state inputs) :
    StepsMeet (step cfg) ExpiryFindsProvider genesis.state inputs := by
  induction inputs using List.reverseRecOn with
  | nil => trivial
  | append_singleton before input ih =>
    rw [stepsMeet_append]
    refine ⟨ih hbytes.left hcountable.left, ?_, trivial⟩
    have hcounted := challengesCounted_run genesis hcountable.left
    unfold ExpiryFindsProvider
    split
    · intro challenge hchallenge _
      exact mem_providers_run genesis hbytes.left (hcounted.mem_agreements _ _ hchallenge)
    · trivial

/-- A challenge with a spent id that is not open stays away for the rest of a run. -/
theorem challenge_gone_run (hfunded : Funded s) (hids : IdsSpent s) (hspent : IdSpent s id)
    (hgone : id ∉ s.challenges) (inputs : List (Input AccountId)) :
    id ∉ (run (step cfg) s inputs).challenges := by
  have hall : Funded (run (step cfg) s inputs) ∧ IdsSpent (run (step cfg) s inputs) ∧
      IdSpent (run (step cfg) s inputs) id ∧ id ∉ (run (step cfg) s inputs).challenges := by
    refine invariant_of_every_step
      (fun s ↦ Funded s ∧ IdsSpent s ∧ IdSpent s id ∧ id ∉ s.challenges) ?_
      ⟨hfunded, hids, hspent, hgone⟩ inputs
    rintro s input ⟨hfunded, hids, hspent, hgone⟩
    have h : Effect cfg s input (step cfg s input) := effect_of_step hfunded input
    exact ⟨h.funded hfunded, h.idsSpent hids, h.idSpent hspent,
      h.challenge_gone hids.clock_le hspent hgone⟩
  exact hall.2.2.2

/-- Challenge deposits are settled exactly once. Assumes: a run from genesis in which every expiry
finds the record of the challenged provider. In its last state, and so in every state on the way, an
account holds the deposits of its open challenges. At every step an open challenge stays open or is
settled, and then it never comes back. A response that is refused changes nothing. -/
theorem deposits_settled_once (genesis : Genesis cfg) (inputs : List (Input AccountId))
    (hinputs : StepsMeet (step cfg) ExpiryFindsProvider genesis.state inputs) :
    (∀ a, (run (step cfg) genesis.state inputs).held .challengeDeposit a =
      (run (step cfg) genesis.state inputs).depositsOf a) ∧
    (∀ before input after, inputs = before ++ input :: after → ∀ id challenge,
      (run (step cfg) genesis.state before).challenges.lookup id = some challenge →
        (run (step cfg) genesis.state (before ++ [input])).challenges.lookup id = some challenge ∨
          Settlement cfg (run (step cfg) genesis.state before) id challenge input
              (run (step cfg) genesis.state (before ++ [input])) ∧
            ∀ later, later <+: after →
              id ∉ (run (step cfg) genesis.state (before ++ input :: later)).challenges) ∧
    ∀ before who id response after error,
      inputs = before ++ .call (.signed who) (.respondToChallenge id response) :: after →
        respondToChallenge cfg who id response
            (run (step cfg) genesis.state before).withoutEvents = .error error →
          run (step cfg) genesis.state
              (before ++ [.call (.signed who) (.respondToChallenge id response)]) =
            (run (step cfg) genesis.state before).withoutEvents := by
  refine ⟨depositsBacked_run genesis hinputs, ?_, ?_⟩
  · rintro before input after rfl id challenge hopen
    have hfunded := funded_run cfg genesis.funded before
    have hids := idsSpent_run genesis before
    have heffect : Effect cfg (run (step cfg) genesis.state before) input _ :=
      effect_of_step hfunded input
    rcases heffect.challenge_settled hinputs.right.1 hids (depositsBacked_run genesis hinputs.left)
      (stake_backed genesis before) hopen with hstill | ⟨hgone, hsettled⟩
    · left
      rw [run_concat]
      exact hstill
    · right
      rw [run_concat]
      refine ⟨hsettled, fun later _ ↦ ?_⟩
      rw [run_append, run_cons]
      exact challenge_gone_run (heffect.funded hfunded) (heffect.idsSpent hids)
        (heffect.idSpent (hids.spent id (Finmap.mem_of_lookup_eq_some hopen))) hgone later
  · rintro before who id response after error - hrefused
    rw [run_concat]
    simp only [step, dispatch, dispatchSigned, hrefused, ite_self]

/-- A challenge is opened, expires and is resolved. -/
def openThenExpire : List (Input ℕ) :=
  [Mock.redeemLong, Mock.challengeOneLeaf, .advance 101,
    .call .root (.resolveExpiredChallenge ⟨100, 0⟩)]

theorem deposits_settled_once_expired :
    (run (step Mock.config) Mock.threeParties.state openThenExpire).held .challengeDeposit 3 =
        (run (step Mock.config) Mock.threeParties.state openThenExpire).depositsOf 3 ∧
      (run (step Mock.config) Mock.threeParties.state openThenExpire).stakeOf 2 = 0 :=
  ⟨(deposits_settled_once Mock.threeParties openThenExpire (by decide +kernel)).1 3,
    by decide +kernel⟩

/-! ### A stranded deposit -/

section Drain

variable {provider : AccountId} {info : ProviderInfo}

/-- An open challenge past its deadline is resolved. -/
theorem step_resolveExpiredChallenge (who : AccountId)
    (hfits : (Call.resolveExpiredChallenge id : Call AccountId).fits cfg = true)
    (hopen : s.challenges.lookup id = some challenge) (hexpired : id.deadline < s.anchorBlock) :
    step cfg s (.call (.signed who) (.resolveExpiredChallenge id)) =
      slashProviderForFailedChallenge cfg challenge id
        { s with
          challenges := s.challenges.erase id
          nextChallengeIndex := s.nextChallengeIndex.erase id.deadline
          pendingChallenges :=
            FiniteMap.alter challenge.provider decrementOrDelete s.pendingChallenges
          pendingChallengesByBucket := FiniteMap.alter (challenge.bucketId, challenge.provider)
            decrementOrDelete s.pendingChallengesByBucket
          events := [] } := by
  refine step_of_dispatchSigned hfits ?_
  simp only [dispatchSigned, resolveExpiredChallenge, bind_eq_ok, fetch_eq_ok, check_eq_ok,
    pure_eq_ok, decide_eq_true_eq]
  exact ⟨(), hexpired, challenge, hopen, rfl⟩

/-- A provider without stake, with no counted challenge and an agreement without escrow, is removed
from the bucket. -/
theorem step_removeSlashed (who : AccountId) {bucketId : ℕ}
    {agreement : StorageAgreement AccountId} (hfits : bucketId ≤ u64Max)
    (hinfo : s.providers.lookup provider = some info) (hstake : info.stake = 0)
    (hpending : s.pendingByBucketOf bucketId provider = 0)
    (hagreement : s.storageAgreements.lookup (bucketId, provider) = some agreement)
    (hescrow : agreement.escrow = 0) :
    ∃ ledger buckets events, step cfg s (.call (.signed who) (.removeSlashed bucketId provider)) =
      { s with
        ledger := ledger
        providers := FiniteMap.modify provider
          (fun info ↦ { info with committedBytes := info.committedBytes - agreement.maxBytes })
          s.providers
        buckets := buckets
        storageAgreements := s.storageAgreements.erase (bucketId, provider)
        events := events } := by
  obtain ⟨ledger, hdropped⟩ := dropTicket_ok agreement.depositor agreement.deposit s.ledger
  have hreleased : releasePayment agreement.owner agreement.escrow s.ledger = .ok s.ledger := by
    rw [hescrow]
    rfl
  exact ⟨ledger, _, _, step_of_dispatchSigned (by simpa [Call.fits] using hfits) (by
    simp only [dispatchSigned, removeSlashed, bind_eq_ok, fetch_eq_ok, check_eq_ok, pure_eq_ok,
      decide_eq_true_eq]
    exact ⟨info, hinfo, (), hstake, (), hpending, agreement, hagreement, s.ledger, hreleased, ledger,
      hdropped, rfl⟩)⟩

/-- A provider without commitments announces its exit. -/
theorem step_deregisterProvider (hinfo : s.providers.lookup provider = some info)
    (hcommitted : info.committedBytes = 0) (hactive : info.deregisterAt = none) :
    ∃ events, step cfg s (.call (.signed provider) .deregisterProvider) =
      { s with
        providers := s.providers.insert provider
          { info with
            settings := info.settings.setAccepting false
            deregisterAt := some
              (saturatingAdd u32Max s.anchorBlock cfg.deregisterAnnouncementPeriod) }
        events := events } := by
  have hisNone : info.deregisterAt.isNone = true := by
    rw [hactive]
    rfl
  exact ⟨_, step_of_dispatchSigned rfl (by
    simp only [dispatchSigned, deregisterProvider, ensureProviderActive, bind_eq_ok, fetch_eq_ok,
      check_eq_ok, pure_eq_ok, decide_eq_true_eq]
    exact ⟨info, hinfo, (), hcommitted, (), hisNone, rfl⟩)⟩

/-- A provider without stake, commitments and counted challenges leaves when its period is over. -/
theorem step_completeDeregister {completeAfter : ℕ}
    (hinfo : s.providers.lookup provider = some info)
    (hannounced : info.deregisterAt = some completeAfter) (helapsed : completeAfter ≤ s.anchorBlock)
    (hcommitted : info.committedBytes = 0) (hpending : s.pendingOf provider = 0)
    (hstake : info.stake = 0) :
    ∃ ledger events, step cfg s (.call (.signed provider) .completeDeregister) =
      { s with ledger := ledger, providers := s.providers.erase provider, events := events } := by
  obtain ⟨ledger, hdropped⟩ := dropTicket_ok provider info.deposit s.ledger
  have hreleased : releaseStake provider info.stake ledger = .ok ledger := by
    rw [hstake]
    rfl
  exact ⟨ledger, _, step_of_dispatchSigned rfl (by
    simp only [dispatchSigned, completeDeregister, bind_eq_ok, fetch_eq_ok, check_eq_ok, pure_eq_ok,
      decide_eq_true_eq]
    exact ⟨info, hinfo, completeAfter, hannounced, (), helapsed, (), hcommitted, (), hpending,
      ledger, hdropped, ledger, hreleased, rfl⟩)⟩

end Drain

/-- Resolve the challenge with a number: two of them share a deadline. -/
def expire (k : ℕ) : Input ℕ :=
  .call (.signed 3) (.resolveExpiredChallenge ⟨k / 2 + 101, k % 2⟩)

/-- Resolve a number of challenges of a flood. -/
def drain : ℕ → List (Input ℕ)
  | 0 => []
  | k + 1 => drain k ++ [expire k]

/-- A state in which a number of challenges of a flood is resolved. The provider lost its stake to
the first. -/
structure Drained (s : State ℕ) (rounds resolved : ℕ) : Prop where
  clock_eq : s.anchorBlock = rounds + 200
  agreements_eq : s.storageAgreements = floodStart.storageAgreements
  provider : ∃ info, s.providers.lookup 2 = some info ∧ info.committedBytes = 10 ∧
    info.deregisterAt = none ∧ (0 < resolved → info.stake = 0)
  pending_eq : s.pendingChallenges.lookup 2 = counterOf (u32Max - resolved)
  pendingByBucket_eq :
    s.pendingChallengesByBucket.lookup (0, 2) = counterOf (u32Max - resolved)
  opened : ∀ k, resolved ≤ k → k < 2 * rounds →
    ∃ challenge, s.challenges.lookup ⟨k / 2 + 101, k % 2⟩ = some challenge ∧ IsFlood challenge

private theorem floodStart_provider :
    ∃ info, floodStart.providers.lookup 2 = some info ∧ info.committedBytes = 10 ∧
      info.deregisterAt = none := by
  have hmap : (floodStart.providers.lookup 2).map (fun info ↦
      (info.committedBytes, info.deregisterAt)) = some (10, none) := by
    decide +kernel
  obtain ⟨info, hinfo, hfields⟩ := Option.map_eq_some_iff.mp hmap
  exact ⟨info, hinfo, congrArg Prod.fst hfields, congrArg Prod.snd hfields⟩

/-- After a flood that saturates the counter, the clock moves past all deadlines. -/
private theorem Flooded.drained {s : State ℕ} {rounds used : ℕ}
    (h : Flooded s rounds used (2 * rounds)) (hused : used = 2) (hrounds : rounds = 2 ^ 31) :
    Drained (step Mock.config s (.advance (rounds + 200))) rounds 0 := by
  have hmax : u32Max = 2 ^ 32 - 1 := rfl
  have hclock := h.clock_eq
  have hstep : step Mock.config s (.advance (rounds + 200)) =
      { s with anchorBlock := rounds + 200 } := by
    simp only [step]
    rw [if_pos (by omega)]
  have hcount : min (2 * rounds) u32Max = u32Max - 0 := by omega
  obtain ⟨info, hinfo, hcommitted, hactive⟩ := floodStart_provider
  rw [hstep]
  refine ⟨rfl, h.agreements_eq, ⟨info, ?_, hcommitted, hactive, by omega⟩, ?_, ?_, fun k _ hk ↦ ?_⟩
  · rw [← hinfo, ← h.providers_eq]
  · rw [← hcount]
    exact h.pending_eq
  · rw [← hcount]
    exact h.pendingByBucket_eq
  · have hopen := h.opened (k / 2 + 1) (by omega) (by omega) (k % 2) (by split_ifs <;> omega)
    exact hopen

/-- One more challenge is resolved. -/
private theorem Drained.succ {s : State ℕ} {rounds resolved : ℕ} (h : Drained s rounds resolved)
    (hstakes : ∀ a, s.held .providerStake a = s.stakeOf a) (hresolved : resolved < 2 * rounds)
    (hcounted : resolved < u32Max) (hrounds : rounds + 200 ≤ u32Max) :
    Drained (step Mock.config s (expire resolved)) rounds (resolved + 1) := by
  obtain ⟨challenge, hopen, hflood⟩ := h.opened resolved le_rfl hresolved
  obtain ⟨hbucket, hprovider, -, -⟩ := hflood
  obtain ⟨info, hinfo, hcommitted, hactive, -⟩ := h.provider
  have hclock := h.clock_eq
  have hfits : (Call.resolveExpiredChallenge ⟨resolved / 2 + 101, resolved % 2⟩ : Call ℕ).fits
      Mock.config = true := by
    have hsmall : resolved % 2 ≤ u16Max := (Nat.mod_lt _ (by decide)).le.trans (by decide)
    simp only [Call.fits, Bool.and_eq_true, decide_eq_true_eq]
    exact ⟨by omega, hsmall⟩
  have hstep := step_resolveExpiredChallenge 3 hfits hopen
    (show resolved / 2 + 101 < s.anchorBlock by omega)
  have hstake := hstakes 2
  rw [State.stakeOf_of_lookup hinfo] at hstake
  rw [← hprovider] at hinfo hstake
  obtain ⟨ledger, slashed, hslashed, -, -, -, hafter⟩ :=
    slashProvider_of_some Mock.config ⟨resolved / 2 + 101, resolved % 2⟩ (s := { s with
      challenges := s.challenges.erase ⟨resolved / 2 + 101, resolved % 2⟩
      nextChallengeIndex := s.nextChallengeIndex.erase (resolved / 2 + 101)
      pendingChallenges := FiniteMap.alter challenge.provider decrementOrDelete s.pendingChallenges
      pendingChallengesByBucket := FiniteMap.alter (challenge.bucketId, challenge.provider)
        decrementOrDelete s.pendingChallengesByBucket
      events := [] }) hinfo
  have hpred : u32Max - resolved = (u32Max - (resolved + 1)) + 1 := by omega
  have hall : slashed = info.stake := by
    rw [hslashed]
    exact Nat.min_eq_left hstake.ge
  unfold expire
  rw [hstep, hafter]
  refine ⟨hclock, h.agreements_eq, ⟨{ info with
      stake := info.stake - slashed
      stats := info.stats.challengeFailed }, ?_, hcommitted, hactive, fun _ ↦ ?_⟩, ?_, ?_,
    fun k hk hlast ↦ ?_⟩
  · rw [hprovider]
    exact Finmap.lookup_insert _
  · rw [hall]
    exact Nat.sub_self _
  · rw [hprovider, FiniteMap.lookup_alter_eq, if_pos rfl, h.pending_eq, hpred,
      decrementOrDelete_counterOf]
  · rw [hprovider, hbucket, FiniteMap.lookup_alter_eq, if_pos rfl, h.pendingByBucket_eq, hpred,
      decrementOrDelete_counterOf]
  · have hne : (⟨k / 2 + 101, k % 2⟩ : ChallengeId) ≠ ⟨resolved / 2 + 101, resolved % 2⟩ := by
      intro heq
      have hdeadline := congrArg ChallengeId.deadline heq
      have hindex := congrArg ChallengeId.index heq
      simp only at hdeadline hindex
      omega
    rw [FiniteMap.lookup_erase_eq, if_neg hne]
    exact h.opened k (by omega) hlast

private theorem stepsMeet_flood (start : State ℕ) (rounds : ℕ) :
    StepsMeet (step Mock.config) ExpiryFindsProvider start (flood rounds) := by
  induction rounds with
  | zero => trivial
  | succ rounds ih =>
    rw [flood, stepsMeet_append]
    exact ⟨ih, trivial, trivial, trivial, trivial⟩

/-- The condition of the deposits and the assumption on the agreements' bytes, together. -/
private def StepFits (s : State ℕ) (input : Input ℕ) : Prop :=
  BytesFit Mock.config s input ∧ ExpiryFindsProvider s input

/-- The agreements of a drained state are those at the start. -/
private theorem Drained.bytesFit {s : State ℕ} {input : Input ℕ} {rounds resolved : ℕ}
    (h : Drained (step Mock.config s input) rounds resolved) : BytesFit Mock.config s input := by
  refine bytesFit_of_total ?_
  rw [h.agreements_eq]
  decide +kernel

/-- One agreement, a flood, and the clock moves past its deadlines. -/
def floodThenWait (rounds : ℕ) : List (Input ℕ) :=
  Mock.redeemLong :: (flood rounds ++ [.advance (rounds + 200)])

private theorem drained_start {rounds : ℕ} (hrounds : rounds = 2 ^ 31) :
    Drained (run (step Mock.config) Mock.threeParties.state (floodThenWait rounds)) rounds 0 ∧
      StepsMeet (step Mock.config) StepFits Mock.threeParties.state (floodThenWait rounds) := by
  obtain ⟨used, hused, hflooded, hbytes⟩ := flooded_run rounds hrounds.le
  have hdrained := hflooded.drained (hused (by omega)) hrounds
  have hfinds := stepsMeet_flood floodStart rounds
  rw [floodStart, run_cons, run_nil] at hdrained hbytes hfinds
  constructor
  · rw [floodThenWait, run_cons, run_concat]
    exact hdrained
  · refine ⟨⟨bytesFit_of_total (by decide +kernel), trivial⟩, ?_⟩
    rw [stepsMeet_append]
    exact ⟨hbytes.and hfinds, ⟨hdrained.bytesFit, trivial⟩, trivial⟩

/-- All challenges but the last are resolved. -/
private theorem drained_run {rounds : ℕ} (hrounds : rounds = 2 ^ 31) (resolved : ℕ)
    (hresolved : resolved ≤ u32Max) :
    Drained (run (step Mock.config) Mock.threeParties.state
        (floodThenWait rounds ++ drain resolved)) rounds resolved ∧
      StepsMeet (step Mock.config) StepFits Mock.threeParties.state
        (floodThenWait rounds ++ drain resolved) := by
  induction resolved with
  | zero =>
    rw [drain, List.append_nil]
    exact drained_start hrounds
  | succ resolved ih =>
    obtain ⟨hdrained, hfits⟩ := ih (by omega)
    have hmax : u32Max = 2 ^ 32 - 1 := rfl
    have hnext := hdrained.succ (stake_backed Mock.threeParties _) (by omega) (by omega) (by omega)
    rw [drain, ← List.append_assoc]
    constructor
    · rw [run_concat]
      exact hnext
    · rw [stepsMeet_append]
      refine ⟨hfits, ⟨hnext.bytesFit, ?_⟩, trivial⟩
      obtain ⟨info, hinfo, -⟩ := hdrained.provider
      obtain ⟨challenge, hopen, -, hprovider, -⟩ := hdrained.opened resolved le_rfl (by omega)
      intro challenge' hopen' _
      rw [Option.mem_def, hopen] at hopen'
      cases hopen'
      rw [hprovider]
      exact Finmap.mem_of_lookup_eq_some hinfo

private theorem floodStart_escrow :
    ∃ agreement, floodStart.storageAgreements.lookup (0, 2) = some agreement ∧
      agreement.escrow = 0 ∧ agreement.maxBytes = 10 := by
  have hmap : (floodStart.storageAgreements.lookup (0, 2)).map (fun agreement ↦
      (agreement.escrow, agreement.maxBytes)) = some (0, 10) := by
    decide +kernel
  obtain ⟨agreement, hagreement, hfields⟩ := Option.map_eq_some_iff.mp hmap
  exact ⟨agreement, hagreement, congrArg Prod.fst hfields, congrArg Prod.snd hfields⟩

/-- A provider on its way out, with the last challenge of a flood still open. -/
private structure Leaving (s : State ℕ) (clock : ℕ) (info : ProviderInfo) : Prop where
  clock_eq : s.anchorBlock = clock
  lookup_info : s.providers.lookup 2 = some info
  uncommitted : info.committedBytes = 0
  unstaked : info.stake = 0
  uncounted : s.pendingOf 2 = 0
  agreements_eq : s.storageAgreements = floodStart.storageAgreements.erase (0, 2)
  opened : ∃ challenge,
    s.challenges.lookup ⟨u32Max / 2 + 101, u32Max % 2⟩ = some challenge ∧ IsFlood challenge

/-- No agreement is left, so the bytes fit. -/
private theorem bytesFit_of_erased {s : State ℕ} {input : Input ℕ}
    (h : (step Mock.config s input).storageAgreements =
      floodStart.storageAgreements.erase (0, 2)) : BytesFit Mock.config s input := by
  refine bytesFit_of_total ?_
  rw [h]
  decide +kernel

/-- The agreement of the drained provider is removed, which leaves it nothing committed. -/
private theorem Drained.removed {s : State ℕ} {rounds : ℕ} (h : Drained s rounds u32Max)
    (hrounds : rounds = 2 ^ 31) :
    ∃ info, info.deregisterAt = none ∧ Leaving
      (step Mock.config s (.call (.signed 3) (.removeSlashed 0 2))) (rounds + 200) info := by
  obtain ⟨info, hinfo, hcommitted, hactive, hstake⟩ := h.provider
  have hmax : u32Max = 2 ^ 32 - 1 := rfl
  have hunstaked : info.stake = 0 := hstake (by omega)
  obtain ⟨agreement, hagreement, hescrow, hbytes⟩ := floodStart_escrow
  rw [← h.agreements_eq] at hagreement
  have hpendingByBucket : s.pendingByBucketOf 0 2 = 0 := by
    rw [State.pendingByBucketOf, h.pendingByBucket_eq, counterOf_getD, Nat.sub_self]
  obtain ⟨ledger, buckets, events, hstep⟩ : ∃ ledger buckets events,
      step Mock.config s (.call (.signed 3) (.removeSlashed 0 2)) = _ :=
    step_removeSlashed 3 (Nat.zero_le _) hinfo hunstaked hpendingByBucket hagreement hescrow
  rw [hstep]
  refine ⟨{ info with committedBytes := info.committedBytes - agreement.maxBytes }, hactive,
    h.clock_eq, ?_, ?_, hunstaked, ?_, ?_, h.opened u32Max le_rfl (by omega)⟩
  · simp [FiniteMap.lookup_modify_eq, hinfo]
  · simp [hcommitted, hbytes]
  · rw [State.pendingOf, h.pending_eq, counterOf_getD, Nat.sub_self]
  · rw [h.agreements_eq]

/-- The provider announces its exit. -/
private theorem Leaving.announced {s : State ℕ} {clock : ℕ} {info : ProviderInfo}
    (h : Leaving s clock info) (hactive : info.deregisterAt = none) (hclock : clock + 150 ≤ u32Max) :
    ∃ info', info'.deregisterAt = some (clock + 150) ∧
      Leaving (step Mock.config s (.call (.signed 2) .deregisterProvider)) clock info' := by
  obtain ⟨events, hstep⟩ : ∃ events,
      step Mock.config s (.call (.signed 2) .deregisterProvider) = _ :=
    step_deregisterProvider h.lookup_info h.uncommitted hactive
  have hperiod : saturatingAdd u32Max s.anchorBlock Mock.config.deregisterAnnouncementPeriod =
      clock + 150 := by
    rw [h.clock_eq]
    exact saturatingAdd_of_le hclock
  rw [hperiod] at hstep
  rw [hstep]
  exact ⟨_, rfl, h.clock_eq, Finmap.lookup_insert _, h.uncommitted, h.unstaked, h.uncounted,
    h.agreements_eq, h.opened⟩

/-- The period passes. -/
private theorem Leaving.waited {s : State ℕ} {clock : ℕ} {info : ProviderInfo}
    (h : Leaving s clock info) {later : ℕ} (hlater : clock ≤ later) (hfits : later ≤ u32Max) :
    Leaving (step Mock.config s (.advance later)) later info := by
  have hclock := h.clock_eq
  have hstep : step Mock.config s (.advance later) = { s with anchorBlock := later } := by
    simp only [step]
    rw [if_pos (by omega)]
  rw [hstep]
  exact ⟨rfl, h.lookup_info, h.uncommitted, h.unstaked, h.uncounted, h.agreements_eq, h.opened⟩

/-- The provider leaves, with one challenge against it still open. -/
private theorem Leaving.left {s : State ℕ} {clock completeAfter : ℕ} {info : ProviderInfo}
    (h : Leaving s clock info) (hannounced : info.deregisterAt = some completeAfter)
    (helapsed : completeAfter ≤ clock) :
    ∃ ledger events, step Mock.config s (.call (.signed 2) .completeDeregister) =
      { s with ledger := ledger, providers := s.providers.erase 2, events := events } :=
  step_completeDeregister h.lookup_info hannounced (h.clock_eq ▸ helapsed) h.uncommitted
    h.uncounted h.unstaked

/-- The run up to the exit: a flood, all but one of its challenges resolved, and the provider
leaves. -/
def leaveBehind (rounds resolved : ℕ) : List (Input ℕ) :=
  floodThenWait rounds ++ drain resolved ++
    [.call (.signed 3) (.removeSlashed 0 2), .call (.signed 2) .deregisterProvider,
      .advance (rounds + 400), .call (.signed 2) .completeDeregister]

/-- After the exit one challenge is open against a provider without a record. -/
structure LeftBehind (s : State ℕ) (clock : ℕ) : Prop where
  clock_eq : s.anchorBlock = clock
  lookup_none : s.providers.lookup 2 = none
  agreements_eq : s.storageAgreements = floodStart.storageAgreements.erase (0, 2)
  opened : ∃ challenge,
    s.challenges.lookup ⟨u32Max / 2 + 101, u32Max % 2⟩ = some challenge ∧ IsFlood challenge

theorem leftBehind_run {rounds resolved : ℕ} (hrounds : rounds = 2 ^ 31)
    (hresolved : resolved = u32Max) :
    LeftBehind (run (step Mock.config) Mock.threeParties.state (leaveBehind rounds resolved))
        (rounds + 400) ∧
      StepsMeet (step Mock.config) (BytesFit Mock.config) Mock.threeParties.state
        (leaveBehind rounds resolved) ∧
      StepsMeet (step Mock.config) ExpiryFindsProvider Mock.threeParties.state
        (leaveBehind rounds resolved) := by
  subst hresolved
  have hmax : u32Max = 2 ^ 32 - 1 := rfl
  obtain ⟨hdrained, hfits⟩ := drained_run hrounds u32Max le_rfl
  obtain ⟨info₁, hactive, hremoved⟩ := hdrained.removed hrounds
  obtain ⟨info₂, hannounced, hleaving⟩ := hremoved.announced hactive (by omega)
  have hwaited := hleaving.waited (show rounds + 200 ≤ rounds + 400 by omega) (by omega)
  obtain ⟨ledger, events, hstep⟩ := hwaited.left hannounced (by omega)
  have hall : StepsMeet (step Mock.config) StepFits Mock.threeParties.state
      (leaveBehind rounds u32Max) := by
    rw [leaveBehind, stepsMeet_append]
    refine ⟨hfits, ⟨bytesFit_of_erased hremoved.agreements_eq, trivial⟩,
      ⟨bytesFit_of_erased hleaving.agreements_eq, trivial⟩,
      ⟨bytesFit_of_erased hwaited.agreements_eq, trivial⟩, ⟨bytesFit_of_erased ?_, trivial⟩, trivial⟩
    rw [hstep]
    exact hwaited.agreements_eq
  refine ⟨?_, hall.mono fun _ _ h ↦ h.1, hall.mono fun _ _ h ↦ h.2⟩
  rw [leaveBehind, run_append, run_cons, run_cons, run_cons, run_cons, run_nil, hstep]
  exact ⟨hwaited.clock_eq, Finmap.lookup_erase _ _, hwaited.agreements_eq, hwaited.opened⟩

/-- The last challenge is resolved after its provider left. -/
def strandDeposit (rounds resolved : ℕ) : List (Input ℕ) :=
  leaveBehind rounds resolved ++ [expire u32Max]

/-- Resolving the challenge that was left behind removes it and refunds nothing. -/
private theorem LeftBehind.step_eq {s : State ℕ} {rounds : ℕ} (h : LeftBehind s (rounds + 400))
    (hrounds : rounds = 2 ^ 31) :
    (step Mock.config s (expire u32Max)).ledger = s.ledger ∧
      (step Mock.config s (expire u32Max)).storageAgreements = s.storageAgreements ∧
        (step Mock.config s (expire u32Max)).challenges =
          s.challenges.erase ⟨u32Max / 2 + 101, u32Max % 2⟩ := by
  obtain ⟨challenge, hopen, -, hprovider, -⟩ := h.opened
  have hmax : u32Max = 2 ^ 32 - 1 := rfl
  have hclock := h.clock_eq
  have hfits : (Call.resolveExpiredChallenge ⟨u32Max / 2 + 101, u32Max % 2⟩ : Call ℕ).fits
      Mock.config = true := by
    decide
  have hstep := step_resolveExpiredChallenge 3 hfits hopen
    (show u32Max / 2 + 101 < s.anchorBlock by omega)
  have hnone := h.lookup_none
  rw [← hprovider] at hnone
  rw [slashProvider_of_none Mock.config _ (by exact hnone)] at hstep
  unfold expire
  rw [hstep]
  exact ⟨rfl, rfl, rfl⟩

/-- The deposit of the last challenge stays on hold after the challenge left. -/
theorem deposit_stranded :
    StepsMeet (step Mock.config) (BytesFit Mock.config) Mock.threeParties.state
        (strandDeposit (2 ^ 31) u32Max) ∧
      (run (step Mock.config) Mock.threeParties.state
          (strandDeposit (2 ^ 31) u32Max)).held .challengeDeposit 3 =
        (run (step Mock.config) Mock.threeParties.state
          (strandDeposit (2 ^ 31) u32Max)).depositsOf 3 + 100 := by
  -- the lengths are named, or the run would be unfolded
  obtain ⟨rounds, hrounds⟩ : ∃ rounds, rounds = 2 ^ 31 := ⟨_, rfl⟩
  obtain ⟨resolved, hresolved⟩ : ∃ resolved, resolved = u32Max := ⟨_, rfl⟩
  have hinputs : strandDeposit (2 ^ 31) u32Max = strandDeposit rounds resolved := by
    rw [hrounds, hresolved]
  obtain ⟨hleft, hbytes, hfinds⟩ := leftBehind_run hrounds hresolved
  obtain ⟨hledger, hagreements, hchallenges⟩ := hleft.step_eq hrounds
  have hbacked := depositsBacked_run Mock.threeParties hfinds 3
  obtain ⟨challenge, hopen, -, -, hchallenger, hdeposit⟩ := hleft.opened
  rw [hinputs, strandDeposit]
  constructor
  · rw [stepsMeet_append]
    refine ⟨hbytes, bytesFit_of_erased ?_, trivial⟩
    rw [hagreements, hleft.agreements_eq]
  · have hsum := ownedSum_erase (fun _ (challenge : Challenge ℕ) ↦ challenge.challenger)
      Challenge.deposit (run (step Mock.config) Mock.threeParties.state
        (leaveBehind rounds resolved)).challenges ⟨u32Max / 2 + 101, u32Max % 2⟩ 3
    rw [hopen, share_some, if_pos hchallenger, hdeposit] at hsum
    rw [run_concat, State.held, hledger, State.depositsOf, hchallenges, hsum]
    exact hbacked

end Web3Storage.Pallet
