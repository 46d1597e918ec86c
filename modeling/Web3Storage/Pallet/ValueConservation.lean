import Web3Storage.Pallet.ChallengeIds

/-!
# Conservation of value

No call creates or destroys value when the treasury accepts what is slashed: the total of the ledger is
the same before and after (`value_conserved`). The two payments that split an amount by percent, the
end of an agreement and the answer to a challenge, split it exactly: their products fit 128 bits
because the amounts lie on hold in a ledger whose total is at most a hundredth of the range.
-/

set_option autoImplicit false
set_option relaxedAutoImplicit false

namespace Web3Storage.Pallet

open Foundations Primitives
open Ledger (Moves)

variable {AccountId : Type} [DecidableEq AccountId] {cfg : Config AccountId}
  {s s' : State AccountId} {input : Input AccountId}

/-- A percentage of an amount within the issuance fits 128 bits. -/
theorem percent_fits {amount percent : ℕ} (hamount : amount ≤ maxIssuance)
    (hpercent : percent ≤ 100) : amount * percent ≤ u128Max := by
  have hproduct : amount * percent ≤ maxIssuance * 100 := Nat.mul_le_mul hamount hpercent
  have hissuance : maxIssuance * 100 ≤ u128Max := by decide
  omega

/-! ### Ending an agreement -/

/-- How a finalized agreement was paid out: its locked payment to the provider and the treasury, its
sync balance to the owner, its storage deposit to the depositor. The burned part is the percentage
without any rounding up or wrapping. -/
structure PaidOut (cfg : Config AccountId) (bucketId : ℕ) (provider : AccountId)
    (agreement : StorageAgreement AccountId) (action : EndAction) (s s' : State AccountId)
    (toProvider toTreasury : ℕ) : Prop where
  sum_eq : toProvider + toTreasury = agreement.paymentLocked
  pay_eq : action = .pay → toTreasury = 0
  burn_eq : ∀ burnPercent, action = .burn burnPercent →
    agreement.paymentLocked * min burnPercent 100 ≤ u128Max ∧
      toTreasury = agreement.paymentLocked * min burnPercent 100 / 100
  event_mem : .agreementEnded bucketId provider toProvider toTreasury ∈ s'.events
  free_eq : ∃ ticket, ∀ a, Ledger.free s'.ledger a = Ledger.free s.ledger a +
    (if a = provider then toProvider else 0) + (if a = cfg.treasury then toTreasury else 0) +
      (if a = agreement.owner then agreement.syncBalance else 0) +
        if a = agreement.depositor then ticket else 0

/-- Finalizing an agreement of a funded state pays it out. -/
theorem paidOut_of_finalizeAgreement (hs : Funded s) {bucketId : ℕ} {provider : AccountId}
    {agreement : StorageAgreement AccountId} {action : EndAction} {isEarly : Bool}
    (hagreement : s.storageAgreements.lookup (bucketId, provider) = some agreement)
    (h : finalizeAgreement cfg bucketId provider agreement action isEarly s = .ok s') :
    PaidOut cfg bucketId provider agreement action s s'
      (splitPayment action agreement.paymentLocked).1
      (splitPayment action agreement.paymentLocked).2 := by
  have hescrow := hs.escrow_le_held hagreement
  rw [hs.escrow_eq hagreement] at hescrow
  have hlocked : agreement.paymentLocked ≤ maxIssuance := by
    have hheld := hs.held_le .agreementPayment agreement.owner
    omega
  simp only [finalizeAgreement, bind_eq_ok, pure_eq_ok] at h
  obtain ⟨paid, hpaid, burned, hburned, released, hreleased, ledger, hledger, rfl⟩ := h
  refine ⟨splitPayment_sum action agreement.paymentLocked, ?_, ?_, ?_, ?_⟩
  · rintro rfl
    rfl
  · rintro burnPercent rfl
    have hfits := percent_fits hlocked (Nat.min_le_right burnPercent 100)
    exact ⟨hfits, by simp only [splitPayment, wrappingMul_of_le hfits]⟩
  · simp
  · obtain ⟨ticket, hticket⟩ := dropTicket_free hledger
    refine ⟨ticket, fun a ↦ ?_⟩
    rw [hticket, releaseSyncBalance_free hreleased, settlePayment_free hburned,
      settlePayment_free hpaid]

/-! ### Answering a challenge -/

/-- How the deposit of an answered challenge is split. The challenger bears at most its percentage,
computed without wrapping, and the provider the rest. -/
structure CostsSplit (id : ChallengeId) (challenge : Challenge AccountId) (elapsed : ℕ)
    (s' : State AccountId) (challengerCost providerCost : ℕ) : Prop where
  sum_eq : challengerCost + providerCost = challenge.deposit
  challenger_le : challengerCost ≤ challenge.deposit
  provider_le : providerCost ≤ challenge.deposit
  product_le : challenge.deposit * challengerPercent challenge.authorized elapsed ≤ u128Max
  share_le : challengerCost ≤
    challenge.deposit * challengerPercent challenge.authorized elapsed / 100
  event_mem : .challengeDefended id challenge.provider elapsed challengerCost providerCost ∈
    s'.events

/-- The deposit of every open challenge is within the issuance. -/
def DepositsWithinIssuance (s : State AccountId) : Prop :=
  ∀ id challenge, s.challenges.lookup id = some challenge → challenge.deposit ≤ maxIssuance

/-- A deposit was on hold when its challenge was opened. -/
theorem Effect.depositsWithinIssuance (h : Effect cfg s input s') (hfunded : Funded s)
    (hs : DepositsWithinIssuance s) : DepositsWithinIssuance s' := by
  have hfunded' := h.funded hfunded
  intro id challenge' hopen
  cases h with
  | rejected | outside | advanced | registered | providerChanged | deregistered | bucketCreated
  | bucketDeleted | bucketChanged | checkpointed | checkpointExtended | opened | toppedUp | amended
  | closed => exact hs id challenge' hopen
  | challengeOpened who call bucketId provider bucket agreement commitment target challengeId
      challenge ledger events hcall hbucket hagreement hlive hleaf hdeadline hindex hbound
      hchallenge hmoves =>
    simp only [FiniteMap.lookup_insert_eq] at hopen
    split_ifs at hopen
    · cases hopen
      have hheld := hmoves.held_add .challengeDeposit who
      simp only [Ledger.amountAt_apply, and_self, if_true, Pi.zero_apply, add_zero] at hheld
      have hbounded := hfunded'.held_le .challengeDeposit who
      simp only [State.held] at hbounded
      omega
    · exact hs id challenge' hopen
  | challengeAnswered =>
    simp only [FiniteMap.lookup_erase_eq] at hopen
    split_ifs at hopen
    exact hs id challenge' hopen
  | challengeExpired origin challengeId challenge hchallenge hexpired =>
    rw [(slashProvider_ids challenge challengeId _).2.2, FiniteMap.lookup_erase_eq] at hopen
    split_ifs at hopen
    exact hs id challenge' hopen

theorem depositsWithinIssuance_run (genesis : Genesis cfg) (inputs : List (Input AccountId)) :
    DepositsWithinIssuance (run (step cfg) genesis.state inputs) := by
  refine genesis.invariant_of_effect DepositsWithinIssuance ?_
    (fun _ _ _ hfunded hs h ↦ h.depositsWithinIssuance hfunded hs) inputs
  have hboth := genesis.induction (fun s ↦ Funded s ∧ DepositsWithinIssuance s) ?_
    (fun _ _ _ _ _ _ _ hs _ h ↦ ⟨h.funded hs.1, h.depositsWithinIssuance hs.1 hs.2⟩)
    (fun _ _ _ _ _ _ _ _ hs _ _ h ↦ ⟨h.funded hs.1, h.depositsWithinIssuance hs.1 hs.2⟩)
  · exact hboth.2
  · exact ⟨⟨fun a ↦ Nat.zero_le _, genesis.total_le⟩, fun id challenge hopen ↦ by cases hopen⟩

/-- An accepted response splits the deposit. -/
theorem costsSplit_of_respondToChallenge (hs : DepositsWithinIssuance s) {who : AccountId}
    {id : ChallengeId} {response : ChallengeResponse AccountId} {challenge : Challenge AccountId}
    (hopen : s.challenges.lookup id = some challenge)
    (h : respondToChallenge cfg who id response s = .ok s') :
    ∃ challengerCost providerCost, CostsSplit id challenge (s.anchorBlock - challenge.createdAt) s'
      challengerCost providerCost := by
  obtain ⟨challenge', bucket, ledger, paid, hchallenge, hprovider, -, -, -, hpaid, -, hsettled,
    rfl⟩ := respondToChallenge_ok h
  rw [hopen] at hchallenge
  cases hchallenge
  have hpercent :=
    (challengerPercent_bounds challenge.authorized (s.anchorBlock - challenge.createdAt)).2
  have hfits := percent_fits (hs id challenge hopen) hpercent
  have hshare := (settleChallengeDeposit_moves cfg challenge.challenger challenge.provider
    challenge.deposit _ s.ledger (challengerShare_le challenge.deposit hpercent)).1
  rw [← hsettled, challengerShare, wrappingMul_of_le hfits] at hshare
  subst hprovider
  refine ⟨paid, challenge.deposit - paid, by omega, hpaid, Nat.sub_le _ _, hfits, hshare, ?_⟩
  simp

/-! ### Whole runs -/

omit [DecidableEq AccountId] in
/-- A payment is the exact product, and it fits 128 bits. -/
theorem calculatePayment_exact {pricePerByte maxBytes duration payment : ℕ}
    (h : calculatePayment pricePerByte maxBytes duration = .ok payment) :
    payment = pricePerByte * maxBytes * duration ∧ payment ≤ u128Max := by
  simp only [calculatePayment, bind_eq_ok, fetch_eq_ok, checkedMul_eq_some] at h
  obtain ⟨perBlock, ⟨-, rfl⟩, hfits, rfl⟩ := h
  exact ⟨rfl, hfits⟩

/-- Value is conserved. In every reachable state every call keeps the total of the ledger, if the
treasury accepts what the call slashes, finalizing an agreement pays exactly its locked payment to the
provider and the treasury and its sync balance to the owner, answering a challenge splits exactly its
deposit, and none of the products wraps. -/
theorem value_conserved (genesis : Genesis cfg) (inputs : List (Input AccountId)) :
    (∀ origin call, TreasuryAccepts cfg (run (step cfg) genesis.state inputs) call →
      Ledger.total (step cfg (run (step cfg) genesis.state inputs) (.call origin call)).ledger =
        Ledger.total (run (step cfg) genesis.state inputs).ledger) ∧
    (∀ bucketId provider agreement action isEarly s',
      (run (step cfg) genesis.state inputs).storageAgreements.lookup (bucketId, provider) =
        some agreement →
      finalizeAgreement cfg bucketId provider agreement action isEarly
        (run (step cfg) genesis.state inputs) = .ok s' →
      ∃ toProvider toTreasury, PaidOut cfg bucketId provider agreement action
        (run (step cfg) genesis.state inputs) s' toProvider toTreasury) ∧
    (∀ who id response challenge s',
      (run (step cfg) genesis.state inputs).challenges.lookup id = some challenge →
      respondToChallenge cfg who id response (run (step cfg) genesis.state inputs) = .ok s' →
      ∃ challengerCost providerCost, CostsSplit id challenge
        ((run (step cfg) genesis.state inputs).anchorBlock - challenge.createdAt) s' challengerCost
          providerCost) ∧
    ∀ pricePerByte maxBytes duration payment,
      calculatePayment pricePerByte maxBytes duration = .ok payment →
        payment = pricePerByte * maxBytes * duration ∧ payment ≤ u128Max := by
  have hfunded := funded_run cfg genesis.funded inputs
  refine ⟨fun origin call haccepts ↦ ?_,
    fun bucketId provider agreement action isEarly s' hagreement h ↦ ?_,
    fun who id response challenge s' hopen h ↦ ?_,
    fun pricePerByte maxBytes duration payment h ↦ calculatePayment_exact h⟩
  · have heffect : Effect cfg (run (step cfg) genesis.state inputs) (.call origin call) _ :=
      effect_of_step hfunded _
    exact heffect.total_le.2 haccepts
  · exact ⟨_, _, paidOut_of_finalizeAgreement hfunded hagreement h⟩
  · exact costsSplit_of_respondToChallenge (depositsWithinIssuance_run genesis inputs) hopen h

/-- On the mock runtime the treasury accepts every slash: the existential deposit is one unit. -/
private theorem treasuryAccepts_mock (s : State ℕ) (call : Call ℕ) :
    TreasuryAccepts Mock.config s call := by
  intro challengeId challenge info hcall hchallenge hinfo credit hcredit hpositive
  have hexists : decide (1 ≤ credit) = true := decide_eq_true hpositive
  change ((Finmap.lookup 999 _).isSome || decide (1 ≤ credit)) = true
  rw [hexists, Bool.or_true]

/-- On the mock runtime a slash moves the stake of provider 2 to the treasury and loses nothing. -/
theorem value_conserved_slash :
    Ledger.total (step Mock.config (run (step Mock.config) Mock.threeParties.state
        [Mock.redeemLong, Mock.challengeOneLeaf, .advance 101])
          (.call .root (.resolveExpiredChallenge ⟨100, 0⟩))).ledger =
      Ledger.total (run (step Mock.config) Mock.threeParties.state
        [Mock.redeemLong, Mock.challengeOneLeaf, .advance 101]).ledger :=
  (value_conserved Mock.threeParties
    [Mock.redeemLong, Mock.challengeOneLeaf, .advance 101]).1 .root _ (treasuryAccepts_mock _ _)

end Web3Storage.Pallet
