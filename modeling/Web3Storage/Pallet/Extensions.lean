import Web3Storage.Pallet.Mock
import Web3Storage.Pallet.Redemptions

/-!
# Extensions

The term of an agreement is what it charges for: its size and price, when its period started and ends,
and what is locked. `TermChange` says what a call does to the term of one agreement; every result here
reads it off there.

An extension starts a new period at the current block. The new end replaces the old one
(`extension_resets_expiry`), and the new payment is added to what the old period has left
(`extension_locks`), so that blocks which both periods cover are charged twice unless the old period
has used up what was locked for it (`extensions_settled`).
-/

set_option autoImplicit false
set_option relaxedAutoImplicit false

namespace Web3Storage.Pallet

open Foundations Primitives

/-- What an agreement charges for, and what is locked for it. -/
structure Term where
  maxBytes : ℕ
  paymentLocked : ℕ
  pricePerByte : ℕ
  startedAt : ℕ
  expiresAt : ℕ
  deriving DecidableEq

/-- The price of some blocks. -/
def Term.price (term : Term) (blocks : ℕ) : ℕ := term.pricePerByte * term.maxBytes * blocks

variable {AccountId : Type}

def StorageAgreement.term (agreement : StorageAgreement AccountId) : Term where
  maxBytes := agreement.maxBytes
  paymentLocked := agreement.paymentLocked
  pricePerByte := agreement.pricePerByte
  startedAt := agreement.startedAt
  expiresAt := agreement.expiresAt

variable [DecidableEq AccountId]

/-- The term of the agreement of a provider in a bucket. -/
def State.termOf (s : State AccountId) (bucketId : ℕ) (provider : AccountId) : Option Term :=
  (s.storageAgreements.lookup (bucketId, provider)).map StorageAgreement.term

/-! ### What a call does to a term -/

/-- The period an extension settles: its price, capped at what is locked for it. -/
def Term.earned (term : Term) (anchorBlock : ℕ) : ℕ :=
  min (term.price (anchorBlock - term.startedAt)) term.paymentLocked

/-- The term after an extension at a price, for a payment. -/
def Term.extended (term : Term) (anchorBlock pricePerByte additionalDuration payment : ℕ) : Term where
  maxBytes := term.maxBytes
  paymentLocked := term.paymentLocked - term.earned anchorBlock + payment
  pricePerByte := pricePerByte
  startedAt := anchorBlock
  expiresAt := saturatingAdd u32Max anchorBlock additionalDuration

/-- The term of a redeemed quote. -/
def Term.opened (terms : AgreementTerms AccountId) (anchorBlock payment : ℕ) : Term where
  maxBytes := terms.maxBytes
  paymentLocked := payment
  pricePerByte := terms.pricePerByte
  startedAt := anchorBlock
  expiresAt := saturatingAdd u32Max anchorBlock terms.duration

/-- Whether a redemption opens the agreement of a provider in a bucket. -/
def Redemption.Opens (redemption : Redemption AccountId) (s : State AccountId) (bucketId : ℕ)
    (provider : AccountId) : Prop :=
  redemption.provider = provider ∧
    match redemption.target with
    | .new => s.nextBucketId = bucketId
    | .existing target => target = bucketId

/-- Whether a call ends the agreement of a provider in a bucket. -/
def Call.Ends (who : AccountId) (bucketId : ℕ) (provider : AccountId) : Call AccountId → Prop
  | .removeSlashed target ended | .endAgreement target ended _ =>
    target = bucketId ∧ ended = provider
  | .claimExpiredAgreement target => target = bucketId ∧ who = provider
  | _ => False

/-- What an accepted call does to the term of an agreement. -/
inductive TermChange (bucketId : ℕ) (provider who : AccountId) (s : State AccountId) :
    Call AccountId → Option Term → Prop
  | kept (call : Call AccountId) :
      TermChange bucketId provider who s call (s.termOf bucketId provider)
  | opened (call : Call AccountId) (redemption : Redemption AccountId) (payment : ℕ)
      (hredemption : call.redemption who = some redemption)
      (hopens : redemption.Opens s bucketId provider)
      (hpayment : calculatePayment redemption.terms.pricePerByte redemption.terms.maxBytes
        redemption.terms.duration = .ok payment) :
      TermChange bucketId provider who s call
        (some (.opened redemption.terms s.anchorBlock payment))
  | extended (additionalDuration maxPayment : ℕ) (info : ProviderInfo) (old : Term) (payment : ℕ)
      (hinfo : s.providers.lookup provider = some info)
      (hold : s.termOf bucketId provider = some old) (hlive : s.anchorBlock < old.expiresAt)
      (hpayment : calculatePayment info.settings.pricePerByte old.maxBytes additionalDuration =
        .ok payment) :
      TermChange bucketId provider who s
        (.extendAgreement bucketId provider additionalDuration maxPayment)
        (some (old.extended s.anchorBlock info.settings.pricePerByte additionalDuration payment))
  | toppedUp (additionalBytes maxPayment : ℕ) (old : Term) (payment : ℕ)
      (hold : s.termOf bucketId provider = some old) :
      TermChange bucketId provider who s
        (.topUpAgreement bucketId provider additionalBytes maxPayment)
        (some { old with
          maxBytes := old.maxBytes + additionalBytes
          paymentLocked := old.paymentLocked + payment })
  | ended (call : Call AccountId) (hends : call.Ends who bucketId provider) :
      TermChange bucketId provider who s call none

section Changes

variable {cfg : Config AccountId} {s s' : State AccountId} {who provider : AccountId} {bucketId : ℕ}
  {call : Call AccountId}

private theorem termChange_of_kept (h : s'.storageAgreements = s.storageAgreements) :
    TermChange bucketId provider who s call (s'.termOf bucketId provider) := by
  have hterm : s'.termOf bucketId provider = s.termOf bucketId provider := by
    unfold State.termOf
    rw [h]
  rw [hterm]
  exact .kept call

/-- An agreement that is written under a key changes the term under this key only. -/
private theorem termChange_of_insert {key : ℕ × AccountId} {new : StorageAgreement AccountId}
    (h : s'.storageAgreements = s.storageAgreements.insert key new)
    (hnew : key = (bucketId, provider) →
      TermChange bucketId provider who s call (some new.term)) :
    TermChange bucketId provider who s call (s'.termOf bucketId provider) := by
  have hterm : s'.termOf bucketId provider =
      if (bucketId, provider) = key then some new.term else s.termOf bucketId provider := by
    unfold State.termOf
    rw [h, FiniteMap.lookup_insert_eq]
    split_ifs
    · rfl
    · rfl
  rw [hterm]
  split_ifs with hkey
  · exact hnew hkey.symm
  · exact .kept call

/-- An agreement that is written with the term it had changes no term. -/
private theorem termChange_of_same {key : ℕ × AccountId} {old new : StorageAgreement AccountId}
    (h : s'.storageAgreements = s.storageAgreements.insert key new)
    (hold : s.storageAgreements.lookup key = some old) (hsame : new.term = old.term) :
    TermChange bucketId provider who s call (s'.termOf bucketId provider) := by
  refine termChange_of_insert h ?_
  rintro rfl
  have hterm : s.termOf bucketId provider = some new.term := by
    rw [State.termOf, hold, hsame]
    rfl
  rw [← hterm]
  exact .kept call

private theorem termChange_of_erase {ended : AccountId} {target : ℕ}
    (h : s'.storageAgreements = s.storageAgreements.erase (target, ended))
    (hends : target = bucketId ∧ ended = provider → call.Ends who bucketId provider) :
    TermChange bucketId provider who s call (s'.termOf bucketId provider) := by
  have hterm : s'.termOf bucketId provider =
      if (bucketId, provider) = (target, ended) then none else s.termOf bucketId provider := by
    unfold State.termOf
    rw [h, FiniteMap.lookup_erase_eq]
    split_ifs
    · rfl
    · rfl
  rw [hterm]
  split_ifs with hkey
  · rw [Prod.mk.injEq] at hkey
    exact .ended call (hends ⟨hkey.1.symm, hkey.2.symm⟩)
  · exact .kept call

/-- A redeemed quote opens its agreement with its terms. -/
private theorem termChange_of_opening {owner opened : AccountId} {target : ℕ}
    {terms : AgreementTerms AccountId} {signature : MultiSignature} {goal : BucketTarget}
    {kind : QuoteKind} {info : ProviderInfo} {agreement : StorageAgreement AccountId} {deposits : ℕ}
    {ledger : Funds AccountId}
    (hopening : Opening cfg s owner opened terms signature goal kind info agreement deposits ledger)
    (hredemption : call.redemption who = some ⟨owner, opened, terms, signature, goal, kind⟩)
    (hopens : (⟨owner, opened, terms, signature, goal, kind⟩ : Redemption AccountId).Opens s target
      opened)
    (h : s'.storageAgreements = s.storageAgreements.insert (target, opened) agreement) :
    TermChange bucketId provider who s call (s'.termOf bucketId provider) := by
  refine termChange_of_insert h fun hkey ↦ ?_
  cases hkey
  have hterm : agreement.term = .opened terms s.anchorBlock agreement.paymentLocked := by
    rw [hopening.agreement_eq]
    rfl
  rw [hterm]
  exact .opened call _ _ hredemption hopens hopening.payment_eq

omit [DecidableEq AccountId] in
/-- The settled period is paid at its price, capped at what is locked. -/
private theorem elapsedPayment_ok {agreement : StorageAgreement AccountId} {anchorBlock earned : ℕ}
    (h : elapsedPayment agreement anchorBlock = .ok earned) :
    earned = agreement.term.earned anchorBlock := by
  unfold elapsedPayment at h
  dsimp only at h
  split_ifs at h with helapsed
  · simp only [bind_eq_ok, pure_eq_ok, calculatePayment, fetch_eq_ok, checkedMul_eq_some] at h
    obtain ⟨payment, ⟨perBlock, ⟨-, rfl⟩, -, rfl⟩, rfl⟩ := h
    rfl
  · cases h
    push Not at helapsed
    simp only [Term.earned, Term.price, StorageAgreement.term, helapsed, Nat.mul_zero, Nat.zero_min]

/-- An accepted extension: the provider's current price, the old agreement and the payment of the new
period. Assumes: a funded state, in which no payment saturates. -/
theorem extendAgreement_term {additionalDuration maxPayment : ℕ} (hs : Funded s)
    (h : extendAgreement cfg who bucketId provider additionalDuration maxPayment s = .ok s') :
    ∃ info old new payment, s.providers.lookup provider = some info ∧
      s.storageAgreements.lookup (bucketId, provider) = some old ∧ s.anchorBlock < old.expiresAt ∧
        calculatePayment info.settings.pricePerByte old.maxBytes additionalDuration = .ok payment ∧
          new.term = old.term.extended s.anchorBlock info.settings.pricePerByte additionalDuration
            payment ∧
            s'.storageAgreements = s.storageAgreements.insert (bucketId, provider) new ∧
              ∀ other, Ledger.free s'.ledger other + (if other = who then payment else 0) =
                Ledger.free s.ledger other +
                  if other = provider then old.term.earned s.anchorBlock else 0 := by
  simp only [extendAgreement, bind_eq_ok, pure_eq_ok, fetch_eq_ok, check_eq_ok,
    decide_eq_true_eq] at h
  obtain ⟨info, hinfo, -, -, -, -, old, hold, -, -, -, -, -, -, -, hlive, earned, hearned, settled,
    hsettled, payment, hpayment, -, -, ledger, hledger, role, -, rfl⟩ := h
  obtain rfl := elapsedPayment_ok hearned
  have hmoves := (settlePayment_moves hsettled).trans (holdPaymentFrom_moves hledger)
  rw [zero_add, add_zero] at hmoves
  have hbound := hs.escrow_add_le hold hmoves
  have hmax := maxIssuance_lt
  have hearned := elapsedPayment_le hearned
  refine ⟨info, old, _, payment, hinfo, hold, hlive, hpayment, ?_, rfl, fun other ↦ ?_⟩
  · have hfits : old.paymentLocked - old.term.earned s.anchorBlock + payment ≤ u128Max := by omega
    simp only [StorageAgreement.term, Term.extended] at hfits ⊢
    rw [saturatingAdd_of_le hfits]
  · rw [holdPaymentFrom_free hledger, settlePayment_free hsettled]

/-- What an accepted call does to the term of an agreement. Assumes: a funded state. -/
theorem termChange_of_dispatchSigned (hs : Funded s)
    (h : dispatchSigned cfg who call s.withoutEvents = .ok s') :
    TermChange bucketId provider who s call (s'.termOf bucketId provider) := by
  cases call with
  | registerProvider multiaddr publicKey stake =>
    obtain ⟨ledger, info, -, -, -, -, -, rfl⟩ := registerProviderInternal_ok h
    exact termChange_of_kept rfl
  | addStake amount =>
    obtain ⟨info, ledger, -, -, rfl⟩ := addStake_ok h
    exact termChange_of_kept rfl
  | deregisterProvider =>
    obtain ⟨info, completeAfter, -, -, -, -, rfl⟩ := deregisterProvider_ok h
    exact termChange_of_kept rfl
  | completeDeregister =>
    obtain ⟨info, deregisterAt, deposit, ledger, -, -, -, -, -, -, rfl⟩ := completeDeregister_ok h
    exact termChange_of_kept rfl
  | cancelDeregister =>
    obtain ⟨info, -, -, rfl⟩ := cancelDeregister_ok h
    exact termChange_of_kept rfl
  | updateProviderSettings settings =>
    obtain ⟨info, -, -, -, rfl⟩ := updateProviderSettings_ok h
    exact termChange_of_kept rfl
  | updateProviderMultiaddr multiaddr =>
    obtain ⟨info, -, rfl⟩ := updateProviderMultiaddr_ok h
    exact termChange_of_kept rfl
  | setExtensionsBlocked target blocked =>
    obtain ⟨old, hold, -, rfl⟩ := setExtensionsBlocked_ok h
    exact termChange_of_same rfl hold rfl
  | createBucket minProviders visibility =>
    obtain ⟨ledger, bucket, -, -, -, hs'⟩ := createBucketInternal_ok (createBucket_ok h)
    simp only at hs'
    subst hs'
    exact termChange_of_kept rfl
  | deleteBucket target =>
    obtain ⟨bucket, ledger, memberBuckets, loss, -, -, -, -, -, -, rfl⟩ := deleteBucket_ok h
    exact termChange_of_kept rfl
  | createBucketWithPrimary opened terms signature visibility =>
    obtain ⟨info, agreement, bucket, ledger, deposits, hopening, -, rfl⟩ :=
      createBucketWithPrimary_ok h
    exact termChange_of_opening hopening.ofWithoutEvents rfl ⟨rfl, rfl⟩ rfl
  | addPrimaryProvider target opened terms signature =>
    obtain ⟨info, agreement, bucket, ledger, deposits, hopening, -, rfl⟩ := addPrimaryProvider_ok h
    exact termChange_of_opening hopening.ofWithoutEvents rfl ⟨rfl, rfl⟩ rfl
  | addReplicaProvider target opened terms signature =>
    obtain ⟨info, agreement, ledger, deposits, hopening, rfl⟩ := addReplicaProvider_ok h
    exact termChange_of_opening hopening.ofWithoutEvents rfl ⟨rfl, rfl⟩ rfl
  | setMinProviders target minProviders =>
    obtain ⟨bucket, -, rfl⟩ := setMinProviders_ok h
    exact termChange_of_kept rfl
  | freezeBucket target =>
    obtain ⟨bucket, snapshot, -, -, -, rfl⟩ := freezeBucket_ok h
    exact termChange_of_kept rfl
  | setBucketVisibility target visibility =>
    obtain ⟨bucket, -, rfl⟩ := setBucketVisibility_ok h
    exact termChange_of_kept rfl
  | setMember target member role =>
    obtain ⟨bucket, members, ledger, memberBuckets, amount, -, -, -, rfl⟩ := setMember_ok h
    exact termChange_of_kept rfl
  | removeMember target member =>
    obtain ⟨bucket, members, ledger, memberBuckets, depositor, amount, -, -, -, rfl⟩ :=
      removeMember_ok h
    exact termChange_of_kept rfl
  | removeSlashed target ended =>
    obtain ⟨info, agreement, ledger, deposit, events, -, -, -, -, -, rfl⟩ := removeSlashed_ok h
    exact termChange_of_erase rfl id
  | endAgreement target ended action =>
    obtain ⟨agreement, isEarly, -, -, hfinalize⟩ := endAgreement_ok h
    obtain ⟨ledger, deposit, events, -, rfl⟩ := finalizeAgreement_ok hfinalize
    exact termChange_of_erase rfl id
  | claimExpiredAgreement target =>
    obtain ⟨agreement, -, -, hfinalize⟩ := claimExpiredAgreement_ok h
    obtain ⟨ledger, deposit, events, -, rfl⟩ := finalizeAgreement_ok hfinalize
    exact termChange_of_erase rfl id
  | topUpAgreement target toppedUp additionalBytes maxPayment =>
    obtain ⟨info, old, payment, ledger, -, -, hold, -, -, -, -, rfl⟩ := topUpAgreement_ok h
    refine termChange_of_insert rfl fun hkey ↦ ?_
    cases hkey
    exact .toppedUp additionalBytes maxPayment old.term payment (congrArg _ hold)
  | transferAgreementOwnership target transferred newOwner =>
    obtain ⟨old, ledger, -, hold, -, -, rfl⟩ := transferAgreementOwnership_ok h
    exact termChange_of_same rfl hold rfl
  | extendAgreement target extended additionalDuration maxPayment =>
    have hfunded : Funded s.withoutEvents := ⟨hs.covers, hs.total_le⟩
    obtain ⟨info, old, new, payment, hinfo, hold, hlive, hpayment, hterm, hagreements, -⟩ :=
      extendAgreement_term hfunded h
    refine termChange_of_insert hagreements fun hkey ↦ ?_
    cases hkey
    rw [hterm]
    exact .extended additionalDuration maxPayment info old.term payment hinfo (congrArg _ hold) hlive
      hpayment
  | checkpoint target commitment signatures =>
    obtain ⟨bucket, signed, -, -, -, -, rfl⟩ := checkpoint_ok h
    exact termChange_of_kept rfl
  | extendCheckpoint target signatures =>
    obtain ⟨bucket, snapshot, signed, -, -, -, rfl⟩ := extendCheckpoint_ok h
    exact termChange_of_kept rfl
  | challengeCheckpoint target challenged location =>
    obtain ⟨bucket, snapshot, index, agreement, challengeId, -, -, -, -, -, -, hcreate⟩ :=
      challengeCheckpoint_ok h
    obtain ⟨ledger, challenge, -, -, -, -, -, -, -, rfl⟩ := createChallenge_ok hcreate
    exact termChange_of_kept rfl
  | challengeOffchain target challenged commitment location signature =>
    obtain ⟨bucket, agreement, challengeId, -, -, -, -, hcreate⟩ := challengeOffchain_ok h
    obtain ⟨ledger, challenge, -, -, -, -, -, -, -, rfl⟩ := createChallenge_ok hcreate
    exact termChange_of_kept rfl
  | challengeReplica target challenged location =>
    obtain ⟨bucket, agreement, commitment, challengeId, -, -, -, -, hcreate⟩ := challengeReplica_ok h
    obtain ⟨ledger, challenge, -, -, -, -, -, -, -, rfl⟩ := createChallenge_ok hcreate
    exact termChange_of_kept rfl
  | respondToChallenge challengeId response =>
    obtain ⟨challenge, bucket, ledger, paid, -, -, -, -, -, -, -, -, rfl⟩ := respondToChallenge_ok h
    exact termChange_of_kept rfl
  | resolveExpiredChallenge challengeId =>
    obtain ⟨challenge, -, -, rfl⟩ := resolveExpiredChallenge_ok h
    exact termChange_of_kept (slashProvider_escrow challenge challengeId _ challenge.provider).1
  | confirmReplicaSync target roots signature =>
    obtain ⟨bucket, old, ledger, syncBalance, syncPrice, minSyncInterval, lastSync, matched, -, hold,
      -, -, -, -, -, rfl⟩ := confirmReplicaSync_ok h
    exact termChange_of_same rfl hold rfl
  | topUpReplicaSyncBalance target toppedUp amount =>
    obtain ⟨old, ledger, syncBalance, syncPrice, minSyncInterval, lastSync, hold, -, -, rfl⟩ :=
      topUpReplicaSyncBalance_ok h
    exact termChange_of_same rfl hold rfl

end Changes

/-! ### Steps -/

section Steps

variable {cfg : Config AccountId} {s : State AccountId} {bucketId : ℕ} {provider : AccountId}

/-- Every step but an accepted call of an account keeps the agreements. -/
private theorem agreements_of_step (input : Input AccountId) :
    (∃ who call, input = .call (.signed who) call ∧ accepted cfg s (.signed who) call = true) ∨
      (step cfg s input).storageAgreements = s.storageAgreements := by
  cases input with
  | call origin call =>
    by_cases haccepted : accepted cfg s origin call = true
    · have hok := dispatch_of_accepted haccepted
      unfold dispatch at hok
      split at hok
      · exact .inl ⟨_, _, rfl, haccepted⟩
      · obtain ⟨challenge, -, -, hs'⟩ := resolveExpiredChallenge_ok hok
        right
        rw [hs', (slashProvider_escrow challenge _ _ challenge.provider).1]
        rfl
      · cases hok
    · right
      rw [step_of_refused (Bool.not_eq_true _ ▸ haccepted)]
      rfl
  | advance block =>
    right
    simp only [step]
    split_ifs
    · rfl
    · rfl
  | credit who amount =>
    right
    simp only [step]
    split_ifs
    · rfl
    · rfl
  | debit who amount =>
    right
    simp only [step]
    split_ifs
    · rfl
    · rfl
  | reap who =>
    right
    simp only [step]
    split_ifs
    · rfl
    · rfl

/-- What a step does to the term of an agreement. Assumes: a funded state. -/
theorem termChange_of_step (hs : Funded s) (input : Input AccountId) :
    (∃ who call, input = .call (.signed who) call ∧ accepted cfg s (.signed who) call = true ∧
      TermChange bucketId provider who s call ((step cfg s input).termOf bucketId provider)) ∨
      (step cfg s input).termOf bucketId provider = s.termOf bucketId provider := by
  rcases agreements_of_step input with ⟨who, call, rfl, haccepted⟩ | hsame
  · have hok : dispatchSigned cfg who call s.withoutEvents =
        .ok (step cfg s (.call (.signed who) call)) := dispatch_of_accepted haccepted
    exact .inl ⟨who, call, rfl, haccepted, termChange_of_dispatchSigned hs hok⟩
  · right
    unfold State.termOf
    rw [hsame]

/-- Every period ends on the clock. -/
def OnClock (s : State AccountId) : Prop :=
  ∀ bucketId provider term, s.termOf bucketId provider = some term → term.expiresAt ≤ u32Max

theorem OnClock.step (hfunded : Funded s) (hs : OnClock s) (input : Input AccountId) :
    OnClock (step cfg s input) := by
  intro bucketId provider term hterm
  have hstep := @termChange_of_step _ _ cfg s bucketId provider hfunded input
  rcases hstep with ⟨who, call, -, -, hchange⟩ | hsame
  · rw [hterm] at hchange
    generalize hafter : some term = after at hchange
    cases hchange with
    | kept => exact hs bucketId provider term hafter.symm
    | opened =>
      cases hafter
      exact saturatingAdd_le u32Max _ _
    | extended =>
      cases hafter
      exact saturatingAdd_le u32Max _ _
    | toppedUp additionalBytes maxPayment old payment hold =>
      cases hafter
      exact hs bucketId provider old hold
    | ended => cases hafter
  · rw [hsame] at hterm
    exact hs bucketId provider term hterm

end Steps

/-! ### Extensions -/

section Extensions

variable {cfg : Config AccountId}

/-- A genesis state has no agreements. -/
theorem Genesis.storageAgreements_eq (genesis : Genesis cfg) :
    genesis.state.storageAgreements = ∅ :=
  genesis.induction (fun s ↦ s.storageAgreements = ∅) rfl (fun _ _ _ _ _ _ _ hs _ _ ↦ hs)
    fun _ _ _ _ _ _ _ _ hs _ _ _ ↦ hs

/-- Every period of a reachable state ends on the clock. -/
theorem Genesis.onClock (genesis : Genesis cfg) (inputs : List (Input AccountId)) :
    OnClock (run (step cfg) genesis.state inputs) := by
  have hboth : Funded (run (step cfg) genesis.state inputs) ∧
      OnClock (run (step cfg) genesis.state inputs) := by
    refine invariant_of_every_step (fun s ↦ Funded s ∧ OnClock s) ?_ ⟨genesis.funded, ?_⟩ inputs
    · rintro s input ⟨hfunded, hs⟩
      exact ⟨(effect_of_step hfunded input).funded hfunded, hs.step hfunded input⟩
    · intro bucketId provider term hterm
      rw [State.termOf, genesis.storageAgreements_eq] at hterm
      cases hterm
  exact hboth.2

variable {s : State AccountId} {who provider : AccountId} {bucketId additionalDuration maxPayment : ℕ}

/-- An accepted extension of a funded state. -/
theorem extended_of_accepted (hs : Funded s)
    (h : accepted cfg s (.signed who)
      (.extendAgreement bucketId provider additionalDuration maxPayment) = true) :
    ∃ info old new payment, s.providers.lookup provider = some info ∧
      s.storageAgreements.lookup (bucketId, provider) = some old ∧
        (step cfg s (.call (.signed who)
          (.extendAgreement bucketId provider additionalDuration maxPayment))).storageAgreements.lookup
            (bucketId, provider) = some new ∧
          s.anchorBlock < old.expiresAt ∧
            calculatePayment info.settings.pricePerByte old.maxBytes additionalDuration =
              .ok payment ∧
              new.term = old.term.extended s.anchorBlock info.settings.pricePerByte additionalDuration
                payment ∧
                ∀ other, Ledger.free (step cfg s (.call (.signed who)
                    (.extendAgreement bucketId provider additionalDuration maxPayment))).ledger other +
                      (if other = who then payment else 0) =
                    Ledger.free s.ledger other +
                      if other = provider then old.term.earned s.anchorBlock else 0 := by
  have hfunded : Funded s.withoutEvents := ⟨hs.covers, hs.total_le⟩
  obtain ⟨info, old, new, payment, hinfo, hold, hlive, hpayment, hterm, hagreements, hfree⟩ :=
    extendAgreement_term hfunded (dispatch_of_accepted h)
  refine ⟨info, old, new, payment, hinfo, hold, ?_, hlive, hpayment, hterm, hfree⟩
  rw [hagreements]
  exact Finmap.lookup_insert _

/-- The end of an extended agreement is the current block and the additional duration, whatever the
end was before: it is not earlier than that exactly when the duration covers the blocks that remain. -/
theorem extension_resets_expiry (genesis : Genesis cfg) (inputs : List (Input AccountId))
    (haccepted : accepted cfg (run (step cfg) genesis.state inputs) (.signed who)
      (.extendAgreement bucketId provider additionalDuration maxPayment) = true) :
    ∃ old new,
      (run (step cfg) genesis.state inputs).storageAgreements.lookup (bucketId, provider) =
          some old ∧
        (run (step cfg) genesis.state (inputs ++ [.call (.signed who)
          (.extendAgreement bucketId provider additionalDuration maxPayment)])).storageAgreements.lookup
            (bucketId, provider) = some new ∧
          new.expiresAt = min ((run (step cfg) genesis.state inputs).anchorBlock + additionalDuration)
            u32Max ∧
            (old.expiresAt ≤ new.expiresAt ↔ old.expiresAt ≤
              (run (step cfg) genesis.state inputs).anchorBlock + additionalDuration) := by
  have hfunded := funded_run cfg genesis.funded inputs
  obtain ⟨info, old, new, payment, -, hold, hnew, -, -, hterm, -⟩ :=
    extended_of_accepted hfunded haccepted
  have hclock : old.expiresAt ≤ u32Max :=
    genesis.onClock inputs bucketId provider old.term (by rw [State.termOf, hold]; rfl)
  have hexpires : new.expiresAt =
      min ((run (step cfg) genesis.state inputs).anchorBlock + additionalDuration) u32Max :=
    congrArg Term.expiresAt hterm
  refine ⟨old, new, hold, ?_, hexpires, ?_⟩
  · rw [run_concat]
    exact hnew
  · rw [hexpires, le_min_iff]
    constructor
    · exact And.left
    · intro hcovers
      exact ⟨hcovers, hclock⟩

/-- A quote over five blocks is redeemed, and its provider extends the agreement by one block. -/
def shorten : Input ℕ := .call (.signed 2) (.extendAgreement 0 2 1 0)

theorem extension_resets_expiry_shorten :
    ∃ old new,
      (run (step Mock.config) Mock.twoParties.state
          [Mock.redeemNewBucket 2 0]).storageAgreements.lookup (0, 2) = some old ∧
        (run (step Mock.config) Mock.twoParties.state
          ([Mock.redeemNewBucket 2 0] ++ [shorten])).storageAgreements.lookup (0, 2) = some new ∧
          new.expiresAt = min ((run (step Mock.config) Mock.twoParties.state
            [Mock.redeemNewBucket 2 0]).anchorBlock + 1) u32Max ∧
            (old.expiresAt ≤ new.expiresAt ↔ old.expiresAt ≤
              (run (step Mock.config) Mock.twoParties.state
                [Mock.redeemNewBucket 2 0]).anchorBlock + 1) :=
  extension_resets_expiry Mock.twoParties [Mock.redeemNewBucket 2 0] (by decide +kernel)

/-- An extension can be accepted and end earlier than the agreement did. -/
theorem extension_shortens :
    accepted Mock.config (run (step Mock.config) Mock.twoParties.state [Mock.redeemNewBucket 2 0])
        (.signed 2) (.extendAgreement 0 2 1 0) = true ∧
      ((run (step Mock.config) Mock.twoParties.state [Mock.redeemNewBucket 2 0]).termOf 0 2).map
          Term.expiresAt = some 5 ∧
        ((run (step Mock.config) Mock.twoParties.state [Mock.redeemNewBucket 2 0, shorten]).termOf
          0 2).map Term.expiresAt = some 1 := by
  decide +kernel

end Extensions

/-! ### What the provider receives -/

section Payments

variable (cfg : Config AccountId) (bucketId : ℕ) (provider : AccountId)

/-- The duration by which a step extends the agreement of a provider in a bucket. -/
def extension (s : State AccountId) : Input AccountId → Option ℕ
  | .call (.signed who) (.extendAgreement target extended additionalDuration maxPayment) =>
    if accepted cfg s (.signed who)
        (.extendAgreement target extended additionalDuration maxPayment) = true ∧
          target = bucketId ∧ extended = provider then
      some additionalDuration
    else none
  | _ => none

/-- Whether a step ends the agreement and pays the provider all that is locked. -/
def EndsPaid (s : State AccountId) : Input AccountId → Prop
  | .call (.signed who) (.endAgreement target ended .pay) =>
    accepted cfg s (.signed who) (.endAgreement target ended .pay) = true ∧ target = bucketId ∧
      ended = provider
  | .call (.signed who) (.claimExpiredAgreement target) =>
    accepted cfg s (.signed who) (.claimExpiredAgreement target) = true ∧ target = bucketId ∧
      who = provider
  | _ => False

instance (s : State AccountId) (input : Input AccountId) :
    Decidable (EndsPaid cfg bucketId provider s input) := by
  induction input using Input.casesOn with
  | call origin call =>
    induction origin using Origin.casesOn with
    | signed who =>
      induction call using Call.casesOn with
      | endAgreement target ended action =>
        induction action using EndAction.casesOn with
        | pay => exact inferInstanceAs (Decidable
            (accepted cfg s (.signed who) (.endAgreement target ended .pay) = true ∧ target = bucketId ∧
              ended = provider))
        | _ => exact .isFalse id
      | claimExpiredAgreement target => exact inferInstanceAs (Decidable
          (accepted cfg s (.signed who) (.claimExpiredAgreement target) = true ∧ target = bucketId ∧
            who = provider))
      | _ => exact .isFalse id
    | _ => exact .isFalse id
  | _ => exact .isFalse id

/-- Whether a call tops up the agreement of a provider in a bucket. -/
def Call.TopsUp : Call AccountId → Prop
  | .topUpAgreement target toppedUp _ _ => target = bucketId ∧ toppedUp = provider
  | _ => False

/-- Whether a step opens, tops up or ends the agreement of a provider in a bucket. -/
def Disturbs (s : State AccountId) : Input AccountId → Prop
  | .call (.signed who) call =>
    accepted cfg s (.signed who) call = true ∧
      ((∃ redemption ∈ call.redemption who, redemption.Opens s bucketId provider) ∨
        call.TopsUp bucketId provider ∨ call.Ends who bucketId provider)
  | _ => False

instance (redemption : Redemption AccountId) (s : State AccountId) :
    Decidable (redemption.Opens s bucketId provider) := by
  unfold Redemption.Opens
  cases redemption.target with
  | new => infer_instance
  | existing target => infer_instance

instance (call : Call AccountId) : Decidable (call.TopsUp bucketId provider) := by
  unfold Call.TopsUp
  split
  · infer_instance
  · infer_instance

instance (who : AccountId) (call : Call AccountId) : Decidable (call.Ends who bucketId provider) := by
  unfold Call.Ends
  split
  · infer_instance
  · infer_instance
  · infer_instance
  · infer_instance

instance (s : State AccountId) (input : Input AccountId) :
    Decidable (Disturbs cfg bucketId provider s input) :=
  match input with
  | .call (.signed who) call => inferInstanceAs (Decidable (accepted cfg s (.signed who) call = true ∧
      ((∃ redemption ∈ call.redemption who, redemption.Opens s bucketId provider) ∨
        call.TopsUp bucketId provider ∨ call.Ends who bucketId provider)))
  | .call .root _ | .call .none _ | .advance _ | .credit _ _ | .debit _ _ | .reap _ =>
    inferInstanceAs (Decidable False)

/-- At an extension, the old price of the elapsed blocks uses up what is locked, and the new period
ends on the clock. -/
def Settled (s : State AccountId) (input : Input AccountId) : Prop :=
  ∀ additionalDuration ∈ extension cfg bucketId provider s input,
    s.anchorBlock + additionalDuration ≤ u32Max ∧ ∀ term ∈ s.termOf bucketId provider,
      term.paymentLocked ≤ term.price (s.anchorBlock - term.startedAt)

instance (s : State AccountId) (input : Input AccountId) :
    Decidable (Settled cfg bucketId provider s input) := by
  unfold Settled
  infer_instance

/-- What a step pays the provider out of what is locked: the elapsed period at an extension, the rest
at the end. -/
def received (s : State AccountId) (input : Input AccountId) : ℕ :=
  match s.termOf bucketId provider with
  | none => 0
  | some term =>
    if (extension cfg bucketId provider s input).isSome then term.earned s.anchorBlock
    else if EndsPaid cfg bucketId provider s input then term.paymentLocked
    else 0

/-- The price of the blocks that a step closes, each at the price in force: those since the start of
the period at an extension, those of the whole period at the end. -/
def owed (s : State AccountId) (input : Input AccountId) : ℕ :=
  match s.termOf bucketId provider with
  | none => 0
  | some term =>
    if (extension cfg bucketId provider s input).isSome then
      term.price (s.anchorBlock - term.startedAt)
    else if EndsPaid cfg bucketId provider s input then term.price (term.expiresAt - term.startedAt)
    else 0

variable {cfg bucketId provider} {s : State AccountId} {input : Input AccountId}

omit [DecidableEq AccountId] in
theorem calculatePayment_ok {pricePerByte maxBytes duration payment : ℕ}
    (h : calculatePayment pricePerByte maxBytes duration = .ok payment) :
    payment = pricePerByte * maxBytes * duration := by
  simp only [calculatePayment, bind_eq_ok, fetch_eq_ok, checkedMul_eq_some] at h
  obtain ⟨perBlock, ⟨-, rfl⟩, -, rfl⟩ := h
  rfl

/-- What is locked is the price of the whole period. -/
def LocksPeriod (bucketId : ℕ) (provider : AccountId) (s : State AccountId) : Prop :=
  ∃ term, s.termOf bucketId provider = some term ∧
    term.paymentLocked = term.price (term.expiresAt - term.startedAt)

/-- An agreement is live when it is extended. -/
private theorem live_of_extension (hs : Funded s) {additionalDuration : ℕ}
    (h : extension cfg bucketId provider s input = some additionalDuration) :
    ∃ term, s.termOf bucketId provider = some term ∧ s.anchorBlock < term.expiresAt := by
  unfold extension at h
  split at h
  · split_ifs at h with hextends
    obtain ⟨haccepted, rfl, rfl⟩ := hextends
    obtain ⟨-, old, -, -, -, hold, -, hlive, -⟩ := extended_of_accepted hs haccepted
    exact ⟨old.term, by rw [State.termOf, hold]; rfl, hlive⟩
  · cases h

/-- A settled step pays what is owed. -/
theorem received_eq_owed (hs : Funded s) (hlocks : LocksPeriod bucketId provider s)
    (hsettled : Settled cfg bucketId provider s input) :
    received cfg bucketId provider s input = owed cfg bucketId provider s input := by
  obtain ⟨term, hterm, hlocked⟩ := hlocks
  unfold received owed
  rw [hterm]
  dsimp only
  cases hextension : extension cfg bucketId provider s input with
  | some additionalDuration =>
    obtain ⟨live, hlive, hexpires⟩ := live_of_extension hs hextension
    rw [hterm] at hlive
    cases hlive
    have hused := (hsettled _ hextension).2 term hterm
    have hwithin : term.price (s.anchorBlock - term.startedAt) ≤ term.paymentLocked := by
      rw [hlocked]
      exact Nat.mul_le_mul_left _ (by omega)
    rw [Option.isSome_some, if_pos rfl, if_pos rfl, Term.earned]
    omega
  | none =>
    rw [Option.isSome_none, if_neg Bool.false_ne_true, if_neg Bool.false_ne_true, hlocked]

/-- A settled step that does not disturb the agreement keeps what is locked at the price of the
period. -/
theorem LocksPeriod.step (hs : Funded s) (hlocks : LocksPeriod bucketId provider s)
    (hdisturbs : ¬ Disturbs cfg bucketId provider s input)
    (hsettled : Settled cfg bucketId provider s input) :
    LocksPeriod bucketId provider (step cfg s input) := by
  have hstep := @termChange_of_step _ _ cfg s bucketId provider hs input
  rcases hstep with ⟨who, call, rfl, haccepted, hchange⟩ | hsame
  · unfold LocksPeriod
    generalize (Pallet.step cfg s (.call (.signed who) call)).termOf bucketId provider = after
      at hchange
    cases hchange with
    | kept => exact hlocks
    | opened call redemption payment hredemption hopens =>
      exact (hdisturbs ⟨haccepted, .inl ⟨redemption, hredemption, hopens⟩⟩).elim
    | extended additionalDuration maxPayment info old payment hinfo hold hlive hpayment =>
      have hextension : extension cfg bucketId provider s (.call (.signed who)
          (.extendAgreement bucketId provider additionalDuration maxPayment)) =
            some additionalDuration := by
        unfold extension
        exact if_pos ⟨haccepted, rfl, rfl⟩
      obtain ⟨hclock, hused⟩ := hsettled _ hextension
      have hused := hused old hold
      refine ⟨_, rfl, ?_⟩
      have hearned : old.earned s.anchorBlock = old.paymentLocked := min_eq_right hused
      have hend : saturatingAdd u32Max s.anchorBlock additionalDuration - s.anchorBlock =
          additionalDuration := by
        rw [saturatingAdd_of_le hclock]
        omega
      simp only [Term.extended, Term.price, hearned, hend, calculatePayment_ok hpayment,
        Nat.sub_self, Nat.zero_add]
    | toppedUp => exact (hdisturbs ⟨haccepted, .inr (.inl ⟨rfl, rfl⟩)⟩).elim
    | ended call hends => exact (hdisturbs ⟨haccepted, .inr (.inr hends)⟩).elim
  · unfold LocksPeriod
    rw [hsame]
    exact hlocks

/-- An accepted call redeems the quote it carries. -/
theorem redeemed_of_accepted {who : AccountId} {call : Call AccountId}
    (h : accepted cfg s (.signed who) call = true) :
    redeemed cfg s (.call (.signed who) call) = call.redemption who :=
  if_pos h

/-- The period of a redeemed quote that ends on the clock is locked at its price. -/
private theorem locksPeriod_of_redeemed {redemption : Redemption AccountId}
    (h : redeemed cfg s input = some redemption) (hopens : redemption.Opens s bucketId provider)
    (hclock : s.anchorBlock + redemption.terms.duration ≤ u32Max) :
    LocksPeriod bucketId provider (step cfg s input) := by
  have hopened {owner opened : AccountId} {target : ℕ} {terms : AgreementTerms AccountId}
      {signature : MultiSignature} {goal : BucketTarget} {kind : QuoteKind} {info : ProviderInfo}
      {agreement : StorageAgreement AccountId} {deposits : ℕ} {ledger : Funds AccountId}
      {s' : State AccountId}
      (hopening : Opening cfg s owner opened terms signature goal kind info agreement deposits ledger)
      (hends : s.anchorBlock + terms.duration ≤ u32Max)
      (hagreements : s'.storageAgreements = s.storageAgreements.insert (target, opened) agreement) :
      LocksPeriod target opened s' := by
    refine ⟨agreement.term, ?_, ?_⟩
    · rw [State.termOf, hagreements, Finmap.lookup_insert]
      rfl
    · have hpayment := calculatePayment_ok hopening.payment_eq
      rw [hopening.agreement_eq]
      simp only [StorageAgreement.term, Term.price, saturatingAdd_of_le hends, Nat.add_sub_cancel_left]
      exact hpayment
  unfold redeemed at h
  split at h
  · rename_i who call
    split_ifs at h with hok
    have haccepted : accepted cfg s (.signed who) call = true := hok
    have hdispatch : dispatchSigned cfg who call s.withoutEvents =
        .ok (Pallet.step cfg s (.call (.signed who) call)) := dispatch_of_accepted haccepted
    cases call with
    | createBucketWithPrimary opened terms signature visibility =>
      cases h
      obtain ⟨rfl, rfl⟩ := hopens
      obtain ⟨info, agreement, bucket, ledger, deposits, hopening, -, hs'⟩ :=
        createBucketWithPrimary_ok hdispatch
      exact hopened hopening.ofWithoutEvents hclock (congrArg State.storageAgreements hs')
    | addPrimaryProvider target opened terms signature =>
      cases h
      obtain ⟨rfl, rfl⟩ := hopens
      obtain ⟨info, agreement, bucket, ledger, deposits, hopening, -, hs'⟩ :=
        addPrimaryProvider_ok hdispatch
      exact hopened hopening.ofWithoutEvents hclock (congrArg State.storageAgreements hs')
    | addReplicaProvider target opened terms signature =>
      cases h
      obtain ⟨rfl, rfl⟩ := hopens
      obtain ⟨info, agreement, ledger, deposits, hopening, hs'⟩ := addReplicaProvider_ok hdispatch
      exact hopened hopening.ofWithoutEvents hclock (congrArg State.storageAgreements hs')
    | _ => cases h
  · cases h

variable {who : AccountId} {additionalDuration maxPayment : ℕ}

/-- An extension locks the payment of its new period, and what the old period has left. -/
theorem extension_locks (hs : Funded s)
    (haccepted : accepted cfg s (.signed who)
      (.extendAgreement bucketId provider additionalDuration maxPayment) = true) :
    ∃ info old new, s.providers.lookup provider = some info ∧
      s.termOf bucketId provider = some old ∧
        (step cfg s (.call (.signed who)
          (.extendAgreement bucketId provider additionalDuration maxPayment))).termOf bucketId
            provider = some new ∧
          (calculatePayment info.settings.pricePerByte old.maxBytes additionalDuration =
              .ok new.paymentLocked ↔
            old.paymentLocked ≤ old.price (s.anchorBlock - old.startedAt)) := by
  obtain ⟨info, old, new, payment, hinfo, hold, hnew, -, hpayment, hterm, -⟩ :=
    extended_of_accepted hs haccepted
  refine ⟨info, old.term, new.term, hinfo, by rw [State.termOf, hold]; rfl,
    by rw [State.termOf, hnew]; rfl, ?_⟩
  have hlocked : new.term.paymentLocked =
      old.term.paymentLocked - old.term.earned s.anchorBlock + payment := by
    rw [hterm]
    rfl
  have hsame : calculatePayment info.settings.pricePerByte old.term.maxBytes additionalDuration =
      .ok payment := hpayment
  rw [hsame, hlocked, Except.ok.injEq]
  unfold Term.earned
  constructor
  · intro hnone
    omega
  · intro hused
    omega

/-- A closed agreement pays its provider what was locked, with what is returned to an owner or a
depositor. -/
theorem free_of_endsPaid (h : EndsPaid cfg bucketId provider s input) :
    ∃ old ticket, s.storageAgreements.lookup (bucketId, provider) = some old ∧
      received cfg bucketId provider s input = old.paymentLocked ∧
        Ledger.free (step cfg s input).ledger provider =
          Ledger.free s.ledger provider + old.paymentLocked +
            (if provider = old.owner then old.syncBalance else 0) +
              if provider = old.depositor then ticket else 0 := by
  have hfinal {agreement : StorageAgreement AccountId} {isEarly : Bool} {s' : State AccountId}
      (hfinalize : finalizeAgreement cfg bucketId provider agreement .pay isEarly s.withoutEvents =
        .ok s') :
      ∃ ticket, Ledger.free s'.ledger provider =
        Ledger.free s.ledger provider + agreement.paymentLocked +
          (if provider = agreement.owner then agreement.syncBalance else 0) +
            if provider = agreement.depositor then ticket else 0 := by
    simp only [finalizeAgreement, splitPayment, bind_eq_ok, pure_eq_ok] at hfinalize
    obtain ⟨paid, hpaid, burned, hburned, released, hreleased, ledger, hledger, rfl⟩ := hfinalize
    obtain ⟨ticket, hticket⟩ := dropTicket_free hledger
    refine ⟨ticket, ?_⟩
    rw [hticket, releaseSyncBalance_free hreleased, settlePayment_free hburned,
      settlePayment_free hpaid, if_pos rfl, ite_self, Nat.add_zero]
    rfl
  have hcount {agreement : StorageAgreement AccountId} (hends : extension cfg bucketId provider s input
      = none) (hold : s.storageAgreements.lookup (bucketId, provider) = some agreement) :
      received cfg bucketId provider s input = agreement.paymentLocked := by
    unfold received
    rw [State.termOf, hold, Option.map_some]
    dsimp only
    rw [hends, Option.isSome_none, if_neg Bool.false_ne_true, if_pos h]
    rfl
  have hends := h
  unfold EndsPaid at hends
  split at hends
  · obtain ⟨haccepted, rfl, rfl⟩ := hends
    obtain ⟨old, isEarly, hold, -, hfinalize⟩ := endAgreement_ok (dispatch_of_accepted haccepted)
    obtain ⟨ticket, hfree⟩ := hfinal hfinalize
    exact ⟨old, ticket, hold, hcount rfl hold, hfree⟩
  · obtain ⟨haccepted, rfl, rfl⟩ := hends
    obtain ⟨old, hold, -, hfinalize⟩ := claimExpiredAgreement_ok (dispatch_of_accepted haccepted)
    obtain ⟨ticket, hfree⟩ := hfinal hfinalize
    exact ⟨old, ticket, hold, hcount rfl hold, hfree⟩
  · exact hends.elim

/-- A step pays its provider what it receives: the free balance gains that much, besides what a
provider pays that calls the extension itself, and what it gets back as the owner or the depositor. -/
def PaysProvider (cfg : Config AccountId) (bucketId : ℕ) (provider : AccountId) (s : State AccountId)
    (input : Input AccountId) : Prop :=
  ∃ charged refunded,
    Ledger.free (step cfg s input).ledger provider + charged =
      Ledger.free s.ledger provider + received cfg bucketId provider s input + refunded ∧
    (charged = 0 ∨ ∃ call, input = .call (.signed provider) call) ∧
    (refunded = 0 ∨ ∃ old, s.storageAgreements.lookup (bucketId, provider) = some old ∧
      (provider = old.owner ∨ provider = old.depositor))

/-- An extension pays its provider the elapsed period. -/
private theorem paysProvider_of_extension (hs : Funded s)
    (h : (extension cfg bucketId provider s input).isSome) :
    PaysProvider cfg bucketId provider s input := by
  have hextends := h
  unfold extension at hextends
  split at hextends
  · next caller target extended duration limit =>
    split_ifs at hextends with hcall
    · obtain ⟨haccepted, rfl, rfl⟩ := hcall
      obtain ⟨info, old, new, payment, -, hold, -, -, -, -, hfree⟩ := extended_of_accepted hs haccepted
      have hreceived : received cfg target extended s
          (.call (.signed caller) (.extendAgreement target extended duration limit)) =
            old.term.earned s.anchorBlock := by
        unfold received
        rw [State.termOf, hold, Option.map_some]
        exact if_pos h
      have hgained := hfree extended
      rw [if_pos rfl, ← hreceived] at hgained
      refine ⟨if extended = caller then payment else 0, 0, hgained, ?_, .inl rfl⟩
      split_ifs with hcaller
      · exact .inr ⟨_, by rw [hcaller]⟩
      · exact .inl rfl
    · cases hextends
  · cases hextends

/-- A paid end pays its provider what is locked. -/
private theorem paysProvider_of_endsPaid (h : EndsPaid cfg bucketId provider s input) :
    PaysProvider cfg bucketId provider s input := by
  obtain ⟨old, ticket, hold, hreceived, hfree⟩ := free_of_endsPaid h
  refine ⟨0, (if provider = old.owner then old.syncBalance else 0) +
    if provider = old.depositor then ticket else 0, ?_, .inl rfl, ?_⟩
  · rw [hreceived, hfree]
    omega
  · by_cases howner : provider = old.owner
    · exact .inr ⟨old, hold, .inl howner⟩
    · by_cases hdepositor : provider = old.depositor
      · exact .inr ⟨old, hold, .inr hdepositor⟩
      · rw [if_neg howner, if_neg hdepositor]
        exact .inl rfl

/-- What an extension is charged. An accepted extension locks exactly the payment of its new period if
and only if the old price of the elapsed blocks uses up what was locked. In a run from the opening of
an agreement to its paid end, without a top-up, in which every extension is such and every period ends
on the clock, the provider receives the price of every block of the agreement once, at the price in
force. What it receives is what its account gains. -/
theorem extensions_settled (genesis : Genesis cfg) (bucketId : ℕ) (provider : AccountId) :
    (∀ inputs input,
      (extension cfg bucketId provider (run (step cfg) genesis.state inputs) input).isSome ∨
        EndsPaid cfg bucketId provider (run (step cfg) genesis.state inputs) input →
      PaysProvider cfg bucketId provider (run (step cfg) genesis.state inputs) input) ∧
    (∀ inputs who additionalDuration maxPayment,
      accepted cfg (run (step cfg) genesis.state inputs) (.signed who)
        (.extendAgreement bucketId provider additionalDuration maxPayment) = true →
      ∃ info old new,
        (run (step cfg) genesis.state inputs).providers.lookup provider = some info ∧
          (run (step cfg) genesis.state inputs).termOf bucketId provider = some old ∧
            (run (step cfg) genesis.state (inputs ++ [.call (.signed who)
              (.extendAgreement bucketId provider additionalDuration maxPayment)])).termOf bucketId
                provider = some new ∧
              (calculatePayment info.settings.pricePerByte old.maxBytes additionalDuration =
                  .ok new.paymentLocked ↔
                old.paymentLocked ≤
                  old.price ((run (step cfg) genesis.state inputs).anchorBlock - old.startedAt))) ∧
      ∀ before opening redemption after last,
        redeemed cfg (run (step cfg) genesis.state before) opening = some redemption →
        redemption.Opens (run (step cfg) genesis.state before) bucketId provider →
        (run (step cfg) genesis.state before).anchorBlock + redemption.terms.duration ≤ u32Max →
        StepsMeet (step cfg)
          (fun s input ↦ ¬ Disturbs cfg bucketId provider s input ∧
            Settled cfg bucketId provider s input)
          (run (step cfg) genesis.state (before ++ [opening])) after →
        EndsPaid cfg bucketId provider
          (run (step cfg) genesis.state (before ++ [opening] ++ after)) last →
        tally (step cfg) (received cfg bucketId provider)
            (run (step cfg) genesis.state (before ++ [opening])) (after ++ [last]) =
          tally (step cfg) (owed cfg bucketId provider)
            (run (step cfg) genesis.state (before ++ [opening])) (after ++ [last]) := by
  refine ⟨?_, ?_, ?_⟩
  · rintro inputs input (hextends | hends)
    · exact paysProvider_of_extension (funded_run cfg genesis.funded inputs) hextends
    · exact paysProvider_of_endsPaid hends
  · intro inputs who additionalDuration maxPayment haccepted
    rw [run_concat]
    exact extension_locks (funded_run cfg genesis.funded inputs) haccepted
  · intro before opening redemption after last hredeemed hopens hclock hafter hends
    have hfunded := funded_run cfg genesis.funded (before ++ [opening])
    have hopened : LocksPeriod bucketId provider
        (run (step cfg) genesis.state (before ++ [opening])) := by
      rw [run_concat]
      exact locksPeriod_of_redeemed hredeemed hopens hclock
    have hkept (s : State AccountId) (input : Input AccountId)
        (hs : Funded s ∧ LocksPeriod bucketId provider s)
        (hmeets : ¬ Disturbs cfg bucketId provider s input ∧
          Settled cfg bucketId provider s input) :
        Funded (step cfg s input) ∧ LocksPeriod bucketId provider (step cfg s input) :=
      ⟨(effect_of_step hs.1 input).funded hs.1, hs.2.step hs.1 hmeets.1 hmeets.2⟩
    -- the last step is no extension, hence settled
    have hlast : Settled cfg bucketId provider
        (run (step cfg) genesis.state (before ++ [opening] ++ after)) last := by
      intro additionalDuration hextension
      unfold EndsPaid at hends
      split at hends
      · cases hextension
      · cases hextension
      · exact hends.elim
    have hend := invariant_of_step (fun s ↦ Funded s ∧ LocksPeriod bucketId provider s) hkept
      ⟨hfunded, hopened⟩ hafter
    rw [← run_append] at hend
    rw [tally_append, tally_append, tally_congr _ hkept
      (fun s input hs hmeets ↦ received_eq_owed hs.1 hs.2 hmeets.2) ⟨hfunded, hopened⟩ hafter,
      tally, tally, tally, tally, ← run_append, received_eq_owed hend.1 hend.2 hlast]

/-- A provider asks a price. -/
def askPrice (price : ℕ) : Input ℕ :=
  .call (.signed 2) (.updateProviderSettings { ProviderSettings.default with pricePerByte := price })

/-- The owner extends the agreement by four blocks. -/
def extendByFour : Input ℕ := .call (.signed 1) (.extendAgreement 0 2 4 1000)

/-- The owner ends the agreement and pays. -/
def endPaid : Input ℕ := .call (.signed 1) (.endAgreement 0 2 .pay)

/-- An agreement that was free is extended at a price, for a payment, and its end is paid. -/
theorem extensions_settled_free :
    PaysProvider Mock.config 0 2 (run (step Mock.config) Mock.twoParties.state
        [Mock.redeemNewBucket 0 0, askPrice 3, .advance 2, extendByFour, .advance 6]) endPaid ∧
    (∃ info old new,
      (run (step Mock.config) Mock.twoParties.state
          [Mock.redeemNewBucket 0 0, askPrice 3, .advance 2]).providers.lookup 2 = some info ∧
        (run (step Mock.config) Mock.twoParties.state
            [Mock.redeemNewBucket 0 0, askPrice 3, .advance 2]).termOf 0 2 = some old ∧
          (run (step Mock.config) Mock.twoParties.state
            ([Mock.redeemNewBucket 0 0, askPrice 3, .advance 2] ++ [extendByFour])).termOf 0 2 =
              some new ∧
            (calculatePayment info.settings.pricePerByte old.maxBytes 4 = .ok new.paymentLocked ↔
              old.paymentLocked ≤ old.price ((run (step Mock.config) Mock.twoParties.state
                [Mock.redeemNewBucket 0 0, askPrice 3, .advance 2]).anchorBlock - old.startedAt))) ∧
      tally (step Mock.config) (received Mock.config 0 2)
          (run (step Mock.config) Mock.twoParties.state [Mock.redeemNewBucket 0 0])
          ([askPrice 3, .advance 2, extendByFour, .advance 6] ++ [endPaid]) =
        tally (step Mock.config) (owed Mock.config 0 2)
          (run (step Mock.config) Mock.twoParties.state [Mock.redeemNewBucket 0 0])
          ([askPrice 3, .advance 2, extendByFour, .advance 6] ++ [endPaid]) := by
  refine ⟨?_, ?_, ?_⟩
  · exact (extensions_settled Mock.twoParties 0 2).1
      [Mock.redeemNewBucket 0 0, askPrice 3, .advance 2, extendByFour, .advance 6] endPaid
      (.inr (by decide +kernel))
  · exact (extensions_settled Mock.twoParties 0 2).2.1
      [Mock.redeemNewBucket 0 0, askPrice 3, .advance 2] 1 4 1000 (by decide +kernel)
  · exact (extensions_settled Mock.twoParties 0 2).2.2 [] (Mock.redeemNewBucket 0 0)
      ⟨1, 2, Mock.newBucketTerms 0 0, Mock.quote (Mock.newBucketTerms 0 0) primaryTermContext 2, .new,
        .primary⟩ [askPrice 3, .advance 2, extendByFour, .advance 6] endPaid
      (redeemed_of_accepted (by decide +kernel)) (by decide +kernel) (by decide +kernel)
      (by decide +kernel) (by decide +kernel)

/-- An agreement over five blocks at a price of twenty a block is extended after two of them by four:
what is locked is the price of seven blocks, and the provider receives that of nine over six. -/
theorem extension_charges_twice :
    let start := run (step Mock.config) Mock.twoParties.state [askPrice 2, Mock.redeemNewBucket 2 0]
    let extended := run (step Mock.config) start [.advance 2, extendByFour]
    accepted Mock.config (run (step Mock.config) start [.advance 2]) (.signed 1)
        (.extendAgreement 0 2 4 1000) = true ∧
      calculatePayment 2 10 4 = .ok 80 ∧
        extended.termOf 0 2 = some ⟨10, 140, 2, 2, 6⟩ ∧
          tally (step Mock.config) (received Mock.config 0 2) start
              [.advance 2, extendByFour, .advance 6, endPaid] = 180 ∧
            tally (step Mock.config) (owed Mock.config 0 2) start
              [.advance 2, extendByFour, .advance 6, endPaid] = 120 := by
  decide +kernel

end Payments

end Web3Storage.Pallet
