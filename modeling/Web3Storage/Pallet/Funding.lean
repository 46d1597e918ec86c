import Web3Storage.Pallet.Effect

/-!
# Reachable states are funded

What a step does to the escrows and to the holds that back them is one of four changes
(`EscrowChange`): nothing, a written agreement with its payment, a removed one with its settlement,
or a new agreement written over another. Only the last leaves a hold without an agreement, and only
the creation of a bucket with its first primary can do that. In every case the holds still cover the
escrows, so every reachable state is funded (`funded_run`) and every step of a run is one of the
effects (`effect_of_run`).

A genesis state is reached from the empty state by registrations and bucket creations; properties
that these keep hold there (`Genesis.induction`).
-/

set_option autoImplicit false
set_option relaxedAutoImplicit false

namespace Web3Storage.Pallet

open Foundations Primitives
open Ledger (Moves amountAt)

variable {AccountId : Type} [DecidableEq AccountId] {cfg : Config AccountId}
  {s s' : State AccountId} {input : Input AccountId}

/-! ### Escrows and their holds -/

/-- What an optional agreement keeps on hold on an account. -/
def escrowShare (key : ℕ × AccountId) (agreement : Option (StorageAgreement AccountId))
    (a : AccountId) : ℕ :=
  share (fun _ agreement ↦ agreement.owner) StorageAgreement.escrow key agreement a

/-- What a step does to the agreements and to the holds that back them. -/
inductive EscrowChange (s : State AccountId) : Input AccountId → State AccountId → Prop
  | kept (input : Input AccountId) (s' : State AccountId)
      (hagreements : s'.storageAgreements = s.storageAgreements)
      (hheld : ∀ a, s'.held .agreementPayment a = s.held .agreementPayment a) :
      EscrowChange s input s'
  | written (input : Input AccountId) (s' : State AccountId) (key : ℕ × AccountId)
      (new : StorageAgreement AccountId)
      (hagreements : s'.storageAgreements = s.storageAgreements.insert key new)
      (hheld : ∀ a, s'.held .agreementPayment a +
        escrowShare key (s.storageAgreements.lookup key) a =
          s.held .agreementPayment a + escrowShare key (some new) a) :
      EscrowChange s input s'
  | overwritten (s' : State AccountId) (who provider : AccountId)
      (terms : AgreementTerms AccountId) (signature : MultiSignature) (visibility : Visibility)
      (old new : StorageAgreement AccountId)
      (hold : s.storageAgreements.lookup (s.nextBucketId, provider) = some old)
      (hagreements :
        s'.storageAgreements = s.storageAgreements.insert (s.nextBucketId, provider) new)
      (hheld : ∀ a, s'.held .agreementPayment a =
        s.held .agreementPayment a + escrowShare (s.nextBucketId, provider) (some new) a) :
      EscrowChange s
        (.call (.signed who) (.createBucketWithPrimary provider terms signature visibility)) s'
  | erased (input : Input AccountId) (s' : State AccountId) (key : ℕ × AccountId)
      (hagreements : s'.storageAgreements = s.storageAgreements.erase key)
      (hheld : ∀ a, s'.held .agreementPayment a +
        escrowShare key (s.storageAgreements.lookup key) a = s.held .agreementPayment a) :
      EscrowChange s input s'

/-- A step that does not touch agreement payments keeps the agreements backed. -/
private theorem EscrowChange.of_moves {gain loss : HoldReason → AccountId → ℕ}
    (hmoves : Moves gain loss s.ledger s'.ledger)
    (hgain : ∀ a, gain .agreementPayment a = 0) (hloss : ∀ a, loss .agreementPayment a = 0)
    (hagreements : s'.storageAgreements = s.storageAgreements) : EscrowChange s input s' := by
  refine .kept input s' hagreements fun a ↦ ?_
  have hheld := hmoves.held_add .agreementPayment a
  rw [hgain, hloss] at hheld
  exact hheld

theorem escrowShare_eq (key : ℕ × AccountId) (agreement : StorageAgreement AccountId)
    (a : AccountId) :
    escrowShare key (some agreement) a =
      amountAt HoldReason.agreementPayment agreement.owner agreement.escrow .agreementPayment a := by
  simp [escrowShare, Ledger.amountAt_apply, eq_comm]

/-- An agreement of a target that an opening found free is new. -/
theorem Opening.lookup_eq_none {owner provider : AccountId} {terms : AgreementTerms AccountId}
    {signature : MultiSignature} {bucketId : ℕ} {kind : QuoteKind} {info : ProviderInfo}
    {agreement : StorageAgreement AccountId} {deposits : ℕ} {ledger : Funds AccountId}
    (h : Opening cfg s owner provider terms signature (.existing bucketId) kind info agreement
      deposits ledger) :
    s.storageAgreements.lookup (bucketId, provider) = none := by
  have hfree := h.target_free
  simp only [ensureTargetFree, bind_eq_ok, check_eq_ok] at hfree
  obtain ⟨-, -, hnone⟩ := hfree
  exact Option.isNone_iff_eq_none.mp hnone

/-- A slash and the refund after it leave agreement payments alone. -/
theorem slashProvider_escrow (challenge : Challenge AccountId) (challengeId : ChallengeId)
    (s : State AccountId) (a : AccountId) :
    (slashProviderForFailedChallenge cfg challenge challengeId s).storageAgreements =
        s.storageAgreements ∧
      (slashProviderForFailedChallenge cfg challenge challengeId s).held .agreementPayment a =
        s.held .agreementPayment a := by
  cases hinfo : s.providers.lookup challenge.provider with
  | none =>
    rw [slashProvider_of_none cfg challengeId hinfo]
    exact ⟨rfl, rfl⟩
  | some info =>
    obtain ⟨ledger, slashed, -, hheld, -, -, hs'⟩ := slashProvider_of_some cfg challengeId hinfo
    rw [hs']
    refine ⟨rfl, ?_⟩
    have hsame := hheld .agreementPayment a
    simp only [Ledger.amountAt_apply, reduceCtorEq, false_and, if_false, add_zero] at hsame
    exact hsame

/-- Every effect is one of the four changes of the escrows. -/
theorem Effect.escrowChange (h : Effect cfg s input s') : EscrowChange s input s' := by
  cases h with
  | rejected origin call => exact .kept _ _ rfl fun _ ↦ rfl
  | advanced block hnow hfits => exact .kept _ _ rfl fun _ ↦ rfl
  | outside input ledger nonces hinput hheld htotal =>
    exact .kept _ _ rfl fun a ↦ hheld .agreementPayment a
  | registered who multiaddr publicKey info ledger events deposit hnew hcommitted hcapacity hactive
      hmoves =>
    exact .of_moves hmoves (fun a ↦ by simp [Ledger.amountAt_apply]) (fun _ ↦ rfl) rfl
  | providerChanged who call old new ledger events amount hold hcommitted hstake hcapacity hmoves =>
    exact .of_moves hmoves (fun a ↦ by simp [Ledger.amountAt_apply]) (fun _ ↦ rfl) rfl
  | deregistered who old ledger events deposit hold hcommitted hpending hmoves =>
    exact .of_moves hmoves (fun _ ↦ rfl) (fun a ↦ by simp [Ledger.amountAt_apply]) rfl
  | bucketCreated who minProviders visibility bucket ledger memberBuckets events gain hprimaries
      hsnapshot hfrozen hgain hmoves =>
    exact .of_moves hmoves (fun a ↦ hgain _ a (by decide)) (fun _ ↦ rfl) rfl
  | bucketDeleted who bucketId ledger memberBuckets events loss hagreements hpending hloss hmoves =>
    exact .of_moves hmoves (fun _ ↦ rfl) (fun a ↦ hloss _ a (by decide)) rfl
  | bucketChanged who call bucketId old new ledger memberBuckets events gain loss hold hprimaries
      hsnapshot hfrozen hgain hloss hmoves =>
    exact .of_moves hmoves (fun a ↦ hgain _ a (by decide)) (fun a ↦ hloss _ a (by decide)) rfl
  | checkpointed who bucketId commitment signatures old new bits signers events hok hold hpinned
      hsigned hprimaries hfrozen hsnapshot => exact .kept _ _ rfl fun _ ↦ rfl
  | checkpointExtended who bucketId signatures old new snapshot bits signers events hok hold
      hsnapshotOld hsigned hprimaries hfrozen hsnapshot => exact .kept _ _ rfl fun _ ↦ rfl
  | opened owner call bucketId provider terms signature target kind info agreement deposits ledger
      buckets nextBucketId nonces memberBuckets events hopening hbuckets hcall =>
    -- the hold grows by the new escrow; what was stored under the key decides the kind of change
    have hpaid : ∀ a, Ledger.held ledger .agreementPayment a =
        s.held .agreementPayment a + escrowShare (bucketId, provider) (some agreement) a := by
      intro a
      have hheld := hopening.moves.held_add .agreementPayment a
      have howner : agreement.owner = owner := by rw [hopening.agreement_eq]
      rw [escrowShare_eq, howner]
      simpa [Ledger.amountAt_apply, State.held] using hheld
    have hwritten (hnone : s.storageAgreements.lookup (bucketId, provider) = none) :
        ∀ a, Ledger.held ledger .agreementPayment a +
          escrowShare (bucketId, provider) (s.storageAgreements.lookup (bucketId, provider)) a =
            s.held .agreementPayment a + escrowShare (bucketId, provider) (some agreement) a := by
      intro a
      rw [hnone]
      exact hpaid a
    cases hbuckets with
    | created bucket hid hprimaries hsnapshot hfrozen =>
      obtain ⟨visibility, rfl⟩ := hcall rfl
      subst hid
      cases hlookup : s.storageAgreements.lookup (s.nextBucketId, provider) with
      | none => exact .written _ _ (s.nextBucketId, provider) agreement rfl (hwritten hlookup)
      | some old =>
        exact .overwritten _ owner provider terms signature visibility old agreement hlookup rfl
          hpaid
    | joined bucket hbucket =>
      exact .written _ _ (bucketId, provider) agreement rfl (hwritten hopening.lookup_eq_none)
    | replicated =>
      exact .written _ _ (bucketId, provider) agreement rfl (hwritten hopening.lookup_eq_none)
  | toppedUp who bucketId provider additionalBytes maxPayment info old new ledger events hinfo
      hactive hold hrole hbytes hmoves =>
    refine .written _ _ (bucketId, provider) new rfl fun a ↦ ?_
    rw [hold, escrowShare_eq, escrowShare_eq]
    exact hmoves.held_add .agreementPayment a
  | amended who call bucketId provider old new ledger stats events hold hrole hbytes hmoves =>
    refine .written _ _ (bucketId, provider) new rfl fun a ↦ ?_
    rw [hold, escrowShare_eq, escrowShare_eq]
    exact hmoves.held_add .agreementPayment a
  | closed who call bucketId provider old ledger deposit stats events hpending hold hmoves =>
    refine .erased _ _ (bucketId, provider) rfl fun a ↦ ?_
    rw [hold, escrowShare_eq]
    simpa [Ledger.amountAt_apply, State.held] using hmoves.held_add .agreementPayment a
  | challengeOpened who call bucketId provider bucket agreement commitment target challengeId
      challenge ledger events hcall hbucket hagreement hlive hleaf hdeadline hindex hbound
      hchallenge hmoves =>
    exact .of_moves hmoves (fun a ↦ by simp [Ledger.amountAt_apply]) (fun _ ↦ rfl) rfl
  | challengeAnswered who challengeId response challenge bucket paid ledger hchallenge hprovider
      hdeadline hbucket hresponse hpaid hmoves =>
    exact .of_moves hmoves (fun _ ↦ rfl) (fun a ↦ by simp [Ledger.amountAt_apply]) rfl
  | challengeExpired origin challengeId challenge hchallenge hexpired =>
    exact .kept _ _ (slashProvider_escrow challenge challengeId _ challenge.provider).1
      fun a ↦ (slashProvider_escrow challenge challengeId _ a).2

/-- The holds cover the escrows after every change. -/
theorem EscrowChange.covers (h : EscrowChange s input s')
    (hs : Covers (fun _ agreement ↦ agreement.owner) StorageAgreement.escrow s.storageAgreements
      (s.held .agreementPayment)) :
    Covers (fun _ agreement ↦ agreement.owner) StorageAgreement.escrow s'.storageAgreements
      (s'.held .agreementPayment) := by
  cases h with
  | kept input s' hagreements hheld =>
    rw [hagreements]
    exact hs.congr hheld
  | written input s' key new hagreements hheld =>
    rw [hagreements]
    exact hs.insert fun a ↦ (hheld a).ge
  | overwritten s' who provider terms signature visibility old new hold hagreements hheld =>
    rw [hagreements]
    refine hs.insert fun a ↦ ?_
    have hpaid := hheld a
    unfold escrowShare at hpaid
    omega
  | erased input s' key hagreements hheld =>
    rw [hagreements]
    exact hs.erase fun a ↦ (hheld a).ge

/-! ### The total of the ledger -/

/-- The treasury accepts what a call slashes: the stake of the provider whose challenge it resolves. -/
def TreasuryAccepts (cfg : Config AccountId) (s : State AccountId) (call : Call AccountId) : Prop :=
  ∀ challengeId challenge info, call = .resolveExpiredChallenge challengeId →
    s.challenges.lookup challengeId = some challenge →
      s.providers.lookup challenge.provider = some info →
        AcceptsSlash cfg challenge.provider info.stake s.ledger

/-- A slash never adds to the total, and keeps it when the treasury accepts the credit. -/
private theorem slashProvider_total (challenge : Challenge AccountId) (challengeId : ChallengeId)
    (s : State AccountId) :
    Ledger.total (slashProviderForFailedChallenge cfg challenge challengeId s).ledger ≤
        Ledger.total s.ledger ∧
      ((∀ info, s.providers.lookup challenge.provider = some info →
          AcceptsSlash cfg challenge.provider info.stake s.ledger) →
        Ledger.total (slashProviderForFailedChallenge cfg challenge challengeId s).ledger =
          Ledger.total s.ledger) := by
  cases hinfo : s.providers.lookup challenge.provider with
  | none =>
    rw [slashProvider_of_none cfg challengeId hinfo]
    exact ⟨le_rfl, fun _ ↦ rfl⟩
  | some info =>
    obtain ⟨ledger, slashed, -, -, htotal, -, hs'⟩ := slashProvider_of_some cfg challengeId hinfo
    rw [hs']
    exact ⟨htotal.1, fun haccepts ↦ htotal.2 (haccepts info rfl)⟩

/-- A call never adds to the total of the ledger, and keeps it when the treasury accepts what
it slashes. -/
theorem Effect.total_le {origin : Origin AccountId} {call : Call AccountId}
    (h : Effect cfg s (.call origin call) s') :
    Ledger.total s'.ledger ≤ Ledger.total s.ledger ∧
      (TreasuryAccepts cfg s call →
        Ledger.total s'.ledger = Ledger.total s.ledger) := by
  have hkept {total : ℕ} (heq : total = Ledger.total s.ledger) :
      total ≤ Ledger.total s.ledger ∧
        (TreasuryAccepts cfg s call →
          total = Ledger.total s.ledger) := ⟨heq.le, fun _ ↦ heq⟩
  cases h with
  | rejected => exact hkept rfl
  | outside input ledger nonces hinput hheld htotal => exact absurd rfl (hinput origin call)
  | registered _ _ _ _ _ _ _ _ _ _ _ hmoves => exact hkept hmoves.total_eq
  | providerChanged _ _ _ _ _ _ _ _ _ _ _ hmoves => exact hkept hmoves.total_eq
  | deregistered _ _ _ _ _ _ _ _ hmoves => exact hkept hmoves.total_eq
  | bucketCreated _ _ _ _ _ _ _ _ _ _ _ _ hmoves => exact hkept hmoves.total_eq
  | bucketDeleted _ _ _ _ _ _ _ _ _ hmoves => exact hkept hmoves.total_eq
  | bucketChanged _ _ _ _ _ _ _ _ _ _ _ _ _ _ _ _ hmoves => exact hkept hmoves.total_eq
  | checkpointed => exact hkept rfl
  | checkpointExtended => exact hkept rfl
  | opened _ _ _ _ _ _ _ _ _ _ _ _ _ _ _ _ _ hopening => exact hkept hopening.moves.total_eq
  | toppedUp _ _ _ _ _ _ _ _ _ _ _ _ _ _ _ hmoves => exact hkept hmoves.total_eq
  | amended _ _ _ _ _ _ _ _ _ _ _ _ hmoves => exact hkept hmoves.total_eq
  | closed _ _ _ _ _ _ _ _ _ _ _ hmoves => exact hkept hmoves.total_eq
  | challengeOpened _ _ _ _ _ _ _ _ _ _ _ _ _ _ _ _ _ _ _ _ _ hmoves =>
    exact hkept hmoves.total_eq
  | challengeAnswered _ _ _ _ _ _ _ _ _ _ _ _ _ hmoves => exact hkept hmoves.total_eq
  | challengeExpired _ challengeId challenge hchallenge hexpired =>
    obtain ⟨hle, hkeeps⟩ := slashProvider_total challenge challengeId _
    exact ⟨hle, fun haccepts ↦ hkeeps fun info hinfo ↦ haccepts _ _ info rfl hchallenge hinfo⟩

/-- An input keeps the total of the ledger within its bound. -/
theorem Effect.total_le_maxIssuance (h : Effect cfg s input s')
    (hs : Ledger.total s.ledger ≤ maxIssuance) : Ledger.total s'.ledger ≤ maxIssuance := by
  cases input with
  | call origin call => exact h.total_le.1.trans hs
  | advance block =>
    cases h with
    | advanced => exact hs
    | outside _ _ _ _ _ htotal => exact htotal hs
  | credit who amount =>
    cases h with
    | outside _ _ _ _ _ htotal => exact htotal hs
  | debit who amount =>
    cases h with
    | outside _ _ _ _ _ htotal => exact htotal hs
  | reap who =>
    cases h with
    | outside _ _ _ _ _ htotal => exact htotal hs

/-- Every step of a funded state leads to a funded state. -/
theorem Effect.funded (h : Effect cfg s input s') (hs : Funded s) : Funded s' :=
  ⟨h.escrowChange.covers hs.covers, h.total_le_maxIssuance hs.total_le⟩

/-! ### Genesis and runs -/

/-- The induction rule for genesis states. Assumes: a property of the empty state over the endowment
that registrations and bucket creations keep. -/
theorem Genesis.induction (genesis : Genesis cfg) (property : State AccountId → Prop)
    (hempty : property (emptyState genesis.ledger))
    (hregister : ∀ s who multiaddr publicKey info ledger events, property s →
      info.committedBytes = 0 →
        Effect cfg s (.call (.signed who) (.registerProvider multiaddr publicKey info.stake))
          { s with ledger := ledger, providers := s.providers.insert who info, events := events } →
          property
            { s with ledger := ledger, providers := s.providers.insert who info, events := events })
    (hcreate : ∀ s who minProviders visibility bucket ledger memberBuckets events, property s →
      bucket.primaryProviders = [] → bucket.snapshot = none →
        Effect cfg s (.call (.signed who) (.createBucket minProviders visibility))
          { s with
            ledger := ledger
            nextBucketId := saturatingAdd u64Max s.nextBucketId 1
            buckets := s.buckets.insert s.nextBucketId bucket
            memberBuckets := memberBuckets
            events := events } →
          property
            { s with
              ledger := ledger
              nextBucketId := saturatingAdd u64Max s.nextBucketId 1
              buckets := s.buckets.insert s.nextBucketId bucket
              memberBuckets := memberBuckets
              events := events }) :
    property genesis.state := by
  have hproviders : ∀ providers s s', property s →
      registerGenesisProviders cfg providers s = .ok s' → property s' := by
    intro providers
    induction providers with
    | nil =>
      intro s s' hs h
      cases h
      exact hs
    | cons p rest ih =>
      intro s s' hs h
      simp only [registerGenesisProviders, bind_eq_ok] at h
      obtain ⟨middle, hmiddle, hrest⟩ := h
      obtain ⟨ledger, info, hnew, -, hsettings, hmoves, hinfo, rfl⟩ :=
        registerProviderInternal_ok hmiddle
      have hstake : info.stake = p.stake := by rw [hinfo]
      rw [← hstake] at hmoves hsettings
      have hcommitted : info.committedBytes = 0 := by rw [hinfo]
      refine ih _ _ (hregister s p.account p.multiaddr p.publicKey info ledger _ hs hcommitted ?_)
        hrest
      refine .registered p.account p.multiaddr p.publicKey info ledger _ _ hnew hcommitted ?_ ?_ hmoves
        ?_ ?_
      · intro hlimited
        rw [hinfo] at hlimited ⊢
        rw [hstake] at hsettings
        exact ((validateSettings_ok hsettings).2 hlimited).2.2
      · rw [hinfo]
      · rw [hstake]
        simp
      · rw [hinfo]
        exact (validateSettings_ok hsettings).1
  have hbuckets : ∀ buckets s s', property s →
      createGenesisBuckets cfg buckets s = .ok s' → property s' := by
    intro buckets
    induction buckets with
    | nil =>
      intro s s' hs h
      cases h
      exact hs
    | cons entry rest ih =>
      intro s s' hs h
      simp only [createGenesisBuckets, bind_eq_ok] at h
      obtain ⟨created, hcreated, hrest⟩ := h
      obtain ⟨ledger, bucket, -, hmoves, hbucket, hs'⟩ := createBucketInternal_ok hcreated
      rw [hs'] at hrest
      have hprimaries : bucket.primaryProviders = [] := by
        rw [hbucket]
        rfl
      have hsnapshot : bucket.snapshot = none := by rw [hbucket]
      refine ih _ _ (hcreate s entry.1 entry.2 .privateRead bucket ledger _ _ hs hprimaries
        hsnapshot ?_) hrest
      refine .bucketCreated entry.1 entry.2 .privateRead bucket ledger _ _ _ hprimaries hsnapshot
        ?_ ?_ hmoves ?_ rfl
      · rw [hbucket]
      · exact (depositsOnly_amountAt entry.1 _).add (depositsOnly_amountAt entry.1 _)
      · rw [hbucket]
  have hbuilt := genesis.built
  simp only [buildGenesis, bind_eq_ok] at hbuilt
  obtain ⟨registered, hregistered, hcreated⟩ := hbuilt
  exact hbuckets _ _ _ (hproviders _ _ _ hempty hregistered) hcreated

/-- A genesis state is funded. -/
theorem Genesis.funded (genesis : Genesis cfg) : Funded genesis.state := by
  refine genesis.induction Funded ?_ (fun _ _ _ _ _ _ _ hs _ h ↦ h.funded hs)
    fun _ _ _ _ _ _ _ _ hs _ _ h ↦ h.funded hs
  refine ⟨fun a ↦ ?_, genesis.total_le⟩
  exact Nat.zero_le _

/-- Every state of a run from a funded state is funded. -/
theorem funded_run (cfg : Config AccountId) {start : State AccountId} (hstart : Funded start)
    (inputs : List (Input AccountId)) : Funded (run (step cfg) start inputs) :=
  invariant_of_every_step Funded (fun _ input hs ↦ (effect_of_step hs input).funded hs) hstart inputs

/-- The invariant rule of the pallet. Assumes: a property of a genesis state that every effect on a
funded state keeps when its input meets a condition. A run from there whose steps meet the condition
ends in a state with the property. -/
theorem Genesis.invariant (genesis : Genesis cfg) (property : State AccountId → Prop)
    {condition : State AccountId → Input AccountId → Prop} (hgenesis : property genesis.state)
    (heffect : ∀ s input s', Funded s → property s → condition s input →
      Effect cfg s input s' → property s') {inputs : List (Input AccountId)}
    (hinputs : StepsMeet (step cfg) condition genesis.state inputs) :
    property (run (step cfg) genesis.state inputs) := by
  have hboth : Funded (run (step cfg) genesis.state inputs) ∧
      property (run (step cfg) genesis.state inputs) := by
    refine invariant_of_step (fun s ↦ Funded s ∧ property s) ?_ ⟨genesis.funded, hgenesis⟩ hinputs
    rintro s input ⟨hfunded, hs⟩ hcondition
    have h : Effect cfg s input (step cfg s input) := effect_of_step hfunded input
    exact ⟨h.funded hfunded, heffect s input _ hfunded hs hcondition h⟩
  exact hboth.2

/-- The invariant rule for conditions that are asked of accepted calls. Assumes: the property does not
depend on the events. -/
theorem Genesis.invariant_of_accepted (genesis : Genesis cfg) (property : State AccountId → Prop)
    {condition : State AccountId → Input AccountId → Prop} (hgenesis : property genesis.state)
    (hevents : ∀ s : State AccountId, property s → property s.withoutEvents)
    (heffect : ∀ s input s', Funded s → property s → condition s input →
      Effect cfg s input s' → property s') {inputs : List (Input AccountId)}
    (hinputs : StepsMeet (step cfg) (OfAccepted cfg condition) genesis.state inputs) :
    property (run (step cfg) genesis.state inputs) := by
  have hboth : Funded (run (step cfg) genesis.state inputs) ∧
      property (run (step cfg) genesis.state inputs) := by
    refine invariant_of_step (fun s ↦ Funded s ∧ property s) ?_ ⟨genesis.funded, hgenesis⟩ hinputs
    rintro s input ⟨hfunded, hs⟩ hcondition
    have h : Effect cfg s input (step cfg s input) := effect_of_step hfunded input
    refine ⟨h.funded hfunded, ?_⟩
    rcases hcondition.cases with hmet | hrefused
    · exact heffect s input _ hfunded hs hmet h
    · rw [hrefused]
      exact hevents s hs
  exact hboth.2

/-- The invariant rule for a property that every effect keeps. -/
theorem Genesis.invariant_of_effect (genesis : Genesis cfg) (property : State AccountId → Prop)
    (hgenesis : property genesis.state)
    (heffect : ∀ s input s', Funded s → property s → Effect cfg s input s' → property s')
    (inputs : List (Input AccountId)) : property (run (step cfg) genesis.state inputs) := by
  have hinputs : StepsMeet (step cfg) (fun _ _ ↦ True) genesis.state inputs :=
    stepsMeet_of_forall (fun _ _ ↦ trivial) genesis.state inputs
  exact genesis.invariant property hgenesis
    (fun s input s' hfunded hs _ h ↦ heffect s input s' hfunded hs h) hinputs

end Web3Storage.Pallet
