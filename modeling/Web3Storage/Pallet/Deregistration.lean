import Web3Storage.Pallet.ChallengeDeposits

/-!
# Deregistration

A provider that announced its exit has committed nothing, so it has no agreement, and without one
nobody can challenge it. It leaves when the period of its announcement is over and its counter of
open challenges stands at zero (`deregistration_safe`). A counter that saturated stands at zero too
early (`left_with_challenge`).
-/

set_option autoImplicit false
set_option relaxedAutoImplicit false

namespace Web3Storage.Pallet

open Foundations Primitives

variable {AccountId : Type} [DecidableEq AccountId] {cfg : Config AccountId}
  {s s' : State AccountId} {input : Input AccountId}

/-- The block at which an announced exit can be completed. -/
def State.exitAt (s : State AccountId) (p : AccountId) : Option ℕ :=
  (s.providers.lookup p).bind ProviderInfo.deregisterAt

/-! ### Announced exits -/

theorem State.exitAt_of_lookup {p : AccountId} {info : ProviderInfo}
    (h : s.providers.lookup p = some info) : s.exitAt p = info.deregisterAt := by
  rw [State.exitAt, h]
  rfl

private theorem exitAt_eq_some {p : AccountId} {completeAfter : ℕ}
    (h : s.exitAt p = some completeAfter) :
    ∃ info, s.providers.lookup p = some info ∧ info.deregisterAt = some completeAfter :=
  Option.bind_eq_some_iff.mp h

/-- An effect on one provider record that keeps its exit and adds nothing to what it committed. -/
private theorem exit_modified {who p : AccountId} {completeAfter : ℕ}
    {change : ProviderInfo → ProviderInfo}
    (hproviders : s'.providers = FiniteMap.modify who change s.providers)
    (hchange : ∀ info, (change info).deregisterAt = info.deregisterAt ∧
      (change info).committedBytes ≤ info.committedBytes)
    (hafter : s'.exitAt p = some completeAfter) :
    s.exitAt p = some completeAfter ∧ s'.committedOf p ≤ s.committedOf p := by
  obtain ⟨info, hinfo, hat⟩ := exitAt_eq_some hafter
  rw [State.committedOf_of_lookup hinfo]
  rw [hproviders] at hinfo
  obtain ⟨old, hold, ⟨-, rfl⟩ | rfl⟩ := FiniteMap.lookup_modify_cases hinfo
  · rw [State.exitAt_of_lookup hold, State.committedOf_of_lookup hold, ← hat]
    exact ⟨(hchange old).1.symm, (hchange old).2⟩
  · rw [State.exitAt_of_lookup hold, State.committedOf_of_lookup hold]
    exact ⟨hat, le_rfl⟩

/-- An effect that opens or tops up an agreement of a provider that announced no exit. -/
private theorem exit_active {who p : AccountId} {completeAfter : ℕ} {record : ProviderInfo}
    {change : ProviderInfo → ProviderInfo}
    (hproviders : s'.providers = FiniteMap.modify who change s.providers)
    (hrecord : s.providers.lookup who = some record) (hactive : record.deregisterAt = none)
    (hchange : (change record).deregisterAt = record.deregisterAt)
    (hafter : s'.exitAt p = some completeAfter) :
    s.exitAt p = some completeAfter ∧ s'.committedOf p ≤ s.committedOf p := by
  obtain ⟨info, hinfo, hat⟩ := exitAt_eq_some hafter
  rw [State.committedOf_of_lookup hinfo]
  rw [hproviders] at hinfo
  obtain ⟨old, hold, ⟨rfl, rfl⟩ | rfl⟩ := FiniteMap.lookup_modify_cases hinfo
  · rw [hrecord] at hold
    cases hold
    rw [hchange, hactive] at hat
    cases hat
  · rw [State.exitAt_of_lookup hold, State.committedOf_of_lookup hold]
    exact ⟨hat, le_rfl⟩

/-- A slash keeps announced exits. -/
private theorem slashProvider_exitAt (challenge : Challenge AccountId) (challengeId : ChallengeId)
    (s : State AccountId) (p : AccountId) :
    (slashProviderForFailedChallenge cfg challenge challengeId s).exitAt p = s.exitAt p := by
  cases hinfo : s.providers.lookup challenge.provider with
  | none => rw [slashProvider_of_none cfg challengeId hinfo]
  | some info =>
    obtain ⟨ledger, slashed, -, -, -, -, hs'⟩ := slashProvider_of_some cfg challengeId hinfo
    rw [hs', State.exitAt, FiniteMap.lookup_insert_eq]
    split_ifs with hp
    · rw [hp, State.exitAt_of_lookup hinfo]
      rfl
    · rfl

/-- An announced exit was announced before, and nothing was committed since, or it is announced now
by a provider that committed nothing. -/
theorem Effect.exitAt (h : Effect cfg s input s') {p : AccountId} {completeAfter : ℕ}
    (hafter : s'.exitAt p = some completeAfter) :
    (s.exitAt p = some completeAfter ∧ s'.committedOf p ≤ s.committedOf p) ∨
      input = .call (.signed p) .deregisterProvider ∧
        completeAfter = saturatingAdd u32Max s.anchorBlock cfg.deregisterAnnouncementPeriod ∧
          s'.committedOf p = 0 := by
  cases h with
  | rejected | advanced | outside | bucketCreated | bucketDeleted | bucketChanged | checkpointed
  | checkpointExtended | challengeOpened => exact .inl ⟨hafter, le_rfl⟩
  | registered who multiaddr publicKey registered ledger events deposit hnew hcommitted hcapacity
      hactive hmoves =>
    obtain ⟨info, hinfo, hat⟩ := exitAt_eq_some hafter
    simp only [FiniteMap.lookup_insert_eq] at hinfo
    split_ifs at hinfo with hp
    · cases hinfo
      rw [hactive] at hat
      cases hat
    · left
      rw [State.exitAt_of_lookup hinfo, State.committedOf_of_lookup hinfo, State.committedOf,
        FiniteMap.lookup_insert_eq, if_neg hp, hinfo]
      exact ⟨hat, le_rfl⟩
  | providerChanged who call old new ledger events amount hold hcommitted hstake hcapacity hmoves
      hexit =>
    obtain ⟨info, hinfo, hat⟩ := exitAt_eq_some hafter
    rw [State.committedOf_of_lookup hinfo]
    simp only [FiniteMap.lookup_insert_eq] at hinfo
    split_ifs at hinfo with hp
    · cases hinfo
      subst hp
      rw [State.exitAt_of_lookup hold, State.committedOf_of_lookup hold, hcommitted]
      cases hexit with
      | kept hkept => exact .inl ⟨hkept ▸ hat, le_rfl⟩
      | announced hcall hnothing hannounced =>
        rw [hannounced] at hat
        cases hat
        exact .inr ⟨by rw [hcall], rfl, hnothing⟩
      | cancelled hcall hcancelled =>
        rw [hcancelled] at hat
        cases hat
    · rw [State.exitAt_of_lookup hinfo, State.committedOf_of_lookup hinfo]
      exact .inl ⟨hat, le_rfl⟩
  | deregistered who old ledger events deposit hold hcommitted hpending hmoves helapsed =>
    obtain ⟨info, hinfo, hat⟩ := exitAt_eq_some hafter
    rw [State.committedOf_of_lookup hinfo]
    simp only [FiniteMap.lookup_erase_eq] at hinfo
    split_ifs at hinfo with hp
    rw [State.exitAt_of_lookup hinfo, State.committedOf_of_lookup hinfo]
    exact .inl ⟨hat, le_rfl⟩
  | opened owner call bucketId provider terms signature target kind record agreement deposits ledger
      buckets nextBucketId nonces memberBuckets events hopening hbuckets hcall =>
    exact .inl (exit_active rfl hopening.lookup_info hopening.active rfl hafter)
  | toppedUp who bucketId provider additionalBytes maxPayment record old new ledger events hrecord
      hactive hold hrole hbytes hmoves =>
    exact .inl (exit_active rfl hrecord hactive rfl hafter)
  | amended who call bucketId provider old new ledger stats events hold hrole hbytes hmoves =>
    exact .inl (exit_modified rfl (fun _ ↦ ⟨rfl, le_rfl⟩) hafter)
  | closed who call bucketId provider old ledger deposit stats events hpending hold hmoves =>
    exact .inl (exit_modified rfl (fun _ ↦ ⟨rfl, Nat.sub_le _ _⟩) hafter)
  | challengeAnswered who challengeId response challenge bucket paid ledger hchallenge hprovider
      hdeadline hbucket hresponse hpaid hmoves hsettled =>
    exact .inl (exit_modified rfl (fun _ ↦ ⟨rfl, le_rfl⟩) hafter)
  | challengeExpired origin challengeId challenge hchallenge hexpired =>
    left
    rw [slashProvider_exitAt] at hafter
    rw [slashProvider_committed]
    exact ⟨hafter, le_rfl⟩

/-- A change of a provider record that keeps its exit. -/
private theorem exitAt_modify {who : AccountId} {change : ProviderInfo → ProviderInfo}
    (hproviders : s'.providers = FiniteMap.modify who change s.providers)
    (hchange : ∀ info, (change info).deregisterAt = info.deregisterAt) (p : AccountId) :
    s'.exitAt p = s.exitAt p := by
  rw [State.exitAt, State.exitAt, hproviders, FiniteMap.lookup_modify_eq]
  split_ifs
  · cases s.providers.lookup p with
    | none => rfl
    | some info => exact hchange info
  · rfl

/-- An announced exit stands until the provider cancels or completes it. -/
theorem Effect.exit_stands (h : Effect cfg s input s') {p : AccountId} (hannounced : s.exitAt p ≠ none)
    (hcleared : s'.exitAt p = none) :
    input = .call (.signed p) .cancelDeregister ∨ input = .call (.signed p) .completeDeregister := by
  -- a step that keeps the exit of the provider clears none
  have hkeeps : s'.exitAt p = s.exitAt p → input = .call (.signed p) .cancelDeregister ∨
      input = .call (.signed p) .completeDeregister := fun hsame ↦
    absurd (hsame.symm.trans hcleared) hannounced
  cases h with
  | rejected | advanced | outside | bucketCreated | bucketDeleted | bucketChanged | checkpointed
  | checkpointExtended | challengeOpened => exact hkeeps rfl
  | registered who multiaddr publicKey registered ledger events deposit hnew =>
    by_cases hp : p = who
    · rw [State.exitAt, hp, hnew] at hannounced
      exact absurd rfl hannounced
    · refine hkeeps ?_
      rw [State.exitAt, State.exitAt, FiniteMap.lookup_insert_eq, if_neg hp]
  | providerChanged who call old new ledger events amount hold hcommitted hstake hcapacity hmoves
      hexit =>
    by_cases hp : p = who
    · subst hp
      have hnew : State.exitAt { s with
          ledger := ledger, providers := s.providers.insert p new, events := events } p =
            new.deregisterAt := State.exitAt_of_lookup (Finmap.lookup_insert _)
      cases hexit with
      | kept hkept => exact hkeeps (by rw [hnew, hkept, State.exitAt_of_lookup hold])
      | announced hcall hnothing hat =>
        rw [hnew, hat] at hcleared
        cases hcleared
      | cancelled hcall hcancelled => exact .inl (by rw [hcall])
    · refine hkeeps ?_
      rw [State.exitAt, State.exitAt, FiniteMap.lookup_insert_eq, if_neg hp]
  | deregistered who old ledger events deposit hold =>
    by_cases hp : p = who
    · exact .inr (by rw [hp])
    · refine hkeeps ?_
      rw [State.exitAt, State.exitAt, FiniteMap.lookup_erase_eq, if_neg hp]
  | opened | toppedUp | amended | closed | challengeAnswered =>
    refine hkeeps (exitAt_modify rfl ?_ p)
    intro info
    rfl
  | challengeExpired origin challengeId challenge hchallenge hexpired =>
    exact hkeeps (slashProvider_exitAt challenge challengeId _ p)

/-! ### Whole runs -/

/-- A provider that announced its exit has committed nothing. -/
def ExitsUncommitted (s : State AccountId) : Prop :=
  ∀ p completeAfter, s.exitAt p = some completeAfter → s.committedOf p = 0

theorem Effect.exitsUncommitted (h : Effect cfg s input s') (hs : ExitsUncommitted s) :
    ExitsUncommitted s' := by
  intro p completeAfter hafter
  rcases h.exitAt hafter with ⟨hbefore, hcommitted⟩ | ⟨-, -, hnothing⟩
  · have hzero := hs p completeAfter hbefore
    omega
  · exact hnothing

/-- In every reachable state a provider that announced its exit has committed nothing. -/
theorem exitsUncommitted_run (genesis : Genesis cfg) (inputs : List (Input AccountId)) :
    ExitsUncommitted (run (step cfg) genesis.state inputs) := by
  refine genesis.invariant_of_effect ExitsUncommitted ?_
    (fun _ _ _ _ hs h ↦ h.exitsUncommitted hs) inputs
  exact genesis.induction ExitsUncommitted (fun p completeAfter h ↦ by cases h)
    (fun _ _ _ _ _ _ _ hs _ h ↦ h.exitsUncommitted hs)
    (fun _ _ _ _ _ _ _ _ hs _ _ h ↦ h.exitsUncommitted hs)

private theorem Genesis.exitAt_eq_none (genesis : Genesis cfg) (p : AccountId) :
    genesis.state.exitAt p = none := by
  have hall := genesis.induction (fun s ↦ ∀ p, s.exitAt p = none) (fun _ ↦ rfl)
    (fun s who multiaddr publicKey info ledger events hs _ h p ↦ ?_)
    (fun s who minProviders visibility bucket ledger memberBuckets events hs _ _ h p ↦ hs p)
  · exact hall p
  · by_contra hsome
    obtain ⟨completeAfter, hafter⟩ := Option.ne_none_iff_exists'.mp hsome
    rcases h.exitAt hafter with ⟨hbefore, -⟩ | ⟨hcall, -⟩
    · rw [hs p] at hbefore
      cases hbefore
    · cases hcall

/-- A provider announced its exit, long enough before a block for the period to be over. -/
def AnnouncedBefore (cfg : Config AccountId) (p : AccountId) (block : ℕ) (s : State AccountId)
    (input : Input AccountId) : Prop :=
  input = .call (.signed p) .deregisterProvider ∧
    s.anchorBlock + cfg.deregisterAnnouncementPeriod ≤ block

/-- The period of an announcement ends before the clock does. -/
def PeriodFits (cfg : Config AccountId) (s : State AccountId) : Input AccountId → Prop
  | .call (.signed _) .deregisterProvider =>
    s.anchorBlock + cfg.deregisterAnnouncementPeriod ≤ u32Max
  | _ => True

/-- An exit that can be completed at a block was announced a period before, and stood since. -/
theorem announced_since (genesis : Genesis cfg) {inputs : List (Input AccountId)}
    (hperiod : StepsMeet (step cfg) (OfAccepted cfg (PeriodFits cfg)) genesis.state inputs) {p : AccountId}
    {completeAfter block : ℕ} (helapsed : completeAfter ≤ block)
    (hat : (run (step cfg) genesis.state inputs).exitAt p = some completeAfter) :
    Since (step cfg) (AnnouncedBefore cfg p block) (fun s ↦ s.exitAt p ≠ none) genesis.state
      inputs := by
  induction inputs using List.reverseRecOn with
  | nil =>
    rw [run_nil, genesis.exitAt_eq_none] at hat
    cases hat
  | append_singleton before input ih =>
    have heffect : Effect cfg (run (step cfg) genesis.state before) input _ :=
      effect_of_step (funded_run cfg genesis.funded before) input
    rw [run_concat] at hat
    rw [since_concat]
    refine ⟨by rw [hat]; exact Option.some_ne_none _, ?_⟩
    rcases heffect.exitAt hat with ⟨hbefore, -⟩ | ⟨rfl, hcomplete, -⟩
    · exact .inl (ih hperiod.left hbefore)
    · rcases hperiod.right.1.cases with hfits | hrefused
      · right
        refine ⟨rfl, ?_⟩
        rw [saturatingAdd_of_le hfits] at hcomplete
        omega
      · rw [hrefused] at hat
        exact .inl (ih hperiod.left hat)

/-- A provider that committed nothing has no agreement. Assumes: the counters cover the agreements. -/
theorem lookup_eq_none_of_uncommitted (hcovers : CommittedCovers s) (hsizes : PositiveSizes s)
    {p : AccountId} (hzero : s.committedOf p = 0) (bucketId : ℕ) :
    s.storageAgreements.lookup (bucketId, p) = none := by
  cases hlookup : s.storageAgreements.lookup (bucketId, p) with
  | none => rfl
  | some agreement =>
    have hpositive := hsizes _ _ hlookup
    have hle : agreement.maxBytes ≤ s.committedOf p :=
      (weight_le_ownedSum hlookup).trans (hcovers p)
    omega

/-- Nothing is opened against a provider that announced its exit and has no agreement. -/
theorem Effect.nothing_opened (h : Effect cfg s input s') {p : AccountId} {completeAfter : ℕ}
    (hat : s.exitAt p = some completeAfter)
    (hnone : ∀ bucketId, s.storageAgreements.lookup (bucketId, p) = none) :
    (∀ bucketId, s'.storageAgreements.lookup (bucketId, p) = none) ∧
      ∀ id challenge, s'.challenges.lookup id = some challenge → challenge.provider = p →
        s.challenges.lookup id = some challenge := by
  -- a written agreement is not one of the provider's
  have hwritten : ∀ {bucketId : ℕ} {provider : AccountId} {new : StorageAgreement AccountId},
      provider ≠ p → ∀ bucketId',
        (s.storageAgreements.insert (bucketId, provider) new).lookup (bucketId', p) = none := by
    intro bucketId provider new hne bucketId'
    rw [FiniteMap.lookup_insert_eq, if_neg]
    · exact hnone bucketId'
    · intro hkey
      exact hne (congrArg Prod.snd hkey).symm
  have hlookup : ∀ {bucketId : ℕ} {provider : AccountId} {old : StorageAgreement AccountId},
      s.storageAgreements.lookup (bucketId, provider) = some old → provider ≠ p := by
    rintro bucketId provider old hold rfl
    rw [hnone bucketId] at hold
    cases hold
  have hsame : ∀ id challenge, s.challenges.lookup id = some challenge → challenge.provider = p →
      s.challenges.lookup id = some challenge := fun _ _ hopen _ ↦ hopen
  cases h with
  | rejected | advanced | outside | registered | providerChanged | deregistered | bucketCreated
  | bucketDeleted | bucketChanged | checkpointed | checkpointExtended => exact ⟨hnone, hsame⟩
  | opened owner call bucketId provider terms signature target kind record agreement deposits ledger
      buckets nextBucketId nonces memberBuckets events hopening hbuckets hcall =>
    refine ⟨hwritten ?_, hsame⟩
    rintro rfl
    rw [State.exitAt_of_lookup hopening.lookup_info, hopening.active] at hat
    cases hat
  | toppedUp who bucketId provider additionalBytes maxPayment record old new ledger events hrecord
      hactive hold hrole hbytes hmoves => exact ⟨hwritten (hlookup hold), hsame⟩
  | amended who call bucketId provider old new ledger stats events hold hrole hbytes hmoves =>
    exact ⟨hwritten (hlookup hold), hsame⟩
  | closed who call bucketId provider old ledger deposit stats events hpending hold hmoves =>
    refine ⟨fun bucketId' ↦ ?_, hsame⟩
    rw [FiniteMap.lookup_erase_eq]
    split_ifs
    · rfl
    · exact hnone bucketId'
  | challengeOpened who call bucketId provider bucket agreement commitment target challengeId
      challenge ledger events hcall hbucket hagreement hlive hleaf hdeadline hindex hbound
      hchallenge hmoves =>
    refine ⟨hnone, fun id challenge' hopen hprovider ↦ ?_⟩
    simp only [FiniteMap.lookup_insert_eq] at hopen
    split_ifs at hopen
    · cases hopen
      rw [hchallenge] at hprovider
      exact absurd hprovider (hlookup hagreement)
    · exact hopen
  | challengeAnswered who challengeId response challenge bucket paid ledger hchallenge hprovider
      hdeadline hbucket hresponse hpaid hmoves hsettled =>
    refine ⟨hnone, fun id challenge' hopen _ ↦ ?_⟩
    simp only [FiniteMap.lookup_erase_eq] at hopen
    split_ifs at hopen
    exact hopen
  | challengeExpired origin challengeId challenge hchallenge hexpired =>
    refine ⟨fun bucketId ↦ ?_, fun id challenge' hopen _ ↦ ?_⟩
    · rw [(slashProvider_escrow challenge challengeId _ p).1]
      exact hnone bucketId
    · rw [(slashProvider_ids challenge challengeId _).2.2, FiniteMap.lookup_erase_eq] at hopen
      split_ifs at hopen
      exact hopen

/-- Deregistration is safe. Assumes: a run from genesis in which the bytes of every provider's
agreements fit 64 bits, every opened challenge finds the counter of its provider below `2 ^ 32 - 1`, and
the period of every accepted announcement ends before the clock does. In its last state a provider that
announced its exit has no agreement, and no input gives it one or opens a challenge against it; the
exit stands until a call of the provider that cancels or completes it is accepted. An exit is
completed only without an open challenge and after the period, and then nothing in the state refers
to the provider. -/
theorem deregistration_safe (genesis : Genesis cfg) (inputs : List (Input AccountId))
    (hbytes : StepsMeet (step cfg) (BytesFit cfg) genesis.state inputs)
    (hcountable : StepsMeet (step cfg) (OfAccepted cfg ChallengeCountable) genesis.state inputs)
    (hperiod : StepsMeet (step cfg) (OfAccepted cfg (PeriodFits cfg)) genesis.state inputs) (p : AccountId) :
    ((run (step cfg) genesis.state inputs).exitAt p ≠ none →
      (∀ bucketId, (run (step cfg) genesis.state inputs).storageAgreements.lookup (bucketId, p) =
        none) ∧
      ∀ input,
        (∀ bucketId, (step cfg (run (step cfg) genesis.state inputs) input).storageAgreements.lookup
          (bucketId, p) = none) ∧
        (∀ id challenge, (step cfg (run (step cfg) genesis.state inputs) input).challenges.lookup id =
          some challenge → challenge.provider = p →
            (run (step cfg) genesis.state inputs).challenges.lookup id = some challenge) ∧
        ((step cfg (run (step cfg) genesis.state inputs) input).exitAt p = none →
          ∃ call, input = .call (.signed p) call ∧
            accepted cfg (run (step cfg) genesis.state inputs) (.signed p) call = true ∧
            (call = .cancelDeregister ∨ call = .completeDeregister))) ∧
    ∀ s', completeDeregister p (run (step cfg) genesis.state inputs).withoutEvents = .ok s' →
      (∀ id challenge, (run (step cfg) genesis.state inputs).challenges.lookup id = some challenge →
        challenge.provider ≠ p) ∧
      Since (step cfg)
        (AnnouncedBefore cfg p (run (step cfg) genesis.state inputs).anchorBlock)
        (fun s ↦ s.exitAt p ≠ none) genesis.state inputs ∧
      (∀ bucketId, s'.storageAgreements.lookup (bucketId, p) = none) ∧
      s'.pendingChallenges.lookup p = none ∧
      (∀ bucketId, s'.pendingChallengesByBucket.lookup (bucketId, p) = none) ∧
      ∀ id challenge, s'.challenges.lookup id = some challenge → challenge.provider ≠ p := by
  have hcovers := committedCovers_run genesis hbytes
  have hsizes := positiveSizes_run genesis inputs
  have huncommitted := exitsUncommitted_run genesis inputs
  have hcounted := challengesCounted_run genesis hcountable
  have hfunded := funded_run cfg genesis.funded inputs
  constructor
  · intro hannounced
    obtain ⟨completeAfter, hat⟩ := Option.ne_none_iff_exists'.mp hannounced
    have hnone := lookup_eq_none_of_uncommitted hcovers hsizes (huncommitted p completeAfter hat)
    refine ⟨hnone, fun input ↦ ?_⟩
    have heffect : Effect cfg (run (step cfg) genesis.state inputs) input _ := effect_of_step hfunded input
    obtain ⟨hnone', hopened⟩ := heffect.nothing_opened hat hnone
    refine ⟨hnone', hopened, fun hcleared ↦ ?_⟩
    have hplace : TakesPlace cfg (run (step cfg) genesis.state inputs) input := by
      refine (takesPlace_or cfg _ input).resolve_right fun hrefused ↦ hannounced ?_
      rw [hrefused] at hcleared
      exact hcleared
    rcases heffect.exit_stands hannounced hcleared with rfl | rfl
    · exact ⟨_, rfl, hplace, .inl rfl⟩
    · exact ⟨_, rfl, hplace, .inr rfl⟩
  · intro s' hcompleted
    obtain ⟨info, completeAfter, deposit, ledger, hinfo, hat, helapsed, hcommitted, hpending, hmoves,
      rfl⟩ := completeDeregister_ok hcompleted
    have hnone := lookup_eq_none_of_uncommitted hcovers hsizes
      ((State.committedOf_of_lookup hinfo).trans hcommitted)
    have hopenZero : (run (step cfg) genesis.state inputs).openAgainst p = 0 := by
      have hexact := hcounted.pending p
      rw [State.pendingOf, State.withoutEvents, hexact, counterOf_getD] at hpending
      exact hpending
    have hunchallenged : ∀ id challenge,
        (run (step cfg) genesis.state inputs).challenges.lookup id = some challenge →
          challenge.provider ≠ p := by
      intro id challenge hopen hprovider
      have htest := FiniteMap.test_eq_false_of_countEntries hopenZero hopen
      simp [hprovider] at htest
    refine ⟨hunchallenged, announced_since genesis hperiod helapsed
      ((State.exitAt_of_lookup hinfo).trans hat), hnone, ?_, fun bucketId ↦ ?_, hunchallenged⟩
    · have hexact := hcounted.pending p
      rw [hopenZero] at hexact
      exact hexact
    · have hexact := hcounted.pendingByBucket bucketId p
      have hle := (run (step cfg) genesis.state inputs).openOn_le bucketId p
      rw [hopenZero, Nat.le_zero] at hle
      rw [hle] at hexact
      exact hexact

/-- A provider announces its exit and waits. -/
def announceThenWait : List (Input ℕ) := [.call (.signed 2) .deregisterProvider, .advance 150]

theorem deregistration_safe_announced :
    ¬ ∃ bucketId, ((run (step Mock.config) Mock.twoParties.state
      announceThenWait).storageAgreements.lookup (bucketId, 2)).isSome := by
  have hbytes : StepsMeet (step Mock.config) (BytesFit Mock.config) Mock.twoParties.state
      announceThenWait :=
    ⟨bytesFit_of_total (by decide +kernel), bytesFit_of_total (by decide +kernel), trivial⟩
  have hperiod : StepsMeet (step Mock.config) (PeriodFits Mock.config) Mock.twoParties.state
      announceThenWait := by
    refine ⟨?_, trivial, trivial⟩
    unfold PeriodFits
    decide +kernel
  have hsafe := deregistration_safe Mock.twoParties announceThenWait hbytes
    (stepsMeet_ofAccepted (by decide +kernel)) (stepsMeet_ofAccepted hperiod) 2
  rintro ⟨bucketId, hagreement⟩
  rw [(hsafe.1 (by decide +kernel)).1 bucketId] at hagreement
  cases hagreement

/-- A provider leaves while a challenge against it is open: all but one of `2 ^ 32` challenges were
resolved, which took the saturated counter to zero. -/
theorem left_with_challenge :
    StepsMeet (step Mock.config) (BytesFit Mock.config) Mock.threeParties.state
        (leaveBehind (2 ^ 31) u32Max) ∧
      (run (step Mock.config) Mock.threeParties.state
          (leaveBehind (2 ^ 31) u32Max)).providers.lookup 2 = none ∧
        ∃ id challenge, (run (step Mock.config) Mock.threeParties.state
          (leaveBehind (2 ^ 31) u32Max)).challenges.lookup id = some challenge ∧
            challenge.provider = 2 := by
  -- the lengths are named, or the run would be unfolded
  obtain ⟨rounds, hrounds⟩ : ∃ rounds, rounds = 2 ^ 31 := ⟨_, rfl⟩
  obtain ⟨resolved, hresolved⟩ : ∃ resolved, resolved = u32Max := ⟨_, rfl⟩
  obtain ⟨hleft, hbytes, -⟩ := leftBehind_run hrounds hresolved
  rw [← hrounds, ← hresolved]
  obtain ⟨challenge, hopen, -, hprovider, -⟩ := hleft.opened
  exact ⟨hbytes, hleft.lookup_none, _, challenge, hopen, hprovider⟩

end Web3Storage.Pallet
