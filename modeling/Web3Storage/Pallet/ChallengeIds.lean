import Web3Storage.Pallet.Funding
import Web3Storage.Pallet.Mock

/-!
# Ids of challenges

The id of a challenge is its deadline with an index. The next index of a deadline is forgotten when
an expired challenge of that deadline is resolved, but by then no new challenge can get the deadline:
an id that was handed out stays below the next index of its deadline until the deadline lies in the
past (`IdSpent`). So no two challenges of a run are stored under one id, and a new one never takes the
place of an open one (`challenge_ids_never_reused`).
-/

set_option autoImplicit false
set_option relaxedAutoImplicit false

namespace Web3Storage.Pallet

open Foundations Primitives

variable {AccountId : Type} [DecidableEq AccountId] {cfg : Config AccountId}
  {s s' : State AccountId} {input : Input AccountId}

/-! ### Spent ids -/

/-- An id that cannot be handed out any more: its deadline is over, or its index is below the next
one of its deadline. -/
def IdSpent (s : State AccountId) (id : ChallengeId) : Prop :=
  id.deadline < s.anchorBlock ∨ id.index < s.nextIndexOf id.deadline

/-- The deadline of a new challenge is not over. -/
theorem deadline_ge {deadline timeout now : ℕ} (hnow : now ≤ u32Max)
    (hdeadline : deadline = saturatingAdd u32Max now timeout) : now ≤ deadline := by
  rw [hdeadline, saturatingAdd]
  omega

omit [DecidableEq AccountId] in
/-- The id of a new challenge is not spent. -/
theorem not_idSpent {id : ChallengeId} (hnow : s.anchorBlock ≤ u32Max)
    (hdeadline : id.deadline = saturatingAdd u32Max s.anchorBlock cfg.challengeTimeout)
    (hindex : id.index = s.nextIndexOf id.deadline) : ¬ IdSpent s id := by
  have hlive := deadline_ge hnow hdeadline
  unfold IdSpent
  omega

omit [DecidableEq AccountId] in
/-- The clock and the indices after a step that opens no challenge. -/
private theorem IdSpent.mono {id : ChallengeId} (h : IdSpent s id)
    (hclock : s.anchorBlock ≤ s'.anchorBlock)
    (hindices : s'.nextChallengeIndex = s.nextChallengeIndex) : IdSpent s' id := by
  rcases h with hover | hbelow
  · exact .inl (hover.trans_le hclock)
  · right
    rw [State.nextIndexOf, hindices]
    exact hbelow

/-- The clock and the indices of a slashed state are those before the slash. -/
theorem slashProvider_ids (challenge : Challenge AccountId) (challengeId : ChallengeId)
    (s : State AccountId) :
    (slashProviderForFailedChallenge cfg challenge challengeId s).anchorBlock = s.anchorBlock ∧
      (slashProviderForFailedChallenge cfg challenge challengeId s).nextChallengeIndex =
        s.nextChallengeIndex ∧
      (slashProviderForFailedChallenge cfg challenge challengeId s).challenges = s.challenges := by
  unfold slashProviderForFailedChallenge
  split
  · exact ⟨rfl, rfl, rfl⟩
  · exact ⟨rfl, rfl, rfl⟩

/-- A spent id stays spent. -/
theorem Effect.idSpent (h : Effect cfg s input s') {id : ChallengeId} (hs : IdSpent s id) :
    IdSpent s' id := by
  cases h with
  | rejected | outside | registered | providerChanged | deregistered | bucketCreated
  | bucketDeleted | bucketChanged | checkpointed | checkpointExtended | opened | toppedUp | amended
  | closed | challengeAnswered => exact hs.mono le_rfl rfl
  | advanced block hnow hfits => exact hs.mono hnow rfl
  | challengeOpened who call bucketId provider bucket agreement commitment target challengeId
      challenge ledger events hcall hbucket hagreement hlive hleaf hdeadline hindex hbound
      hchallenge hmoves =>
    rcases hs with hover | hbelow
    · exact .inl hover
    · right
      have hmax := cfg.maxChallengesPerDeadline_le
      simp only [State.nextIndexOf, FiniteMap.lookup_insert_eq] at hbelow hindex ⊢
      split_ifs with hsame
      · rw [hsame, ← hindex] at hbelow
        have hsum : saturatingAdd u16Max challengeId.index 1 = challengeId.index + 1 :=
          saturatingAdd_of_le (by omega)
        rw [Option.getD_some, hsum]
        omega
      · exact hbelow
  | challengeExpired origin challengeId challenge hchallenge hexpired =>
    unfold IdSpent State.nextIndexOf
    rw [(slashProvider_ids challenge challengeId _).1,
      (slashProvider_ids challenge challengeId _).2.1, FiniteMap.lookup_erase_eq]
    rcases hs with hover | hbelow
    · exact .inl hover
    · by_cases hsame : id.deadline = challengeId.deadline
      · left
        rw [hsame]
        exact hexpired
      · right
        rw [if_neg hsame]
        exact hbelow

/-- The clock fits 32 bits and every open challenge has a spent id. -/
structure IdsSpent (s : State AccountId) : Prop where
  clock_le : s.anchorBlock ≤ u32Max
  spent : ∀ id ∈ s.challenges, IdSpent s id

omit [DecidableEq AccountId] in
/-- The id of a new challenge is not the id of an open one. -/
theorem IdsSpent.lookup_eq_none (hs : IdsSpent s) {id : ChallengeId}
    (hdeadline : id.deadline = saturatingAdd u32Max s.anchorBlock cfg.challengeTimeout)
    (hindex : id.index = s.nextIndexOf id.deadline) : s.challenges.lookup id = none := by
  rw [Finmap.lookup_eq_none]
  exact fun hmem ↦ not_idSpent hs.clock_le hdeadline hindex (hs.spent id hmem)

theorem Effect.idsSpent (h : Effect cfg s input s') (hs : IdsSpent s) : IdsSpent s' := by
  have hspent : ∀ id, IdSpent s id → IdSpent s' id := fun id hid ↦ h.idSpent hid
  cases h with
  | rejected | outside | registered | providerChanged | deregistered | bucketCreated
  | bucketDeleted | bucketChanged | checkpointed | checkpointExtended | opened | toppedUp | amended
  | closed => exact ⟨hs.clock_le, fun id hid ↦ hspent id (hs.spent id hid)⟩
  | advanced block hnow hfits => exact ⟨hfits, fun id hid ↦ hspent id (hs.spent id hid)⟩
  | challengeOpened who call bucketId provider bucket agreement commitment target challengeId
      challenge ledger events hcall hbucket hagreement hlive hleaf hdeadline hindex hbound
      hchallenge hmoves =>
    refine ⟨hs.clock_le, fun id hid ↦ ?_⟩
    rcases Finmap.mem_insert.mp hid with rfl | hold
    · right
      have hmax := cfg.maxChallengesPerDeadline_le
      have hsum : saturatingAdd u16Max id.index 1 = id.index + 1 := saturatingAdd_of_le (by omega)
      simp only [State.nextIndexOf, Finmap.lookup_insert, Option.getD_some]
      omega
    · exact hspent id (hs.spent id hold)
  | challengeAnswered who challengeId response challenge bucket paid ledger hchallenge hprovider
      hdeadline hbucket hresponse hpaid hmoves =>
    exact ⟨hs.clock_le, fun id hid ↦ hspent id (hs.spent id (Finmap.mem_erase.mp hid).2)⟩
  | challengeExpired origin challengeId challenge hchallenge hexpired =>
    constructor
    · rw [(slashProvider_ids challenge challengeId _).1]
      exact hs.clock_le
    · intro id hid
      rw [(slashProvider_ids challenge challengeId _).2.2] at hid
      exact hspent id (hs.spent id (Finmap.mem_erase.mp hid).2)

/-- In every reachable state the ids of open challenges are spent. -/
theorem idsSpent_run (genesis : Genesis cfg) (inputs : List (Input AccountId)) :
    IdsSpent (run (step cfg) genesis.state inputs) := by
  refine genesis.invariant_of_effect IdsSpent ?_ (fun _ _ _ _ hs h ↦ h.idsSpent hs) inputs
  exact genesis.induction IdsSpent
    ⟨Nat.zero_le _, fun id hid ↦ absurd hid Finmap.notMem_empty⟩
    (fun _ _ _ _ _ _ _ hs _ h ↦ h.idsSpent hs) (fun _ _ _ _ _ _ _ _ hs _ _ h ↦ h.idsSpent hs)

/-! ### Whole runs -/

/-- Whether a call creates a challenge. -/
def Call.opensChallenge : Call AccountId → Bool
  | .challengeCheckpoint .. | .challengeOffchain .. | .challengeReplica .. => true
  | _ => false

/-- An input is a call that creates a challenge, and it succeeds. -/
def Creates (cfg : Config AccountId) (s : State AccountId) (input : Input AccountId) : Prop :=
  ∃ who call s', input = .call (.signed who) call ∧ call.opensChallenge = true ∧
    call.fits cfg = true ∧ dispatchSigned cfg who call s.withoutEvents = .ok s'

/-- What an input stores and reports: a challenge under an id, beside the challenges that were open. -/
structure Opens (cfg : Config AccountId) (s : State AccountId) (input : Input AccountId)
    (id : ChallengeId) (challenge : Challenge AccountId) : Prop where
  stored : (step cfg s input).challenges = s.challenges.insert id challenge
  reported : (step cfg s input).events = [.challengeCreated id challenge.bucketId challenge.provider
    challenge.challenger id.deadline]
  deadline : id.deadline = saturatingAdd u32Max s.anchorBlock cfg.challengeTimeout

/-- A call that creates a challenge stores it under the next index of its deadline. -/
private theorem opens_of_createChallenge {challenger provider : AccountId} {bucketId : ℕ}
    {bucket : Bucket AccountId} {role : ProviderRole} {commitment : Commitment}
    {target : ChunkLocation} {id : ChallengeId} (hstep : step cfg s input = s')
    (h : createChallenge cfg challenger bucketId bucket provider role commitment target
      s.withoutEvents = .ok (id, s')) :
    ∃ id challenge, Opens cfg s input id challenge ∧ id.index = s.nextIndexOf id.deadline ∧
      id.index < cfg.maxChallengesPerDeadline := by
  obtain ⟨ledger, challenge, -, -, hdeadline, hindex, hbound, -, hchallenge, hs'⟩ := createChallenge_ok h
  refine ⟨id, challenge, ⟨?_, ?_, hdeadline⟩, hindex, hbound⟩
  · rw [hstep, hs']
    rfl
  · rw [hstep, hs', hchallenge]
    rfl

private theorem Creates.opens (h : Creates cfg s input) :
    ∃ id challenge, Opens cfg s input id challenge ∧ id.index = s.nextIndexOf id.deadline ∧
      id.index < cfg.maxChallengesPerDeadline := by
  obtain ⟨who, call, s', rfl, hopens, hfits, hok⟩ := h
  have hstep := step_of_dispatchSigned hfits hok
  cases call with
  | challengeCheckpoint bucketId provider target =>
    obtain ⟨bucket, snapshot, index, agreement, challengeId, -, -, -, -, -, -, hcreated⟩ :=
      challengeCheckpoint_ok hok
    exact opens_of_createChallenge hstep hcreated
  | challengeOffchain bucketId provider commitment target signature =>
    obtain ⟨bucket, agreement, challengeId, -, -, -, -, hcreated⟩ := challengeOffchain_ok hok
    exact opens_of_createChallenge hstep hcreated
  | challengeReplica bucketId provider target =>
    obtain ⟨bucket, agreement, commitment, challengeId, -, -, -, -, hcreated⟩ :=
      challengeReplica_ok hok
    exact opens_of_createChallenge hstep hcreated
  | _ => cases hopens

/-- A spent id stays spent for the rest of a run. -/
theorem idSpent_run {id : ChallengeId} (hfunded : Funded s) (hspent : IdSpent s id)
    (inputs : List (Input AccountId)) : IdSpent (run (step cfg) s inputs) id := by
  have hboth : Funded (run (step cfg) s inputs) ∧ IdSpent (run (step cfg) s inputs) id := by
    refine invariant_of_every_step (fun s ↦ Funded s ∧ IdSpent s id) ?_ ⟨hfunded, hspent⟩ inputs
    rintro s input ⟨hfunded, hspent⟩
    have h : Effect cfg s input (step cfg s input) := effect_of_step hfunded input
    exact ⟨h.funded hfunded, h.idSpent hspent⟩
  exact hboth.2

/-- Challenge ids are never reused. Assumes: the last input of a run from genesis is a call that creates a
challenge, and it succeeds. It stores the challenge under an id whose index is within the bound of its
deadline, beside all challenges that were open: none of them has the id, and no challenge that the run
stored before was stored under it. -/
theorem challenge_ids_never_reused (genesis : Genesis cfg) (before : List (Input AccountId))
    (input : Input AccountId) (hcreates : Creates cfg (run (step cfg) genesis.state before) input) :
    ∃ id challenge, Opens cfg (run (step cfg) genesis.state before) input id challenge ∧
      id.index < cfg.maxChallengesPerDeadline ∧
        (run (step cfg) genesis.state before).challenges.lookup id = none ∧
          ∀ first earlier rest other stored, before = first ++ earlier :: rest →
            Opens cfg (run (step cfg) genesis.state first) earlier other stored → other ≠ id := by
  obtain ⟨id, challenge, hopens, hindex, hbound⟩ := hcreates.opens
  have hids := idsSpent_run genesis before
  refine ⟨id, challenge, hopens, hbound, hids.lookup_eq_none hopens.deadline hindex, ?_⟩
  rintro first earlier rest other stored rfl hearlier rfl
  -- the earlier challenge spent its id, which the later one then cannot get
  have hmem : other ∈ (step cfg (run (step cfg) genesis.state first) earlier).challenges := by
    rw [hearlier.stored]
    exact Finmap.mem_insert.mpr (.inl rfl)
  have hafter := idsSpent_run genesis (first ++ [earlier])
  have hfunded := funded_run cfg genesis.funded (first ++ [earlier])
  rw [run_concat] at hafter hfunded
  have hspent : IdSpent (run (step cfg) _ rest) other :=
    idSpent_run hfunded (hafter.spent other hmem) rest
  rw [← run_cons, ← run_append] at hspent
  exact not_idSpent hids.clock_le hopens.deadline hindex hspent

/-- The second challenge of a block leaves the first one open. -/
theorem challenge_ids_never_reused_second :
    ∃ id challenge, Opens Mock.config (run (step Mock.config) Mock.threeParties.state
        [Mock.redeemLong, Mock.challengeOneLeaf]) Mock.challengeOneLeaf id challenge ∧ id ≠ ⟨100, 0⟩ := by
  have hok : ((dispatchSigned Mock.config 3 (.challengeOffchain 0 2 Mock.oneLeaf ⟨0, 0⟩
      (Mock.sign (Mock.keyOf 2) (CommitmentPayload.new 0 Mock.oneLeaf).encode))
      (run (step Mock.config) Mock.threeParties.state
        [Mock.redeemLong, Mock.challengeOneLeaf]).withoutEvents).toOption).isSome = true := by
    decide +kernel
  obtain ⟨s', hs'⟩ := Option.isSome_iff_exists.mp hok
  have hfirst : ((run (step Mock.config) Mock.threeParties.state
      [Mock.redeemLong, Mock.challengeOneLeaf]).challenges.lookup ⟨100, 0⟩).isSome = true := by
    decide +kernel
  obtain ⟨id, challenge, hopens, -, hfree, -⟩ := challenge_ids_never_reused Mock.threeParties
    [Mock.redeemLong, Mock.challengeOneLeaf] Mock.challengeOneLeaf
    ⟨3, _, s', rfl, rfl, by decide +kernel, eq_ok_of_toOption hs'⟩
  refine ⟨id, challenge, hopens, ?_⟩
  rintro rfl
  rw [hfree] at hfirst
  cases hfirst

end Web3Storage.Pallet
