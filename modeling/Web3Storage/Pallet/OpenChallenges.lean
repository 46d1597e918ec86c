import Web3Storage.Pallet.ChallengeIds
import Web3Storage.Pallet.CommittedBytes

/-!
# Open challenges

The counters of open challenges are exact as long as no provider has `2 ^ 32 - 1` of them, where they
saturate (`open_challenges_counted`). While they are exact they keep the agreement, the bucket and
the provider record of every open challenge in place.
-/

set_option autoImplicit false
set_option relaxedAutoImplicit false

namespace Web3Storage.Pallet

open Foundations Primitives

variable {AccountId : Type} [DecidableEq AccountId] {cfg : Config AccountId}
  {s s' : State AccountId} {input : Input AccountId}

/-! ### Counters -/

/-- The stored form of a count: no entry for zero. -/
def counterOf (count : ℕ) : Option ℕ := if count = 0 then none else some count

theorem counterOf_getD (count : ℕ) : (counterOf count).getD 0 = count := by
  unfold counterOf
  split_ifs with hzero
  · exact hzero.symm
  · rfl

theorem counterOf_ne_zero (count : ℕ) : counterOf count ≠ some 0 := by
  unfold counterOf
  split_ifs with hzero
  · simp
  · simpa using hzero

/-- An increment that does not saturate counts one more. -/
theorem incrementCount_counterOf {count : ℕ} (hcount : count < u32Max) :
    incrementCount (counterOf count) = counterOf (count + 1) := by
  have hsum : saturatingAdd u32Max count 1 = count + 1 := saturatingAdd_of_le hcount
  rw [incrementCount, counterOf_getD, hsum]
  simp [counterOf]

/-- A decrement counts one less and deletes the last. -/
theorem decrementOrDelete_counterOf (count : ℕ) :
    decrementOrDelete (counterOf (count + 1)) = counterOf count := by
  cases count with
  | zero => rfl
  | succ count => simp [decrementOrDelete, counterOf, Option.filter]

/-- The number of open challenges against a provider. -/
def State.openAgainst (s : State AccountId) (p : AccountId) : ℕ :=
  FiniteMap.countEntries (fun _ challenge ↦ challenge.provider = p) s.challenges

/-- The number of open challenges against a provider on a bucket. -/
def State.openOn (s : State AccountId) (bucketId : ℕ) (p : AccountId) : ℕ :=
  FiniteMap.countEntries
    (fun _ challenge ↦ challenge.bucketId = bucketId ∧ challenge.provider = p) s.challenges

theorem State.openOn_le (s : State AccountId) (bucketId : ℕ) (p : AccountId) :
    s.openOn bucketId p ≤ s.openAgainst p := by
  unfold State.openOn State.openAgainst FiniteMap.countEntries
  refine FiniteMap.weightedSum_le_weightedSum fun _ challenge _ ↦ ?_
  by_cases hprovider : challenge.provider = p
  · simp only [hprovider, and_true, decide_true, if_true]
    split_ifs <;> omega
  · simp [hprovider]

/-- A new challenge finds the counter of its provider below the last value. -/
def ChallengeCountable (s : State AccountId) : Input AccountId → Prop
  | .call (.signed _) (.challengeCheckpoint _ provider _) => s.pendingOf provider < u32Max
  | .call (.signed _) (.challengeOffchain _ provider _ _ _) => s.pendingOf provider < u32Max
  | .call (.signed _) (.challengeReplica _ provider _) => s.pendingOf provider < u32Max
  | _ => True

instance (s : State AccountId) (input : Input AccountId) :
    Decidable (ChallengeCountable s input) := by
  induction input using Input.casesOn with
  | call origin call =>
    induction origin using Origin.casesOn <;> induction call using Call.casesOn <;>
      first | exact .isTrue trivial | exact Nat.decLt _ _
  | _ => exact .isTrue trivial

/-- The counters are exact, and every open challenge has its agreement. -/
structure ChallengesCounted (s : State AccountId) : Prop where
  pending : ∀ p, s.pendingChallenges.lookup p = counterOf (s.openAgainst p)
  pendingByBucket : ∀ bucketId p,
    s.pendingChallengesByBucket.lookup (bucketId, p) = counterOf (s.openOn bucketId p)
  mem_agreements : ∀ id challenge, s.challenges.lookup id = some challenge →
    (challenge.bucketId, challenge.provider) ∈ s.storageAgreements

/-- A step that keeps the challenges, their counters and their agreements. -/
private theorem ChallengesCounted.kept (hs : ChallengesCounted s)
    (hchallenges : s'.challenges = s.challenges)
    (hpending : s'.pendingChallenges = s.pendingChallenges)
    (hpendingByBucket : s'.pendingChallengesByBucket = s.pendingChallengesByBucket)
    (hagreements : ∀ key ∈ s.storageAgreements, key ∈ s'.storageAgreements) :
    ChallengesCounted s' where
  pending p := by
    rw [hpending, hs.pending, State.openAgainst, State.openAgainst, hchallenges]
  pendingByBucket bucketId p := by
    rw [hpendingByBucket, hs.pendingByBucket, State.openOn, State.openOn, hchallenges]
  mem_agreements id challenge hchallenge := by
    rw [hchallenges] at hchallenge
    exact hagreements _ (hs.mem_agreements id challenge hchallenge)

/-- A step that removes one challenge and counts it down. -/
private theorem ChallengesCounted.removed (hs : ChallengesCounted s) {id : ChallengeId}
    {challenge : Challenge AccountId} (hchallenge : s.challenges.lookup id = some challenge)
    (hchallenges : s'.challenges = s.challenges.erase id)
    (hpending : s'.pendingChallenges =
      FiniteMap.alter challenge.provider decrementOrDelete s.pendingChallenges)
    (hpendingByBucket : s'.pendingChallengesByBucket =
      FiniteMap.alter (challenge.bucketId, challenge.provider) decrementOrDelete
        s.pendingChallengesByBucket)
    (hagreements : s'.storageAgreements = s.storageAgreements) : ChallengesCounted s' where
  pending p := by
    have hcount := FiniteMap.countEntries_erase
      (fun _ (challenge : Challenge AccountId) ↦ challenge.provider = p) hchallenge
    rw [hpending, FiniteMap.lookup_alter_eq, State.openAgainst, hchallenges]
    by_cases hp : p = challenge.provider
    · subst hp
      rw [decide_eq_true rfl, if_pos rfl] at hcount
      rw [if_pos rfl, hs.pending, State.openAgainst, ← hcount, decrementOrDelete_counterOf]
    · have hne : ¬ challenge.provider = p := fun heq ↦ hp heq.symm
      rw [decide_eq_false hne, if_neg Bool.false_ne_true, add_zero] at hcount
      rw [if_neg hp, hs.pending, State.openAgainst, hcount]
  pendingByBucket bucketId p := by
    have hcount := FiniteMap.countEntries_erase (fun _ (challenge : Challenge AccountId) ↦
      challenge.bucketId = bucketId ∧ challenge.provider = p) hchallenge
    rw [hpendingByBucket, FiniteMap.lookup_alter_eq, State.openOn, hchallenges]
    by_cases hp : (bucketId, p) = (challenge.bucketId, challenge.provider)
    · obtain ⟨rfl, rfl⟩ := Prod.mk.inj hp
      rw [decide_eq_true ⟨rfl, rfl⟩, if_pos rfl] at hcount
      rw [if_pos rfl, hs.pendingByBucket, State.openOn, ← hcount, decrementOrDelete_counterOf]
    · have hne : ¬ (challenge.bucketId = bucketId ∧ challenge.provider = p) := by
        rintro ⟨rfl, rfl⟩
        exact hp rfl
      rw [decide_eq_false hne, if_neg Bool.false_ne_true, add_zero] at hcount
      rw [if_neg hp, hs.pendingByBucket, State.openOn, hcount]
  mem_agreements other challenge' hother := by
    rw [hchallenges, FiniteMap.lookup_erase_eq] at hother
    split_ifs at hother
    rw [hagreements]
    exact hs.mem_agreements other challenge' hother

/-- A new challenge is one more against its provider and none against another. -/
theorem State.openAgainst_insert {id : ChallengeId} {challenge : Challenge AccountId}
    (hfresh : s.challenges.lookup id = none)
    (hchallenges : s'.challenges = s.challenges.insert id challenge) (p : AccountId) :
    s'.openAgainst p = s.openAgainst p + if p = challenge.provider then 1 else 0 := by
  have hcount := FiniteMap.countEntries_insert_new
    (fun _ (challenge : Challenge AccountId) ↦ challenge.provider = p) hfresh challenge
  rw [State.openAgainst, hchallenges, hcount, State.openAgainst]
  by_cases hp : p = challenge.provider
  · rw [if_pos hp, decide_eq_true hp.symm, if_pos rfl]
  · have hne : ¬ challenge.provider = p := fun heq ↦ hp heq.symm
    rw [if_neg hp, decide_eq_false hne, if_neg Bool.false_ne_true]

/-- A step that opens one challenge and counts it. -/
private theorem ChallengesCounted.opened (hs : ChallengesCounted s) {id : ChallengeId}
    {challenge : Challenge AccountId} (hfresh : s.challenges.lookup id = none)
    (hcountable : s.openAgainst challenge.provider < u32Max)
    (hchallenges : s'.challenges = s.challenges.insert id challenge)
    (hpending : s'.pendingChallenges =
      FiniteMap.alter challenge.provider incrementCount s.pendingChallenges)
    (hpendingByBucket : s'.pendingChallengesByBucket =
      FiniteMap.alter (challenge.bucketId, challenge.provider) incrementCount
        s.pendingChallengesByBucket)
    (hagreements : s'.storageAgreements = s.storageAgreements)
    (hagreement : (challenge.bucketId, challenge.provider) ∈ s.storageAgreements) :
    ChallengesCounted s' where
  pending p := by
    rw [hpending, FiniteMap.lookup_alter_eq, State.openAgainst_insert hfresh hchallenges]
    split_ifs with hp
    · rw [hs.pending, hp, incrementCount_counterOf hcountable]
    · rw [hs.pending, add_zero]
  pendingByBucket bucketId p := by
    have hcount := FiniteMap.countEntries_insert_new (fun _ (challenge : Challenge AccountId) ↦
      challenge.bucketId = bucketId ∧ challenge.provider = p) hfresh challenge
    rw [hpendingByBucket, FiniteMap.lookup_alter_eq, State.openOn, hchallenges, hcount]
    by_cases hp : (bucketId, p) = (challenge.bucketId, challenge.provider)
    · obtain ⟨rfl, rfl⟩ := Prod.mk.inj hp
      have hbucket := (s.openOn_le challenge.bucketId challenge.provider).trans_lt hcountable
      rw [if_pos rfl, hs.pendingByBucket, incrementCount_counterOf hbucket,
        decide_eq_true ⟨rfl, rfl⟩, if_pos rfl]
      rfl
    · have hne : ¬ (challenge.bucketId = bucketId ∧ challenge.provider = p) := by
        rintro ⟨rfl, rfl⟩
        exact hp rfl
      rw [if_neg hp, hs.pendingByBucket, decide_eq_false hne, if_neg Bool.false_ne_true, add_zero]
      rfl
  mem_agreements other challenge' hother := by
    rw [hchallenges, FiniteMap.lookup_insert_eq] at hother
    rw [hagreements]
    split_ifs at hother
    · cases hother
      exact hagreement
    · exact hs.mem_agreements other challenge' hother

theorem slashProvider_counters (challenge : Challenge AccountId) (challengeId : ChallengeId)
    (s : State AccountId) :
    (slashProviderForFailedChallenge cfg challenge challengeId s).pendingChallenges =
        s.pendingChallenges ∧
      (slashProviderForFailedChallenge cfg challenge challengeId s).pendingChallengesByBucket =
        s.pendingChallengesByBucket := by
  unfold slashProviderForFailedChallenge
  split
  · exact ⟨rfl, rfl⟩
  · exact ⟨rfl, rfl⟩

/-- Every effect keeps the challenges counted. Assumes: a new challenge finds the counter of its
provider below the last value. -/
theorem Effect.challengesCounted (h : Effect cfg s input s')
    (hcountable : ChallengeCountable s input) (hids : IdsSpent s) (hs : ChallengesCounted s) :
    ChallengesCounted s' := by
  cases h with
  | rejected | outside | advanced | registered | providerChanged | deregistered | bucketCreated
  | bucketDeleted | bucketChanged | checkpointed | checkpointExtended =>
    exact hs.kept rfl rfl rfl fun _ hkey ↦ hkey
  | opened | toppedUp | amended =>
    exact hs.kept rfl rfl rfl fun _ hkey ↦ Finmap.mem_insert.mpr (.inr hkey)
  | closed who call bucketId provider old ledger deposit stats events hpending hold hmoves =>
    have hnone : s.openOn bucketId provider = 0 := by
      rw [State.pendingByBucketOf, hs.pendingByBucket, counterOf_getD] at hpending
      exact hpending
    refine ⟨hs.pending, hs.pendingByBucket, fun id challenge hchallenge ↦ ?_⟩
    -- an open challenge on the closed agreement would be counted
    refine Finmap.mem_erase.mpr ⟨fun hkey ↦ ?_, hs.mem_agreements id challenge hchallenge⟩
    have htest := FiniteMap.test_eq_false_of_countEntries hnone hchallenge
    obtain ⟨hbucket, hprovider⟩ := Prod.mk.inj hkey
    simp [hbucket, hprovider] at htest
  | challengeOpened who call bucketId provider bucket agreement commitment target challengeId
      challenge ledger events hcall hbucket hagreement hlive hleaf hdeadline hindex hbound
      hchallenge hmoves =>
    have hpending : s.pendingOf provider < u32Max := by
      rcases hcall with rfl | ⟨signature, rfl⟩ | rfl
      · exact hcountable
      · exact hcountable
      · exact hcountable
    rw [State.pendingOf, hs.pending, counterOf_getD] at hpending
    subst hchallenge
    exact hs.opened (hids.lookup_eq_none hdeadline hindex) hpending rfl rfl rfl rfl
      (Finmap.mem_of_lookup_eq_some hagreement)
  | challengeAnswered who challengeId response challenge bucket paid ledger hchallenge hprovider
      hdeadline hbucket hresponse hpaid hmoves =>
    exact hs.removed hchallenge rfl rfl rfl rfl
  | challengeExpired origin challengeId challenge hchallenge hexpired =>
    exact hs.removed hchallenge (slashProvider_ids challenge challengeId _).2.2
      (slashProvider_counters challenge challengeId _).1
      (slashProvider_counters challenge challengeId _).2
      (slashProvider_escrow challenge challengeId _ challenge.provider).1

/-! ### Whole runs -/

/-- In every state of a run whose new challenges are countable, the challenges are counted. -/
theorem challengesCounted_run (genesis : Genesis cfg) {inputs : List (Input AccountId)}
    (hinputs : StepsMeet (step cfg) (OfAccepted cfg ChallengeCountable) genesis.state inputs) :
    ChallengesCounted (run (step cfg) genesis.state inputs) := by
  have hgenesis : IdsSpent genesis.state ∧ ChallengesCounted genesis.state := by
    refine genesis.induction (fun s ↦ IdsSpent s ∧ ChallengesCounted s) ⟨?_, ?_⟩
      (fun _ _ _ _ _ _ _ hs _ h ↦ ⟨h.idsSpent hs.1, h.challengesCounted trivial hs.1 hs.2⟩)
      (fun _ _ _ _ _ _ _ _ hs _ _ h ↦ ⟨h.idsSpent hs.1, h.challengesCounted trivial hs.1 hs.2⟩)
    · exact ⟨Nat.zero_le _, fun id hid ↦ absurd hid Finmap.notMem_empty⟩
    · exact ⟨fun _ ↦ rfl, fun _ _ ↦ rfl, fun id challenge hchallenge ↦ by cases hchallenge⟩
  have hboth := genesis.invariant_of_accepted (fun s ↦ IdsSpent s ∧ ChallengesCounted s) hgenesis
    (fun _ hs ↦ ⟨⟨hs.1.clock_le, hs.1.spent⟩, ⟨hs.2.pending, hs.2.pendingByBucket, hs.2.mem_agreements⟩⟩)
    (fun _ _ _ _ hs hcountable h ↦
      ⟨h.idsSpent hs.1, h.challengesCounted hcountable hs.1 hs.2⟩) hinputs
  exact hboth.2

/-- After the step the bytes of every provider's agreements fit 64 bits. -/
def BytesFit (cfg : Config AccountId) (s : State AccountId) (input : Input AccountId) : Prop :=
  ∀ p, (step cfg s input).agreementBytes p < 2 ^ 64

/-- The bytes of all agreements together bound those of each provider. -/
theorem bytesFit_of_total
    (h : FiniteMap.weightedSum (fun _ agreement ↦ agreement.maxBytes)
      (step cfg s input).storageAgreements < 2 ^ 64) : BytesFit cfg s input := by
  intro p
  refine lt_of_le_of_lt ?_ h
  unfold State.agreementBytes ownedSum
  refine FiniteMap.weightedSum_le_weightedSum fun key agreement _ ↦ ?_
  split_ifs
  · exact le_rfl
  · exact Nat.zero_le _

/-- In every state of a run whose agreements' bytes fit, the counters of bytes cover them. -/
theorem committedCovers_run (genesis : Genesis cfg) {inputs : List (Input AccountId)}
    (hbytes : StepsMeet (step cfg) (BytesFit cfg) genesis.state inputs) :
    CommittedCovers (run (step cfg) genesis.state inputs) := by
  have hboth : Funded (run (step cfg) genesis.state inputs) ∧
      CommittedCovers (run (step cfg) genesis.state inputs) := by
    refine invariant_of_step (fun s ↦ Funded s ∧ CommittedCovers s) ?_
      ⟨genesis.funded, Balances.covers genesis.committedExact⟩ hbytes
    rintro s input ⟨hfunded, hs⟩ hfit
    have h : Effect cfg s input (step cfg s input) := effect_of_step hfunded input
    exact ⟨h.funded hfunded, h.bytesChange.covers (fun p ↦ Nat.le_sub_one_of_lt (hfit p)) hs⟩
  exact hboth.2

/-- In every state of a run whose agreements' bytes fit, every agreement's provider has a record. -/
theorem mem_providers_run (genesis : Genesis cfg) {inputs : List (Input AccountId)}
    (hbytes : StepsMeet (step cfg) (BytesFit cfg) genesis.state inputs) {key : ℕ × AccountId}
    (hkey : key ∈ (run (step cfg) genesis.state inputs).storageAgreements) :
    key.2 ∈ (run (step cfg) genesis.state inputs).providers :=
  (committedCovers_run genesis hbytes).mem_providers (positiveSizes_run genesis inputs) hkey

/-- Open-challenge bookkeeping is exact. Assumes: a run from genesis in which the bytes of every
provider's agreements fit 64 bits and every new challenge finds the counter of its provider below
`2 ^ 32 - 1`. In its last state, and so in every state on the way, the counters equal the numbers of
open challenges, no counter is stored as zero, and every open challenge has its bucket, its agreement
and its provider record. -/
theorem open_challenges_counted (genesis : Genesis cfg) (inputs : List (Input AccountId))
    (hbytes : StepsMeet (step cfg) (BytesFit cfg) genesis.state inputs)
    (hinputs : StepsMeet (step cfg) (OfAccepted cfg ChallengeCountable) genesis.state inputs) :
    (∀ p, (run (step cfg) genesis.state inputs).pendingOf p =
      (run (step cfg) genesis.state inputs).openAgainst p) ∧
    (∀ bucketId p, (run (step cfg) genesis.state inputs).pendingByBucketOf bucketId p =
      (run (step cfg) genesis.state inputs).openOn bucketId p) ∧
    (∀ p, (run (step cfg) genesis.state inputs).pendingChallenges.lookup p ≠ some 0) ∧
    (∀ key, (run (step cfg) genesis.state inputs).pendingChallengesByBucket.lookup key ≠ some 0) ∧
    ∀ id challenge,
      (run (step cfg) genesis.state inputs).challenges.lookup id = some challenge →
      challenge.bucketId ∈ (run (step cfg) genesis.state inputs).buckets ∧
        (challenge.bucketId, challenge.provider) ∈
          (run (step cfg) genesis.state inputs).storageAgreements ∧
        challenge.provider ∈ (run (step cfg) genesis.state inputs).providers := by
  have hcounted := challengesCounted_run genesis hinputs
  have hindexed := bucketsIndexed_run genesis inputs
  refine ⟨fun p ↦ ?_, fun bucketId p ↦ ?_, fun p ↦ ?_, fun key ↦ ?_, fun id challenge hchallenge ↦ ?_⟩
  · rw [State.pendingOf, hcounted.pending, counterOf_getD]
  · rw [State.pendingByBucketOf, hcounted.pendingByBucket, counterOf_getD]
  · rw [hcounted.pending]
    exact counterOf_ne_zero _
  · rw [hcounted.pendingByBucket]
    exact counterOf_ne_zero _
  · have hagreement := hcounted.mem_agreements id challenge hchallenge
    exact ⟨hindexed.mem_buckets _ hagreement, hagreement, mem_providers_run genesis hbytes hagreement⟩

theorem open_challenges_counted_one :
    (run (step Mock.config) Mock.threeParties.state
        [Mock.redeemLong, Mock.challengeOneLeaf]).pendingOf 2 =
      (run (step Mock.config) Mock.threeParties.state
        [Mock.redeemLong, Mock.challengeOneLeaf]).openAgainst 2 ∧
    (run (step Mock.config) Mock.threeParties.state
        [Mock.redeemLong, Mock.challengeOneLeaf]).openAgainst 2 = 1 := by
  have hbytes : StepsMeet (step Mock.config) (BytesFit Mock.config) Mock.threeParties.state
      [Mock.redeemLong, Mock.challengeOneLeaf] :=
    ⟨bytesFit_of_total (by decide +kernel), bytesFit_of_total (by decide +kernel), trivial⟩
  have hcounted := open_challenges_counted Mock.threeParties
    [Mock.redeemLong, Mock.challengeOneLeaf] hbytes (stepsMeet_ofAccepted (by decide +kernel))
  exact ⟨hcounted.1 2, by decide +kernel⟩

/-! ### Flooding a counter -/

section Flood

variable {provider : AccountId} {bucketId : ℕ} {bucket : Bucket AccountId}
  {agreement : StorageAgreement AccountId} {commitment : Commitment}
  {signature : MultiSignature} {ledger : Funds AccountId}

/-- A challenge of a commitment that the provider of a live agreement on a public bucket signed is
opened. Assumes: the challenger can pay its deposit and the deadline has room. -/
theorem step_challengeOffchain (who : AccountId) (target : ChunkLocation)
    (hfits : (Call.challengeOffchain bucketId provider commitment target signature).fits cfg = true)
    (hbucket : s.buckets.lookup bucketId = some bucket) (hpublic : bucket.visibility = .publicRead)
    (hagreement : s.storageAgreements.lookup (bucketId, provider) = some agreement)
    (hlive : s.anchorBlock < agreement.expiresAt)
    (hsigned : verifySignature cfg s.providers signature
      (CommitmentPayload.new bucketId commitment).encode provider = .ok ())
    (hwho : who ≠ provider) (hleaf : target.leafIndex < commitment.leafCount)
    (hhold : holdChallengeDeposit cfg who cfg.challengeDeposit s.ledger = .ok ledger)
    {deadline : ℕ} (hdeadline : saturatingAdd u32Max s.anchorBlock cfg.challengeTimeout = deadline)
    (hroom : s.nextIndexOf deadline < cfg.maxChallengesPerDeadline) :
    step cfg s
        (.call (.signed who) (.challengeOffchain bucketId provider commitment target signature)) =
      { s with
        ledger := ledger
        challenges := s.challenges.insert ⟨deadline, s.nextIndexOf deadline⟩
          { bucketId := bucketId, provider := provider, challenger := who
            commitment := commitment, target := target, deposit := cfg.challengeDeposit
            authorized := isAuthorized s who bucketId bucket, createdAt := s.anchorBlock }
        nextChallengeIndex := s.nextChallengeIndex.insert deadline
          (saturatingAdd u16Max (s.nextIndexOf deadline) 1)
        pendingChallenges := FiniteMap.alter provider incrementCount s.pendingChallenges
        pendingChallengesByBucket :=
          FiniteMap.alter (bucketId, provider) incrementCount s.pendingChallengesByBucket
        events := [.challengeCreated ⟨deadline, s.nextIndexOf deadline⟩ bucketId provider who
          deadline] } := by
  subst hdeadline
  refine step_of_dispatchSigned hfits ?_
  simp only [dispatchSigned, challengeOffchain, createChallenge, bind_eq_ok, fetch_eq_ok,
    check_eq_ok, onlyIf_eq_ok, pure_eq_ok, decide_eq_true_eq]
  refine ⟨bucket, hbucket, agreement, hagreement, (), hlive, (), hsigned, _, ⟨(), hwho, (), hleaf,
    (), ?_, ledger, hhold, (), hroom, rfl⟩, rfl⟩
  simp [hpublic]

end Flood

/-! ### A flood on the mock runtime -/

/-- The state with one agreement that lasts to the end of the clock. -/
def floodStart : State ℕ := run (step Mock.config) Mock.threeParties.state [Mock.redeemLong]

/-- In each round the clock moves on and two challenges are opened. -/
def flood : ℕ → List (Input ℕ)
  | 0 => []
  | rounds + 1 =>
    flood rounds ++ [.advance (rounds + 1), Mock.challengeOneLeaf, Mock.challengeOneLeaf]

/-- A challenge of a flood. -/
def IsFlood (challenge : Challenge ℕ) : Prop :=
  challenge.bucketId = 0 ∧ challenge.provider = 2 ∧ challenge.challenger = 3 ∧
    challenge.deposit = 100

/-- A state of a flood: the clock, the challenges opened at this block and all together. The
registry is as it was. -/
structure Flooded (s : State ℕ) (block used count : ℕ) : Prop where
  providers_eq : s.providers = floodStart.providers
  buckets_eq : s.buckets = floodStart.buckets
  agreements_eq : s.storageAgreements = floodStart.storageAgreements
  clock_eq : s.anchorBlock = block
  index_eq : s.nextIndexOf (block + 100) = used
  later_eq : ∀ deadline, block + 100 < deadline → s.nextIndexOf deadline = 0
  paid : ∃ data, s.ledger.lookup 3 = some data ∧ data.free + 100 * count = 10 ^ 12
  open_eq : s.openAgainst 2 = count
  pending_eq : s.pendingChallenges.lookup 2 = counterOf (min count u32Max)
  pendingByBucket_eq :
    s.pendingChallengesByBucket.lookup (0, 2) = counterOf (min count u32Max)
  opened : ∀ round, 0 < round → round ≤ block → ∀ index,
    index < (if round = block then used else 2) →
      ∃ challenge, s.challenges.lookup ⟨round + 100, index⟩ = some challenge ∧ IsFlood challenge

/-- The start of the flood: no challenge yet, an agreement for a public bucket that lasts to the end of
the clock, and a challenger with the whole endowment. -/
private theorem floodStart_evaluated :
    (floodStart.anchorBlock = 0 ∧ floodStart.nextChallengeIndex = ∅ ∧ floodStart.openAgainst 2 = 0 ∧
      floodStart.pendingChallenges.lookup 2 = none ∧
        floodStart.pendingChallengesByBucket.lookup (0, 2) = none) ∧
      (floodStart.ledger.lookup 3).map AccountData.free = some (10 ^ 12) ∧
        (floodStart.buckets.lookup 0).map Bucket.visibility = some .publicRead ∧
          (floodStart.storageAgreements.lookup (0, 2)).map StorageAgreement.expiresAt =
            some u32Max := by
  decide +kernel

private theorem flooded_start : Flooded floodStart 0 0 0 := by
  obtain ⟨⟨hclock, hindex, hopen, hpending, hpendingByBucket⟩, hfree, -⟩ := floodStart_evaluated
  have hnext : ∀ deadline, floodStart.nextIndexOf deadline = 0 := by
    intro deadline
    rw [State.nextIndexOf, hindex]
    rfl
  obtain ⟨data, hdata, hamount⟩ := Option.map_eq_some_iff.mp hfree
  exact {
    providers_eq := rfl
    buckets_eq := rfl
    agreements_eq := rfl
    clock_eq := hclock
    index_eq := hnext _
    later_eq := fun deadline _ ↦ hnext deadline
    paid := ⟨data, hdata, by omega⟩
    open_eq := hopen
    pending_eq := hpending
    pendingByBucket_eq := hpendingByBucket
    opened := fun round hpos hle ↦ by omega }

/-- The clock moves on. -/
private theorem Flooded.advance {s : State ℕ} {block used count : ℕ}
    (h : Flooded s block used count) (hused : 0 < block → used = 2) (hblock : block < u32Max) :
    Flooded (step Mock.config s (.advance (block + 1))) (block + 1) 0 count := by
  have hstep : step Mock.config s (.advance (block + 1)) = { s with anchorBlock := block + 1 } := by
    have hclock := h.clock_eq
    simp only [step]
    rw [if_pos (by omega)]
  rw [hstep]
  refine ⟨h.providers_eq, h.buckets_eq, h.agreements_eq, rfl, h.later_eq _ (by omega),
    fun deadline hlater ↦ h.later_eq deadline (by omega), h.paid, h.open_eq, h.pending_eq,
    h.pendingByBucket_eq, fun round hpos hle index hindex ↦ ?_⟩
  split_ifs at hindex with hround
  · omega
  · refine h.opened round hpos (by omega) index ?_
    split_ifs with hlast
    · rw [hused (by omega)]
      exact hindex
    · exact hindex

private theorem floodStart_bucket :
    ∃ bucket, floodStart.buckets.lookup 0 = some bucket ∧ bucket.visibility = .publicRead :=
  Option.map_eq_some_iff.mp floodStart_evaluated.2.2.1

private theorem floodStart_agreement :
    ∃ agreement, floodStart.storageAgreements.lookup (0, 2) = some agreement ∧
      agreement.expiresAt = u32Max :=
  Option.map_eq_some_iff.mp floodStart_evaluated.2.2.2

private theorem floodStart_signed :
    verifySignature Mock.config floodStart.providers
      (Mock.sign (Mock.keyOf 2) (CommitmentPayload.new 0 Mock.oneLeaf).encode)
      (CommitmentPayload.new 0 Mock.oneLeaf).encode 2 = .ok () := by
  decide +kernel

/-- On the mock runtime an account with more than a deposit can pay it. -/
private theorem holdChallengeDeposit_mock {who amount : ℕ} {ledger : Funds ℕ}
    {data : AccountData HoldReason} (hdata : ledger.lookup who = some data)
    (hfree : amount < data.free) :
    holdChallengeDeposit Mock.config who amount ledger =
      .ok (Ledger.addHeld (Ledger.subFree ledger who amount) .challengeDeposit who amount) := by
  have hamount : Ledger.free ledger who = data.free := by
    rw [Ledger.free, Ledger.account, hdata]
    rfl
  have hhold : Ledger.hold Mock.config.rules .challengeDeposit who amount ledger =
      .ok (Ledger.addHeld (Ledger.subFree ledger who amount) .challengeDeposit who amount) := by
    refine Ledger.hold_eq_ok.mpr ⟨?_, by omega, ?_, rfl⟩
    · change (ledger.lookup who).isSome = true
      rw [hdata]
      rfl
    · change amount ≤ Ledger.free ledger who - 1
      omega
  rw [holdChallengeDeposit, hhold]
  rfl

/-- What one challenge of a flood does. -/
private theorem Flooded.step_eq {s : State ℕ} {block used count : ℕ}
    (h : Flooded s block used count) (hused : used < 2) (hblock : block + 100 < u32Max)
    (hcount : count < 2 ^ 32) :
    ∃ challenge events, IsFlood challenge ∧ step Mock.config s Mock.challengeOneLeaf =
      { s with
        ledger := Ledger.addHeld (Ledger.subFree s.ledger 3 100) .challengeDeposit 3 100
        challenges := s.challenges.insert ⟨block + 100, used⟩ challenge
        nextChallengeIndex := s.nextChallengeIndex.insert (block + 100) (saturatingAdd u16Max used 1)
        pendingChallenges := FiniteMap.alter 2 incrementCount s.pendingChallenges
        pendingChallengesByBucket :=
          FiniteMap.alter (0, 2) incrementCount s.pendingChallengesByBucket
        events := events } := by
  obtain ⟨data, hdata, hfree⟩ := h.paid
  obtain ⟨bucket, hbucket, hpublic⟩ := floodStart_bucket
  obtain ⟨agreement, hagreement, hexpires⟩ := floodStart_agreement
  have hsigned := floodStart_signed
  have hdeadline : saturatingAdd u32Max s.anchorBlock Mock.config.challengeTimeout = block + 100 := by
    rw [h.clock_eq]
    exact saturatingAdd_of_le hblock.le
  have hlive : s.anchorBlock < agreement.expiresAt := by
    rw [h.clock_eq, hexpires]
    omega
  have hroom : s.nextIndexOf (block + 100) < Mock.config.maxChallengesPerDeadline := by
    rw [h.index_eq]
    exact hused.trans (by decide)
  rw [← h.buckets_eq] at hbucket
  rw [← h.agreements_eq] at hagreement
  rw [← h.providers_eq] at hsigned
  have hstep := step_challengeOffchain 3 ⟨0, 0⟩ (by decide +kernel) hbucket hpublic hagreement
    hlive hsigned (by decide) (by decide)
    (holdChallengeDeposit_mock hdata (by change 100 < data.free; omega)) hdeadline hroom
  rw [h.index_eq] at hstep
  exact ⟨_, _, ⟨rfl, rfl, rfl, rfl⟩, hstep⟩

private theorem incrementCount_min (count : ℕ) :
    incrementCount (counterOf (min count u32Max)) = counterOf (min (count + 1) u32Max) := by
  have hsum : saturatingAdd u32Max (min count u32Max) 1 = min (count + 1) u32Max := by
    unfold saturatingAdd
    omega
  have hpos : min (count + 1) u32Max ≠ 0 := by
    have hmax : 0 < u32Max := by decide
    omega
  rw [incrementCount, counterOf_getD, hsum, counterOf, if_neg hpos]

/-- One more challenge is opened. -/
private theorem Flooded.challenge {s : State ℕ} {block used count : ℕ}
    (h : Flooded s block used count) (hids : IdsSpent s) (hused : used < 2)
    (hblock : block + 100 < u32Max) (hcount : count < 2 ^ 32) :
    Flooded (step Mock.config s Mock.challengeOneLeaf) block (used + 1) (count + 1) := by
  obtain ⟨challenge, events, hflood, hstep⟩ := h.step_eq hused hblock hcount
  obtain ⟨data, hdata, hfree⟩ := h.paid
  have hfresh : s.challenges.lookup ⟨block + 100, used⟩ = none := by
    have hdeadline : block + 100 =
        saturatingAdd u32Max s.anchorBlock Mock.config.challengeTimeout := by
      rw [h.clock_eq]
      exact (saturatingAdd_of_le hblock.le).symm
    exact hids.lookup_eq_none hdeadline h.index_eq.symm
  have hsum : saturatingAdd u16Max used 1 = used + 1 := saturatingAdd_of_le (by unfold u16Max; omega)
  rw [hstep, hsum]
  refine ⟨h.providers_eq, h.buckets_eq, h.agreements_eq, h.clock_eq, ?_, fun deadline hlater ↦ ?_,
    ?_, ?_, ?_, ?_, fun round hpos hle index hindex ↦ ?_⟩
  · simp [State.nextIndexOf]
  · have hne : deadline ≠ block + 100 := by omega
    have hlookup := h.later_eq deadline hlater
    simpa [State.nextIndexOf, FiniteMap.lookup_insert_eq, hne] using hlookup
  · refine ⟨_, Finmap.lookup_insert _, ?_⟩
    have hbefore : Ledger.free s.ledger 3 = data.free := by
      rw [Ledger.free, Ledger.account, hdata]
      rfl
    have hafter := Ledger.free_subFree s.ledger 3 3 100
    rw [if_pos rfl, hbefore] at hafter
    change Ledger.free (Ledger.subFree s.ledger 3 100) 3 + 100 * (count + 1) = 10 ^ 12
    omega
  · rw [State.openAgainst_insert hfresh rfl, if_pos hflood.2.1.symm]
    exact congrArg (· + 1) h.open_eq
  · rw [FiniteMap.lookup_alter_eq, if_pos rfl, h.pending_eq, incrementCount_min]
  · rw [FiniteMap.lookup_alter_eq, if_pos rfl, h.pendingByBucket_eq, incrementCount_min]
  · by_cases hid : (⟨round + 100, index⟩ : ChallengeId) = ⟨block + 100, used⟩
    · rw [hid]
      exact ⟨challenge, Finmap.lookup_insert _, hflood⟩
    · rw [FiniteMap.lookup_insert_eq, if_neg hid]
      refine h.opened round hpos hle index ?_
      have hne : round = block → index ≠ used := by
        rintro rfl rfl
        exact hid rfl
      split_ifs at hindex ⊢ with hround
      · have := hne hround
        omega
      · exact hindex

/-- The agreements of a flooded state are those at the start. -/
private theorem Flooded.bytesFit {s : State ℕ} {input : Input ℕ} {block used count : ℕ}
    (h : Flooded (step Mock.config s input) block used count) : BytesFit Mock.config s input := by
  refine bytesFit_of_total ?_
  rw [h.agreements_eq]
  decide +kernel

/-- A flood of up to `2 ^ 31` rounds opens two challenges a round. -/
theorem flooded_run (rounds : ℕ) (hrounds : rounds ≤ 2 ^ 31) :
    ∃ used, (0 < rounds → used = 2) ∧
      Flooded (run (step Mock.config) floodStart (flood rounds)) rounds used (2 * rounds) ∧
        StepsMeet (step Mock.config) (BytesFit Mock.config) floodStart (flood rounds) := by
  induction rounds with
  | zero =>
    refine ⟨0, by omega, ?_, trivial⟩
    rw [flood, run_nil]
    exact flooded_start
  | succ rounds ih =>
    obtain ⟨used, hused, hflooded, hbytes⟩ := ih (by omega)
    have hmax : u32Max = 2 ^ 32 - 1 := rfl
    have hids : ∀ more, IdsSpent (run (step Mock.config) floodStart (flood rounds ++ more)) := by
      intro more
      rw [floodStart, ← run_append]
      exact idsSpent_run Mock.threeParties _
    have hconcat : ∀ inputs input, run (step Mock.config) floodStart (inputs ++ [input]) =
        step Mock.config (run (step Mock.config) floodStart inputs) input := run_concat floodStart
    have hadvanced := hflooded.advance hused (by omega)
    have hids₁ := hids [.advance (rounds + 1)]
    rw [hconcat] at hids₁
    have hfirst := hadvanced.challenge hids₁ (by omega) (by omega) (by omega)
    have hids₂ := hids [.advance (rounds + 1), Mock.challengeOneLeaf]
    rw [List.append_cons, hconcat, hconcat] at hids₂
    have hsecond := hfirst.challenge hids₂ (by omega) (by omega) (by omega)
    refine ⟨2, fun _ ↦ rfl, ?_, ?_⟩
    · rw [flood, List.append_cons, List.append_cons, hconcat, hconcat, hconcat]
      exact hsecond
    · rw [flood, stepsMeet_append]
      exact ⟨hbytes, hadvanced.bytesFit, hfirst.bytesFit, hsecond.bytesFit, trivial⟩

/-- One agreement, then `2 ^ 32` challenges of its provider. -/
def saturateCounter : List (Input ℕ) := Mock.redeemLong :: flood (2 ^ 31)

/-- The counter stops one short of the number of open challenges. -/
theorem counter_saturates :
    StepsMeet (step Mock.config) (BytesFit Mock.config) Mock.threeParties.state saturateCounter ∧
      (run (step Mock.config) Mock.threeParties.state saturateCounter).openAgainst 2 = 2 ^ 32 ∧
        (run (step Mock.config) Mock.threeParties.state saturateCounter).pendingOf 2 = 2 ^ 32 - 1 := by
  -- the rounds are named, or the run would be unfolded
  obtain ⟨rounds, hrounds⟩ : ∃ rounds, rounds = 2 ^ 31 := ⟨_, rfl⟩
  obtain ⟨used, -, hflooded, hbytes⟩ := flooded_run rounds hrounds.le
  rw [floodStart, run_cons, run_nil] at hflooded hbytes
  rw [saturateCounter, ← hrounds, run_cons]
  refine ⟨⟨bytesFit_of_total (by decide +kernel), hbytes⟩, ?_, ?_⟩
  · rw [hflooded.open_eq, hrounds]
    norm_num
  · rw [State.pendingOf, hflooded.pending_eq, counterOf_getD, hrounds]
    decide

end Web3Storage.Pallet
