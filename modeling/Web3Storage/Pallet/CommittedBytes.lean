import Web3Storage.Pallet.Bookkeeping

/-!
# Committed bytes

The committed bytes of a provider record count the bytes of the provider's agreements. Redeemed
quotes add to the counter with a check against overflow, endings subtract. A top-up adds with a
saturating sum: its own check is on the bytes of the one agreement, so a provider with several
agreements can reach the last 64-bit value and lose the excess (`top_up_saturates`). Apart from that,
and from agreements written over, the counter is exact (`committedBytes_eq_sum`).
-/

set_option autoImplicit false
set_option relaxedAutoImplicit false

namespace Web3Storage.Pallet

open Foundations Primitives

variable {AccountId : Type} [DecidableEq AccountId] {cfg : Config AccountId}
  {s s' : State AccountId} {input : Input AccountId}

/-- The committed bytes that the provider record of an account states, zero without a record. -/
def State.committedOf (s : State AccountId) (p : AccountId) : ℕ :=
  ((s.providers.lookup p).map ProviderInfo.committedBytes).getD 0

/-- The bytes of the agreements of a provider. -/
def State.agreementBytes (s : State AccountId) (p : AccountId) : ℕ :=
  ownedSum (fun key _ ↦ key.2) StorageAgreement.maxBytes s.storageAgreements p

/-- A top-up leaves the provider's committed bytes within 64 bits. -/
def TopUpFits (s : State AccountId) : Input AccountId → Prop
  | .call (.signed _) (.topUpAgreement _ provider additionalBytes _) =>
    s.committedOf provider + additionalBytes ≤ u64Max
  | _ => True

instance (s : State AccountId) (input : Input AccountId) : Decidable (TopUpFits s input) := by
  induction input using Input.casesOn with
  | call origin call =>
    induction origin using Origin.casesOn <;> induction call using Call.casesOn <;>
      first | exact .isTrue trivial | exact Nat.decLe _ _
  | _ => exact .isTrue trivial

/-! ### Positive sizes -/

/-- Every agreement is about at least one byte. -/
def PositiveSizes (s : State AccountId) : Prop :=
  ∀ key agreement, s.storageAgreements.lookup key = some agreement → 0 < agreement.maxBytes

private theorem PositiveSizes.insert (hs : PositiveSizes s) {key : ℕ × AccountId}
    {new : StorageAgreement AccountId}
    (hagreements : s'.storageAgreements = s.storageAgreements.insert key new)
    (hnew : 0 < new.maxBytes) : PositiveSizes s' := by
  intro other agreement hlookup
  rw [hagreements, FiniteMap.lookup_insert_eq] at hlookup
  split_ifs at hlookup with hother
  · cases hlookup
    exact hnew
  · exact hs other agreement hlookup

theorem Effect.positiveSizes (h : Effect cfg s input s') (hs : PositiveSizes s) :
    PositiveSizes s' := by
  cases h with
  | rejected | advanced | outside | registered | providerChanged | deregistered | bucketCreated
  | bucketDeleted | bucketChanged | checkpointed | checkpointExtended | challengeOpened
  | challengeAnswered => exact hs
  | opened owner call bucketId provider terms signature target kind info agreement deposits ledger
      buckets nextBucketId nonces memberBuckets events hopening hbuckets hcall =>
    refine hs.insert rfl ?_
    rw [hopening.agreement_eq]
    exact hopening.bytes_pos
  | toppedUp who bucketId provider additionalBytes maxPayment info old new ledger events hinfo
      hactive hold hrole hbytes hmoves =>
    refine hs.insert rfl ?_
    have hpositive := hs _ _ hold
    omega
  | amended who call bucketId provider old new ledger stats events hold hrole hbytes hmoves =>
    refine hs.insert rfl ?_
    rw [hbytes]
    exact hs _ _ hold
  | closed who call bucketId provider old ledger deposit stats events hpending hold hmoves =>
    intro key agreement hlookup
    simp only [FiniteMap.lookup_erase_eq] at hlookup
    split_ifs at hlookup
    exact hs key agreement hlookup
  | challengeExpired origin challengeId challenge hchallenge hexpired =>
    intro key agreement hlookup
    rw [(slashProvider_escrow challenge challengeId _ challenge.provider).1] at hlookup
    exact hs key agreement hlookup

/-! ### The counter -/

theorem State.committedOf_of_lookup {p : AccountId} {info : ProviderInfo}
    (h : s.providers.lookup p = some info) : s.committedOf p = info.committedBytes := by
  rw [State.committedOf, h]
  rfl

private theorem committedOf_insert {who : AccountId} {info : ProviderInfo}
    (hproviders : s'.providers = s.providers.insert who info) (p : AccountId) :
    s'.committedOf p = if p = who then info.committedBytes else s.committedOf p := by
  rw [State.committedOf, hproviders, FiniteMap.lookup_insert_eq]
  split_ifs with hwho
  · rfl
  · rfl

/-- A modified record changes the counter of its account as the modification does. -/
private theorem committedOf_modify {who : AccountId} {change : ProviderInfo → ProviderInfo}
    (next : ℕ → ℕ) (hproviders : s'.providers = FiniteMap.modify who change s.providers)
    (hchange : ∀ info, (change info).committedBytes = next info.committedBytes)
    (hnone : s.providers.lookup who = none → next 0 = 0) (p : AccountId) :
    s'.committedOf p = if p = who then next (s.committedOf p) else s.committedOf p := by
  rw [State.committedOf, hproviders, FiniteMap.lookup_modify_eq]
  split_ifs with hwho
  · subst hwho
    unfold State.committedOf
    cases hinfo : s.providers.lookup p with
    | none => exact (hnone hinfo).symm
    | some info => exact hchange info
  · rfl

/-- A modification that keeps the committed bytes keeps the counters. -/
private theorem committedOf_modify_same {who : AccountId} {change : ProviderInfo → ProviderInfo}
    (hproviders : s'.providers = FiniteMap.modify who change s.providers)
    (hchange : ∀ info, (change info).committedBytes = info.committedBytes) (p : AccountId) :
    s'.committedOf p = s.committedOf p := by
  rw [State.committedOf, State.committedOf, hproviders, FiniteMap.map_lookup_modify hchange]

/-- A modified record that adds to the committed bytes it had adds as much to the counter. -/
private theorem committedOf_modify_add {who : AccountId} {change : ProviderInfo → ProviderInfo}
    {info : ProviderInfo} {bytes : ℕ}
    (hproviders : s'.providers = FiniteMap.modify who change s.providers)
    (hinfo : s.providers.lookup who = some info)
    (hchange : ∀ old, (change old).committedBytes = info.committedBytes + bytes) (p : AccountId) :
    s'.committedOf p = s.committedOf p + if who = p then bytes else 0 := by
  rw [committedOf_modify (fun _ ↦ info.committedBytes + bytes) hproviders hchange]
  · by_cases hp : p = who
    · subst hp
      rw [if_pos rfl, if_pos rfl, State.committedOf_of_lookup hinfo]
    · rw [if_neg hp, if_neg fun heq ↦ hp heq.symm, add_zero]
  · intro hnone
    rw [hinfo] at hnone
    cases hnone

/-- The bytes an optional agreement counts for a provider. -/
def bytesShare (key : ℕ × AccountId) (agreement : Option (StorageAgreement AccountId))
    (p : AccountId) : ℕ :=
  share (fun key _ ↦ key.2) StorageAgreement.maxBytes key agreement p

theorem bytesShare_some (key : ℕ × AccountId) (agreement : StorageAgreement AccountId)
    (p : AccountId) :
    bytesShare key (some agreement) p = if key.2 = p then agreement.maxBytes else 0 :=
  rfl

/-- What a step does to the agreements and to the counters of their bytes. -/
inductive BytesChange (s : State AccountId) : Input AccountId → State AccountId → Prop
  | kept (input : Input AccountId) (s' : State AccountId)
      (hagreements : s'.storageAgreements = s.storageAgreements)
      (hcommitted : ∀ p, s'.committedOf p = s.committedOf p) : BytesChange s input s'
  | written (input : Input AccountId) (s' : State AccountId) (key : ℕ × AccountId)
      (new : StorageAgreement AccountId)
      (hagreements : s'.storageAgreements = s.storageAgreements.insert key new)
      (hcommitted : ∀ p, s'.committedOf p + bytesShare key (s.storageAgreements.lookup key) p =
        s.committedOf p + bytesShare key (some new) p) : BytesChange s input s'
  | overwritten (s' : State AccountId) (who provider : AccountId)
      (terms : AgreementTerms AccountId) (signature : MultiSignature) (visibility : Visibility)
      (old new : StorageAgreement AccountId)
      (hold : s.storageAgreements.lookup (s.nextBucketId, provider) = some old)
      (hagreements :
        s'.storageAgreements = s.storageAgreements.insert (s.nextBucketId, provider) new)
      (hcommitted : ∀ p, s'.committedOf p =
        s.committedOf p + bytesShare (s.nextBucketId, provider) (some new) p) :
      BytesChange s
        (.call (.signed who) (.createBucketWithPrimary provider terms signature visibility)) s'
  | toppedUp (s' : State AccountId) (who : AccountId) (bucketId : ℕ) (provider : AccountId)
      (additionalBytes maxPayment : ℕ) (old new : StorageAgreement AccountId)
      (hold : s.storageAgreements.lookup (bucketId, provider) = some old)
      (hagreements : s'.storageAgreements = s.storageAgreements.insert (bucketId, provider) new)
      (hbytes : new.maxBytes = old.maxBytes + additionalBytes)
      (hcommitted : ∀ p, s'.committedOf p = if p = provider then
        saturatingAdd u64Max (s.committedOf p) additionalBytes else s.committedOf p) :
      BytesChange s
        (.call (.signed who) (.topUpAgreement bucketId provider additionalBytes maxPayment)) s'
  | erased (input : Input AccountId) (s' : State AccountId) (key : ℕ × AccountId)
      (hagreements : s'.storageAgreements = s.storageAgreements.erase key)
      (hcommitted : ∀ p, s'.committedOf p =
        s.committedOf p - bytesShare key (s.storageAgreements.lookup key) p) :
      BytesChange s input s'

theorem slashProvider_committed (challenge : Challenge AccountId) (challengeId : ChallengeId)
    (s : State AccountId) (p : AccountId) :
    (slashProviderForFailedChallenge cfg challenge challengeId s).committedOf p =
      s.committedOf p := by
  cases hinfo : s.providers.lookup challenge.provider with
  | none => rw [slashProvider_of_none cfg challengeId hinfo]
  | some info =>
    obtain ⟨ledger, slashed, -, -, -, -, hs'⟩ := slashProvider_of_some cfg challengeId hinfo
    rw [hs', committedOf_insert rfl]
    split_ifs with hp
    · rw [hp, State.committedOf_of_lookup hinfo]
    · rfl

/-- Every effect is one of the five changes of the agreements and their counters. -/
theorem Effect.bytesChange (h : Effect cfg s input s') : BytesChange s input s' := by
  cases h with
  | rejected | advanced | outside | bucketCreated | bucketDeleted | bucketChanged | checkpointed
  | checkpointExtended | challengeOpened => exact .kept _ _ rfl fun _ ↦ rfl
  | registered who multiaddr publicKey info ledger events deposit hnew hcommitted hcapacity hactive
      hmoves =>
    refine .kept _ _ rfl fun p ↦ ?_
    rw [committedOf_insert rfl]
    split_ifs with hp
    · rw [hp, hcommitted, State.committedOf, hnew]
      rfl
    · rfl
  | providerChanged who call old new ledger events amount hold hcommitted hstake hcapacity hmoves =>
    refine .kept _ _ rfl fun p ↦ ?_
    rw [committedOf_insert rfl]
    split_ifs with hp
    · rw [hp, hcommitted, State.committedOf_of_lookup hold]
    · rfl
  | deregistered who old ledger events deposit hold hcommitted hpending hmoves =>
    refine .kept _ _ rfl fun p ↦ ?_
    rw [State.committedOf, FiniteMap.lookup_erase_eq]
    split_ifs with hp
    · rw [hp, State.committedOf_of_lookup hold, hcommitted]
      rfl
    · rfl
  | opened owner call bucketId provider terms signature target kind info agreement deposits ledger
      buckets nextBucketId nonces memberBuckets events hopening hbuckets hcall =>
    have hbytes : agreement.maxBytes = terms.maxBytes := by rw [hopening.agreement_eq]
    have hcounted {after : State AccountId} {change : ProviderInfo → ProviderInfo}
        (hproviders : after.providers = FiniteMap.modify provider change s.providers)
        (hchange : ∀ old, (change old).committedBytes = info.committedBytes + terms.maxBytes)
        (p : AccountId) : after.committedOf p =
          s.committedOf p + bytesShare (bucketId, provider) (some agreement) p := by
      rw [bytesShare_some, hbytes]
      exact committedOf_modify_add hproviders hopening.lookup_info hchange p
    cases hbuckets with
    | created bucket hid hprimaries hsnapshot hfrozen =>
      obtain ⟨visibility, rfl⟩ := hcall rfl
      subst hid
      cases hlookup : s.storageAgreements.lookup (s.nextBucketId, provider) with
      | none =>
        refine .written _ _ (s.nextBucketId, provider) agreement rfl fun p ↦ ?_
        rw [hlookup]
        exact hcounted rfl (fun _ ↦ by rfl) p
      | some old =>
        exact .overwritten _ owner provider terms signature visibility old agreement hlookup rfl
          (hcounted rfl fun _ ↦ by rfl)
    | joined bucket hbucket =>
      refine .written _ _ (bucketId, provider) agreement rfl fun p ↦ ?_
      rw [hopening.lookup_eq_none]
      exact hcounted rfl (fun _ ↦ by rfl) p
    | replicated =>
      refine .written _ _ (bucketId, provider) agreement rfl fun p ↦ ?_
      rw [hopening.lookup_eq_none]
      exact hcounted rfl (fun _ ↦ by rfl) p
  | toppedUp who bucketId provider additionalBytes maxPayment info old new ledger events hinfo
      hactive hold hrole hbytes hmoves =>
    refine .toppedUp _ who bucketId provider additionalBytes maxPayment old new hold rfl hbytes
      fun p ↦ committedOf_modify (fun count ↦ saturatingAdd u64Max count additionalBytes) rfl
        (fun _ ↦ rfl) (fun hlookup ↦ ?_) p
    rw [hinfo] at hlookup
    cases hlookup
  | amended who call bucketId provider old new ledger stats events hold hrole hbytes hmoves =>
    refine .written _ _ (bucketId, provider) new rfl fun p ↦ ?_
    rw [hold, bytesShare_some, bytesShare_some, hbytes, add_left_inj]
    exact committedOf_modify_same rfl (fun _ ↦ by rfl) p
  | closed who call bucketId provider old ledger deposit stats events hpending hold hmoves =>
    refine .erased _ _ (bucketId, provider) rfl fun p ↦ ?_
    rw [hold, bytesShare_some]
    refine (committedOf_modify (fun count ↦ count - old.maxBytes) rfl (fun _ ↦ rfl)
      (fun _ ↦ Nat.zero_sub _) p).trans ?_
    split_ifs with hp hp' hp'
    · rfl
    · exact absurd hp.symm hp'
    · exact absurd hp'.symm hp
    · rfl
  | challengeAnswered who challengeId response challenge bucket paid ledger hchallenge hprovider
      hdeadline hbucket hresponse hpaid hmoves =>
    exact .kept _ _ rfl fun p ↦ committedOf_modify_same rfl (fun _ ↦ by rfl) p
  | challengeExpired origin challengeId challenge hchallenge hexpired =>
    refine .kept _ _ (slashProvider_escrow challenge challengeId _ challenge.provider).1 fun p ↦ ?_
    rw [slashProvider_committed]
    rfl

/-- The counters of a state are within 64 bits. -/
def CommittedFits (s : State AccountId) : Prop := ∀ p, s.committedOf p ≤ u64Max

theorem Effect.committedFits (h : Effect cfg s input s') (hs : CommittedFits s) :
    CommittedFits s' := by
  intro p
  cases h with
  | rejected | advanced | outside | bucketCreated | bucketDeleted | bucketChanged | checkpointed
  | checkpointExtended | challengeOpened => exact hs p
  | registered who multiaddr publicKey info ledger events deposit hnew hcommitted =>
    rw [committedOf_insert rfl]
    split_ifs with hp
    · rw [hcommitted]
      exact Nat.zero_le _
    · exact hs p
  | providerChanged who call old new ledger events amount hold hcommitted =>
    rw [committedOf_insert rfl]
    split_ifs with hp
    · rw [hcommitted, ← State.committedOf_of_lookup hold]
      exact hs who
    · exact hs p
  | deregistered who old ledger events deposit hold =>
    rw [State.committedOf, FiniteMap.lookup_erase_eq]
    split_ifs with hp
    · exact Nat.zero_le _
    · exact hs p
  | opened owner call bucketId provider terms signature target kind info agreement deposits ledger
      buckets nextBucketId nonces memberBuckets events hopening =>
    rw [committedOf_modify_add rfl hopening.lookup_info fun _ ↦ rfl]
    split_ifs with hp
    · rw [← hp, State.committedOf_of_lookup hopening.lookup_info]
      exact hopening.committed_le
    · exact hs p
  | toppedUp who bucketId provider additionalBytes maxPayment info old new ledger events hinfo =>
    rw [committedOf_modify (fun count ↦ saturatingAdd u64Max count additionalBytes) rfl
      (fun _ ↦ rfl) fun hlookup ↦ by simp [hinfo] at hlookup]
    split_ifs with hp
    · exact min_le_right _ _
    · exact hs p
  | amended => exact (committedOf_modify_same rfl (fun _ ↦ by rfl) p).trans_le (hs p)
  | closed who call bucketId provider old =>
    rw [committedOf_modify (fun count ↦ count - old.maxBytes) rfl (fun _ ↦ rfl)
      fun _ ↦ Nat.zero_sub _]
    split_ifs with hp
    · exact (Nat.sub_le _ _).trans (hs p)
    · exact hs p
  | challengeAnswered => exact (committedOf_modify_same rfl (fun _ ↦ by rfl) p).trans_le (hs p)
  | challengeExpired =>
    rw [slashProvider_committed]
    exact hs p

/-- The counters of a state equal the bytes of the agreements. -/
def CommittedExact (s : State AccountId) : Prop :=
  Balances (fun key _ ↦ key.2) StorageAgreement.maxBytes s.storageAgreements s.committedOf

/-- The counters of a state cover the bytes of the agreements. -/
def CommittedCovers (s : State AccountId) : Prop :=
  Covers (fun key _ ↦ key.2) StorageAgreement.maxBytes s.storageAgreements s.committedOf

/-- The counters stay exact. Assumes: top-ups that fit, and no agreement written over. -/
theorem BytesChange.exact (h : BytesChange s input s') (hfree : CreatesAtFreeKey s input)
    (hfits : TopUpFits s input) (hs : CommittedExact s) : CommittedExact s' := by
  unfold CommittedExact
  cases h with
  | kept input s' hagreements hcommitted =>
    rw [hagreements]
    exact Balances.congr hs hcommitted
  | written input s' key new hagreements hcommitted =>
    rw [hagreements]
    exact Balances.insert hs hcommitted
  | overwritten s' who provider terms signature visibility old new hold hagreements hcommitted =>
    have hnone : s.storageAgreements.lookup (s.nextBucketId, provider) = none := hfree
    rw [hold] at hnone
    cases hnone
  | toppedUp s' who bucketId provider additionalBytes maxPayment old new hold hagreements hbytes
      hcommitted =>
    have hsum : s.committedOf provider + additionalBytes ≤ u64Max := hfits
    rw [hagreements]
    refine Balances.insert hs fun p ↦ ?_
    rw [hcommitted, hold, share_some, share_some, hbytes]
    by_cases hp : p = provider
    · subst hp
      rw [if_pos rfl, if_pos rfl, if_pos rfl, saturatingAdd_of_le hsum]
      omega
    · have hne : ¬ provider = p := fun heq ↦ hp heq.symm
      rw [if_neg hp, if_neg hne, if_neg hne]
  | erased input s' key hagreements hcommitted =>
    rw [hagreements]
    refine Balances.erase hs fun p ↦ ?_
    have hsum := ownedSum_erase (fun (key : ℕ × AccountId) _ ↦ key.2) StorageAgreement.maxBytes
      s.storageAgreements key p
    have hbefore := hs p
    have hafter := hcommitted p
    unfold bytesShare at hafter
    omega

/-- The counters keep covering the agreements, whatever is written over. Assumes: the bytes of every
provider's agreements after the step fit 64 bits. -/
theorem BytesChange.covers (h : BytesChange s input s') (hbound : ∀ p, s'.agreementBytes p ≤ u64Max)
    (hs : CommittedCovers s) : CommittedCovers s' := by
  unfold CommittedCovers
  unfold State.agreementBytes at hbound
  cases h with
  | kept input s' hagreements hcommitted =>
    rw [hagreements]
    exact Covers.congr hs hcommitted
  | written input s' key new hagreements hcommitted =>
    rw [hagreements]
    exact Covers.insert hs fun p ↦ (hcommitted p).ge
  | overwritten s' who provider terms signature visibility old new hold hagreements hcommitted =>
    rw [hagreements]
    refine Covers.insert hs fun p ↦ ?_
    have hpaid := hcommitted p
    unfold bytesShare at hpaid
    omega
  | toppedUp s' who bucketId provider additionalBytes maxPayment old new hold hagreements hbytes
      hcommitted =>
    rw [hagreements] at hbound ⊢
    intro p
    have hsum := ownedSum_insert (fun (key : ℕ × AccountId) _ ↦ key.2) StorageAgreement.maxBytes
      s.storageAgreements (bucketId, provider) new p
    have hbefore := hs p
    have hafter := hbound p
    rw [hold, share_some, share_some, hbytes] at hsum
    rw [hcommitted, saturatingAdd]
    by_cases hp : p = provider
    · subst hp
      rw [if_pos rfl, if_pos rfl] at hsum
      rw [if_pos rfl]
      omega
    · have hne : ¬ provider = p := fun heq ↦ hp heq.symm
      rw [if_neg hne, if_neg hne] at hsum
      rw [if_neg hp]
      omega
  | erased input s' key hagreements hcommitted =>
    rw [hagreements]
    intro p
    have hsum := ownedSum_erase (fun (key : ℕ × AccountId) _ ↦ key.2) StorageAgreement.maxBytes
      s.storageAgreements key p
    have hbefore := hs p
    have hafter := hcommitted p
    unfold bytesShare at hafter
    omega

/-! ### Whole runs -/

theorem Genesis.committedExact (genesis : Genesis cfg) : CommittedExact genesis.state :=
  genesis.induction CommittedExact (fun _ ↦ rfl)
    (fun _ _ _ _ _ _ _ hs _ h ↦ h.bytesChange.exact trivial trivial hs)
    (fun _ _ _ _ _ _ _ _ hs _ _ h ↦ h.bytesChange.exact trivial trivial hs)

theorem Genesis.committedFits (genesis : Genesis cfg) : CommittedFits genesis.state :=
  genesis.induction CommittedFits (fun _ ↦ Nat.zero_le _)
    (fun _ _ _ _ _ _ _ hs _ h ↦ h.committedFits hs) (fun _ _ _ _ _ _ _ _ hs _ _ h ↦ h.committedFits hs)

private theorem Genesis.positiveSizes (genesis : Genesis cfg) : PositiveSizes genesis.state :=
  genesis.induction PositiveSizes (fun _ _ hlookup ↦ by cases hlookup)
    (fun _ _ _ _ _ _ _ hs _ h ↦ h.positiveSizes hs) (fun _ _ _ _ _ _ _ _ hs _ _ h ↦ h.positiveSizes hs)

/-- Every agreement of a reachable state is about at least one byte. -/
theorem positiveSizes_run (genesis : Genesis cfg) (inputs : List (Input AccountId)) :
    PositiveSizes (run (step cfg) genesis.state inputs) :=
  genesis.invariant_of_effect PositiveSizes genesis.positiveSizes
    (fun _ _ _ _ hs h ↦ h.positiveSizes hs) inputs

/-- A provider of an agreement counts at least its bytes, so it has a record. -/
theorem CommittedCovers.mem_providers (hs : CommittedCovers s) (hsizes : PositiveSizes s)
    {key : ℕ × AccountId} (hkey : key ∈ s.storageAgreements) : key.2 ∈ s.providers := by
  obtain ⟨agreement, hagreement⟩ := Finmap.mem_iff.mp hkey
  have hpositive := hsizes _ _ hagreement
  have hle : agreement.maxBytes ≤ s.committedOf key.2 :=
    (weight_le_ownedSum hagreement).trans (hs key.2)
  by_contra hnone
  rw [State.committedOf, Finmap.lookup_eq_none.mpr hnone] at hle
  simp only [Option.map_none, Option.getD_none] at hle
  omega

/-- Committed bytes are exact. Assumes: a run from genesis whose top-ups keep the provider's counter
within 64 bits, and in which no bucket is created with a primary while an agreement of that provider
is stored under the next bucket id. Then every provider record counts the bytes of the provider's
agreements, and every agreement's provider has a record. -/
theorem committedBytes_eq_sum (genesis : Genesis cfg) (inputs : List (Input AccountId))
    (hinputs : StepsMeet (step cfg)
      (OfAccepted cfg fun s input ↦ CreatesAtFreeKey s input ∧ TopUpFits s input) genesis.state inputs) :
    (∀ p info, (run (step cfg) genesis.state inputs).providers.lookup p = some info →
      info.committedBytes = (run (step cfg) genesis.state inputs).agreementBytes p) ∧
    ∀ bucketId p agreement,
      (run (step cfg) genesis.state inputs).storageAgreements.lookup (bucketId, p) =
        some agreement →
      ∃ info, (run (step cfg) genesis.state inputs).providers.lookup p = some info := by
  have hexact : CommittedExact (run (step cfg) genesis.state inputs) :=
    genesis.invariant_of_accepted CommittedExact genesis.committedExact (fun _ hs ↦ hs)
      (fun _ _ _ _ hs hcondition h ↦ h.bytesChange.exact hcondition.1 hcondition.2 hs) hinputs
  refine ⟨fun p info hinfo ↦ ?_, fun bucketId p agreement hagreement ↦ ?_⟩
  · rw [← State.committedOf_of_lookup hinfo]
    exact hexact p
  · have hmem := CommittedCovers.mem_providers (Balances.covers hexact)
      (positiveSizes_run genesis inputs) (Finmap.mem_of_lookup_eq_some hagreement)
    exact Finmap.mem_iff.mp hmem

/-! ### Runs on the mock runtime -/

/-- Two agreements of one provider, the second one topped up. -/
def topUpSecond (additionalBytes : ℕ) : List (Input ℕ) :=
  [Mock.redeemNewBucket 0 0, Mock.redeemNewBucket 0 1,
    .call (.signed 1) (.topUpAgreement 1 2 additionalBytes 0)]

theorem committedBytes_eq_sum_topUp :
    (∀ p info, (run (step Mock.config) Mock.twoParties.state (topUpSecond 5)).providers.lookup p =
      some info → info.committedBytes =
        (run (step Mock.config) Mock.twoParties.state (topUpSecond 5)).agreementBytes p) ∧
    ∀ bucketId p agreement,
      (run (step Mock.config) Mock.twoParties.state (topUpSecond 5)).storageAgreements.lookup
        (bucketId, p) = some agreement →
      ∃ info, (run (step Mock.config) Mock.twoParties.state (topUpSecond 5)).providers.lookup p =
        some info :=
  committedBytes_eq_sum Mock.twoParties (topUpSecond 5) (stepsMeet_ofAccepted (by decide +kernel))

/-- A top-up to the largest agreement saturates the counter of a provider with two agreements: it
misses the bytes of the other one. -/
theorem top_up_saturates :
    (run (step Mock.config) Mock.twoParties.state (topUpSecond (u64Max - 10))).committedOf 2 =
        u64Max ∧
      (run (step Mock.config) Mock.twoParties.state (topUpSecond (u64Max - 10))).agreementBytes 2 =
        u64Max + 10 := by
  decide +kernel

end Web3Storage.Pallet
