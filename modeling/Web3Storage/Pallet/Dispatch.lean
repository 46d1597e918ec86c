import Web3Storage.Foundations.Run
import Web3Storage.Pallet.Challenges

/-!
# Calls, runs and genesis

The pallet as a machine. An input is a call with its origin, or an event outside the pallet: the
anchor clock moves on, a free balance changes, an account is reaped. A call runs in a storage
transaction, so a refused one changes nothing. `Genesis` is a state built by the genesis
configuration over an endowment without holds; runs start there.

A free balance here is whatever an account owns that this pallet does not hold, and the total of the
ledger stays within a hundredth of the 128-bit range.
-/

set_option autoImplicit false
set_option relaxedAutoImplicit false

namespace Web3Storage.Pallet

open Foundations Primitives

/-- Who sends a call. -/
inductive Origin (AccountId : Type)
  | signed (who : AccountId)
  | root
  | none
  deriving DecidableEq

/-- The calls of the pallet. -/
inductive Call (AccountId : Type)
  | registerProvider (multiaddr publicKey : Bytes) (stake : ℕ)
  | addStake (amount : ℕ)
  | deregisterProvider
  | completeDeregister
  | cancelDeregister
  | updateProviderSettings (settings : ProviderSettings)
  | updateProviderMultiaddr (multiaddr : Bytes)
  | setExtensionsBlocked (bucketId : ℕ) (blocked : Bool)
  | createBucket (minProviders : ℕ) (visibility : Visibility)
  | deleteBucket (bucketId : ℕ)
  | createBucketWithPrimary (provider : AccountId) (terms : AgreementTerms AccountId)
      (signature : MultiSignature) (visibility : Visibility)
  | addPrimaryProvider (bucketId : ℕ) (provider : AccountId) (terms : AgreementTerms AccountId)
      (signature : MultiSignature)
  | addReplicaProvider (bucketId : ℕ) (provider : AccountId) (terms : AgreementTerms AccountId)
      (signature : MultiSignature)
  | setMinProviders (bucketId minProviders : ℕ)
  | freezeBucket (bucketId : ℕ)
  | setBucketVisibility (bucketId : ℕ) (visibility : Visibility)
  | setMember (bucketId : ℕ) (member : AccountId) (role : Role)
  | removeMember (bucketId : ℕ) (member : AccountId)
  | removeSlashed (bucketId : ℕ) (provider : AccountId)
  | endAgreement (bucketId : ℕ) (provider : AccountId) (action : EndAction)
  | claimExpiredAgreement (bucketId : ℕ)
  | topUpAgreement (bucketId : ℕ) (provider : AccountId) (additionalBytes maxPayment : ℕ)
  | transferAgreementOwnership (bucketId : ℕ) (provider newOwner : AccountId)
  | extendAgreement (bucketId : ℕ) (provider : AccountId) (additionalDuration maxPayment : ℕ)
  | checkpoint (bucketId : ℕ) (commitment : Commitment)
      (signatures : List (AccountId × MultiSignature))
  | extendCheckpoint (bucketId : ℕ) (additionalSignatures : List (AccountId × MultiSignature))
  | challengeCheckpoint (bucketId : ℕ) (provider : AccountId) (target : ChunkLocation)
  | challengeOffchain (bucketId : ℕ) (provider : AccountId) (commitment : Commitment)
      (target : ChunkLocation) (providerSignature : MultiSignature)
  | challengeReplica (bucketId : ℕ) (provider : AccountId) (target : ChunkLocation)
  | respondToChallenge (challengeId : ChallengeId) (response : ChallengeResponse AccountId)
  | resolveExpiredChallenge (challengeId : ChallengeId)
  | confirmReplicaSync (bucketId : ℕ) (roots : Fin 7 → Option H256) (signature : MultiSignature)
  | topUpReplicaSyncBalance (bucketId : ℕ) (provider : AccountId) (amount : ℕ)

variable {AccountId : Type}

/-! ### Redemptions -/

/-- A quote that an account redeems at a provider, for a bucket and in a role. -/
structure Redemption (AccountId : Type) where
  owner : AccountId
  provider : AccountId
  terms : AgreementTerms AccountId
  signature : MultiSignature
  target : BucketTarget
  kind : QuoteKind

/-- The quote a call of an account would redeem. -/
def Call.redemption (who : AccountId) : Call AccountId → Option (Redemption AccountId)
  | .createBucketWithPrimary provider terms signature _ =>
    some ⟨who, provider, terms, signature, .new, .primary⟩
  | .addPrimaryProvider bucketId provider terms signature =>
    some ⟨who, provider, terms, signature, .existing bucketId, .primary⟩
  | .addReplicaProvider bucketId provider terms signature =>
    some ⟨who, provider, terms, signature, .existing bucketId, .replica⟩
  | _ => none

/-- Whether a call asks for a new bucket. -/
def Call.createsBucket : Call AccountId → Bool
  | .createBucket _ _ | .createBucketWithPrimary _ _ _ _ => true
  | _ => false

/-! ### Well-formed calls -/

/-- Whether settings fit their fields. -/
def ProviderSettings.fits (settings : ProviderSettings) : Bool :=
  settings.minDuration ≤ u32Max && settings.maxDuration ≤ u32Max &&
    settings.pricePerByte ≤ u128Max && settings.replicaSyncPrice.all (· ≤ u128Max) &&
      settings.maxCapacity ≤ u64Max && settings.minAgreementBytes ≤ u64Max

/-- Whether a commitment fits its fields. -/
def commitmentFits (commitment : Commitment) : Bool :=
  commitment.startSeq ≤ u64Max && commitment.leafCount ≤ u64Max

/-- Whether a challenge target fits its fields. -/
def targetFits (target : ChunkLocation) : Bool :=
  target.leafIndex ≤ u64Max && target.chunkIndex ≤ u64Max

/-- Whether terms fit their fields. -/
def termsFit (terms : AgreementTerms AccountId) : Bool :=
  terms.maxBytes ≤ u64Max && terms.duration ≤ u32Max && terms.pricePerByte ≤ u128Max &&
    terms.validUntil ≤ u32Max && terms.nonce ≤ u64Max &&
      (match terms.bucket with
        | .new => true
        | .existing bucketId => decide (bucketId ≤ u64Max)) &&
        terms.replicaParams.all fun replica ↦
          replica.syncBalance ≤ u128Max && replica.minSyncInterval ≤ u32Max &&
            replica.syncPrice ≤ u128Max

/-- Whether the arguments of a call fit the types of the source: numbers their width and vectors
their bound. Other calls cannot be decoded. -/
def Call.fits (cfg : Config AccountId) : Call AccountId → Bool
  | .registerProvider multiaddr publicKey stake =>
    multiaddr.length ≤ cfg.maxMultiaddrLength && publicKey.length ≤ 64 && stake ≤ u128Max
  | .addStake amount => amount ≤ u128Max
  | .deregisterProvider | .completeDeregister | .cancelDeregister => true
  | .updateProviderSettings settings => settings.fits
  | .updateProviderMultiaddr multiaddr => multiaddr.length ≤ cfg.maxMultiaddrLength
  | .setExtensionsBlocked bucketId _ => bucketId ≤ u64Max
  | .createBucket minProviders _ => minProviders ≤ u32Max
  | .deleteBucket bucketId => bucketId ≤ u64Max
  | .createBucketWithPrimary _ terms _ _ => termsFit terms
  | .addPrimaryProvider bucketId _ terms _ => bucketId ≤ u64Max && termsFit terms
  | .addReplicaProvider bucketId _ terms _ => bucketId ≤ u64Max && termsFit terms
  | .setMinProviders bucketId minProviders => bucketId ≤ u64Max && minProviders ≤ u32Max
  | .freezeBucket bucketId => bucketId ≤ u64Max
  | .setBucketVisibility bucketId _ => bucketId ≤ u64Max
  | .setMember bucketId _ _ => bucketId ≤ u64Max
  | .removeMember bucketId _ => bucketId ≤ u64Max
  | .removeSlashed bucketId _ => bucketId ≤ u64Max
  | .endAgreement bucketId _ action => bucketId ≤ u64Max && (match action with
    | .pay => true
    | .burn burnPercent => decide (burnPercent ≤ 255))
  | .claimExpiredAgreement bucketId => bucketId ≤ u64Max
  | .topUpAgreement bucketId _ additionalBytes maxPayment =>
    bucketId ≤ u64Max && additionalBytes ≤ u64Max && maxPayment ≤ u128Max
  | .transferAgreementOwnership bucketId _ _ => bucketId ≤ u64Max
  | .extendAgreement bucketId _ additionalDuration maxPayment =>
    bucketId ≤ u64Max && additionalDuration ≤ u32Max && maxPayment ≤ u128Max
  | .checkpoint bucketId commitment signatures =>
    bucketId ≤ u64Max && commitmentFits commitment && signatures.length ≤ cfg.maxPrimaryProviders
  | .extendCheckpoint bucketId additionalSignatures =>
    bucketId ≤ u64Max && additionalSignatures.length ≤ cfg.maxPrimaryProviders
  | .challengeCheckpoint bucketId _ target => bucketId ≤ u64Max && targetFits target
  | .challengeOffchain bucketId _ commitment target _ =>
    bucketId ≤ u64Max && commitmentFits commitment && targetFits target
  | .challengeReplica bucketId _ target => bucketId ≤ u64Max && targetFits target
  | .respondToChallenge challengeId response =>
    challengeId.deadline ≤ u32Max && challengeId.index ≤ u16Max && (match response with
      | .proof chunkData _ _ => decide (chunkData.length ≤ cfg.maxChunkSize)
      | .chunkOutOfRange _ => true
      | .deleted _ newStartSeq _ _ => decide (newStartSeq ≤ u64Max)
      | .superseded => true)
  | .resolveExpiredChallenge challengeId =>
    challengeId.deadline ≤ u32Max && challengeId.index ≤ u16Max
  | .confirmReplicaSync bucketId _ _ => bucketId ≤ u64Max
  | .topUpReplicaSyncBalance bucketId _ amount => bucketId ≤ u64Max && amount ≤ u128Max

variable [DecidableEq AccountId] (cfg : Config AccountId)

/-! ### Dispatch -/

/-- A call from a signed origin. -/
def dispatchSigned (who : AccountId) (call : Call AccountId) (s : State AccountId) :
    Except DispatchError (State AccountId) :=
  match call with
  | .registerProvider multiaddr publicKey stake =>
    registerProvider cfg who multiaddr publicKey stake s
  | .addStake amount => addStake cfg who amount s
  | .deregisterProvider => deregisterProvider cfg who s
  | .completeDeregister => completeDeregister who s
  | .cancelDeregister => cancelDeregister who s
  | .updateProviderSettings settings => updateProviderSettings cfg who settings s
  | .updateProviderMultiaddr multiaddr => updateProviderMultiaddr who multiaddr s
  | .setExtensionsBlocked bucketId blocked => setExtensionsBlocked who bucketId blocked s
  | .createBucket minProviders visibility => createBucket cfg who minProviders visibility s
  | .deleteBucket bucketId => deleteBucket who bucketId s
  | .createBucketWithPrimary provider terms signature visibility =>
    createBucketWithPrimary cfg who provider terms signature visibility s
  | .addPrimaryProvider bucketId provider terms signature =>
    addPrimaryProvider cfg who bucketId provider terms signature s
  | .addReplicaProvider bucketId provider terms signature =>
    addReplicaProvider cfg who bucketId provider terms signature s
  | .setMinProviders bucketId minProviders => setMinProviders who bucketId minProviders s
  | .freezeBucket bucketId => freezeBucket who bucketId s
  | .setBucketVisibility bucketId visibility => setBucketVisibility who bucketId visibility s
  | .setMember bucketId member role => setMember cfg who bucketId member role s
  | .removeMember bucketId member => removeMember who bucketId member s
  | .removeSlashed bucketId provider => removeSlashed bucketId provider s
  | .endAgreement bucketId provider action => endAgreement cfg who bucketId provider action s
  | .claimExpiredAgreement bucketId => claimExpiredAgreement cfg who bucketId s
  | .topUpAgreement bucketId provider additionalBytes maxPayment =>
    topUpAgreement cfg who bucketId provider additionalBytes maxPayment s
  | .transferAgreementOwnership bucketId provider newOwner =>
    transferAgreementOwnership cfg who bucketId provider newOwner s
  | .extendAgreement bucketId provider additionalDuration maxPayment =>
    extendAgreement cfg who bucketId provider additionalDuration maxPayment s
  | .checkpoint bucketId commitment signatures =>
    checkpoint cfg who bucketId commitment signatures s
  | .extendCheckpoint bucketId additionalSignatures =>
    extendCheckpoint cfg who bucketId additionalSignatures s
  | .challengeCheckpoint bucketId provider target =>
    challengeCheckpoint cfg who bucketId provider target s
  | .challengeOffchain bucketId provider commitment target providerSignature =>
    challengeOffchain cfg who bucketId provider commitment target providerSignature s
  | .challengeReplica bucketId provider target =>
    challengeReplica cfg who bucketId provider target s
  | .respondToChallenge challengeId response => respondToChallenge cfg who challengeId response s
  | .resolveExpiredChallenge challengeId => resolveExpiredChallenge cfg challengeId s
  | .confirmReplicaSync bucketId roots signature =>
    confirmReplicaSync cfg who bucketId roots signature s
  | .topUpReplicaSyncBalance bucketId provider amount =>
    topUpReplicaSyncBalance cfg who bucketId provider amount s

/-- A call from any origin. Root may only resolve expired challenges. -/
def dispatch (origin : Origin AccountId) (call : Call AccountId) (s : State AccountId) :
    Except DispatchError (State AccountId) :=
  match origin, call with
  | .signed who, call => dispatchSigned cfg who call s
  | .root, .resolveExpiredChallenge challengeId => resolveExpiredChallenge cfg challengeId s
  | _, _ => .error .badOrigin

/-! ### The machine -/

/-- The largest total of the ledger. -/
def maxIssuance : ℕ := u128Max / 100

/-- What the pallet can meet. -/
inductive Input (AccountId : Type)
  | call (origin : Origin AccountId) (call : Call AccountId)
  | advance (block : ℕ)
  | credit (who : AccountId) (amount : ℕ)
  | debit (who : AccountId) (amount : ℕ)
  | reap (who : AccountId)

/-- A state without the events of the last call. -/
def State.withoutEvents (s : State AccountId) : State AccountId := { s with events := [] }

/-- One step of the machine. -/
def step (s : State AccountId) : Input AccountId → State AccountId
  | .call origin call =>
    if call.fits cfg then
      match dispatch cfg origin call s.withoutEvents with
      | .ok after => after
      | .error _ => s.withoutEvents
    else s.withoutEvents
  | .advance block =>
    -- the anchor clock never goes back
    if s.anchorBlock ≤ block ∧ block ≤ u32Max then { s with anchorBlock := block } else s
  | .credit who amount =>
    if Ledger.total s.ledger + amount ≤ maxIssuance then
      { s with ledger := Ledger.addFree s.ledger who amount } else s
  | .debit who amount =>
    if amount ≤ Ledger.free s.ledger who then
      { s with ledger := Ledger.subFree s.ledger who amount } else s
  | .reap who =>
    -- a hold keeps its account alive
    if ∀ reason, s.held reason who = 0 then
      { s with agreementNonces := s.agreementNonces.erase who } else s

variable {cfg} in
/-- A call that is accepted leads to the state it returns. -/
theorem step_of_dispatchSigned {who : AccountId} {call : Call AccountId} {s s' : State AccountId}
    (hfits : call.fits cfg = true) (h : dispatchSigned cfg who call s.withoutEvents = .ok s') :
    step cfg s (.call (.signed who) call) = s' := by
  simp only [step, hfits, dispatch, h, if_true]

/-- Whether a call can be decoded and is not refused. -/
def accepted (s : State AccountId) (origin : Origin AccountId) (call : Call AccountId) : Bool :=
  call.fits cfg && isOk (dispatch cfg origin call s.withoutEvents)

section Accepted

variable {cfg} {s : State AccountId} {origin : Origin AccountId} {call : Call AccountId}

/-- An accepted call leads to the state it returns. -/
theorem dispatch_of_accepted (h : accepted cfg s origin call = true) :
    dispatch cfg origin call s.withoutEvents = .ok (step cfg s (.call origin call)) := by
  unfold accepted at h
  rw [Bool.and_eq_true] at h
  obtain ⟨hfits, hok⟩ := h
  cases hdispatch : dispatch cfg origin call s.withoutEvents with
  | ok after => simp only [step, hfits, hdispatch, if_true]
  | error error =>
    rw [hdispatch] at hok
    cases hok

/-- A refused call leaves the records as they are. -/
theorem step_of_refused (h : accepted cfg s origin call = false) :
    step cfg s (.call origin call) = s.withoutEvents := by
  simp only [step]
  split_ifs with hfits
  · cases hdispatch : dispatch cfg origin call s.withoutEvents with
    | error error => rfl
    | ok after => simp [accepted, hfits, hdispatch, isOk] at h
  · rfl

end Accepted

/-- Whether an input takes place: a call does when it is accepted. -/
def TakesPlace (s : State AccountId) : Input AccountId → Prop
  | .call origin call => accepted cfg s origin call = true
  | _ => True

/-- A condition that is asked of the inputs that take place, and not of refused calls. -/
def OfAccepted (condition : State AccountId → Input AccountId → Prop) (s : State AccountId)
    (input : Input AccountId) : Prop :=
  TakesPlace cfg s input → condition s input

section OfAccepted

variable {cfg} {condition : State AccountId → Input AccountId → Prop} {s : State AccountId}
  {input : Input AccountId}

/-- An input takes place, or the records stay as they are. -/
theorem takesPlace_or (cfg : Config AccountId) (s : State AccountId) (input : Input AccountId) :
    TakesPlace cfg s input ∨ step cfg s input = s.withoutEvents := by
  unfold TakesPlace
  split
  · next origin call =>
    rcases haccepted : accepted cfg s origin call with _ | _
    · exact .inr (step_of_refused haccepted)
    · exact .inl rfl
  · exact .inl trivial

/-- The condition holds of an input, or the records stay as they are. -/
theorem OfAccepted.cases (h : OfAccepted cfg condition s input) :
    condition s input ∨ step cfg s input = s.withoutEvents :=
  (takesPlace_or cfg s input).imp_left h

/-- A condition that every input meets. -/
theorem stepsMeet_ofAccepted {inputs : List (Input AccountId)} (h : StepsMeet (step cfg) condition s inputs) :
    StepsMeet (step cfg) (OfAccepted cfg condition) s inputs := by
  refine h.mono ?_
  intro state input hcondition _
  exact hcondition

end OfAccepted

/-! ### Genesis -/

/-- A provider registered at genesis. -/
structure GenesisProvider (AccountId : Type) where
  account : AccountId
  multiaddr : Bytes
  publicKey : Bytes
  stake : ℕ
  settings : ProviderSettings

/-- The state before genesis is built. -/
def emptyState (ledger : Funds AccountId) : State AccountId where
  anchorBlock := 0
  ledger := ledger
  providers := ∅
  agreementNonces := ∅
  nextBucketId := 0
  buckets := ∅
  storageAgreements := ∅
  challenges := ∅
  nextChallengeIndex := ∅
  pendingChallenges := ∅
  pendingChallengesByBucket := ∅
  memberBuckets := ∅
  events := []

def registerGenesisProviders : List (GenesisProvider AccountId) → State AccountId →
    Except DispatchError (State AccountId)
  | [], s => .ok s
  | p :: rest, s => do
    let s ← registerProviderInternal cfg p.account p.multiaddr p.publicKey p.stake p.settings s
    registerGenesisProviders rest s

def createGenesisBuckets : List (AccountId × ℕ) → State AccountId →
    Except DispatchError (State AccountId)
  | [], s => .ok s
  | (admin, minProviders) :: rest, s => do
    let created ← createBucketInternal cfg admin minProviders none .privateRead s
    createGenesisBuckets rest created.2

/-- Build the genesis state over an endowment. -/
def buildGenesis (ledger : Funds AccountId) (providers : List (GenesisProvider AccountId))
    (buckets : List (AccountId × ℕ)) : Except DispatchError (State AccountId) := do
  let registered ← registerGenesisProviders cfg providers (emptyState ledger)
  createGenesisBuckets cfg buckets registered

/-- A genesis: an endowment without holds, the configuration and the state it builds. -/
structure Genesis where
  ledger : Funds AccountId
  providers : List (GenesisProvider AccountId)
  buckets : List (AccountId × ℕ)
  state : State AccountId
  unheld : ∀ reason who, Ledger.held ledger reason who = 0
  total_le : Ledger.total ledger ≤ maxIssuance
  fits : ∀ p ∈ providers, p.multiaddr.length ≤ cfg.maxMultiaddrLength ∧ p.settings.fits = true
  built : buildGenesis cfg ledger providers buckets = .ok state

end Web3Storage.Pallet
