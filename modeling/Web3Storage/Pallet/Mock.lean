import Web3Storage.Foundations.Blake2b
import Web3Storage.Pallet.Dispatch

/-!
# The mock runtime

The configuration of the pallet's test runtime: accounts are numbers, the currency has an
existential deposit of one unit, every record costs a deposit of ten. Hashes are blake2b-256.
Signatures are ideal: a signature is the key with the message it signs, so it verifies for these
two only (`verify_sign`).
-/

set_option autoImplicit false
set_option relaxedAutoImplicit false

namespace Web3Storage.Pallet.Mock

open Foundations Primitives

/-! ### Currency and signatures -/

/-- A currency with an existential deposit, which stays free on an account with holds. -/
def balancesRules (existentialDeposit : ℕ) : Ledger.Rules ℕ HoldReason where
  spendable ledger who := Ledger.free ledger who - existentialDeposit
  canDeposit ledger who amount :=
    (ledger.lookup who).isSome || existentialDeposit ≤ amount
  holdAvailable ledger _ who := (ledger.lookup who).isSome
  liquidOnHold ledger who := ∑ reason, Ledger.held ledger reason who

/-- The blake2b-256 hash. -/
def blake2256 (bytes : Bytes) : H256 := ⟨Blake2b.digest bytes, Blake2b.length_digest bytes⟩

/-- The signature of a message by the account of a key. -/
def sign (account : H256) (message : Bytes) : MultiSignature :=
  ⟨.sr25519, account.bytes ++ message⟩

/-- Whether a signature over a message is by an account. -/
def verify (signature : MultiSignature) (message : Bytes) (account : H256) : Bool :=
  signature.bytes = account.bytes ++ message

/-- A signature verifies for its own account and message and for no other. -/
theorem verify_sign (account account' : H256) (message message' : Bytes) :
    verify (sign account message) message' account' = true ↔
      account = account' ∧ message = message' := by
  unfold verify sign
  rw [decide_eq_true_iff]
  constructor
  · intro h
    have hlength : account.bytes.length = account'.bytes.length := by
      rw [account.length_bytes, account'.length_bytes]
    obtain ⟨haccount, hmessage⟩ := List.append_inj h hlength
    exact ⟨H256.ext_bytes haccount, hmessage⟩
  · rintro ⟨rfl, rfl⟩
    rfl

/-- The account of a raw public key: the key itself, or its hash when it is longer. -/
def intoAccount (_ : SignatureScheme) (publicKey : Bytes) : H256 :=
  if hlength : publicKey.length = 32 then ⟨publicKey, hlength⟩ else blake2256 publicKey

/-! ### Configuration -/

def config : Config ℕ where
  rules := balancesRules 1
  crypto :=
    { blake2256 := blake2256
      verify := verify
      intoAccount := intoAccount
      encodeAccount := littleEndian 8 }
  mmr := standardMmr
  treasury := 999
  minStakePerByte := 1
  maxMultiaddrLength := 128
  maxMembers := 100
  maxPrimaryProviders := 5
  minProviderStake := 100
  maxChunkSize := defaultChunkSize
  challengeTimeout := 100
  challengeDeposit := 100
  settlementTimeout := 50
  requestTimeout := 50
  maxBucketsPerMember := 100
  storageDeposit _ := 10
  deregisterAnnouncementPeriod := 150
  maxChallengesPerDeadline := 5
  challengeTimeout_lt := by decide
  chunkSize_le := le_rfl
  maxChallengesPerDeadline_le := by decide

/-- A ledger with some free balances. -/
def endowment (balances : List (ℕ × ℕ)) : Funds ℕ :=
  balances.foldr (fun entry ledger ↦ ledger.insert entry.1 ⟨entry.2, fun _ ↦ 0⟩) ∅

/-- An endowment holds nothing. -/
theorem held_endowment (balances : List (ℕ × ℕ)) (reason : HoldReason) (who : ℕ) :
    Ledger.held (endowment balances) reason who = 0 := by
  induction balances with
  | nil => rfl
  | cons entry rest ih =>
    have hstep : endowment (entry :: rest) =
        (endowment rest).insert entry.1 ⟨entry.2, fun _ ↦ 0⟩ := rfl
    unfold Ledger.held Ledger.account at ih ⊢
    rw [hstep, FiniteMap.lookup_insert_eq]
    split_ifs with hwho
    · rfl
    · exact ih

/-- The account that signs with the key of a provider: the number repeated. -/
def keyOf (provider : ℕ) : H256 := .repeatByte (UInt8.ofNat provider)

/-- A provider registered at genesis with a stake and settings. -/
def genesisProvider (account stake : ℕ) (settings : ProviderSettings) : GenesisProvider ℕ where
  account := account
  multiaddr := [0x2f]
  publicKey := (keyOf account).bytes
  stake := stake
  settings := settings

/-- A value that was computed without an error. -/
theorem eq_ok_getD_of_isOk {α : Type} {result : Except DispatchError α} (default : α)
    (h : isOk result = true) : result = .ok (result.toOption.getD default) := by
  cases result with
  | error error => cases h
  | ok value => rfl

/-- The genesis with some balances and one provider of default settings. -/
def genesisOf (balances : List (ℕ × ℕ)) (providers : List (GenesisProvider ℕ))
    (htotal : Ledger.total (endowment balances) ≤ maxIssuance)
    (hfits : ∀ p ∈ providers, p.multiaddr.length ≤ config.maxMultiaddrLength ∧
      p.settings.fits = true)
    (hbuilt : isOk (buildGenesis config (endowment balances) providers []) = true) :
    Genesis config where
  ledger := endowment balances
  providers := providers
  buckets := []
  state := (buildGenesis config (endowment balances) providers []).toOption.getD
    (emptyState (endowment balances))
  unheld := held_endowment balances
  total_le := htotal
  fits := hfits
  built := eq_ok_getD_of_isOk _ hbuilt

/-- A quote for storage, with the nonce of its owner, signed by its provider. -/
def quote (terms : AgreementTerms ℕ) (context : Bytes) (provider : ℕ) : MultiSignature :=
  sign (keyOf provider) (blake2256 (context ++ terms.encode config.crypto.encodeAccount)).bytes

/-! ### Parties -/

/-- What two accounts are endowed with is within the issuance. -/
theorem endowment_le : Ledger.total (endowment [(1, 10000), (2, 10000)]) ≤ maxIssuance := by
  decide +kernel

/-- Account 1 owns the quotes, account 2 provides. -/
def twoParties : Genesis config :=
  genesisOf [(1, 10000), (2, 10000)] [genesisProvider 2 1000 .default] endowment_le
    (by decide +kernel) (by decide +kernel)

/-- Ten bytes for five blocks at a price, in a new bucket. -/
def newBucketTerms (price nonce : ℕ) : AgreementTerms ℕ := ⟨1, 10, 5, price, 20, nonce, .new, none⟩

/-- Redeem the quote at a price with a nonce. -/
def redeemNewBucket (price nonce : ℕ) : Input ℕ :=
  .call (.signed 1) (.createBucketWithPrimary 2 (newBucketTerms price nonce)
    (quote (newBucketTerms price nonce) primaryTermContext 2) .publicRead)

/-- Account 3 has the means for many challenges. -/
def threeParties : Genesis config :=
  genesisOf [(1, 10000), (2, 10000), (3, 10 ^ 12)] [genesisProvider 2 1000 .default]
    (by decide +kernel) (by decide +kernel) (by decide +kernel)

/-- Ten bytes in a new bucket until the end of the clock, for nothing. -/
def longTerms : AgreementTerms ℕ := ⟨1, 10, u32Max, 0, 20, 0, .new, none⟩

def redeemLong : Input ℕ :=
  .call (.signed 1) (.createBucketWithPrimary 2 longTerms
    (quote longTerms primaryTermContext 2) .publicRead)

/-- A commitment to one leaf. -/
def oneLeaf : Commitment := ⟨keyOf 7, 0, 1⟩

/-- A commitment to two leaves. -/
def twoLeaves : Commitment := ⟨keyOf 8, 0, 2⟩

/-- The signature of a provider over a commitment of the first bucket. -/
def signCommitment (provider : ℕ) (commitment : Commitment) : ℕ × MultiSignature :=
  (provider, sign (keyOf provider) (CommitmentPayload.new 0 commitment).encode)

/-- Account 1 checkpoints a commitment of the first bucket that provider 2 signed. -/
def checkpointSigned (commitment : Commitment) : Input ℕ :=
  .call (.signed 1) (.checkpoint 0 commitment [signCommitment 2 commitment])

/-- Account 3 challenges provider 2 on a commitment it signed for the first bucket. -/
def challengeOneLeaf : Input ℕ :=
  .call (.signed 3) (.challengeOffchain 0 2 oneLeaf ⟨0, 0⟩
    (signCommitment 2 oneLeaf).2)

end Web3Storage.Pallet.Mock
