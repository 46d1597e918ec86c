import Web3Storage.Foundations.Utf8
import Web3Storage.Pallet.Signatures

/-!
# What a provider node knows of the chain

A node keeps a view of its own provider record, the anchor block and the constants of the pallet, and
a key to sign with. The view is the runtime's record field by field, with the network address read
as text. A key carries what its scheme promises: its length, and that what it signs verifies for the
account the pallet derives from it.
-/

set_option autoImplicit false
set_option relaxedAutoImplicit false

namespace Web3Storage.Node

open Foundations Primitives
open Pallet (Config Crypto)

/-! ### The record of the provider -/

/-- The statistics a node mirrors. -/
structure ProviderStats where
  registeredAt : ℕ
  agreementsTotal : ℕ
  agreementsExtended : ℕ
  agreementsNotExtended : ℕ
  agreementsBurned : ℕ
  totalBytesCommitted : ℕ
  challengesReceivedAuthorized : ℕ
  challengesReceivedPublic : ℕ
  challengesFailed : ℕ
  deriving DecidableEq, Repr

/-- A node's view of its on-chain registration. -/
structure ProviderInfo where
  multiaddr : String
  publicKey : Bytes
  stake : ℕ
  committedBytes : ℕ
  settings : Pallet.ProviderSettings
  stats : ProviderStats
  deregisterAt : Option ℕ
  deriving DecidableEq

/-- The runtime's record as a node sees it. -/
def providerInfoFromRuntime (info : Pallet.ProviderInfo) : ProviderInfo where
  multiaddr := fromUtf8Lossy info.multiaddr
  publicKey := info.publicKey
  stake := info.stake
  committedBytes := info.committedBytes
  settings := info.settings
  stats :=
    { registeredAt := info.stats.registeredAt
      agreementsTotal := info.stats.agreementsTotal
      agreementsExtended := info.stats.agreementsExtended
      agreementsNotExtended := info.stats.agreementsNotExtended
      agreementsBurned := info.stats.agreementsBurned
      totalBytesCommitted := info.stats.totalBytesCommitted
      challengesReceivedAuthorized := info.stats.challengesReceivedAuthorized
      challengesReceivedPublic := info.stats.challengesReceivedPublic
      challengesFailed := info.stats.challengesFailed }
  deregisterAt := info.deregisterAt

/-- The constants of the pallet a node reads. -/
structure PalletConstants where
  requestTimeout : ℕ
  deriving DecidableEq, Repr

/-- The chain state of a node. An anchor block of zero is not known yet. -/
structure ChainState where
  currentAnchorBlock : ℕ
  constants : Option PalletConstants
  providerInfo : Option ProviderInfo

/-! ### The signing key -/

variable {AccountId : Type}

/-- A signing key of a scheme. A signature it makes verifies for the account of its public key, and
the public key has the length of the scheme. -/
structure ProviderKeypair (crypto : Crypto AccountId) where
  scheme : SignatureScheme
  publicKey : Bytes
  signRaw : Bytes → Bytes
  length_publicKey : publicKey.length = scheme.keyLength
  verify_sign : ∀ message,
    crypto.verify ⟨scheme, signRaw message⟩ message (crypto.intoAccount scheme publicKey) = true

namespace ProviderKeypair

variable {crypto : Crypto AccountId} (keypair : ProviderKeypair crypto)

/-- Sign a message, tagging the signature with its scheme. -/
def sign (message : Bytes) : MultiSignature := ⟨keypair.scheme, keypair.signRaw message⟩

end ProviderKeypair

/-- Why a node cannot sign with its registered key. -/
inductive SigningRefused
  | noKey
  | unregistered
  | keyMismatch
  deriving DecidableEq, Repr

/-- What the handlers of a node share: its key and its chain state. -/
structure ProviderState (crypto : Crypto AccountId) where
  keypair : Option (ProviderKeypair crypto)
  chainState : ChainState

/-- A node with a key signs only while its registration carries that key. -/
def ProviderState.ensureSigningKeyMatches {crypto : Crypto AccountId}
    (state : ProviderState crypto) (info : ProviderInfo) : Except SigningRefused Unit :=
  match state.keypair with
  | none => .ok ()
  | some keypair => ensure (info.publicKey = keypair.publicKey) .keyMismatch

end Web3Storage.Node
