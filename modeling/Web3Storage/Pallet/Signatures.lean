import Web3Storage.Pallet.State

/-!
# Signatures

A registered provider signs with its registered key; any other account with its own key bytes. The
scheme of the signature decides how a key becomes an account.
-/

set_option autoImplicit false
set_option relaxedAutoImplicit false

namespace Web3Storage.Pallet

open Foundations Primitives

variable {AccountId : Type} [DecidableEq AccountId] (cfg : Config AccountId)

/-- Verify a signature against the key bytes of a plain account. An account whose encoding is not 32
bytes has no such identity. -/
def plainAccountVerifies (signature : MultiSignature) (message encodedSigner : Bytes) :
    Option Bool :=
  if hlength : encodedSigner.length = 32 then
    some (cfg.crypto.verify signature message ⟨encodedSigner, hlength⟩)
  else none

/-- The account a signature is compared with, from a registered raw public key. -/
def expectedSignerAccount (publicKey : Bytes) (signature : MultiSignature) :
    Except DispatchError H256 := do
  check (publicKey.length = signature.scheme.keyLength) .invalidPublicKey
  return cfg.crypto.intoAccount signature.scheme publicKey

/-- Verify a signature over an encoded message by a signer, given the provider registry. -/
def verifySignature (providers : FiniteMap AccountId ProviderInfo) (signature : MultiSignature)
    (message : Bytes) (signer : AccountId) : Except DispatchError Unit :=
  match providers.lookup signer with
  | none =>
    match plainAccountVerifies cfg signature message (cfg.crypto.encodeAccount signer) with
    | none => .error (.pallet .invalidPublicKey)
    | some false => .error (.pallet .invalidSignature)
    | some true => .ok ()
  | some provider => do
    let account ← expectedSignerAccount cfg provider.publicKey signature
    check (cfg.crypto.verify signature message account) .invalidSignature

/-- Verify a provider's signature over the hash of its terms behind a context. -/
def verifyTermsSignature (providerInfo : ProviderInfo) (terms : AgreementTerms AccountId)
    (signature : MultiSignature) (context : Bytes) : Except DispatchError Unit := do
  let account ← expectedSignerAccount cfg providerInfo.publicKey signature
  let hash := cfg.crypto.blake2256 (context ++ terms.encode cfg.crypto.encodeAccount)
  check (cfg.crypto.verify signature hash.bytes account) .invalidProviderSignature

end Web3Storage.Pallet
