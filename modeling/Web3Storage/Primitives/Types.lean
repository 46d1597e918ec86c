import Web3Storage.Foundations.Fallible

/-!
# Types shared by the chain and the provider node

Hashes, roles, commitments and the provider-signed terms of an agreement, with the byte strings that
are signed or hashed. A number that the source keeps in a fixed-width field is a natural number
here; the functions that could leave the range say what happens there. The fields of a hashed leaf
are the exception and live in `Web3Storage.Primitives.Mmr`.
-/

set_option autoImplicit false
set_option relaxedAutoImplicit false

namespace Web3Storage.Primitives

open Foundations

/-! ### Bytes -/

/-- A byte string. -/
abbrev Bytes := List UInt8

/-- A 32-byte hash. -/
structure H256 where
  bytes : Bytes
  length_bytes : bytes.length = 32
  deriving DecidableEq

/-- The hash made of one repeated byte. -/
def H256.repeatByte (byte : UInt8) : H256 :=
  ⟨List.replicate 32 byte, List.length_replicate⟩

/-- The zero hash. -/
def H256.zero : H256 := .repeatByte 0

instance : Inhabited H256 := ⟨H256.zero⟩

theorem H256.ext_bytes {a b : H256} (h : a.bytes = b.bytes) : a = b := by
  cases a
  cases b
  cases h
  rfl

/-- The little-endian bytes of a number in a field of `width` bytes. -/
def littleEndian (width n : ℕ) : Bytes :=
  (List.range width).map fun place ↦ UInt8.ofNat (n / 256 ^ place)

@[simp] theorem length_littleEndian (width n : ℕ) : (littleEndian width n).length = width := by
  simp [littleEndian]

theorem littleEndian_succ (width n : ℕ) :
    littleEndian (width + 1) n = UInt8.ofNat n :: littleEndian width (n / 256) := by
  unfold littleEndian
  rw [List.range_succ_eq_map, List.map_cons, List.map_map, pow_zero, Nat.div_one]
  congr 1
  refine List.map_congr_left fun place _ ↦ ?_
  rw [Function.comp_apply, Nat.div_div_eq_div_mul, Nat.succ_eq_add_one, pow_succ']

/-- A number that fits its field is read back from its bytes. -/
theorem littleEndian_inj {width a b : ℕ} (ha : a < 256 ^ width) (hb : b < 256 ^ width)
    (h : littleEndian width a = littleEndian width b) : a = b := by
  induction width generalizing a b with
  | zero => omega
  | succ width ih =>
    rw [littleEndian_succ, littleEndian_succ, List.cons.injEq] at h
    obtain ⟨hbyte, hrest⟩ := h
    have hlow : a % 256 = b % 256 := by
      have := congrArg UInt8.toNat hbyte
      simpa using this
    have hhigh : a / 256 = b / 256 := by
      rw [pow_succ] at ha hb
      exact ih (Nat.div_lt_of_lt_mul (by omega)) (Nat.div_lt_of_lt_mul (by omega)) hrest
    omega

/-- A field of fixed width is read back whatever follows it. -/
theorem littleEndian_append_inj {width a b : ℕ} (ha : a < 256 ^ width) (hb : b < 256 ^ width)
    {rest rest' : Bytes} (h : littleEndian width a ++ rest = littleEndian width b ++ rest') :
    a = b ∧ rest = rest' := by
  have hlength : (littleEndian width a).length = (littleEndian width b).length := by
    rw [length_littleEndian, length_littleEndian]
  obtain ⟨hfield, hrest⟩ := List.append_inj h hlength
  exact ⟨littleEndian_inj ha hb hfield, hrest⟩

/-- The encoding of an optional value: a tag byte and the value if there is one. -/
def encodeOption {α : Type} (encode : α → Bytes) : Option α → Bytes
  | none => [0]
  | some value => 1 :: encode value

/-! ### Roles and agreements -/

/-- What a member may do in a bucket. -/
inductive Role
  | admin
  | writer
  | reader
  deriving DecidableEq, Repr

/-- Whether primaries serve reads to anyone, or only to members. -/
inductive Visibility
  | publicRead
  | privateRead
  deriving DecidableEq, Repr

/-- What an owner does with the escrow when an agreement ends. -/
inductive EndAction
  | pay
  | burn (burnPercent : ℕ)
  deriving DecidableEq, Repr

/-- Why a primary provider left a bucket. -/
inductive RemovalReason
  | slashed
  | adminTerminated
  | expired
  deriving DecidableEq, Repr

/-- A challenge is named by its deadline and its place among the challenges of that deadline. -/
structure ChallengeId where
  deadline : ℕ
  index : ℕ
  deriving DecidableEq, Repr

/-! ### Commitments -/

/-- The root, first sequence number and number of leaves of a committed range. -/
structure Commitment where
  mmrRoot : H256
  startSeq : ℕ
  leafCount : ℕ
  deriving DecidableEq

namespace Commitment

/-- The commitment of a bucket nothing was committed to. -/
def default : Commitment := ⟨H256.zero, 0, 0⟩

/-- The sequence number after the last one covered. -/
def rangeEnd (commitment : Commitment) : ℕ :=
  saturatingAdd u64Max commitment.startSeq commitment.leafCount

/-- Whether a sequence number is covered. -/
def containsSeq (commitment : Commitment) (seq : ℕ) : Bool :=
  commitment.startSeq ≤ seq && seq < commitment.rangeEnd

end Commitment

/-- The leaf and the chunk of that leaf a challenge is about. -/
structure ChunkLocation where
  leafIndex : ℕ
  chunkIndex : ℕ
  deriving DecidableEq, Repr

/-- What a provider signs to commit to the state of a bucket. -/
structure CommitmentPayload where
  version : ℕ
  bucketId : ℕ
  commitment : Commitment
  deriving DecidableEq

namespace CommitmentPayload

def currentVersion : ℕ := 1

def new (bucketId : ℕ) (commitment : Commitment) : CommitmentPayload :=
  ⟨currentVersion, bucketId, commitment⟩

def encode (payload : CommitmentPayload) : Bytes :=
  littleEndian 1 payload.version ++ littleEndian 8 payload.bucketId ++
    payload.commitment.mmrRoot.bytes ++ littleEndian 8 payload.commitment.startSeq ++
      littleEndian 8 payload.commitment.leafCount

/-- A payload whose numbers fit their fields is read back from its bytes. -/
theorem encode_new_inj {bucketId bucketId' : ℕ} {commitment commitment' : Commitment}
    (hid : bucketId ≤ u64Max) (hid' : bucketId' ≤ u64Max) (hstart : commitment.startSeq ≤ u64Max)
    (hstart' : commitment'.startSeq ≤ u64Max) (hleaves : commitment.leafCount ≤ u64Max)
    (hleaves' : commitment'.leafCount ≤ u64Max)
    (h : (new bucketId commitment).encode = (new bucketId' commitment').encode) :
    bucketId = bucketId' ∧ commitment = commitment' := by
  have hfits {n : ℕ} (hn : n ≤ u64Max) : n < 256 ^ 8 :=
    Nat.lt_of_le_of_lt hn (by decide)
  simp only [encode, new, List.append_assoc] at h
  obtain ⟨-, h⟩ := littleEndian_append_inj (by decide) (by decide) h
  obtain ⟨hsame, h⟩ := littleEndian_append_inj (hfits hid) (hfits hid') h
  have hlength : commitment.mmrRoot.bytes.length = commitment'.mmrRoot.bytes.length := by
    rw [commitment.mmrRoot.length_bytes, commitment'.mmrRoot.length_bytes]
  obtain ⟨hroot, h⟩ := List.append_inj h hlength
  obtain ⟨hseq, h⟩ := littleEndian_append_inj (hfits hstart) (hfits hstart') h
  have hcount := littleEndian_inj (hfits hleaves) (hfits hleaves') h
  refine ⟨hsame, ?_⟩
  cases commitment
  cases commitment'
  simp only [Commitment.mk.injEq]
  exact ⟨H256.ext_bytes hroot, hseq, hcount⟩

end CommitmentPayload

/-- The primes whose multiples space the recorded history of roots. -/
def historicalRootPrimes : Fin 6 → ℕ := ![3, 7, 11, 23, 47, 113]

/-- The last sync a replica confirmed. -/
structure ReplicaSyncRecord where
  commitment : Commitment
  block : ℕ
  deriving DecidableEq

/-- What a provider does for a bucket. -/
inductive ProviderRole
  | primary
  | replica (syncBalance syncPrice : ℕ) (minSyncInterval : ℕ)
      (lastSync : Option ReplicaSyncRecord)
  deriving DecidableEq

/-- Whether a role is the primary one. -/
def ProviderRole.isPrimary : ProviderRole → Bool
  | .primary => true
  | .replica .. => false

/-- The last sync of a role. -/
def ProviderRole.lastSync : ProviderRole → Option ReplicaSyncRecord
  | .primary => none
  | .replica _ _ _ lastSync => lastSync

/-! ### Signed terms -/

/-- The bucket a quote is for. -/
inductive BucketTarget
  | new
  | existing (bucketId : ℕ)
  deriving DecidableEq, Repr

def BucketTarget.encode : BucketTarget → Bytes
  | .new => [0]
  | .existing bucketId => 1 :: littleEndian 8 bucketId

/-- The part of a quote that only a replica has. -/
structure ReplicaTerms where
  syncBalance : ℕ
  minSyncInterval : ℕ
  syncPrice : ℕ
  deriving DecidableEq, Repr

def ReplicaTerms.encode (terms : ReplicaTerms) : Bytes :=
  littleEndian 16 terms.syncBalance ++ littleEndian 4 terms.minSyncInterval ++
    littleEndian 16 terms.syncPrice

/-- A quote that a provider signs off chain and its owner redeems on chain. -/
structure AgreementTerms (AccountId : Type) where
  owner : AccountId
  maxBytes : ℕ
  duration : ℕ
  pricePerByte : ℕ
  validUntil : ℕ
  nonce : ℕ
  bucket : BucketTarget
  replicaParams : Option ReplicaTerms
  deriving DecidableEq

namespace AgreementTerms

variable {AccountId : Type}

def encode (encodeAccount : AccountId → Bytes) (terms : AgreementTerms AccountId) : Bytes :=
  encodeAccount terms.owner ++ littleEndian 8 terms.maxBytes ++ littleEndian 4 terms.duration ++
    littleEndian 16 terms.pricePerByte ++ littleEndian 4 terms.validUntil ++
      littleEndian 8 terms.nonce ++ terms.bucket.encode ++
        encodeOption ReplicaTerms.encode terms.replicaParams

end AgreementTerms

/-- The bytes of `primary-term-v1:`, which stand before the terms of a primary quote. -/
def primaryTermContext : Bytes :=
  [0x70, 0x72, 0x69, 0x6d, 0x61, 0x72, 0x79, 0x2d, 0x74, 0x65, 0x72, 0x6d, 0x2d, 0x76, 0x31, 0x3a]

/-- The bytes of `replica-term-v1:`, which stand before the terms of a replica quote. -/
def replicaTermContext : Bytes :=
  [0x72, 0x65, 0x70, 0x6c, 0x69, 0x63, 0x61, 0x2d, 0x74, 0x65, 0x72, 0x6d, 0x2d, 0x76, 0x31, 0x3a]

namespace AgreementTerms

variable {AccountId : Type}

/-- The context a provider signs terms under: terms with replica parameters are a replica quote. -/
def signingContext (terms : AgreementTerms AccountId) : Bytes :=
  if terms.replicaParams.isSome then replicaTermContext else primaryTermContext

def signingPayload (encodeAccount : AccountId → Bytes) (terms : AgreementTerms AccountId) : Bytes :=
  terms.signingContext ++ terms.encode encodeAccount

end AgreementTerms

/-! ### Signatures -/

/-- The supported signature schemes. -/
inductive SignatureScheme
  | sr25519
  | ed25519
  | ecdsa
  | eth
  deriving DecidableEq, Repr

/-- The length of a raw public key of a scheme. -/
def SignatureScheme.keyLength : SignatureScheme → ℕ
  | .sr25519 | .ed25519 => 32
  | .ecdsa | .eth => 33

/-- A signature together with its scheme. -/
structure MultiSignature where
  scheme : SignatureScheme
  bytes : Bytes
  deriving DecidableEq

end Web3Storage.Primitives
