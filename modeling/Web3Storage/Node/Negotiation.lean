import Web3Storage.Node.ChainState
import Web3Storage.Pallet.Mock

/-!
# Negotiating terms

A bucket owner asks a provider node for signed terms. The node checks the request against its view of
its own record, fills in its listed price and the validity window, and signs. The chain takes the
signature as consent, so what the node lets pass binds the provider.

Two questions are settled here. `negotiated_terms_pass_iff`: terms a node signs from a current view
pass the provider's side of `acceptQuote` exactly when the committed bytes stay in their field and
the stake backs them, which the node does not check; the redemption then succeeds exactly when the
owner can pay. `listed_terms_kept_iff`: the agreement opened from signed terms is within the listing
of the provider exactly when a replica's sync price, which the node copies from the request, is at
least the listed one.
-/

set_option autoImplicit false
set_option relaxedAutoImplicit false

namespace Web3Storage.Node

open Foundations Primitives
open Pallet (Config QuoteKind StorageAgreement State Call acceptQuote validateTerms ensureTargetFree
  ensureProviderActive ensureAccepting checkCapacity calculatePayment holdPayment quotedRole
  verifyTermsSignature dispatchSigned Opening)

variable {AccountId : Type}

/-! ### Requests -/

/-- What a bucket owner proposes. -/
structure NegotiateRequest (AccountId : Type) where
  owner : AccountId
  maxBytes : ℕ
  duration : ℕ
  pricePerByte : ℕ
  nonce : ℕ
  bucket : Option ℕ
  replicaParams : Option ReplicaTerms

/-- Terms with the provider's signature over them. -/
structure SignedTerms (AccountId : Type) where
  terms : AgreementTerms AccountId
  signature : MultiSignature
  deriving DecidableEq

/-- Why a node refuses to negotiate. -/
inductive NegotiationError
  | signing (reason : SigningRefused)
  | chainStateNotReady
  | providerDeregistering
  | notAcceptingPrimary
  | notAcceptingReplicas
  | replicaRequiresBucket
  | priceBelowListed (proposed listed : ℕ)
  | durationOutOfBounds (duration min max : ℕ)
  | invalidMaxBytesRequest
  | maxBytesBelowMinimum (requested minAgreementBytes : ℕ)
  | capacityExceeded (requested committed maxCapacity : ℕ)
  deriving DecidableEq, Repr

/-- The bucket a request is for, as signed terms name it. -/
def bucketTarget : Option ℕ → BucketTarget
  | none => .new
  | some bucketId => .existing bucketId

/-- The provider takes agreements of the kind asked for. Only an existing bucket takes replicas. -/
def ensureOffered (req : NegotiateRequest AccountId) (settings : Pallet.ProviderSettings) :
    Except NegotiationError Unit :=
  match req.replicaParams with
  | none => ensure settings.acceptingPrimary .notAcceptingPrimary
  | some _ => do
    ensure settings.replicaSyncPrice.isSome .notAcceptingReplicas
    ensure req.bucket.isSome .replicaRequiresBucket

/-- Validate a request against the provider's current settings. -/
def validateRequest (req : NegotiateRequest AccountId) (info : ProviderInfo) :
    Except NegotiationError Unit := do
  ensureOffered req info.settings
  ensure (info.settings.pricePerByte ≤ req.pricePerByte)
    (.priceBelowListed req.pricePerByte info.settings.pricePerByte)
  ensure (info.settings.minDuration ≤ req.duration && req.duration ≤ info.settings.maxDuration)
    (.durationOutOfBounds req.duration info.settings.minDuration info.settings.maxDuration)
  ensure (req.maxBytes ≠ 0) .invalidMaxBytesRequest
  ensure (info.settings.minAgreementBytes ≤ req.maxBytes)
    (.maxBytesBelowMinimum req.maxBytes info.settings.minAgreementBytes)
  -- a capacity of zero is no limit
  onlyIf (info.settings.maxCapacity > 0)
    (ensure (saturatingAdd u64Max info.committedBytes req.maxBytes ≤ info.settings.maxCapacity)
      (.capacityExceeded req.maxBytes info.committedBytes info.settings.maxCapacity))

variable (cfg : Config AccountId)

/-- Sign negotiated terms. -/
def signTerms (keypair : ProviderKeypair cfg.crypto) (terms : AgreementTerms AccountId) :
    SignedTerms AccountId where
  terms := terms
  signature := keypair.sign
    (cfg.crypto.blake2256 (terms.signingPayload cfg.crypto.encodeAccount)).bytes

/-- Sign terms for a bucket owner: the request with the provider's listed price. -/
def negotiateTerms (state : ProviderState cfg.crypto) (req : NegotiateRequest AccountId) :
    Except NegotiationError (SignedTerms AccountId) := do
  let keypair ← require state.keypair (.signing .noKey)
  let anchorBlock := state.chainState.currentAnchorBlock
  let requestTimeout := (state.chainState.constants.map (·.requestTimeout)).getD 0
  ensure (anchorBlock ≠ 0 && requestTimeout ≠ 0) .chainStateNotReady
  let info ← require state.chainState.providerInfo (.signing .unregistered)
  ensure info.deregisterAt.isNone .providerDeregistering
  (state.ensureSigningKeyMatches info).mapError .signing
  validateRequest req info
  return signTerms cfg keypair
    { owner := req.owner
      maxBytes := req.maxBytes
      duration := req.duration
      pricePerByte := info.settings.pricePerByte
      validUntil := saturatingAdd u32Max anchorBlock requestTimeout
      nonce := req.nonce
      bucket := bucketTarget req.bucket
      replicaParams := req.replicaParams }

/-! ### What a signed quote passed -/

section Specification

variable {cfg} {state : ProviderState cfg.crypto} {req : NegotiateRequest AccountId}
  {signed : SignedTerms AccountId} {info : ProviderInfo}

/-- What a request passed that a node signed terms for. -/
structure Negotiated (cfg : Config AccountId) (state : ProviderState cfg.crypto)
    (req : NegotiateRequest AccountId) (info : ProviderInfo)
    (keypair : ProviderKeypair cfg.crypto) (signed : SignedTerms AccountId) : Prop where
  active : info.deregisterAt = none
  key_eq : info.publicKey = keypair.publicKey
  offered : ensureOffered req info.settings = .ok ()
  duration_ge : info.settings.minDuration ≤ req.duration
  duration_le : req.duration ≤ info.settings.maxDuration
  bytes_pos : 0 < req.maxBytes
  minimum_le : info.settings.minAgreementBytes ≤ req.maxBytes
  capacity_le : 0 < info.settings.maxCapacity →
    saturatingAdd u64Max info.committedBytes req.maxBytes ≤ info.settings.maxCapacity
  signed_eq : signed = signTerms cfg keypair
    { owner := req.owner
      maxBytes := req.maxBytes
      duration := req.duration
      pricePerByte := info.settings.pricePerByte
      validUntil := saturatingAdd u32Max state.chainState.currentAnchorBlock
        ((state.chainState.constants.map (·.requestTimeout)).getD 0)
      nonce := req.nonce
      bucket := bucketTarget req.bucket
      replicaParams := req.replicaParams }

/-- Terms are signed from the view the node has, with the key that view carries. -/
theorem negotiateTerms_ok (h : negotiateTerms cfg state req = .ok signed)
    (hinfo : state.chainState.providerInfo = some info) :
    ∃ keypair, Negotiated cfg state req info keypair signed := by
  simp only [negotiateTerms, validateRequest, bind_eq_ok, pure_eq_ok, require_eq_ok, ensure_eq_ok,
    onlyIf_eq_ok, mapError_eq_ok, Bool.and_eq_true, decide_eq_true_eq] at h
  obtain ⟨keypair, hkeypair, -, -, view, hview, -, hactive, done, hkey, done', ⟨done'', hoffered, -, -, -,
    ⟨hmin, hmax⟩, -, hbytes, -, hminimum, hcapacity⟩, rfl⟩ := h
  obtain rfl : view = info := Option.some.inj (hview.symm.trans hinfo)
  simp only [ProviderState.ensureSigningKeyMatches, hkeypair, ensure_eq_ok, decide_eq_true_eq]
    at hkey
  refine ⟨keypair, ?_⟩
  exact
    { active := Option.isNone_iff_eq_none.1 hactive, key_eq := hkey, offered := hoffered
      duration_ge := hmin, duration_le := hmax, bytes_pos := Nat.pos_of_ne_zero hbytes
      minimum_le := hminimum, capacity_le := hcapacity, signed_eq := rfl }

end Specification

/-! ### Redeeming signed terms -/

section Redeeming

variable [DecidableEq AccountId]

/-- The kind of agreement that terms quote. -/
def quoteKind (terms : AgreementTerms AccountId) : QuoteKind :=
  if terms.replicaParams.isSome then .replica else .primary

/-- The sync balance that is held with the payment of terms. -/
def quotedSyncBalance (terms : AgreementTerms AccountId) : ℕ :=
  terms.replicaParams.elim 0 (·.syncBalance)

/-- Terms pass, in a state, every check that `acceptQuote` makes on the side of the provider: the
validity window, and activity, kind, duration, size, capacity and stake of its record. -/
def PassesProviderChecks (terms : AgreementTerms AccountId) (info : Pallet.ProviderInfo)
    (s : State AccountId) : Prop :=
  validateTerms cfg terms.owner terms terms.bucket s = .ok s.anchorBlock ∧
    ensureProviderActive info = .ok () ∧
      ensureAccepting (quoteKind terms) info.settings = .ok () ∧
        checkCapacity cfg info terms = .ok (info.committedBytes + terms.maxBytes)

/-- The committed bytes with further ones stay in their field, and the stake backs them. -/
def Backs (info : Pallet.ProviderInfo) (bytes : ℕ) : Prop :=
  info.committedBytes + bytes ≤ u64Max ∧
    cfg.minStakePerByte * (info.committedBytes + bytes) ≤ u128Max ∧
      cfg.minStakePerByte * (info.committedBytes + bytes) ≤ info.stake

/-- The owner of terms can pay for them. -/
def OwnerPays (terms : AgreementTerms AccountId) (s : State AccountId) : Prop :=
  ∃ payment ledger,
    calculatePayment terms.pricePerByte terms.maxBytes terms.duration = .ok payment ∧
      payment + quotedSyncBalance terms ≤ u128Max ∧
        holdPayment cfg terms.owner (payment + quotedSyncBalance terms) s.ledger = .ok ledger

variable {cfg} {state : ProviderState cfg.crypto} {req : NegotiateRequest AccountId}
  {signed : SignedTerms AccountId} {terms : AgreementTerms AccountId}
  {info : Pallet.ProviderInfo} {provider : AccountId} {signature : MultiSignature}
  {s s' : State AccountId}

omit [DecidableEq AccountId] in
/-- Terms give the role and the sync balance of their own kind. -/
theorem quotedRole_quoteKind (terms : AgreementTerms AccountId) :
    ∃ role, quotedRole (quoteKind terms) terms = .ok (role, quotedSyncBalance terms) := by
  unfold quoteKind quotedSyncBalance quotedRole
  cases hreplica : terms.replicaParams with
  | none => exact ⟨.primary, rfl⟩
  | some replica =>
    exact ⟨.replica replica.syncBalance replica.syncPrice replica.minSyncInterval none, rfl⟩

/-- Terms that name their owner and target are valid in a state exactly while their size is positive
and the validity window contains the anchor block. -/
theorem validateTerms_iff {anchorBlock : ℕ} :
    validateTerms cfg terms.owner terms terms.bucket s = .ok anchorBlock ↔
      anchorBlock = s.anchorBlock ∧ 0 < terms.maxBytes ∧ s.anchorBlock ≤ terms.validUntil ∧
        terms.validUntil ≤ saturatingAdd u32Max s.anchorBlock cfg.requestTimeout := by
  simp only [validateTerms, bind_eq_ok, pure_eq_ok, Pallet.check_eq_ok, decide_eq_true_eq,
    exists_const, true_and]
  constructor
  · rintro ⟨hbytes, hvalid, hwindow, rfl⟩
    exact ⟨rfl, hbytes, hvalid, hwindow⟩
  · rintro ⟨rfl, hbytes, hvalid, hwindow⟩
    exact ⟨hbytes, hvalid, hwindow, rfl⟩

/-- A quote of a provider that signed it, with the expected nonce and a free target, is accepted
exactly when it passes the provider's side and its owner can pay. -/
theorem acceptQuote_isOk_iff (hrecord : s.providers.lookup provider = some info)
    (hverify : verifyTermsSignature cfg info terms signature (quoteKind terms).context = .ok ())
    (hnonce : terms.nonce = (s.agreementNonces.lookup terms.owner).getD 0)
    (hfree : ensureTargetFree provider terms.bucket s = .ok ()) :
    (∃ result, acceptQuote cfg terms.owner provider terms signature terms.bucket (quoteKind terms)
      s = .ok result) ↔ PassesProviderChecks cfg terms info s ∧ OwnerPays cfg terms s := by
  obtain ⟨role, hrole⟩ := quotedRole_quoteKind terms
  constructor
  · rintro ⟨result, haccept⟩
    simp only [acceptQuote, hrole, hrecord, bind_eq_ok, pure_eq_ok, Pallet.fetch_eq_ok,
      checkedAdd_eq_some] at haccept
    obtain ⟨anchorBlock, hterms, -, -, quoted, hquoted, record, hlookup, -, -, -, -, done, hactive,
      done', haccepting, newCommitted, hcapacity, payment, hpayment, total, ⟨hfits, rfl⟩, ledger,
      hhold, -⟩ := haccept
    obtain rfl := Option.some.inj hlookup
    obtain rfl := Except.ok.inj hquoted
    have hanchor : anchorBlock = s.anchorBlock := (validateTerms_iff.1 hterms).1
    obtain ⟨-, -, rfl, -⟩ := Pallet.checkCapacity_ok hcapacity
    exact ⟨⟨hanchor ▸ hterms, hactive, haccepting, hcapacity⟩, payment, ledger, hpayment, hfits, hhold⟩
  · rintro ⟨⟨hterms, hactive, haccepting, hcapacity⟩, payment, ledger, hpayment, hfits, hhold⟩
    simp only [acceptQuote, hterms, hfree, hrole, hrecord, hverify, hnonce, hactive, haccepting,
      hcapacity, hpayment, hhold, Pallet.fetch, require_some, ok_bind, Pallet.check, decide_true,
      ensure_true, (checkedAdd_eq_some _ _ _ _).2 ⟨hfits, rfl⟩]
    exact ⟨_, rfl⟩

omit [DecidableEq AccountId] in
/-- The provider's signature over negotiated terms verifies against the record its view mirrors. -/
theorem Negotiated.verifies {keypair : ProviderKeypair cfg.crypto}
    (h : Negotiated cfg state req (providerInfoFromRuntime info) keypair signed) :
    verifyTermsSignature cfg info signed.terms signed.signature (quoteKind signed.terms).context =
      .ok () := by
  have hkey : info.publicKey = keypair.publicKey := h.key_eq
  have hcontext : (quoteKind signed.terms).context = signed.terms.signingContext := by
    unfold quoteKind AgreementTerms.signingContext QuoteKind.context
    split_ifs <;> rfl
  rw [hcontext]
  rw [h.signed_eq]
  simp only [verifyTermsSignature, Pallet.expectedSignerAccount, signTerms, ProviderKeypair.sign,
    hkey, keypair.length_publicKey, Pallet.check, decide_true, ensure_true, ok_bind]
  exact (ensure_eq_ok _ _ ()).2 (keypair.verify_sign _)

omit [DecidableEq AccountId] in
/-- A node accepts the kind of terms the pallet accepts. -/
theorem Negotiated.accepts {view : ProviderInfo} {keypair : ProviderKeypair cfg.crypto}
    (h : Negotiated cfg state req view keypair signed) :
    ensureAccepting (quoteKind signed.terms) view.settings = .ok () := by
  have hoffered := h.offered
  rw [h.signed_eq]
  unfold ensureOffered at hoffered
  simp only [signTerms, quoteKind]
  cases hreplica : req.replicaParams with
  | none =>
    rw [hreplica, ensure_eq_ok] at hoffered
    exact (Pallet.check_eq_ok _ _ ()).2 hoffered
  | some replica =>
    simp only [hreplica, bind_eq_ok, ensure_eq_ok] at hoffered
    obtain ⟨-, hprice, -⟩ := hoffered
    exact (Pallet.check_eq_ok _ _ ()).2 hprice

omit [DecidableEq AccountId] in
/-- Capacity and stake of a record take terms whose duration and size it takes exactly when the new
total fits its field, the capacity and the stake. -/
theorem checkCapacity_iff (hmin : info.settings.minDuration ≤ terms.duration)
    (hmax : terms.duration ≤ info.settings.maxDuration)
    (hminimum : info.settings.minAgreementBytes ≤ terms.maxBytes) :
    checkCapacity cfg info terms = .ok (info.committedBytes + terms.maxBytes) ↔
      (0 < info.settings.maxCapacity →
        info.committedBytes + terms.maxBytes ≤ info.settings.maxCapacity) ∧
          Backs cfg info terms.maxBytes := by
  have hduration : Pallet.validateDuration info.settings terms.duration = .ok () := by
    simp only [Pallet.validateDuration, Pallet.check, hmin, hmax, decide_true, ensure_true,
      ok_bind]
  simp only [checkCapacity, hduration, hminimum, bind_eq_ok, pure_eq_ok, Pallet.check_eq_ok,
    onlyIf_eq_ok, Pallet.fetch_eq_ok, checkedAdd_eq_some, checkedMul_eq_some, decide_eq_true_eq,
    ge_iff_le, gt_iff_lt, exists_const, true_and, Backs]
  constructor
  · rintro ⟨total, ⟨hfits, rfl⟩, hcapacity, required, ⟨hmul, rfl⟩, hstake, -⟩
    exact ⟨hcapacity, hfits, hmul, hstake⟩
  · rintro ⟨hcapacity, hfits, hmul, hstake⟩
    exact ⟨_, ⟨hfits, rfl⟩, hcapacity, _, ⟨hmul, rfl⟩, hstake, rfl⟩

/-- Terms that a node signed from a current view of its record, redeemed from the signing block until
they expire, pass the provider's side of `acceptQuote` exactly when the record backs the new bytes;
with the expected nonce and a free target the redemption then succeeds exactly when the owner can
pay. -/
theorem negotiated_terms_pass_iff (hsigned : negotiateTerms cfg state req = .ok signed)
    (hview : state.chainState.providerInfo = some (providerInfoFromRuntime info))
    (hconstants : state.chainState.constants = some ⟨cfg.requestTimeout⟩)
    (hrecord : s.providers.lookup provider = some info)
    (hfrom : state.chainState.currentAnchorBlock ≤ s.anchorBlock)
    (huntil : s.anchorBlock ≤ signed.terms.validUntil)
    (hnonce : signed.terms.nonce = (s.agreementNonces.lookup signed.terms.owner).getD 0)
    (hfree : ensureTargetFree provider signed.terms.bucket s = .ok ()) :
    (PassesProviderChecks cfg signed.terms info s ↔ Backs cfg info req.maxBytes) ∧
      ((∃ result, acceptQuote cfg signed.terms.owner provider signed.terms signed.signature
        signed.terms.bucket (quoteKind signed.terms) s = .ok result) ↔
          Backs cfg info req.maxBytes ∧ OwnerPays cfg signed.terms s) := by
  obtain ⟨keypair, hnegotiated⟩ := negotiateTerms_ok hsigned hview
  have hterms : signed.terms.maxBytes = req.maxBytes ∧ signed.terms.duration = req.duration ∧
      signed.terms.validUntil =
        saturatingAdd u32Max state.chainState.currentAnchorBlock cfg.requestTimeout := by
    rw [hnegotiated.signed_eq, hconstants]
    exact ⟨rfl, rfl, rfl⟩
  obtain ⟨hbytes, hduration, huntilEq⟩ := hterms
  have hwindow : signed.terms.validUntil ≤
      saturatingAdd u32Max s.anchorBlock cfg.requestTimeout := by
    rw [huntilEq]
    exact min_le_min_right _ (Nat.add_le_add_right hfrom _)
  have hvalid : validateTerms cfg signed.terms.owner signed.terms signed.terms.bucket s =
      .ok s.anchorBlock :=
    validateTerms_iff.2 ⟨rfl, hbytes ▸ hnegotiated.bytes_pos, huntil, hwindow⟩
  have hactive : ensureProviderActive info = .ok () := by
    have hexit : info.deregisterAt = none := hnegotiated.active
    simp only [ensureProviderActive, hexit, Pallet.check, Option.isNone_none, ensure_true]
  have haccepting : ensureAccepting (quoteKind signed.terms) info.settings = .ok () :=
    hnegotiated.accepts
  have hcapacity : checkCapacity cfg info signed.terms =
      .ok (info.committedBytes + signed.terms.maxBytes) ↔ Backs cfg info req.maxBytes := by
    rw [checkCapacity_iff (hduration ▸ hnegotiated.duration_ge)
      (hduration ▸ hnegotiated.duration_le) (hbytes ▸ hnegotiated.minimum_le), hbytes]
    constructor
    · exact fun h ↦ h.2
    · intro hbacks
      -- the node saturates the sum where the pallet refuses it, so the limits agree on sums that fit
      refine ⟨fun hlimited ↦ ?_, hbacks⟩
      have hlimit : saturatingAdd u64Max info.committedBytes req.maxBytes ≤
          info.settings.maxCapacity := hnegotiated.capacity_le hlimited
      rwa [saturatingAdd_of_le hbacks.1] at hlimit
  have hpasses : PassesProviderChecks cfg signed.terms info s ↔ Backs cfg info req.maxBytes := by
    unfold PassesProviderChecks
    rw [hcapacity]
    exact ⟨fun h ↦ h.2.2.2, fun h ↦ ⟨hvalid, hactive, haccepting, h⟩⟩
  refine ⟨hpasses, ?_⟩
  rw [acceptQuote_isOk_iff hrecord hnegotiated.verifies hnonce hfree, hpasses]

end Redeeming

/-! ### Agreements opened from signed terms -/

section Listing

variable [DecidableEq AccountId]

/-- The bucket on which an agreement for a target is opened. -/
def openedBucket (s : State AccountId) : BucketTarget → ℕ
  | .new => s.nextBucketId
  | .existing bucketId => bucketId

/-- An agreement of a provider is within its listing: at least its price per byte and, for a replica,
its price per sync; a duration and a size it offers; and committed bytes within its capacity. -/
structure WithinListing (settings : Pallet.ProviderSettings) (provider : AccountId)
    (agreement : StorageAgreement AccountId) (s : State AccountId) : Prop where
  price_le : settings.pricePerByte ≤ agreement.pricePerByte
  syncPrice_le : ∀ syncBalance syncPrice minSyncInterval lastSync,
    agreement.role = .replica syncBalance syncPrice minSyncInterval lastSync →
      ∃ listed, settings.replicaSyncPrice = some listed ∧ listed ≤ syncPrice
  duration_offered : ∃ duration, settings.minDuration ≤ duration ∧
    duration ≤ settings.maxDuration ∧
      agreement.expiresAt = saturatingAdd u32Max agreement.startedAt duration
  minimum_le : settings.minAgreementBytes ≤ agreement.maxBytes
  committed_le : ∀ record, s.providers.lookup provider = some record →
    0 < record.settings.maxCapacity → record.committedBytes ≤ record.settings.maxCapacity

/-- A replica's request proposes at least the listed price per sync. -/
def SyncPriceListed (req : NegotiateRequest AccountId) (settings : Pallet.ProviderSettings) : Prop :=
  ∀ replica listed, req.replicaParams = some replica →
    settings.replicaSyncPrice = some listed → listed ≤ replica.syncPrice

variable {cfg} {state : ProviderState cfg.crypto} {req : NegotiateRequest AccountId}
  {signed : SignedTerms AccountId} {terms : AgreementTerms AccountId} {view : ProviderInfo}
  {who provider : AccountId} {call : Call AccountId} {signature : MultiSignature}
  {target : BucketTarget} {kind : QuoteKind} {s s' : State AccountId}

/-- An accepted call that redeems terms opens their agreement at the provider and commits their
bytes. -/
theorem opening_of_redemption
    (hredemption : call.redemption who = some ⟨who, provider, terms, signature, target, kind⟩)
    (hok : dispatchSigned cfg who call s = .ok s') :
    ∃ record agreement deposits ledger,
      Opening cfg s who provider terms signature target kind record agreement deposits ledger ∧
        s'.storageAgreements.lookup (openedBucket s target, provider) = some agreement ∧
          s'.providers.lookup provider = some { record with
            committedBytes := record.committedBytes + terms.maxBytes
            stats := record.stats.agreementOpened terms.maxBytes } := by
  cases call with
  | createBucketWithPrimary provider' terms' signature' visibility =>
    cases hredemption
    obtain ⟨record, agreement, bucket, ledger, deposits, hopening, -, rfl⟩ :=
      Pallet.createBucketWithPrimary_ok hok
    refine ⟨record, agreement, deposits, ledger, hopening, Finmap.lookup_insert _, ?_⟩
    rw [FiniteMap.lookup_modify_eq, if_pos rfl, hopening.lookup_info]
    rfl
  | addPrimaryProvider bucketId provider' terms' signature' =>
    cases hredemption
    obtain ⟨record, agreement, bucket, ledger, deposits, hopening, -, rfl⟩ :=
      Pallet.addPrimaryProvider_ok hok
    refine ⟨record, agreement, deposits, ledger, hopening, Finmap.lookup_insert _, ?_⟩
    rw [FiniteMap.lookup_modify_eq, if_pos rfl, hopening.lookup_info]
    rfl
  | addReplicaProvider bucketId provider' terms' signature' =>
    cases hredemption
    obtain ⟨record, agreement, ledger, deposits, hopening, rfl⟩ :=
      Pallet.addReplicaProvider_ok hok
    refine ⟨record, agreement, deposits, ledger, hopening, Finmap.lookup_insert _, ?_⟩
    rw [FiniteMap.lookup_modify_eq, if_pos rfl, hopening.lookup_info]
    rfl
  | _ => cases hredemption

omit [DecidableEq AccountId] in
/-- A quoted role carries the replica parameters of its terms. -/
theorem quotedRole_cases {quoted : ProviderRole × ℕ} (h : quotedRole kind terms = .ok quoted) :
    (terms.replicaParams = none ∧ quoted.1 = .primary) ∨
      ∃ replica, terms.replicaParams = some replica ∧
        quoted.1 = .replica replica.syncBalance replica.syncPrice replica.minSyncInterval none := by
  cases kind with
  | primary =>
    simp only [quotedRole, bind_eq_ok, pure_eq_ok, Pallet.check_eq_ok] at h
    obtain ⟨-, hprimary, rfl⟩ := h
    exact Or.inl ⟨Option.isNone_iff_eq_none.1 hprimary, rfl⟩
  | replica =>
    simp only [quotedRole, bind_eq_ok, pure_eq_ok, Pallet.fetch_eq_ok] at h
    obtain ⟨replica, hreplica, rfl⟩ := h
    exact Or.inr ⟨replica, hreplica, rfl⟩

omit [DecidableEq AccountId] in
/-- The price per sync of a negotiated role is listed exactly when the request proposed it so. -/
theorem Negotiated.syncPrice_iff {keypair : ProviderKeypair cfg.crypto} {quoted : ProviderRole × ℕ}
    (h : Negotiated cfg state req view keypair signed)
    (hrole : quotedRole kind signed.terms = .ok quoted) :
    (∀ syncBalance syncPrice minSyncInterval lastSync,
      quoted.1 = .replica syncBalance syncPrice minSyncInterval lastSync →
        ∃ listed, view.settings.replicaSyncPrice = some listed ∧ listed ≤ syncPrice) ↔
      SyncPriceListed req view.settings := by
  have hparams : signed.terms.replicaParams = req.replicaParams := by
    rw [h.signed_eq]
    rfl
  have hoffered := h.offered
  unfold ensureOffered at hoffered
  rcases quotedRole_cases hrole with ⟨hnone, hprimary⟩ | ⟨replica, hsome, hreplica⟩
  · rw [hparams] at hnone
    constructor
    · intro _ replica listed hreplica
      rw [hnone] at hreplica
      cases hreplica
    · intro _ syncBalance syncPrice minSyncInterval lastSync hreplica
      rw [hprimary] at hreplica
      cases hreplica
  · rw [hparams] at hsome
    simp only [hsome, bind_eq_ok, ensure_eq_ok] at hoffered
    obtain ⟨-, hprice, -⟩ := hoffered
    obtain ⟨listed, hlisted⟩ := Option.isSome_iff_exists.1 hprice
    constructor
    · intro hkept replica' listed' hreplica' hlisted'
      obtain rfl := Option.some.inj (hsome.symm.trans hreplica')
      obtain ⟨price, hprice', hle⟩ := hkept _ _ _ _ hreplica
      obtain rfl := Option.some.inj (hlisted'.symm.trans hprice')
      exact hle
    · intro hkept syncBalance syncPrice minSyncInterval lastSync hrole'
      rw [hreplica] at hrole'
      cases hrole'
      exact ⟨listed, hlisted, hkept replica listed hsome hlisted⟩

/-- The agreement that an accepted call opens from terms a node signed is within the listing the node
signed from exactly when a replica's request proposed the listed price per sync. -/
theorem listed_terms_kept_iff (hsigned : negotiateTerms cfg state req = .ok signed)
    (hview : state.chainState.providerInfo = some view)
    (hredemption :
      call.redemption who = some ⟨who, provider, signed.terms, signature, target, kind⟩)
    (hok : dispatchSigned cfg who call s = .ok s') :
    ∃ agreement, s'.storageAgreements.lookup (openedBucket s target, provider) = some agreement ∧
      (WithinListing view.settings provider agreement s' ↔ SyncPriceListed req view.settings) := by
  obtain ⟨keypair, hnegotiated⟩ := negotiateTerms_ok hsigned hview
  obtain ⟨record, agreement, deposits, ledger, hopening, hlookup, hrecord⟩ :=
    opening_of_redemption hredemption hok
  obtain ⟨syncBalance, hrole⟩ := hopening.role_eq
  have hsync := hnegotiated.syncPrice_iff hrole
  have hterms : signed.terms.maxBytes = req.maxBytes ∧ signed.terms.duration = req.duration ∧
      signed.terms.pricePerByte = view.settings.pricePerByte := by
    rw [hnegotiated.signed_eq]
    exact ⟨rfl, rfl, rfl⟩
  obtain ⟨hbytes, hduration, hprice⟩ := hterms
  refine ⟨agreement, hlookup, fun h ↦ hsync.1 h.syncPrice_le, fun h ↦ ?_⟩
  refine
    { price_le := ?_, syncPrice_le := hsync.2 h, duration_offered := ?_, minimum_le := ?_
      committed_le := ?_ }
  · rw [hopening.agreement_eq, hprice]
  · refine ⟨req.duration, hnegotiated.duration_ge, hnegotiated.duration_le, ?_⟩
    rw [hopening.agreement_eq, hduration]
  · rw [hopening.agreement_eq, hbytes]
    exact hnegotiated.minimum_le
  · intro record' hrecord' hlimited
    obtain rfl := Option.some.inj (hrecord.symm.trans hrecord')
    exact hopening.capacity_le hlimited

end Listing

/-! ### A node of the mock runtime -/

section MockNode

open Pallet hiding ProviderInfo ProviderStats

/-- The key of a provider of the mock runtime. -/
def mockKeypair (provider : ℕ) : ProviderKeypair Mock.config.crypto where
  scheme := .sr25519
  publicKey := (Mock.keyOf provider).bytes
  signRaw message := (Mock.keyOf provider).bytes ++ message
  length_publicKey := (Mock.keyOf provider).length_bytes
  verify_sign message := by
    have haccount : Mock.intoAccount .sr25519 (Mock.keyOf provider).bytes =
        Mock.keyOf provider := by
      unfold Mock.intoAccount
      rw [dif_pos (Mock.keyOf provider).length_bytes]
    change Mock.verify (Mock.sign (Mock.keyOf provider) message) message
      (Mock.intoAccount .sr25519 (Mock.keyOf provider).bytes) = true
    rw [haccount, Mock.verify_sign]
    exact ⟨rfl, rfl⟩

/-- Settings that list a price of seven for a sync. -/
def mockSettings : Pallet.ProviderSettings := { Pallet.ProviderSettings.default with
  replicaSyncPrice := some 7 }

/-- Account 1 owns the requests, account 2 provides. -/
def mockGenesis : Pallet.Genesis Mock.config :=
  Mock.genesisOf [(1, 10000), (2, 10000)] [Mock.genesisProvider 2 1000 mockSettings]
    Mock.endowment_le (by decide +kernel) (by decide +kernel)

/-- The mock runtime at anchor block 10, with a bucket of account 1. -/
def mockChain : State ℕ :=
  [Pallet.Input.advance 10, .call (.signed 1) (.createBucket 1 .publicRead)].foldl
    (Pallet.step Mock.config) mockGenesis.state

/-- The record of provider 2. -/
def mockRecord : Pallet.ProviderInfo where
  multiaddr := [0x2f]
  publicKey := (Mock.keyOf 2).bytes
  stake := 1000
  committedBytes := 0
  settings := mockSettings
  stats := .new 0
  deregisterAt := none
  deposit := 10

theorem lookup_mockChain : mockChain.providers.lookup 2 = some mockRecord := by
  decide +kernel

/-- The node of provider 2, which follows the chain. -/
def mockNode : ProviderState Mock.config.crypto where
  keypair := some (mockKeypair 2)
  chainState :=
    ⟨10, some ⟨Mock.config.requestTimeout⟩, some (providerInfoFromRuntime mockRecord)⟩

/-- Account 1 asks for an agreement of five blocks. -/
def mockRequest (maxBytes : ℕ) (bucket : Option ℕ) (replica : Option ReplicaTerms) :
    NegotiateRequest ℕ := ⟨1, maxBytes, 5, 0, 0, bucket, replica⟩

/-- The signed terms of that agreement. -/
def mockSigned (maxBytes : ℕ) (bucket : Option ℕ) (replica : Option ReplicaTerms) :
    SignedTerms ℕ :=
  signTerms Mock.config (mockKeypair 2)
    ⟨1, maxBytes, 5, 0, 60, 0, bucketTarget bucket, replica⟩

/-- The node signs every size, and every replica terms for a bucket. -/
theorem negotiateTerms_mockRequest {maxBytes : ℕ} {bucket : Option ℕ}
    {replica : Option ReplicaTerms} (hbytes : maxBytes ≠ 0)
    (hbucket : replica.isSome → bucket.isSome) :
    negotiateTerms Mock.config mockNode (mockRequest maxBytes bucket replica) =
      .ok (mockSigned maxBytes bucket replica) := by
  have hoffered : ensureOffered (mockRequest maxBytes bucket replica) mockSettings = .ok () := by
    unfold ensureOffered mockRequest
    cases replica with
    | none => rfl
    | some replica =>
      have hsome : bucket.isSome = true := hbucket rfl
      simp only [hsome, ensure_true]
      rfl
  have hvalid : validateRequest (mockRequest maxBytes bucket replica)
      (providerInfoFromRuntime mockRecord) = .ok () := by
    unfold validateRequest
    rw [show (providerInfoFromRuntime mockRecord).settings = mockSettings from rfl, hoffered]
    simp [mockRequest, mockSettings, Pallet.ProviderSettings.default, onlyIf, ensure, hbytes,
      u32Max, ok_bind]
  unfold negotiateTerms
  rw [show mockNode.chainState.providerInfo = some (providerInfoFromRuntime mockRecord) from rfl]
  simp only [require_some, ok_bind, hvalid]
  rfl

/-- Ten bytes are signed and pass. -/
theorem negotiated_terms_pass_ten :
    PassesProviderChecks Mock.config (mockSigned 10 none none).terms mockRecord mockChain := by
  have hsigned : negotiateTerms Mock.config mockNode (mockRequest 10 none none) =
      .ok (mockSigned 10 none none) := negotiateTerms_mockRequest (by decide) (by decide)
  have hiff := negotiated_terms_pass_iff hsigned rfl rfl lookup_mockChain
    (by decide +kernel) (by decide +kernel) (by decide +kernel) (by decide +kernel)
  exact hiff.1.2 ⟨by decide, by decide, by decide⟩

/-- Two thousand bytes are signed although the stake backs a thousand, and the chain refuses them. -/
theorem negotiated_terms_unbacked :
    negotiateTerms Mock.config mockNode (mockRequest 2000 none none) =
      .ok (mockSigned 2000 none none) ∧
        mockChain.providers.lookup 2 = some mockRecord ∧ mockChain.anchorBlock = 10 ∧
          (mockChain.agreementNonces.lookup 1).getD 0 = 0 ∧
            ¬ PassesProviderChecks Mock.config (mockSigned 2000 none none).terms mockRecord
              mockChain := by
  refine ⟨negotiateTerms_mockRequest (by decide) (by decide), lookup_mockChain, by decide +kernel,
    by decide +kernel, fun h ↦ ?_⟩
  have hstake := (Pallet.checkCapacity_ok h.2.2.2).2.2.2.2.2
  exact absurd hstake (by decide)

/-- Account 1 redeems signed terms for a replica on its bucket. -/
def redeemReplica (signed : SignedTerms ℕ) : Call ℕ :=
  .addReplicaProvider 0 2 signed.terms signed.signature

/-- Replica terms of ten bytes with a sync balance and a price per sync. -/
def replicaSigned (syncPrice : ℕ) : SignedTerms ℕ := mockSigned 10 (some 0) (some ⟨20, 1, syncPrice⟩)

/-- The state after that redemption. -/
def replicaOpened (syncPrice : ℕ) : State ℕ :=
  (dispatchSigned Mock.config 1 (redeemReplica (replicaSigned syncPrice)) mockChain).toOption.getD
    mockChain

/-- A replica that pays the listed price per sync is within the listing. -/
theorem listed_terms_kept_seven : ∃ agreement,
    (replicaOpened 7).storageAgreements.lookup (0, 2) = some agreement ∧
      WithinListing mockSettings 2 agreement (replicaOpened 7) := by
  have hsigned : negotiateTerms Mock.config mockNode (mockRequest 10 (some 0) (some ⟨20, 1, 7⟩)) =
      .ok (replicaSigned 7) := negotiateTerms_mockRequest (by decide) (by decide)
  have hok : dispatchSigned Mock.config 1 (redeemReplica (replicaSigned 7)) mockChain =
      .ok (replicaOpened 7) := Mock.eq_ok_getD_of_isOk _ (by decide +kernel)
  obtain ⟨agreement, hlookup, hiff⟩ := listed_terms_kept_iff hsigned rfl rfl hok
  refine ⟨agreement, hlookup, hiff.2 ?_⟩
  intro replica listed hreplica hlisted
  cases hreplica
  cases hlisted
  exact le_rfl

/-- A replica that offers nothing for a sync is signed at a listed price of seven, and its agreement
is opened. -/
theorem replica_below_listed :
    negotiateTerms Mock.config mockNode (mockRequest 10 (some 0) (some ⟨20, 1, 0⟩)) =
        .ok (replicaSigned 0) ∧
      dispatchSigned Mock.config 1 (redeemReplica (replicaSigned 0)) mockChain =
        .ok (replicaOpened 0) ∧
      ∃ agreement, (replicaOpened 0).storageAgreements.lookup (0, 2) = some agreement ∧
        ¬ WithinListing mockSettings 2 agreement (replicaOpened 0) := by
  have hok : dispatchSigned Mock.config 1 (redeemReplica (replicaSigned 0)) mockChain =
      .ok (replicaOpened 0) := Mock.eq_ok_getD_of_isOk _ (by decide +kernel)
  refine ⟨negotiateTerms_mockRequest (by decide) (by decide), hok, ?_⟩
  have hrole : ((replicaOpened 0).storageAgreements.lookup (0, 2)).map (·.role) =
      some (.replica 20 0 1 none) := by
    decide +kernel
  obtain ⟨agreement, hlookup, hreplica⟩ := Option.map_eq_some_iff.1 hrole
  refine ⟨agreement, hlookup, fun hwithin ↦ ?_⟩
  obtain ⟨listed, hlisted, hle⟩ := hwithin.syncPrice_le _ _ _ _ hreplica
  cases hlisted
  exact absurd hle (by decide)

end MockNode

end Web3Storage.Node
