import Web3Storage.Pallet.Funding
import Web3Storage.Pallet.Mock

/-!
# Redeemed quotes

What a provider signs decides everything about the agreement it opens: the payload of a quote is read
back from its bytes (`encode_injective`), so a quote is redeemed in the role, by the owner and for the
bucket it was signed for. Every redemption uses the next nonce of its owner, so along a run the nonces
of an owner count up (`redemptions_nonces`) and a payload is redeemed once. The counter belongs to the
account: it starts again when the owner is reaped, and a quote that is still valid can then be redeemed
again (`redeemed_again_after_reap`).
-/

set_option autoImplicit false
set_option relaxedAutoImplicit false

namespace Web3Storage.Pallet

open Foundations Primitives

/-! ### Payloads of quotes -/

/-- Terms together with the role whose context the provider put before them. -/
structure Quote (AccountId : Type) where
  kind : QuoteKind
  terms : AgreementTerms AccountId
  deriving DecidableEq

variable {AccountId : Type}

/-- The bytes whose hash the provider signs. -/
def Quote.payload (cfg : Config AccountId) (quote : Quote AccountId) : Bytes :=
  quote.kind.context ++ quote.terms.encode cfg.crypto.encodeAccount

/-- The message the provider signs. -/
def Quote.message (cfg : Config AccountId) (quote : Quote AccountId) : Bytes :=
  (cfg.crypto.blake2256 (quote.payload cfg)).bytes

def Redemption.quote (redemption : Redemption AccountId) : Quote AccountId :=
  ⟨redemption.kind, redemption.terms⟩

/-- Quotes whose messages can be told apart: the terms fit their fields, the encoding of an owner ends
where it ends, and no two payloads collide. -/
structure Distinguishable (cfg : Config AccountId) (quotes : List (Quote AccountId)) : Prop where
  fits : ∀ quote ∈ quotes, termsFit quote.terms = true
  owners : ∀ quote ∈ quotes, ∀ other ∈ quotes, ∀ rest rest' : Bytes,
    cfg.crypto.encodeAccount quote.terms.owner ++ rest =
      cfg.crypto.encodeAccount other.terms.owner ++ rest' →
        quote.terms.owner = other.terms.owner ∧ rest = rest'
  hashes : ∀ quote ∈ quotes, ∀ other ∈ quotes,
    cfg.crypto.blake2256 (quote.payload cfg) = cfg.crypto.blake2256 (other.payload cfg) →
      quote.payload cfg = other.payload cfg

private theorem bucketTarget_append_inj {a b : BucketTarget} {rest rest' : Bytes}
    (ha : ∀ bucketId, a = .existing bucketId → bucketId ≤ u64Max)
    (hb : ∀ bucketId, b = .existing bucketId → bucketId ≤ u64Max)
    (h : a.encode ++ rest = b.encode ++ rest') : a = b ∧ rest = rest' := by
  cases a with
  | new =>
    cases b with
    | new => exact ⟨rfl, List.append_cancel_left h⟩
    | existing bucketId =>
      have hhead := congrArg List.head? h
      simp [BucketTarget.encode] at hhead
  | existing bucketId =>
    cases b with
    | new =>
      have hhead := congrArg List.head? h
      simp [BucketTarget.encode] at hhead
    | existing other =>
      simp only [BucketTarget.encode, List.cons_append, List.cons.injEq, true_and] at h
      have hbound : u64Max < 256 ^ 8 := by decide
      obtain ⟨rfl, hrest⟩ := littleEndian_append_inj ((ha bucketId rfl).trans_lt hbound)
        ((hb other rfl).trans_lt hbound) h
      exact ⟨rfl, hrest⟩

private theorem replicaTerms_inj {a b : ReplicaTerms}
    (ha : a.syncBalance ≤ u128Max ∧ a.minSyncInterval ≤ u32Max ∧ a.syncPrice ≤ u128Max)
    (hb : b.syncBalance ≤ u128Max ∧ b.minSyncInterval ≤ u32Max ∧ b.syncPrice ≤ u128Max)
    (h : a.encode = b.encode) : a = b := by
  have hbound : u128Max < 256 ^ 16 := by decide
  have hbound' : u32Max < 256 ^ 4 := by decide
  simp only [ReplicaTerms.encode, List.append_assoc] at h
  obtain ⟨hbalance, h⟩ := littleEndian_append_inj (ha.1.trans_lt hbound) (hb.1.trans_lt hbound) h
  obtain ⟨hinterval, h⟩ :=
    littleEndian_append_inj (ha.2.1.trans_lt hbound') (hb.2.1.trans_lt hbound') h
  have hprice := littleEndian_inj (ha.2.2.trans_lt hbound) (hb.2.2.trans_lt hbound) h
  cases a
  cases b
  rw [ReplicaTerms.mk.injEq]
  exact ⟨hbalance, hinterval, hprice⟩

private theorem replicaParams_inj {a b : Option ReplicaTerms}
    (ha : ∀ replica, a = some replica → replica.syncBalance ≤ u128Max ∧
      replica.minSyncInterval ≤ u32Max ∧ replica.syncPrice ≤ u128Max)
    (hb : ∀ replica, b = some replica → replica.syncBalance ≤ u128Max ∧
      replica.minSyncInterval ≤ u32Max ∧ replica.syncPrice ≤ u128Max)
    (h : encodeOption ReplicaTerms.encode a = encodeOption ReplicaTerms.encode b) : a = b := by
  cases a with
  | none =>
    cases b with
    | none => rfl
    | some other => simp [encodeOption] at h
  | some replica =>
    cases b with
    | none => simp [encodeOption] at h
    | some other =>
      simp only [encodeOption, List.cons.injEq, true_and] at h
      rw [replicaTerms_inj (ha replica rfl) (hb other rfl) h]

/-- Terms that fit their fields, by field. -/
private theorem termsFit_iff {terms : AgreementTerms AccountId} (h : termsFit terms = true) :
    terms.maxBytes ≤ u64Max ∧ terms.duration ≤ u32Max ∧ terms.pricePerByte ≤ u128Max ∧
      terms.validUntil ≤ u32Max ∧ terms.nonce ≤ u64Max ∧
        (∀ bucketId, terms.bucket = .existing bucketId → bucketId ≤ u64Max) ∧
          ∀ replica, terms.replicaParams = some replica → replica.syncBalance ≤ u128Max ∧
            replica.minSyncInterval ≤ u32Max ∧ replica.syncPrice ≤ u128Max := by
  simp only [termsFit, Bool.and_eq_true, decide_eq_true_eq] at h
  obtain ⟨⟨⟨⟨⟨⟨hbytes, hduration⟩, hprice⟩, hvalid⟩, hnonce⟩, hbucket⟩, hreplica⟩ := h
  refine ⟨hbytes, hduration, hprice, hvalid, hnonce, fun bucketId htarget ↦ ?_,
    fun replica hparams ↦ ?_⟩
  · rw [htarget] at hbucket
    simpa using hbucket
  · rw [hparams] at hreplica
    simpa [and_assoc] using hreplica

/-- The bytes of fitting terms determine them. -/
theorem encode_injective {encodeAccount : AccountId → Bytes} {a b : AgreementTerms AccountId}
    (ha : termsFit a = true) (hb : termsFit b = true)
    (howners : ∀ rest rest' : Bytes, encodeAccount a.owner ++ rest = encodeAccount b.owner ++ rest' →
      a.owner = b.owner ∧ rest = rest')
    (h : a.encode encodeAccount = b.encode encodeAccount) : a = b := by
  obtain ⟨hbytes, hduration, hprice, hvalid, hnonce, hbucket, hreplica⟩ := termsFit_iff ha
  obtain ⟨hbytes', hduration', hprice', hvalid', hnonce', hbucket', hreplica'⟩ := termsFit_iff hb
  have hfits4 : ∀ {n : ℕ}, n ≤ u32Max → n < 256 ^ 4 := fun hn ↦ hn.trans_lt (by decide)
  have hfits8 : ∀ {n : ℕ}, n ≤ u64Max → n < 256 ^ 8 := fun hn ↦ hn.trans_lt (by decide)
  have hfits16 : ∀ {n : ℕ}, n ≤ u128Max → n < 256 ^ 16 := fun hn ↦ hn.trans_lt (by decide)
  simp only [AgreementTerms.encode, List.append_assoc] at h
  obtain ⟨howner, h⟩ := howners _ _ h
  obtain ⟨h₁, h⟩ := littleEndian_append_inj (hfits8 hbytes) (hfits8 hbytes') h
  obtain ⟨h₂, h⟩ := littleEndian_append_inj (hfits4 hduration) (hfits4 hduration') h
  obtain ⟨h₃, h⟩ := littleEndian_append_inj (hfits16 hprice) (hfits16 hprice') h
  obtain ⟨h₄, h⟩ := littleEndian_append_inj (hfits4 hvalid) (hfits4 hvalid') h
  obtain ⟨h₅, h⟩ := littleEndian_append_inj (hfits8 hnonce) (hfits8 hnonce') h
  obtain ⟨h₆, h⟩ := bucketTarget_append_inj hbucket hbucket' h
  have h₇ := replicaParams_inj hreplica hreplica' h
  cases a
  cases b
  rw [AgreementTerms.mk.injEq]
  exact ⟨howner, h₁, h₂, h₃, h₄, h₅, h₆, h₇⟩

/-- Two quotes with one message are the same quote. -/
theorem Distinguishable.eq_of_message {cfg : Config AccountId} {quotes : List (Quote AccountId)}
    (h : Distinguishable cfg quotes) {a b : Quote AccountId} (ha : a ∈ quotes) (hb : b ∈ quotes)
    (hmessage : a.message cfg = b.message cfg) : a = b := by
  have hpayload := h.hashes a ha b hb (H256.ext_bytes hmessage)
  -- the contexts have one length and differ in their first byte
  have hlength : a.kind.context.length = b.kind.context.length := by
    cases a.kind <;> cases b.kind <;> rfl
  obtain ⟨hcontext, hterms⟩ := List.append_inj hpayload hlength
  have hkind : a.kind = b.kind := by
    revert hcontext
    cases a.kind <;> cases b.kind <;> decide
  have hterms := encode_injective (h.fits a ha) (h.fits b hb) (h.owners a ha b hb) hterms
  cases a
  cases b
  rw [Quote.mk.injEq]
  exact ⟨hkind, hterms⟩

/-! ### One step -/

variable [DecidableEq AccountId] (cfg : Config AccountId)

/-- The nonce the next quote of an owner has to carry. -/
def State.nonceOf (s : State AccountId) (owner : AccountId) : ℕ :=
  (s.agreementNonces.lookup owner).getD 0

/-- The quote a step redeems. -/
def redeemed (s : State AccountId) : Input AccountId → Option (Redemption AccountId)
  | .call (.signed who) call =>
    if call.fits cfg && isOk (dispatchSigned cfg who call s.withoutEvents) then call.redemption who
    else none
  | _ => none

/-- The step reaps an account. -/
def Reaps (owner : AccountId) (s : State AccountId) : Input AccountId → Prop
  | .reap who => who = owner ∧ ∀ reason, s.held reason who = 0
  | _ => False

instance (owner : AccountId) (s : State AccountId) (input : Input AccountId) :
    Decidable (Reaps owner s input) :=
  match input with
  | .reap who => inferInstanceAs (Decidable (who = owner ∧ ∀ reason, s.held reason who = 0))
  | .call _ _ | .advance _ | .credit _ _ | .debit _ _ => inferInstanceAs (Decidable False)

variable {cfg} {s s' : State AccountId} {input : Input AccountId} {owner : AccountId}
  {redemption : Redemption AccountId}

/-- A redeemed quote was carried by an accepted call. -/
private theorem redeemed_eq_some (h : redeemed cfg s input = some redemption) :
    ∃ who call s', input = .call (.signed who) call ∧ call.fits cfg = true ∧
      dispatchSigned cfg who call s.withoutEvents = .ok s' ∧
        call.redemption who = some redemption := by
  unfold redeemed at h
  split at h
  · next who call =>
    split_ifs at h with hok
    rw [Bool.and_eq_true] at hok
    cases hdispatch : dispatchSigned cfg who call s.withoutEvents with
    | error error => simp [hdispatch, isOk] at hok
    | ok s' => exact ⟨who, call, s', rfl, hok.1, hdispatch, h⟩
  · cases h

omit [DecidableEq AccountId] in
/-- Terms in a call that fits its fields fit theirs. -/
private theorem termsFit_of_redemption {who : AccountId} {call : Call AccountId}
    (hfits : call.fits cfg = true) (h : call.redemption who = some redemption) :
    termsFit redemption.terms = true := by
  cases call with
  | createBucketWithPrimary provider terms signature visibility =>
    cases h
    exact hfits
  | addPrimaryProvider bucketId provider terms signature
  | addReplicaProvider bucketId provider terms signature =>
    cases h
    simp only [Call.fits, Bool.and_eq_true] at hfits
    exact hfits.2
  | _ => cases h

/-- What a redeemed quote passed, and the nonce after it. -/
theorem redeemed_ok (h : redeemed cfg s input = some redemption) :
    termsFit redemption.terms = true ∧
      (∃ info agreement deposits ledger, Opening cfg s redemption.owner redemption.provider
        redemption.terms redemption.signature redemption.target redemption.kind info agreement
          deposits ledger) ∧
        (step cfg s input).agreementNonces = s.agreementNonces.insert redemption.owner
          (saturatingAdd u64Max (s.nonceOf redemption.owner) 1) := by
  obtain ⟨who, call, s', rfl, hfits, hok, hcall⟩ := redeemed_eq_some h
  refine ⟨termsFit_of_redemption hfits hcall, ?_⟩
  rw [step_of_dispatchSigned hfits hok]
  cases call with
  | createBucketWithPrimary provider terms signature visibility =>
    cases hcall
    obtain ⟨info, agreement, bucket, ledger, deposits, hopening, -, rfl⟩ :=
      createBucketWithPrimary_ok hok
    exact ⟨⟨info, agreement, deposits, ledger, hopening.ofWithoutEvents⟩, rfl⟩
  | addPrimaryProvider bucketId provider terms signature =>
    cases hcall
    obtain ⟨info, agreement, bucket, ledger, deposits, hopening, -, rfl⟩ := addPrimaryProvider_ok hok
    exact ⟨⟨info, agreement, deposits, ledger, hopening.ofWithoutEvents⟩, rfl⟩
  | addReplicaProvider bucketId provider terms signature =>
    cases hcall
    obtain ⟨info, agreement, ledger, deposits, hopening, rfl⟩ := addReplicaProvider_ok hok
    exact ⟨⟨info, agreement, deposits, ledger, hopening.ofWithoutEvents⟩, rfl⟩
  | _ => cases hcall

/-- Every effect but an opening keeps the nonces. -/
private theorem Effect.nonces_eq {origin : Origin AccountId} {call : Call AccountId}
    (h : Effect cfg s (.call origin call) s') :
    s'.agreementNonces = s.agreementNonces ∨
      ∃ who redemption, origin = .signed who ∧ call.redemption who = some redemption := by
  cases h with
  | rejected | registered | providerChanged | deregistered | bucketCreated | bucketDeleted
  | bucketChanged | checkpointed | checkpointExtended | toppedUp | amended | closed
  | challengeOpened | challengeAnswered => exact .inl rfl
  | outside _ ledger nonces hinput => exact absurd rfl (hinput _ _)
  | opened owner _ bucketId provider terms signature target kind info agreement deposits ledger
      buckets nextBucketId nonces memberBuckets events hopening hbuckets hcall hredemption =>
    exact .inr ⟨owner, _, rfl, hredemption⟩
  | challengeExpired challengeId challenge hchallenge hexpired =>
    left
    unfold slashProviderForFailedChallenge
    split
    · rfl
    · rfl

/-- A quote that was not redeemed was in a refused call, which leaves the state as it was. -/
private theorem step_of_redeemed_none {who : AccountId} {call : Call AccountId}
    (hcall : call.redemption who = some redemption)
    (hnone : redeemed cfg s (.call (.signed who) call) = none) :
    step cfg s (.call (.signed who) call) = s.withoutEvents := by
  simp only [redeemed, hcall] at hnone
  split_ifs at hnone with hok
  exact step_of_refused (Bool.eq_false_iff.2 hok)

/-- A step that redeems no quote and reaps nobody else keeps the nonce of an owner. -/
theorem nonceOf_step (hs : Funded s) (hnone : redeemed cfg s input = none)
    (hreap : ¬ Reaps owner s input) : (step cfg s input).nonceOf owner = s.nonceOf owner := by
  cases input with
  | call origin call =>
    unfold State.nonceOf
    have heffect : Effect cfg s (.call origin call) (step cfg s (.call origin call)) :=
      effect_of_step hs _
    rcases heffect.nonces_eq with hsame | ⟨who, redemption, rfl, hcall⟩
    · rw [hsame]
    · rw [step_of_redeemed_none hcall hnone]
      rfl
  | advance block =>
    simp only [step]
    split_ifs
    · rfl
    · rfl
  | credit who amount =>
    simp only [step]
    split_ifs
    · rfl
    · rfl
  | debit who amount =>
    simp only [step]
    split_ifs
    · rfl
    · rfl
  | reap who =>
    simp only [step]
    split_ifs with hunheld
    · have hother : owner ≠ who := fun howner ↦ hreap ⟨howner.symm, hunheld⟩
      simp only [State.nonceOf, FiniteMap.lookup_erase_eq, if_neg hother]
    · rfl

/-- A reaped owner starts again at zero. -/
theorem nonceOf_of_reaps (cfg : Config AccountId) (h : Reaps owner s input) :
    (step cfg s input).nonceOf owner = 0 := by
  cases input with
  | reap who =>
    obtain ⟨rfl, hunheld⟩ := h
    simp [step, hunheld, State.nonceOf]
  | _ => cases h

/-- A redemption by an owner carries its nonce and moves it on; one by another leaves it. -/
theorem nonceOf_redeemed (owner : AccountId) (h : redeemed cfg s input = some redemption) :
    redemption.terms.nonce = s.nonceOf redemption.owner ∧
      (step cfg s input).nonceOf owner = if redemption.owner = owner then
        saturatingAdd u64Max (s.nonceOf owner) 1 else s.nonceOf owner := by
  obtain ⟨-, ⟨info, agreement, deposits, ledger, hopening⟩, hnonces⟩ := redeemed_ok h
  refine ⟨hopening.nonce_eq, ?_⟩
  have hafter : (step cfg s input).nonceOf owner = (if owner = redemption.owner then
      some (saturatingAdd u64Max (s.nonceOf redemption.owner) 1) else
        s.agreementNonces.lookup owner).getD 0 := by
    rw [State.nonceOf, hnonces, FiniteMap.lookup_insert_eq]
  rw [hafter]
  by_cases howner : redemption.owner = owner
  · subst howner
    rw [if_pos rfl, if_pos rfl, Option.getD_some]
  · rw [if_neg (Ne.symm howner), if_neg howner]
    rfl

/-! ### Whole runs -/

/-- The quotes an owner redeems along a run. -/
def redemptions (cfg : Config AccountId) (owner : AccountId) :
    State AccountId → List (Input AccountId) → List (Redemption AccountId)
  | _, [] => []
  | s, input :: rest =>
    ((redeemed cfg s input).filter (·.owner = owner)).toList ++
      redemptions cfg owner (step cfg s input) rest

theorem redemptions_append (first second : List (Input AccountId)) :
    redemptions cfg owner s (first ++ second) =
      redemptions cfg owner s first ++ redemptions cfg owner (run (step cfg) s first) second := by
  induction first generalizing s with
  | nil => rfl
  | cons input rest ih => rw [List.cons_append, redemptions, redemptions, ih, run_cons,
      List.append_assoc]

/-- Along a run in which an owner is not reaped, the quotes it redeems count its nonce up. -/
theorem redemptions_nonces (hs : Funded s) {inputs : List (Input AccountId)}
    (halive : StepsMeet (step cfg) (fun s input ↦ ¬ Reaps owner s input) s inputs)
    (hcount : s.nonceOf owner + (redemptions cfg owner s inputs).length ≤ u64Max) :
    (redemptions cfg owner s inputs).map (·.terms.nonce) =
        List.range' (s.nonceOf owner) (redemptions cfg owner s inputs).length ∧
      (run (step cfg) s inputs).nonceOf owner =
        s.nonceOf owner + (redemptions cfg owner s inputs).length := by
  induction inputs generalizing s with
  | nil => exact ⟨rfl, rfl⟩
  | cons input rest ih =>
    have hnext : Funded (step cfg s input) := (effect_of_step hs input).funded hs
    rw [redemptions] at hcount ⊢
    rw [run_cons]
    cases hredeemed : redeemed cfg s input with
    | none =>
      have hkept := nonceOf_step hs hredeemed halive.1
      rw [hredeemed] at hcount
      rw [← hkept] at hcount ⊢
      exact ih hnext halive.2 hcount
    | some redemption =>
      obtain ⟨hnonce, hafter⟩ := nonceOf_redeemed owner hredeemed
      by_cases howner : redemption.owner = owner
      · rw [hredeemed] at hcount
        simp only [Option.filter_some, howner, decide_true, if_true, Option.toList_some,
          List.singleton_append, List.length_cons, List.map_cons] at hcount ⊢
        rw [if_pos howner, saturatingAdd_of_le (by omega)] at hafter
        obtain ⟨hnonces, hlast⟩ := ih hnext halive.2 (by omega)
        rw [howner] at hnonce
        rw [hnonces, hlast, hnonce, hafter, List.range'_succ]
        exact ⟨rfl, by omega⟩
      · rw [hredeemed] at hcount
        simp only [Option.filter_some, howner, decide_false, Bool.false_eq_true, if_false,
          Option.toList_none, List.nil_append] at hcount ⊢
        rw [if_neg howner] at hafter
        rw [← hafter] at hcount ⊢
        exact ih hnext halive.2 hcount

/-- The nonce of an owner is at most the number of quotes it has redeemed. -/
theorem nonceOf_run_le (cfg : Config AccountId) (owner : AccountId) (hs : Funded s)
    (inputs : List (Input AccountId)) :
    (run (step cfg) s inputs).nonceOf owner ≤
      s.nonceOf owner + (redemptions cfg owner s inputs).length := by
  induction inputs generalizing s with
  | nil => exact le_rfl
  | cons input rest ih =>
    have hnext : Funded (step cfg s input) := (effect_of_step hs input).funded hs
    have hlater := ih hnext
    rw [run_cons, redemptions, List.length_append]
    cases hredeemed : redeemed cfg s input with
    | none =>
      by_cases hreap : Reaps owner s input
      · have hzero := nonceOf_of_reaps cfg hreap
        omega
      · have hkept := nonceOf_step hs hredeemed hreap
        omega
    | some redemption =>
      obtain ⟨-, hafter⟩ := nonceOf_redeemed owner hredeemed
      have hsum : saturatingAdd u64Max (s.nonceOf owner) 1 ≤ s.nonceOf owner + 1 := min_le_left _ _
      by_cases howner : redemption.owner = owner
      · simp only [Option.filter_some, howner, decide_true, if_true, Option.toList_some,
          List.length_singleton]
        rw [if_pos howner] at hafter
        omega
      · rw [if_neg howner] at hafter
        omega

/-- A later redemption by an owner that was not reaped in between carries a larger nonce. -/
theorem nonce_lt_of_redeemed (hs : Funded s) {input' : Input AccountId}
    {redemption' : Redemption AccountId} {middle : List (Input AccountId)}
    (h : redeemed cfg s input = some redemption)
    (halive : StepsMeet (step cfg) (fun s input ↦ ¬ Reaps redemption.owner s input)
      (step cfg s input) middle)
    (h' : redeemed cfg (run (step cfg) (step cfg s input) middle) input' = some redemption')
    (howner : redemption'.owner = redemption.owner)
    (hcount : s.nonceOf redemption.owner + 1 +
      (redemptions cfg redemption.owner (step cfg s input) middle).length ≤ u64Max) :
    redemption.terms.nonce < redemption'.terms.nonce := by
  obtain ⟨hnonce, hafter⟩ := nonceOf_redeemed redemption.owner h
  obtain ⟨hnonce', -⟩ := nonceOf_redeemed redemption.owner h'
  rw [if_pos rfl, saturatingAdd_of_le (by omega)] at hafter
  have hnext : Funded (step cfg s input) := (effect_of_step hs input).funded hs
  obtain ⟨-, hlast⟩ := redemptions_nonces hnext halive (by omega)
  rw [howner, hlast] at hnonce'
  omega

theorem Genesis.nonceOf_eq_zero (genesis : Genesis cfg) (owner : AccountId) :
    genesis.state.nonceOf owner = 0 :=
  genesis.induction (fun s ↦ s.nonceOf owner = 0) rfl (fun _ _ _ _ _ _ _ hs _ _ ↦ hs)
    fun _ _ _ _ _ _ _ _ hs _ _ _ ↦ hs

/-- Between two redemptions of one quote its owner was reaped, and both lie within its validity. -/
private theorem redeemed_twice (genesis : Genesis cfg) {first middle last : List (Input AccountId)}
    {input' : Input AccountId} {redemption' : Redemption AccountId}
    (h : redeemed cfg (run (step cfg) genesis.state first) input = some redemption)
    (h' : redeemed cfg (run (step cfg) genesis.state (first ++ input :: middle)) input' =
      some redemption')
    (hsame : redemption'.quote = redemption.quote)
    (hcount : (redemptions cfg redemption.terms.owner genesis.state
      (first ++ input :: (middle ++ input' :: last))).length < 2 ^ 64) :
    ¬ StepsMeet (step cfg) (fun s input ↦ ¬ Reaps redemption.terms.owner s input)
        (run (step cfg) genesis.state (first ++ [input])) middle ∧
      (run (step cfg) genesis.state (first ++ input :: middle)).anchorBlock ≤ saturatingAdd
        u32Max (run (step cfg) genesis.state first).anchorBlock cfg.requestTimeout := by
  obtain ⟨-, ⟨info, agreement, deposits, ledger, hopening⟩, -⟩ := redeemed_ok h
  obtain ⟨-, ⟨info', agreement', deposits', ledger', hopening'⟩, -⟩ := redeemed_ok h'
  have hterms : redemption'.terms = redemption.terms := congrArg Quote.terms hsame
  have howner : redemption'.owner = redemption.owner := by
    rw [← hopening'.owner_eq, ← hopening.owner_eq, hterms]
  constructor
  · intro halive
    rw [hopening.owner_eq] at halive hcount
    rw [redemptions_append, redemptions, redemptions_append, h] at hcount
    simp only [Option.filter_some, decide_true, if_true, Option.toList_some, List.length_append,
      List.length_singleton] at hcount
    have hnonce := nonceOf_run_le cfg redemption.owner genesis.funded first
    rw [genesis.nonceOf_eq_zero, zero_add] at hnonce
    rw [run_concat] at halive
    rw [run_append, run_cons] at h'
    have hlt := nonce_lt_of_redeemed (funded_run cfg genesis.funded first) h halive h' howner
      (by unfold u64Max; omega)
    rw [hterms] at hlt
    exact lt_irrefl _ hlt
  · have hvalid := hopening'.validUntil_ge
    rw [hterms] at hvalid
    exact hvalid.trans hopening.validUntil_le

/-- A step redeems a quote: an accepted call whose signature is over the message of the quote. -/
def Redeems (cfg : Config AccountId) (s : State AccountId) (input : Input AccountId)
    (quote : Quote AccountId) : Prop :=
  ∃ redemption, redeemed cfg s input = some redemption ∧
    redemption.quote.message cfg = quote.message cfg

/-- The quotes that the calls of a run carry. -/
def quotesOf (inputs : List (Input AccountId)) : List (Quote AccountId) :=
  inputs.filterMap fun input ↦ match input with
    | .call (.signed who) call => (call.redemption who).map Redemption.quote
    | _ => none

private theorem mem_quotesOf {inputs : List (Input AccountId)} (hinput : input ∈ inputs)
    (h : redeemed cfg s input = some redemption) : redemption.quote ∈ quotesOf inputs := by
  obtain ⟨who, call, s', rfl, -, -, hcall⟩ := redeemed_eq_some h
  refine List.mem_filterMap.mpr ⟨_, hinput, ?_⟩
  simp only [hcall, Option.map_some]

/-- Quotes are redeemed at most once in the life of their owner's account, in the order of their
nonces, and only as they were signed. Assumes: quotes among which those of the run are, with messages
that can be told apart; a signature verifies only for what the holder of the key signed; fewer than
`2 ^ 64` redemptions by each owner. -/
theorem quotes_redeemed_once (genesis : Genesis cfg) (inputs : List (Input AccountId))
    (quotes : List (Quote AccountId)) (hquotes : quotesOf inputs ⊆ quotes)
    (hdistinct : Distinguishable cfg quotes) (signed : H256 → Bytes → Prop)
    (hverify : ∀ signature message account,
      cfg.crypto.verify signature message account = true → signed account message)
    (hcount : ∀ owner, (redemptions cfg owner genesis.state inputs).length < 2 ^ 64) :
    -- one redemption in a life, and a second life only within the validity window
    (∀ first input middle input' last, inputs = first ++ input :: (middle ++ input' :: last) →
      ∀ quote ∈ quotes, Redeems cfg (run (step cfg) genesis.state first) input quote →
        Redeems cfg (run (step cfg) genesis.state (first ++ input :: middle)) input' quote →
          ¬ StepsMeet (step cfg) (fun s input ↦ ¬ Reaps quote.terms.owner s input)
              (run (step cfg) genesis.state (first ++ [input])) middle ∧
            (run (step cfg) genesis.state (first ++ input :: middle)).anchorBlock ≤ saturatingAdd
              u32Max (run (step cfg) genesis.state first).anchorBlock cfg.requestTimeout) ∧
    -- the nonces of a life
    (∀ owner first second rest, inputs = first ++ (second ++ rest) →
      (first = [] ∨ ∃ before input, first = before ++ [input] ∧
        Reaps owner (run (step cfg) genesis.state before) input) →
      StepsMeet (step cfg) (fun s input ↦ ¬ Reaps owner s input)
          (run (step cfg) genesis.state first) second →
        (redemptions cfg owner (run (step cfg) genesis.state first) second).map (·.terms.nonce) =
          List.range (redemptions cfg owner (run (step cfg) genesis.state first) second).length) ∧
    -- role, owner, bucket and key
    (∀ first input last, inputs = first ++ input :: last → ∀ redemption,
      redeemed cfg (run (step cfg) genesis.state first) input = some redemption →
        (∃ info account, (run (step cfg) genesis.state first).providers.lookup redemption.provider =
            some info ∧
          expectedSignerAccount cfg info.publicKey redemption.signature = .ok account ∧
            signed account (redemption.quote.message cfg)) ∧
        ∀ quote ∈ quotes, redemption.quote.message cfg = quote.message cfg →
          redemption.kind = quote.kind ∧ redemption.owner = quote.terms.owner ∧
            redemption.target = quote.terms.bucket) ∧
    -- a redemption that fails
    ∀ first who call last, inputs = first ++ .call (.signed who) call :: last →
      ∀ redemption, call.redemption who = some redemption →
        redeemed cfg (run (step cfg) genesis.state first) (.call (.signed who) call) = none →
          step cfg (run (step cfg) genesis.state first) (.call (.signed who) call) =
            (run (step cfg) genesis.state first).withoutEvents := by
  refine ⟨?_, ?_, ?_, fun first who call last _ redemption hcall hnone ↦
    step_of_redeemed_none hcall hnone⟩
  · rintro first input middle input' last rfl quote hquote ⟨redemption, hredeemed, hmessage⟩
      ⟨redemption', hredeemed', hmessage'⟩
    -- both redemptions are of the quote itself
    have hsame : redemption.quote = quote := hdistinct.eq_of_message
      (hquotes (mem_quotesOf (by simp) hredeemed)) hquote hmessage
    have hsame' : redemption'.quote = quote := hdistinct.eq_of_message
      (hquotes (mem_quotesOf (by simp) hredeemed')) hquote hmessage'
    subst hsame
    exact redeemed_twice genesis hredeemed hredeemed' hsame' (hcount _)
  · rintro owner first second rest rfl hstart halive
    have hzero : (run (step cfg) genesis.state first).nonceOf owner = 0 := by
      rcases hstart with rfl | ⟨before, input, rfl, hreaps⟩
      · exact genesis.nonceOf_eq_zero owner
      · rw [run_concat]
        exact nonceOf_of_reaps cfg hreaps
    have hall := hcount owner
    rw [redemptions_append, redemptions_append, List.length_append, List.length_append] at hall
    obtain ⟨hnonces, -⟩ := redemptions_nonces (funded_run cfg genesis.funded first) halive
      (by unfold u64Max; omega)
    rw [hnonces, hzero, List.range_eq_range']
  · rintro first input last rfl redemption hredeemed
    obtain ⟨-, ⟨info, agreement, deposits, ledger, hopening⟩, -⟩ := redeemed_ok hredeemed
    refine ⟨?_, fun quote hquote hmessage ↦ ?_⟩
    · have hsigned := hopening.signed
      simp only [verifyTermsSignature, bind_eq_ok, check_eq_ok] at hsigned
      obtain ⟨account, haccount, hsignature⟩ := hsigned
      exact ⟨info, account, hopening.lookup_info, haccount, hverify _ _ _ hsignature⟩
    · have hsame : redemption.quote = quote := hdistinct.eq_of_message
        (hquotes (mem_quotesOf (by simp) hredeemed)) hquote hmessage
      have hterms : redemption.terms = quote.terms := congrArg Quote.terms hsame
      refine ⟨congrArg Quote.kind hsame, ?_, ?_⟩
      · rw [← hopening.owner_eq, hterms]
      · rw [← hopening.target_eq, hterms]

/-- Two quotes that account 1 redeems at provider 2. -/
def twoQuotes : List (Quote ℕ) :=
  [⟨.primary, Mock.newBucketTerms 1 0⟩, ⟨.primary, Mock.newBucketTerms 1 1⟩]

theorem quotes_redeemed_once_two :
    (redemptions Mock.config 1 Mock.twoParties.state
        [Mock.redeemNewBucket 1 0, Mock.redeemNewBucket 1 1]).map (·.terms.nonce) = [0, 1] := by
  have howner : ∀ quote ∈ twoQuotes, quote.terms.owner = 1 := by decide
  have hdistinct : Distinguishable Mock.config twoQuotes := by
    refine ⟨by decide, fun quote hquote other hother rest rest' h ↦ ?_, by decide +kernel⟩
    rw [howner quote hquote, howner other hother] at h ⊢
    exact ⟨rfl, List.append_cancel_left h⟩
  have hlength : ∀ owner, (redemptions Mock.config owner Mock.twoParties.state
      [Mock.redeemNewBucket 1 0, Mock.redeemNewBucket 1 1]).length < 2 ^ 64 := by
    intro owner
    have hle : ∀ found : Option (Redemption ℕ), (found.filter (·.owner = owner)).toList.length ≤ 1 := by
      intro found
      cases found.filter (·.owner = owner) with
      | none => exact Nat.zero_le 1
      | some redemption => exact le_rfl
    simp only [redemptions, List.append_nil, List.length_append]
    have hfirst := hle (redeemed Mock.config Mock.twoParties.state (Mock.redeemNewBucket 1 0))
    have hsecond := hle (redeemed Mock.config (step Mock.config Mock.twoParties.state
      (Mock.redeemNewBucket 1 0)) (Mock.redeemNewBucket 1 1))
    omega
  -- the ideal signatures of the mock runtime verify for what was signed
  have honce := quotes_redeemed_once Mock.twoParties
    [Mock.redeemNewBucket 1 0, Mock.redeemNewBucket 1 1] twoQuotes (by decide +kernel) hdistinct
    (fun account message ↦ ∃ signature, Mock.verify signature message account = true)
    (fun signature message account h ↦ ⟨signature, h⟩) hlength
  have halive : StepsMeet (step Mock.config) (fun s input ↦ ¬ Reaps 1 s input)
      (run (step Mock.config) Mock.twoParties.state [])
        [Mock.redeemNewBucket 1 0, Mock.redeemNewBucket 1 1] := by
    decide +kernel
  have hnonces := honce.2.1 1 [] [Mock.redeemNewBucket 1 0, Mock.redeemNewBucket 1 1] [] rfl
    (.inl rfl) halive
  rw [run_nil] at hnonces
  rw [hnonces]
  decide +kernel

/-- Account 1 redeems a quote, ends the agreement and deletes the bucket, and is reaped when it spends
the rest of its balance. -/
def redeemThenReap : List (Input ℕ) :=
  [Mock.redeemNewBucket 1 0, .call (.signed 1) (.endAgreement 0 2 .pay),
    .call (.signed 1) (.deleteBucket 0), .debit 1 9950, .reap 1, .credit 1 1000]

/-- A quote is redeemed a second time after its owner was reaped, with the nonce it had before. -/
theorem redeemed_again_after_reap :
    Redeems Mock.config Mock.twoParties.state (Mock.redeemNewBucket 1 0)
        ⟨.primary, Mock.newBucketTerms 1 0⟩ ∧
      Redeems Mock.config (run (step Mock.config) Mock.twoParties.state redeemThenReap)
        (Mock.redeemNewBucket 1 0) ⟨.primary, Mock.newBucketTerms 1 0⟩ := by
  have hredeemed (s : State ℕ)
      (h : (redeemed Mock.config s (Mock.redeemNewBucket 1 0)).map Redemption.quote =
        some ⟨.primary, Mock.newBucketTerms 1 0⟩) :
      Redeems Mock.config s (Mock.redeemNewBucket 1 0) ⟨.primary, Mock.newBucketTerms 1 0⟩ := by
    obtain ⟨redemption, hredemption, hquote⟩ := Option.map_eq_some_iff.mp h
    exact ⟨redemption, hredemption, by rw [hquote]⟩
  exact ⟨hredeemed _ (by decide +kernel), hredeemed _ (by decide +kernel)⟩

end Web3Storage.Pallet
