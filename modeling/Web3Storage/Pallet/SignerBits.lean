import Web3Storage.Foundations.MarkedList
import Web3Storage.Pallet.FrozenBuckets
import Web3Storage.Pallet.Membership

/-!
# The signers of a snapshot

A snapshot keeps one bit for each primary provider, by its place in the list of the bucket. Five calls
change that list. `signer_bits_sound` says that the list of a bucket is the set of its primary
agreements, that the row of bits has its length, and that a set bit belongs to a provider whose
signature over the current commitment was verified while it has been a primary of the bucket without
a break.

One creation of a bucket breaks the first part. The counter of bucket ids saturates, and at its last
value a new bucket replaces the one that is stored there, whose primary agreements stay
(`primaries_replaced`). The results are about runs in which no creation replaces a bucket with a
primary that the new bucket does not start with.
-/

set_option autoImplicit false
set_option relaxedAutoImplicit false

namespace Web3Storage.Pallet

open Foundations Primitives

variable {AccountId : Type} [DecidableEq AccountId] {cfg : Config AccountId}
  {s s' : State AccountId} {input : Input AccountId} {bucketId : ℕ} {provider : AccountId}
  {commitment : Commitment}

/-! ### Primaries and their signatures -/

/-- A provider is in the list of primaries of a stored bucket. -/
def State.IsPrimary (s : State AccountId) (bucketId : ℕ) (provider : AccountId) : Prop :=
  ∃ bucket, s.buckets.lookup bucketId = some bucket ∧ provider ∈ bucket.primaryProviders

/-- A provider has an agreement in the role of a primary on a bucket. -/
def PrimaryOn (agreements : FiniteMap (ℕ × AccountId) (StorageAgreement AccountId)) (bucketId : ℕ)
    (provider : AccountId) : Prop :=
  ∃ agreement, agreements.lookup (bucketId, provider) = some agreement ∧
    agreement.role.isPrimary = true

/-- A verified signature of a provider over a commitment of a bucket is among some signatures. -/
def HasSigned (cfg : Config AccountId) (s : State AccountId) (bucketId : ℕ) (commitment : Commitment)
    (signatures : List (AccountId × MultiSignature)) (provider : AccountId) : Prop :=
  ∃ signature, (provider, signature) ∈ signatures ∧ verifySignature cfg s.providers signature
    (CommitmentPayload.new bucketId commitment).encode provider = .ok ()

/-- An accepted checkpoint of a bucket. -/
def Checkpoints (cfg : Config AccountId) (bucketId : ℕ) (s : State AccountId) :
    Input AccountId → Prop
  | .call origin (.checkpoint target commitment signatures) =>
    target = bucketId ∧ accepted cfg s origin (.checkpoint target commitment signatures) = true
  | _ => False

/-- An accepted checkpoint of a commitment that comes with a verified signature of a provider. -/
def SuppliesAtCheckpoint (cfg : Config AccountId) (bucketId : ℕ) (provider : AccountId)
    (commitment : Commitment) (s : State AccountId) : Input AccountId → Prop
  | .call origin (.checkpoint target submitted signatures) =>
    target = bucketId ∧ submitted = commitment ∧
      accepted cfg s origin (.checkpoint target submitted signatures) = true ∧
        HasSigned cfg s bucketId commitment signatures provider
  | _ => False

/-- An accepted extension of a bucket's snapshot that comes with a verified signature of a provider
over the commitment of the snapshot. -/
def SuppliesLate (cfg : Config AccountId) (bucketId : ℕ) (provider : AccountId)
    (commitment : Commitment) (s : State AccountId) : Input AccountId → Prop
  | .call origin (.extendCheckpoint target signatures) =>
    target = bucketId ∧ s.commitmentOf bucketId = some commitment ∧
      accepted cfg s origin (.extendCheckpoint target signatures) = true ∧
        HasSigned cfg s bucketId commitment signatures provider
  | _ => False

/-- A step that supplies a verified signature of a provider over a commitment of a bucket. -/
def Supplies (cfg : Config AccountId) (bucketId : ℕ) (provider : AccountId) (commitment : Commitment)
    (s : State AccountId) (input : Input AccountId) : Prop :=
  SuppliesAtCheckpoint cfg bucketId provider commitment s input ∨
    SuppliesLate cfg bucketId provider commitment s input

/-- The primary a new bucket starts with. -/
def Input.firstPrimary : Input AccountId → Option AccountId
  | .call _ (.createBucketWithPrimary provider _ _ _) => some provider
  | _ => none

/-- A creation of a bucket does not replace one that has a primary which the new bucket does not
start with. -/
def ReplacesNoPrimary (cfg : Config AccountId) (s : State AccountId) (input : Input AccountId) :
    Prop :=
  createsBucket cfg s input = true →
    ∀ p ∈ (s.buckets.lookup s.nextBucketId).elim [] (·.primaryProviders), input.firstPrimary = some p

instance (s : State AccountId) (input : Input AccountId) :
    Decidable (ReplacesNoPrimary cfg s input) := by
  unfold ReplacesNoPrimary
  infer_instance

/-! ### Verified signatures set bits -/

section Collect

variable {registry : FiniteMap AccountId ProviderInfo} {payload : Bytes} {primaries : List AccountId}
  {signatures : List (AccountId × MultiSignature)} {bits : List Bool} {signers : List AccountId}
  {collected : List Bool × List AccountId}

private theorem getElem?_of_findIdx? {index : ℕ} {signer : AccountId}
    (h : primaries.findIdx? (fun p ↦ p = signer) = some index) : primaries[index]? = some signer := by
  obtain ⟨hlt, hplace, -⟩ := List.findIdx?_eq_some_iff_getElem.mp h
  rw [List.getElem?_eq_getElem hlt, of_decide_eq_true hplace]

/-- The bits of a checkpoint are set for verified signers only. -/
theorem collectSigners_marked
    (h : collectSigners cfg registry payload primaries signatures bits signers = .ok collected) :
    collected.1.length = bits.length ∧ ∀ p, Marked primaries collected.1 p →
      Marked primaries bits p ∨ ∃ signature, (p, signature) ∈ signatures ∧
        verifySignature cfg registry signature payload p = .ok () := by
  induction signatures generalizing bits signers with
  | nil =>
    cases h
    exact ⟨rfl, fun p hp ↦ .inl hp⟩
  | cons entry rest ih =>
    obtain ⟨signer, signature⟩ := entry
    simp only [collectSigners, bind_eq_ok, fetch_eq_ok] at h
    obtain ⟨index, hindex, done, hverified, already, -, hrest⟩ := h
    obtain ⟨hlength, hmarks⟩ := ih hrest
    refine ⟨by rw [hlength, List.length_set], fun p hp ↦ ?_⟩
    rcases hmarks p hp with hset | ⟨later, hlater, hsigned⟩
    · rcases hset.of_set with hbefore | hplace
      · exact .inl hbefore
      · rw [getElem?_of_findIdx? hindex] at hplace
        cases hplace
        exact .inr ⟨signature, List.mem_cons_self, hverified⟩
    · exact .inr ⟨later, List.mem_cons_of_mem _ hlater, hsigned⟩

/-- An extension sets further bits for verified signers only. -/
theorem collectLateSigners_marked
    (h : collectLateSigners cfg registry payload primaries signatures bits signers = .ok collected) :
    collected.1.length = bits.length ∧ ∀ p, Marked primaries collected.1 p →
      Marked primaries bits p ∨ ∃ signature, (p, signature) ∈ signatures ∧
        verifySignature cfg registry signature payload p = .ok () := by
  induction signatures generalizing bits signers with
  | nil =>
    cases h
    exact ⟨rfl, fun p hp ↦ .inl hp⟩
  | cons entry rest ih =>
    obtain ⟨signer, signature⟩ := entry
    simp only [collectLateSigners, bind_eq_ok, fetch_eq_ok] at h
    obtain ⟨index, hindex, already, -, hrest⟩ := h
    split_ifs at hrest
    · obtain ⟨hlength, hmarks⟩ := ih hrest
      refine ⟨hlength, fun p hp ↦ ?_⟩
      rcases hmarks p hp with hbefore | ⟨later, hlater, hsigned⟩
      · exact .inl hbefore
      · exact .inr ⟨later, List.mem_cons_of_mem _ hlater, hsigned⟩
    · simp only [bind_eq_ok] at hrest
      obtain ⟨done, hverified, hrest⟩ := hrest
      obtain ⟨hlength, hmarks⟩ := ih hrest
      refine ⟨by rw [hlength, List.length_set], fun p hp ↦ ?_⟩
      rcases hmarks p hp with hset | ⟨later, hlater, hsigned⟩
      · rcases hset.of_set with hbefore | hplace
        · exact .inl hbefore
        · rw [getElem?_of_findIdx? hindex] at hplace
          cases hplace
          exact .inr ⟨signature, List.mem_cons_self, hverified⟩
      · exact .inr ⟨later, List.mem_cons_of_mem _ hlater, hsigned⟩

end Collect

/-! ### The row of one bucket -/

/-- The row of signers of a bucket has the length of its list of primaries and marks only those that
have signed. -/
def RowSound (signed : AccountId → Commitment → Prop) (bucket : Bucket AccountId) : Prop :=
  ∀ snapshot, bucket.snapshot = some snapshot →
    snapshot.primarySigners.length = bucket.primaryProviders.length ∧
      ∀ p, Marked bucket.primaryProviders snapshot.primarySigners p → signed p snapshot.commitment

section Rows

variable {signed signed' : AccountId → Commitment → Prop} {old new : Bucket AccountId}

omit [DecidableEq AccountId] in
theorem RowSound.of_none (h : new.snapshot = none) : RowSound signed new := by
  intro snapshot hsnapshot
  rw [h] at hsnapshot
  cases hsnapshot

omit [DecidableEq AccountId] in
/-- A bucket whose primaries and snapshot stay, while more is signed. -/
theorem RowSound.congr (h : RowSound signed old) (hprimaries : new.primaryProviders = old.primaryProviders)
    (hsnapshot : new.snapshot = old.snapshot) (himp : ∀ p c, signed p c → signed' p c) :
    RowSound signed' new := by
  intro snapshot hnew
  rw [hsnapshot] at hnew
  obtain ⟨hlength, hmarks⟩ := h snapshot hnew
  rw [hprimaries]
  exact ⟨hlength, fun p hp ↦ himp p _ (hmarks p hp)⟩

omit [DecidableEq AccountId] in
/-- A primary that joins comes with an unset bit. -/
theorem RowSound.joined (h : RowSound signed old) (provider : AccountId) :
    RowSound signed { old with
      primaryProviders := old.primaryProviders ++ [provider]
      snapshot := old.snapshot.map BucketSnapshot.pushUnset } := by
  intro snapshot hsnapshot
  obtain ⟨before, hbefore, rfl⟩ := Option.map_eq_some_iff.mp hsnapshot
  obtain ⟨hlength, hmarks⟩ := h before hbefore
  constructor
  · change (before.primarySigners ++ [false]).length = _
    rw [List.length_append, List.length_append, hlength]
    rfl
  · intro p hp
    exact hmarks p (Marked.of_concat hlength hp)

omit [DecidableEq AccountId] in
/-- A primary that leaves takes its bit with it. -/
theorem RowSound.removed (h : RowSound signed old) {pos : ℕ}
    (hpos : old.primaryProviders[pos]? = some provider) :
    RowSound signed { old with
      primaryProviders := old.primaryProviders.eraseIdx pos
      snapshot := old.snapshot.map fun snapshot ↦ snapshot.removeSigner pos } := by
  intro snapshot hsnapshot
  obtain ⟨before, hbefore, rfl⟩ := Option.map_eq_some_iff.mp hsnapshot
  obtain ⟨hlength, hmarks⟩ := h before hbefore
  obtain ⟨hlt, -⟩ := List.getElem?_eq_some_iff.mp hpos
  have hremoved : before.removeSigner pos =
      { before with primarySigners := before.primarySigners.eraseIdx pos } := by
    rw [BucketSnapshot.removeSigner, if_pos (by rw [hlength]; exact hlt)]
  rw [hremoved]
  constructor
  · change (before.primarySigners.eraseIdx pos).length = (old.primaryProviders.eraseIdx pos).length
    rw [List.length_eraseIdx, List.length_eraseIdx, hlength]
  · intro p hp
    exact hmarks p (Marked.of_eraseIdx hp)

end Rows

/-! ### One step -/

/-- Every stored bucket has a sound row. -/
def RowsSound (s : State AccountId) (signed : ℕ → AccountId → Commitment → Prop) : Prop :=
  ∀ bucketId bucket, s.buckets.lookup bucketId = some bucket → RowSound (signed bucketId) bucket

section Steps

variable {signed signed' : ℕ → AccountId → Commitment → Prop}

omit [DecidableEq AccountId] in
/-- A written bucket with a sound row. -/
private theorem RowsSound.insert (hs : RowsSound s signed)
    (himp : ∀ id p c, signed id p c → signed' id p c) {new : Bucket AccountId}
    (hbuckets : s'.buckets = s.buckets.insert bucketId new) (hnew : RowSound (signed' bucketId) new) :
    RowsSound s' signed' := by
  intro id bucket hbucket
  rw [hbuckets, FiniteMap.lookup_insert_eq] at hbucket
  split_ifs at hbucket with hid
  · subst hid
    cases hbucket
    exact hnew
  · exact (hs id bucket hbucket).congr rfl rfl (himp id)

/-- Every effect of an accepted input keeps the rows sound, with what it supplied. -/
theorem Effect.rowsSound (h : Effect cfg s input s') (hs : RowsSound s signed)
    (haccepted : ∀ origin call, input = .call origin call → accepted cfg s origin call = true) :
    RowsSound s' fun id p c ↦ signed id p c ∨ Supplies cfg id p c s input := by
  have himp : ∀ id p c, signed id p c → signed id p c ∨ Supplies cfg id p c s input :=
    fun id p c hsigned ↦ .inl hsigned
  have hsame : ∀ id bucket, s.buckets.lookup id = some bucket →
      RowSound (fun p c ↦ signed id p c ∨ Supplies cfg id p c s input) bucket :=
    fun id bucket hbucket ↦ (hs id bucket hbucket).congr rfl rfl (himp id)
  cases h with
  | rejected | advanced | outside | registered | providerChanged | deregistered | toppedUp | amended
  | challengeOpened | challengeAnswered => exact hsame
  | bucketCreated who minProviders visibility bucket ledger memberBuckets events gain hprimaries
      hsnapshot => exact hs.insert himp rfl (.of_none hsnapshot)
  | bucketDeleted who target =>
    intro id bucket hbucket
    simp only [FiniteMap.lookup_erase_eq] at hbucket
    split_ifs at hbucket
    exact hsame id bucket hbucket
  | bucketChanged who call target old new ledger memberBuckets events gain loss hold hprimaries
      hsnapshot => exact hs.insert himp rfl ((hsame target old hold).congr hprimaries hsnapshot
        fun _ _ h ↦ h)
  | checkpointed who target submitted signatures old new bits signers events hok hold hpinned hsigned
      hprimaries hfrozen hsnapshot =>
    refine hs.insert himp rfl fun snapshot hnew ↦ ?_
    cases hsnapshot.symm.trans hnew
    obtain ⟨hlength, hmarks⟩ := collectSigners_marked hsigned
    rw [hprimaries]
    refine ⟨by rw [hlength, List.length_replicate], fun p hp ↦ ?_⟩
    rcases hmarks p hp with hnone | hverified
    · exact absurd hnone (not_marked_replicate_false _)
    · exact .inr (.inl ⟨rfl, rfl, haccepted _ _ rfl, hverified⟩)
  | checkpointExtended who target signatures old new snapshot bits signers events hok hold
      hsnapshotOld hsigned hprimaries hfrozen hsnapshot =>
    refine hs.insert himp rfl fun extended hnew ↦ ?_
    cases hsnapshot.symm.trans hnew
    obtain ⟨hlength, hmarks⟩ := collectLateSigners_marked hsigned
    obtain ⟨hbefore, hmarked⟩ := hs target old hold snapshot hsnapshotOld
    rw [hprimaries]
    refine ⟨hlength.trans hbefore, fun p hp ↦ ?_⟩
    rcases hmarks p hp with hset | hverified
    · exact .inl (hmarked p hset)
    · refine .inr (.inr ⟨rfl, ?_, haccepted _ _ rfl, hverified⟩)
      rw [State.commitmentOf, hold, Option.bind_some, hsnapshotOld]
      rfl
  | opened owner call target provider terms signature bucketTarget kind info agreement deposits
      ledger buckets nextBucketId nonces memberBuckets events hopening hbuckets =>
    cases hbuckets with
    | created bucket hid hprimaries hsnapshot => exact hs.insert himp rfl (.of_none hsnapshot)
    | joined bucket hbucket => exact hs.insert himp rfl ((hsame target bucket hbucket).joined provider)
    | replicated => exact hsame
  | closed who call target provider old ledger deposit stats events hpending hold hmoves =>
    intro id bucket hbucket
    simp only at hbucket
    split_ifs at hbucket
    · obtain ⟨hkept, -⟩ | ⟨-, before, pos, hbefore, hpos, rfl⟩ :=
        lookup_removePrimaryFromBucket hbucket
      · exact hsame id bucket hkept
      · exact (hsame id before hbefore).removed hpos
    · exact hsame id bucket hbucket
  | challengeExpired origin challengeId challenge hchallenge hexpired =>
    intro id bucket hbucket
    rw [(slashProvider_buckets challenge challengeId _).1] at hbucket
    exact hsame id bucket hbucket

end Steps

/-! ### The primaries of one bucket -/

/-- The list of primaries of a bucket names nobody twice, and names the providers with a primary
agreement on it. -/
structure PrimariesExact
    (agreements : FiniteMap (ℕ × AccountId) (StorageAgreement AccountId)) (bucketId : ℕ)
    (bucket : Bucket AccountId) : Prop where
  nodup : bucket.primaryProviders.Nodup
  mem_iff : ∀ p, p ∈ bucket.primaryProviders ↔ PrimaryOn agreements bucketId p

section Primaries

variable {agreements agreements' : FiniteMap (ℕ × AccountId) (StorageAgreement AccountId)}
  {old new : Bucket AccountId} {agreement : StorageAgreement AccountId} {p : AccountId} {id : ℕ}

theorem primaryOn_insert : PrimaryOn (agreements.insert (bucketId, provider) agreement) id p ↔
    if (id, p) = (bucketId, provider) then agreement.role.isPrimary = true
      else PrimaryOn agreements id p := by
  unfold PrimaryOn
  rw [FiniteMap.lookup_insert_eq]
  split_ifs
  · constructor
    · rintro ⟨stored, hstored, hprimary⟩
      cases hstored
      exact hprimary
    · intro hprimary
      exact ⟨agreement, rfl, hprimary⟩
  · exact Iff.rfl

theorem primaryOn_erase : PrimaryOn (agreements.erase (bucketId, provider)) id p ↔
    (id, p) ≠ (bucketId, provider) ∧ PrimaryOn agreements id p := by
  unfold PrimaryOn
  rw [FiniteMap.lookup_erase_eq]
  split_ifs with hkey
  · constructor
    · rintro ⟨stored, hstored, -⟩
      cases hstored
    · rintro ⟨hne, -⟩
      exact absurd hkey hne
  · constructor
    · intro hprimary
      exact ⟨hkey, hprimary⟩
    · intro hboth
      exact hboth.2

/-- An agreement that is written again in the same role changes no primary. -/
theorem primaryOn_amended {before after : StorageAgreement AccountId}
    (hbefore : agreements.lookup (bucketId, provider) = some before)
    (hrole : after.role.isPrimary = before.role.isPrimary) :
    PrimaryOn (agreements.insert (bucketId, provider) after) id p ↔ PrimaryOn agreements id p := by
  rw [primaryOn_insert]
  split_ifs with hkey
  · rw [hrole]
    obtain ⟨rfl, rfl⟩ := Prod.mk.inj hkey
    constructor
    · intro hprimary
      exact ⟨before, hbefore, hprimary⟩
    · rintro ⟨stored, hstored, hprimary⟩
      cases hbefore.symm.trans hstored
      exact hprimary
  · exact Iff.rfl

theorem not_primaryOn_of_none (h : agreements.lookup (bucketId, provider) = none) :
    ¬ PrimaryOn agreements bucketId provider := by
  rintro ⟨stored, hstored, -⟩
  cases h.symm.trans hstored

theorem PrimariesExact.congr (h : PrimariesExact agreements bucketId old)
    (hprimaries : new.primaryProviders = old.primaryProviders)
    (hsame : ∀ p, PrimaryOn agreements' bucketId p ↔ PrimaryOn agreements bucketId p) :
    PrimariesExact agreements' bucketId new := by
  constructor
  · rw [hprimaries]
    exact h.nodup
  · intro p
    rw [hprimaries, hsame]
    exact h.mem_iff p

/-- A new bucket without primaries. -/
theorem PrimariesExact.empty (hprimaries : new.primaryProviders = [])
    (hnone : ∀ p, ¬ PrimaryOn agreements bucketId p) : PrimariesExact agreements bucketId new := by
  constructor
  · rw [hprimaries]
    exact List.nodup_nil
  · intro p
    rw [hprimaries]
    exact iff_of_false List.not_mem_nil (hnone p)

/-- A new bucket with a first primary. -/
theorem PrimariesExact.first (hprimaries : new.primaryProviders = [provider])
    (hrole : agreement.role.isPrimary = true)
    (honly : ∀ p, PrimaryOn agreements bucketId p → p = provider) :
    PrimariesExact (agreements.insert (bucketId, provider) agreement) bucketId new := by
  constructor
  · rw [hprimaries]
    exact List.nodup_singleton _
  · intro p
    rw [hprimaries, List.mem_singleton, primaryOn_insert]
    by_cases hp : p = provider
    · rw [if_pos (by rw [hp])]
      exact iff_of_true hp hrole
    · rw [if_neg (by simpa using hp)]
      exact iff_of_false hp fun hprimary ↦ hp (honly p hprimary)

/-- A bucket that a primary joins. -/
theorem PrimariesExact.joined (h : PrimariesExact agreements bucketId old)
    (hfree : agreements.lookup (bucketId, provider) = none)
    (hrole : agreement.role.isPrimary = true)
    (hprimaries : new.primaryProviders = old.primaryProviders ++ [provider]) :
    PrimariesExact (agreements.insert (bucketId, provider) agreement) bucketId new := by
  have hnew : provider ∉ old.primaryProviders := by
    rw [h.mem_iff]
    exact not_primaryOn_of_none hfree
  constructor
  · rw [hprimaries, List.nodup_append]
    refine ⟨h.nodup, List.nodup_singleton _, ?_⟩
    intro p hp other hother heq
    rw [List.mem_singleton] at hother
    exact hnew (hother ▸ heq ▸ hp)
  · intro p
    rw [hprimaries, List.mem_append, List.mem_singleton, primaryOn_insert]
    by_cases hp : p = provider
    · rw [if_pos (by rw [hp])]
      exact iff_of_true (.inr hp) hrole
    · rw [if_neg (by simpa using hp), ← h.mem_iff p]
      exact or_iff_left hp

/-- A bucket that a primary leaves. -/
theorem PrimariesExact.removed (h : PrimariesExact agreements bucketId old) {pos : ℕ}
    (hpos : old.primaryProviders[pos]? = some provider)
    (hprimaries : new.primaryProviders = old.primaryProviders.eraseIdx pos) :
    PrimariesExact (agreements.erase (bucketId, provider)) bucketId new := by
  constructor
  · rw [hprimaries]
    exact h.nodup.sublist (List.eraseIdx_sublist _ _)
  · intro p
    rw [hprimaries, mem_eraseIdx_of_nodup h.nodup hpos, h.mem_iff, primaryOn_erase]
    constructor
    · rintro ⟨hprimary, hne⟩
      exact ⟨by simpa using hne, hprimary⟩
    · rintro ⟨hne, hprimary⟩
      exact ⟨hprimary, by simpa using hne⟩

end Primaries

/-! ### Every bucket -/

/-- The list of primaries of every stored bucket is exact. -/
def ListsExact (s : State AccountId) : Prop :=
  ∀ bucketId bucket, s.buckets.lookup bucketId = some bucket →
    PrimariesExact s.storageAgreements bucketId bucket

/-- Buckets and agreements under other ids. -/
private theorem ListsExact.insert (hs : ListsExact s) {new : Bucket AccountId}
    (hbuckets : s'.buckets = s.buckets.insert bucketId new)
    (hothers : ∀ id p, id ≠ bucketId →
      (PrimaryOn s'.storageAgreements id p ↔ PrimaryOn s.storageAgreements id p))
    (hnew : PrimariesExact s'.storageAgreements bucketId new) : ListsExact s' := by
  intro id bucket hbucket
  rw [hbuckets, FiniteMap.lookup_insert_eq] at hbucket
  split_ifs at hbucket with hid
  · subst hid
    cases hbucket
    exact hnew
  · exact (hs id bucket hbucket).congr rfl fun p ↦ hothers id p hid

/-- The buckets stay while no primary agreement changes. -/
private theorem ListsExact.kept (hs : ListsExact s) (hbuckets : s'.buckets = s.buckets)
    (hsame : ∀ id p, PrimaryOn s'.storageAgreements id p ↔ PrimaryOn s.storageAgreements id p) :
    ListsExact s' := by
  intro id bucket hbucket
  rw [hbuckets] at hbucket
  exact (hs id bucket hbucket).congr rfl (hsame id)

/-- The agreements under the next id are those of the primaries of the bucket there. -/
private theorem primaryOn_next (hs : ListsExact s) (hindexed : BucketsIndexed s)
    (h : PrimaryOn s.storageAgreements s.nextBucketId provider) :
    provider ∈ (s.buckets.lookup s.nextBucketId).elim [] (·.primaryProviders) := by
  cases hbucket : s.buckets.lookup s.nextBucketId with
  | none =>
    have hfree := hindexed.lookup_eq_none hbucket provider
    exact absurd h (not_primaryOn_of_none hfree)
  | some bucket => exact ((hs _ bucket hbucket).mem_iff provider).mpr h

/-- The role of an opened agreement is the kind of its quote. -/
private theorem isPrimary_of_opening {owner : AccountId} {terms : AgreementTerms AccountId}
    {signature : MultiSignature} {target : BucketTarget} {kind : QuoteKind} {info : ProviderInfo}
    {agreement : StorageAgreement AccountId} {deposits : ℕ} {ledger : Funds AccountId}
    (h : Opening cfg s owner provider terms signature target kind info agreement deposits ledger) :
    agreement.role.isPrimary = (kind == .primary) := by
  obtain ⟨syncBalance, hquoted⟩ := h.role_eq
  exact quotedRole_isPrimary hquoted

/-- Every effect keeps the lists exact. Assumes: a created bucket replaces no primary but its own. -/
theorem Effect.listsExact (h : Effect cfg s input s') (hs : ListsExact s)
    (hindexed : BucketsIndexed s)
    (hreplaces : ∀ who call, input = .call (.signed who) call → call.createsBucket = true →
      ∀ p ∈ (s.buckets.lookup s.nextBucketId).elim [] (·.primaryProviders),
        input.firstPrimary = some p) : ListsExact s' := by
  cases h with
  | rejected | advanced | outside | registered | providerChanged | deregistered | challengeOpened
  | challengeAnswered => exact hs
  | bucketCreated who minProviders visibility bucket ledger memberBuckets events gain hprimaries =>
    refine hs.insert rfl (fun _ _ _ ↦ Iff.rfl) (.empty hprimaries fun p hp ↦ ?_)
    have hfirst := hreplaces who _ rfl rfl p (primaryOn_next hs hindexed hp)
    cases hfirst
  | bucketDeleted who target =>
    intro id bucket hbucket
    simp only [FiniteMap.lookup_erase_eq] at hbucket
    split_ifs at hbucket
    exact hs id bucket hbucket
  | bucketChanged who call target old new ledger memberBuckets events gain loss hold hprimaries =>
    exact hs.insert rfl (fun _ _ _ ↦ Iff.rfl) ((hs target old hold).congr hprimaries fun _ ↦ Iff.rfl)
  | checkpointed who target submitted signatures old new bits signers events hok hold hpinned hsigned
      hprimaries =>
    exact hs.insert rfl (fun _ _ _ ↦ Iff.rfl) ((hs target old hold).congr hprimaries fun _ ↦ Iff.rfl)
  | checkpointExtended who target signatures old new snapshot bits signers events hok hold
      hsnapshotOld hsigned hprimaries =>
    exact hs.insert rfl (fun _ _ _ ↦ Iff.rfl) ((hs target old hold).congr hprimaries fun _ ↦ Iff.rfl)
  | opened owner call target provider terms signature bucketTarget kind info agreement deposits
      ledger buckets nextBucketId nonces memberBuckets events hopening hbuckets hcall =>
    have hrole := isPrimary_of_opening hopening
    have hothers : ∀ id p, id ≠ target →
        (PrimaryOn (s.storageAgreements.insert (target, provider) agreement) id p ↔
          PrimaryOn s.storageAgreements id p) := by
      intro id p hid
      rw [primaryOn_insert, if_neg]
      intro hkey
      exact hid (Prod.mk.inj hkey).1
    cases hbuckets with
    | created bucket hid hprimaries =>
      subst hid
      obtain ⟨visibility, rfl⟩ := hcall rfl
      refine hs.insert rfl hothers (.first hprimaries hrole fun p hp ↦ ?_)
      have hfirst := hreplaces owner _ rfl rfl p (primaryOn_next hs hindexed hp)
      exact (Option.some.inj hfirst).symm
    | joined bucket hbucket =>
      refine hs.insert rfl hothers ?_
      exact (hs target bucket hbucket).joined hopening.lookup_eq_none hrole rfl
    | replicated =>
      refine hs.kept rfl fun id p ↦ ?_
      rw [primaryOn_insert]
      split_ifs with hkey
      · obtain ⟨rfl, rfl⟩ := Prod.mk.inj hkey
        have hnone := not_primaryOn_of_none hopening.lookup_eq_none
        rw [hrole]
        exact iff_of_false (by decide) hnone
      · exact Iff.rfl
  | toppedUp who target provider additionalBytes maxPayment info old new ledger events hinfo hactive
      hold hrole => exact hs.kept rfl fun id p ↦ primaryOn_amended hold (by rw [hrole])
  | amended who call target provider old new ledger stats events hold hrole =>
    exact hs.kept rfl fun id p ↦ primaryOn_amended hold hrole
  | closed who call target provider old ledger deposit stats events hpending hold hmoves =>
    intro id bucket hbucket
    simp only at hbucket
    by_cases hprimary : old.role.isPrimary = true
    · rw [if_pos hprimary] at hbucket
      obtain ⟨hkept, habsent⟩ | ⟨rfl, before, pos, hbefore, hpos, rfl⟩ :=
        lookup_removePrimaryFromBucket hbucket
      · refine (hs id bucket hkept).congr rfl fun p ↦ ?_
        rw [primaryOn_erase]
        refine and_iff_right_of_imp fun hp hkey ↦ ?_
        obtain ⟨rfl, rfl⟩ := Prod.mk.inj hkey
        exact habsent rfl (((hs _ bucket hkept).mem_iff _).mpr hp)
      · exact (hs id before hbefore).removed hpos rfl
    · rw [if_neg hprimary] at hbucket
      refine (hs id bucket hbucket).congr rfl fun p ↦ ?_
      rw [primaryOn_erase]
      refine and_iff_right_of_imp fun hp hkey ↦ ?_
      obtain ⟨rfl, rfl⟩ := Prod.mk.inj hkey
      obtain ⟨stored, hstored, hrole⟩ := hp
      cases hold.symm.trans hstored
      exact hprimary hrole
  | challengeExpired origin challengeId challenge hchallenge hexpired =>
    have hbuckets (state : State AccountId) :
        (slashProviderForFailedChallenge cfg challenge challengeId state).buckets = state.buckets :=
      (slashProvider_buckets challenge challengeId state).1
    have hagreements (state : State AccountId) :
        (slashProviderForFailedChallenge cfg challenge challengeId state).storageAgreements =
          state.storageAgreements :=
      (slashProvider_escrow challenge challengeId state challenge.provider).1
    refine hs.kept (hbuckets _) fun id p ↦ ?_
    rw [hagreements]

/-! ### Whole runs -/

omit [DecidableEq AccountId] in
/-- A row of signers names primaries of its bucket. -/
private theorem RowsSound.isPrimary {signed : ℕ → AccountId → Commitment → Prop}
    (hs : RowsSound s signed) :
    RowsSound s fun id p c ↦ s.IsPrimary id p ∧ signed id p c := by
  intro id bucket hbucket snapshot hsnapshot
  obtain ⟨hlength, hmarks⟩ := hs id bucket hbucket snapshot hsnapshot
  refine ⟨hlength, fun p hp ↦ ⟨⟨bucket, hbucket, hp.mem⟩, hmarks p hp⟩⟩

/-- A step that meets the condition keeps the lists exact and the rows sound. -/
private theorem sound_step {signed : ℕ → AccountId → Commitment → Prop} (hfunded : Funded s)
    (hindexed : BucketsIndexed s) (hlists : ListsExact s) (hrows : RowsSound s signed)
    (hreplaces : ReplacesNoPrimary cfg s input) :
    ListsExact (step cfg s input) ∧ RowsSound (step cfg s input) fun id p c ↦
      (step cfg s input).IsPrimary id p ∧ (signed id p c ∨ Supplies cfg id p c s input) := by
  have heffect : Effect cfg s input (step cfg s input) := effect_of_step hfunded input
  by_cases hrefused : ∃ origin call, input = .call origin call ∧ accepted cfg s origin call = false
  · obtain ⟨origin, call, rfl, hfalse⟩ := hrefused
    rw [step_of_refused hfalse]
    refine ⟨hlists, RowsSound.isPrimary fun id bucket hbucket ↦ ?_⟩
    exact (hrows id bucket hbucket).congr rfl rfl fun p c hsigned ↦ .inl hsigned
  · have haccepted : ∀ origin call, input = .call origin call →
        accepted cfg s origin call = true := by
      intro origin call hinput
      by_contra hfalse
      exact hrefused ⟨origin, call, hinput, by simpa using hfalse⟩
    refine ⟨heffect.listsExact hlists hindexed ?_, (heffect.rowsSound hrows haccepted).isPrimary⟩
    rintro who call rfl hcreates
    apply hreplaces
    have hcall := haccepted _ _ rfl
    unfold accepted at hcall
    rw [createsBucket, hcreates, Bool.true_and]
    exact hcall

private theorem Genesis.listsExact (genesis : Genesis cfg) : ListsExact genesis.state := by
  have hboth : BucketsIndexed genesis.state ∧ ListsExact genesis.state ∧
      genesis.state.storageAgreements = ∅ := by
    refine genesis.induction (fun s ↦ BucketsIndexed s ∧ ListsExact s ∧ s.storageAgreements = ∅) ?_ ?_ ?_
    · refine ⟨⟨fun key hkey ↦ absurd hkey Finmap.notMem_empty,
        fun _ id hid ↦ absurd hid Finmap.notMem_empty⟩, fun id bucket hbucket ↦ ?_, rfl⟩
      cases hbucket
    · rintro s who multiaddr publicKey info ledger events ⟨hindexed, hlists, hnone⟩ _ h
      exact ⟨h.bucketsIndexed hindexed, hlists, hnone⟩
    · rintro s who minProviders visibility bucket ledger memberBuckets events
        ⟨hindexed, hlists, hnone⟩ hprimaries hsnapshot h
      refine ⟨h.bucketsIndexed hindexed, ?_, hnone⟩
      refine hlists.insert rfl (fun _ _ _ ↦ Iff.rfl) (.empty hprimaries ?_)
      rintro p ⟨stored, hstored, -⟩
      change s.storageAgreements.lookup _ = _ at hstored
      rw [hnone] at hstored
      cases hstored
  exact hboth.2.1

private theorem Genesis.rowsSound (genesis : Genesis cfg)
    (signed : ℕ → AccountId → Commitment → Prop) : RowsSound genesis.state signed := by
  refine genesis.induction (fun s ↦ RowsSound s signed) ?_ ?_ ?_
  · intro id bucket hbucket
    cases hbucket
  · intro s who multiaddr publicKey info ledger events hrows _ h
    exact hrows
  · intro s who minProviders visibility bucket ledger memberBuckets events hrows hprimaries hsnapshot h
    exact hrows.insert (fun _ _ _ h ↦ h) rfl (.of_none hsnapshot)

/-- The invariant along a run: the lists are exact, and the rows mark those whose signature was
supplied while they have been primaries since. -/
private theorem sound_run (genesis : Genesis cfg) (inputs : List (Input AccountId))
    (hinputs : StepsMeet (step cfg) (ReplacesNoPrimary cfg) genesis.state inputs) :
    ListsExact (run (step cfg) genesis.state inputs) ∧
      RowsSound (run (step cfg) genesis.state inputs) fun id p c ↦
        Since (step cfg) (Supplies cfg id p c) (fun state ↦ state.IsPrimary id p) genesis.state
          inputs := by
  induction inputs using List.reverseRecOn with
  | nil => exact ⟨genesis.listsExact, genesis.rowsSound _⟩
  | append_singleton before input ih =>
    obtain ⟨hlists, hrows⟩ := ih hinputs.left
    have hstep := sound_step (funded_run cfg genesis.funded before) (bucketsIndexed_run genesis before)
      hlists hrows hinputs.right.1
    rw [run_concat]
    simp only [since_concat]
    exact hstep

/-- The signer bits are sound. Assumes: a run from genesis in which no created bucket replaces one with
a primary that it does not start with. In its last state, and so in every state on the way, the list
of primaries of a bucket names nobody twice and is the set of the providers with a primary agreement
on it; the row of signers has the length of that list; and a set bit belongs to a provider whose
signature over the current commitment an accepted call supplied and who has been a primary of the
bucket ever since. If it was not a primary at some point, and no checkpoint of the bucket was accepted
after that point, the signature was supplied after it by an extension of the snapshot. -/
theorem signer_bits_sound (genesis : Genesis cfg) (inputs : List (Input AccountId))
    (hinputs : StepsMeet (step cfg) (ReplacesNoPrimary cfg) genesis.state inputs)
    (bucketId : ℕ) (bucket : Bucket AccountId)
    (hbucket : (run (step cfg) genesis.state inputs).buckets.lookup bucketId = some bucket) :
    bucket.primaryProviders.Nodup ∧
    (∀ p, p ∈ bucket.primaryProviders ↔
      PrimaryOn (run (step cfg) genesis.state inputs).storageAgreements bucketId p) ∧
    ∀ snapshot, bucket.snapshot = some snapshot →
      snapshot.primarySigners.length = bucket.primaryProviders.length ∧
      ∀ (i : ℕ) (p : AccountId), bucket.primaryProviders[i]? = some p →
        snapshot.primarySigners[i]? = some true →
          Since (step cfg) (Supplies cfg bucketId p snapshot.commitment)
            (fun state ↦ state.IsPrimary bucketId p) genesis.state inputs ∧
          ∀ before after, inputs = before ++ after →
            ¬ (run (step cfg) genesis.state before).IsPrimary bucketId p →
              StepsMeet (step cfg) (fun state input ↦ ¬ Checkpoints cfg bucketId state input)
                (run (step cfg) genesis.state before) after →
                Since (step cfg) (SuppliesLate cfg bucketId p snapshot.commitment)
                  (fun state ↦ state.IsPrimary bucketId p) (run (step cfg) genesis.state before)
                  after := by
  obtain ⟨hlists, hrows⟩ := sound_run genesis inputs hinputs
  refine ⟨(hlists bucketId bucket hbucket).nodup, (hlists bucketId bucket hbucket).mem_iff, ?_⟩
  intro snapshot hsnapshot
  obtain ⟨hlength, hmarks⟩ := hrows bucketId bucket hbucket snapshot hsnapshot
  refine ⟨hlength, fun i p hp hbit ↦ ?_⟩
  have hsince := hmarks p ⟨i, hp, hbit⟩
  refine ⟨hsince, ?_⟩
  rintro before after rfl hbefore hafter
  refine (hsince.right hbefore).of_stepsMeet hafter fun state input hnone hsupplies ↦ ?_
  rcases hsupplies with hcheckpoint | hlate
  · -- a checkpoint that supplies a signature is an accepted checkpoint
    refine absurd ?_ hnone
    unfold SuppliesAtCheckpoint at hcheckpoint
    split at hcheckpoint
    · exact ⟨hcheckpoint.1, hcheckpoint.2.2.1⟩
    · exact hcheckpoint.elim
  · exact hlate

/-! ### Runs on the mock runtime -/

/-- A bucket with a primary, and a checkpoint that it signed. -/
def checkpointOne : List (Input ℕ) := [Mock.redeemLong, Mock.checkpointSigned Mock.oneLeaf]

theorem signer_bits_sound_one :
    ∃ bucket snapshot, (run (step Mock.config) Mock.twoParties.state checkpointOne).buckets.lookup 0 =
        some bucket ∧ bucket.snapshot = some snapshot ∧ snapshot.primarySigners[0]? = some true ∧
      Since (step Mock.config) (Supplies Mock.config 0 2 Mock.oneLeaf)
        (fun state ↦ state.IsPrimary 0 2) Mock.twoParties.state checkpointOne := by
  have hfound : (((run (step Mock.config) Mock.twoParties.state checkpointOne).buckets.lookup 0).bind
      fun bucket ↦ bucket.snapshot.map fun snapshot ↦
        (bucket.primaryProviders, snapshot.primarySigners, snapshot.commitment)) =
          some ([2], [true], Mock.oneLeaf) := by
    decide +kernel
  obtain ⟨bucket, hbucket, hrest⟩ := Option.bind_eq_some_iff.mp hfound
  obtain ⟨snapshot, hsnapshot, hvalues⟩ := Option.map_eq_some_iff.mp hrest
  obtain ⟨hprimaries, hvalues⟩ := Prod.mk.inj hvalues
  obtain ⟨hsigners, hcommitment⟩ := Prod.mk.inj hvalues
  have hbit : snapshot.primarySigners[0]? = some true := by rw [hsigners]; rfl
  have hsound := signer_bits_sound Mock.twoParties checkpointOne (by decide +kernel) 0 bucket hbucket
  refine ⟨bucket, snapshot, hbucket, hsnapshot, hbit, ?_⟩
  rw [← hcommitment]
  exact (((hsound.2.2 snapshot hsnapshot).2 0 2 (by rw [hprimaries]; rfl)) hbit).1

/-- After all ids but the last are used up, a bucket with a primary takes the last one, and another
bucket is created. -/
def replaceLastBucket : List (Input ℕ) :=
  churn 1 u64Max ++ [Mock.redeemNewBucket 2 0, .call (.signed 1) (.createBucket 1 .publicRead)]

/-- The second bucket replaces the first: the provider still has its primary agreement, but is not in
the list. -/
theorem primaries_replaced :
    ∃ bucket, (run (step Mock.config) Mock.twoParties.state replaceLastBucket).buckets.lookup u64Max =
        some bucket ∧ 2 ∉ bucket.primaryProviders ∧
      PrimaryOn (run (step Mock.config) Mock.twoParties.state replaceLastBucket).storageAgreements
        u64Max 2 := by
  have hcreated : isOk (createBucket Mock.config 1 1 .publicRead Mock.twoParties.state) = true := by
    decide +kernel
  have hrun : run (step Mock.config) Mock.twoParties.state replaceLastBucket =
      run (step Mock.config) { Mock.twoParties.state with nextBucketId := u64Max }
        [Mock.redeemNewBucket 2 0, .call (.signed 1) (.createBucket 1 .publicRead)] :=
    run_churn_append rfl rfl rfl rfl rfl rfl rfl
      (Mock.eq_ok_getD_of_isOk Mock.twoParties.state hcreated) _ _ _
  rw [hrun]
  have hlist : ((run (step Mock.config) { Mock.twoParties.state with nextBucketId := u64Max }
      [Mock.redeemNewBucket 2 0, .call (.signed 1) (.createBucket 1 .publicRead)]).buckets.lookup
        u64Max).map Bucket.primaryProviders = some [] := by
    decide +kernel
  have hrole : ((run (step Mock.config) { Mock.twoParties.state with nextBucketId := u64Max }
      [Mock.redeemNewBucket 2 0, .call (.signed 1) (.createBucket 1 .publicRead)]).storageAgreements.lookup
        (u64Max, 2)).map (fun agreement ↦ agreement.role.isPrimary) = some true := by
    decide +kernel
  obtain ⟨bucket, hbucket, hprimaries⟩ := Option.map_eq_some_iff.mp hlist
  obtain ⟨agreement, hagreement, hprimary⟩ := Option.map_eq_some_iff.mp hrole
  refine ⟨bucket, hbucket, ?_, agreement, hagreement, hprimary⟩
  rw [hprimaries]
  exact List.not_mem_nil

end Web3Storage.Pallet
