import Web3Storage.Pallet.Funding

/-!
# Bucket ids

Every agreement is on an existing bucket. A new bucket takes the value of a 64-bit counter that
saturates: below the last value the id is new (`nextBucketId_fresh`), and at the last value it stays
the same for ever. `run_churn_append` shows that the last value is reached: creating a bucket and deleting
it again changes nothing but the counter.
-/

set_option autoImplicit false
set_option relaxedAutoImplicit false

namespace Web3Storage.Pallet

open Foundations Primitives

variable {AccountId : Type} [DecidableEq AccountId] {cfg : Config AccountId}
  {s s' : State AccountId} {input : Input AccountId}

/-! ### Buckets and their counter -/

/-- Every agreement is on an existing bucket, and the buckets lie below the counter of ids until it
saturates. -/
structure BucketsIndexed (s : State AccountId) : Prop where
  mem_buckets : ∀ key ∈ s.storageAgreements, key.1 ∈ s.buckets
  lt_next : s.nextBucketId < u64Max → ∀ bucketId ∈ s.buckets, bucketId < s.nextBucketId

omit [DecidableEq AccountId] in
/-- Below its last value the counter gives a new id. -/
theorem BucketsIndexed.fresh (hs : BucketsIndexed s) (hnext : s.nextBucketId < u64Max) :
    s.buckets.lookup s.nextBucketId = none := by
  rw [Finmap.lookup_eq_none]
  intro hmem
  exact absurd (hs.lt_next hnext _ hmem) (lt_irrefl _)

/-- An id without a bucket has no agreements. -/
theorem BucketsIndexed.lookup_eq_none (hs : BucketsIndexed s) {bucketId : ℕ}
    (hbucket : s.buckets.lookup bucketId = none) (provider : AccountId) :
    s.storageAgreements.lookup (bucketId, provider) = none := by
  rw [Finmap.lookup_eq_none] at hbucket ⊢
  exact fun hmem ↦ hbucket (hs.mem_buckets _ hmem)

omit [DecidableEq AccountId] in
/-- A step that keeps the ids of buckets and adds no agreement. -/
private theorem BucketsIndexed.kept (hs : BucketsIndexed s)
    (hbuckets : ∀ id, id ∈ s'.buckets ↔ id ∈ s.buckets)
    (hagreements : ∀ key ∈ s'.storageAgreements, key ∈ s.storageAgreements)
    (hnext : s'.nextBucketId = s.nextBucketId) : BucketsIndexed s' := by
  refine ⟨fun key hkey ↦ ?_, fun hlt id hid ↦ ?_⟩
  · exact (hbuckets _).mpr (hs.mem_buckets key (hagreements key hkey))
  · rw [hnext] at hlt ⊢
    exact hs.lt_next hlt id ((hbuckets id).mp hid)

omit [DecidableEq AccountId] in
/-- A step that writes the bucket of the next id and agreements on it at most. -/
private theorem BucketsIndexed.created (hs : BucketsIndexed s) {bucket : Bucket AccountId}
    (hbuckets : s'.buckets = s.buckets.insert s.nextBucketId bucket)
    (hagreements : ∀ key ∈ s'.storageAgreements,
      key.1 = s.nextBucketId ∨ key ∈ s.storageAgreements)
    (hnext : s'.nextBucketId = saturatingAdd u64Max s.nextBucketId 1) : BucketsIndexed s' := by
  refine ⟨fun key hkey ↦ ?_, fun hlt id hid ↦ ?_⟩
  · rw [hbuckets, Finmap.mem_insert]
    rcases hagreements key hkey with hid | hmem
    · exact .inl hid
    · exact .inr (hs.mem_buckets key hmem)
  · rw [hnext, saturatingAdd] at hlt ⊢
    rw [hbuckets, Finmap.mem_insert] at hid
    rcases hid with rfl | hmem
    · omega
    · have hbelow := hs.lt_next (by omega) id hmem
      omega

private theorem mem_insert_of_lookup {K V : Type} [DecidableEq K] {m : FiniteMap K V} {key : K}
    {old : V} (hold : m.lookup key = some old) (new : V) (other : K) :
    other ∈ m.insert key new ↔ other ∈ m := by
  rw [Finmap.mem_insert]
  constructor
  · rintro (rfl | hmem)
    · exact Finmap.mem_of_lookup_eq_some hold
    · exact hmem
  · exact .inr

/-- The removal of a primary keeps the ids of the buckets. -/
theorem mem_removePrimaryFromBucket (buckets : FiniteMap ℕ (Bucket AccountId)) (bucketId id : ℕ)
    (provider : AccountId) :
    id ∈ removePrimaryFromBucket bucketId provider buckets ↔ id ∈ buckets := by
  unfold removePrimaryFromBucket
  split
  · exact Iff.rfl
  · rename_i bucket hbucket
    split
    · exact Iff.rfl
    · exact mem_insert_of_lookup hbucket _ id

/-- A bucket after the removal of a primary is the bucket it was, without that primary, or has lost
the place of the primary in its list and in its row of signers. -/
theorem lookup_removePrimaryFromBucket {buckets : FiniteMap ℕ (Bucket AccountId)} {bucketId id : ℕ}
    {provider : AccountId} {new : Bucket AccountId}
    (h : (removePrimaryFromBucket bucketId provider buckets).lookup id = some new) :
    (buckets.lookup id = some new ∧ (id = bucketId → provider ∉ new.primaryProviders)) ∨
      id = bucketId ∧ ∃ old pos, buckets.lookup id = some old ∧
        old.primaryProviders[pos]? = some provider ∧
          new = { old with
            primaryProviders := old.primaryProviders.eraseIdx pos
            snapshot := old.snapshot.map fun snapshot ↦ snapshot.removeSigner pos } := by
  unfold removePrimaryFromBucket at h
  cases hbucket : buckets.lookup bucketId with
  | none =>
    rw [hbucket] at h
    refine .inl ⟨h, ?_⟩
    rintro rfl
    rw [hbucket] at h
    cases h
  | some bucket =>
    rw [hbucket] at h
    simp only at h
    split at h
    · next hnone =>
      refine .inl ⟨h, ?_⟩
      rintro rfl
      cases hbucket.symm.trans h
      rw [List.findIdx?_eq_none_iff] at hnone
      intro hmem
      simpa using hnone provider hmem
    · next pos hpos =>
      rw [FiniteMap.lookup_insert_eq] at h
      split_ifs at h with hid
      · subst hid
        cases h
        obtain ⟨hlt, hplace, -⟩ := List.findIdx?_eq_some_iff_getElem.mp hpos
        refine .inr ⟨rfl, bucket, pos, hbucket, ?_, rfl⟩
        rw [List.getElem?_eq_getElem hlt, of_decide_eq_true hplace]
      · exact .inl ⟨h, fun hsame ↦ absurd hsame hid⟩

theorem slashProvider_buckets (challenge : Challenge AccountId) (challengeId : ChallengeId)
    (s : State AccountId) :
    (slashProviderForFailedChallenge cfg challenge challengeId s).buckets = s.buckets ∧
      (slashProviderForFailedChallenge cfg challenge challengeId s).nextBucketId =
        s.nextBucketId := by
  unfold slashProviderForFailedChallenge
  split
  · exact ⟨rfl, rfl⟩
  · exact ⟨rfl, rfl⟩

theorem Effect.bucketsIndexed (h : Effect cfg s input s') (hs : BucketsIndexed s) :
    BucketsIndexed s' := by
  cases h with
  | rejected origin call => exact hs.kept (fun _ ↦ .rfl) (fun _ hkey ↦ hkey) rfl
  | advanced block hnow hfits => exact hs.kept (fun _ ↦ .rfl) (fun _ hkey ↦ hkey) rfl
  | outside input ledger nonces hinput hheld htotal =>
    exact hs.kept (fun _ ↦ .rfl) (fun _ hkey ↦ hkey) rfl
  | registered who multiaddr publicKey info ledger events deposit hnew hcommitted hcapacity hactive
      hmoves => exact hs.kept (fun _ ↦ .rfl) (fun _ hkey ↦ hkey) rfl
  | providerChanged who call old new ledger events amount hold hcommitted hstake hcapacity hmoves =>
    exact hs.kept (fun _ ↦ .rfl) (fun _ hkey ↦ hkey) rfl
  | deregistered who old ledger events deposit hold hcommitted hpending hmoves =>
    exact hs.kept (fun _ ↦ .rfl) (fun _ hkey ↦ hkey) rfl
  | bucketCreated who minProviders visibility bucket ledger memberBuckets events gain hprimaries
      hsnapshot hfrozen hgain hmoves => exact hs.created rfl (fun _ hkey ↦ .inr hkey) rfl
  | bucketDeleted who bucketId ledger memberBuckets events loss hagreements hpending hloss hmoves =>
    refine ⟨fun key hkey ↦ ?_, fun hlt id hid ↦ ?_⟩
    · refine Finmap.mem_erase.mpr ⟨?_, hs.mem_buckets key hkey⟩
      intro hid
      exact Finmap.lookup_eq_none.mp (hagreements key.2) (hid ▸ hkey)
    · exact hs.lt_next hlt id (Finmap.mem_erase.mp hid).2
  | bucketChanged who call bucketId old new ledger memberBuckets events gain loss hold hprimaries
      hsnapshot hfrozen hgain hloss hmoves =>
    exact hs.kept (mem_insert_of_lookup hold new) (fun _ hkey ↦ hkey) rfl
  | checkpointed who bucketId commitment signatures old new bits signers events hok hold hpinned
      hsigned hprimaries hfrozen hsnapshot =>
    exact hs.kept (mem_insert_of_lookup hold new) (fun _ hkey ↦ hkey) rfl
  | checkpointExtended who bucketId signatures old new snapshot bits signers events hok hold
      hsnapshotOld hsigned hprimaries hfrozen hsnapshot =>
    exact hs.kept (mem_insert_of_lookup hold new) (fun _ hkey ↦ hkey) rfl
  | opened owner call bucketId provider terms signature target kind info agreement deposits ledger
      buckets nextBucketId nonces memberBuckets events hopening hbuckets hcall =>
    have hkeys : ∀ key ∈ s.storageAgreements.insert (bucketId, provider) agreement,
        key.1 = bucketId ∨ key ∈ s.storageAgreements := by
      intro key hkey
      rcases Finmap.mem_insert.mp hkey with rfl | hmem
      · exact .inl rfl
      · exact .inr hmem
    have hjoined (hbucket : bucketId ∈ s.buckets) :
        ∀ key ∈ s.storageAgreements.insert (bucketId, provider) agreement, key.1 ∈ s.buckets := by
      intro key hkey
      rcases hkeys key hkey with hid | hmem
      · rw [hid]
        exact hbucket
      · exact hs.mem_buckets key hmem
    cases hbuckets with
    | created bucket hid hprimaries hsnapshot hfrozen =>
      subst hid
      exact hs.created rfl hkeys rfl
    | joined bucket hbucket =>
      have hmem := mem_insert_of_lookup hbucket
      refine ⟨fun key hkey ↦ ?_, fun hlt id hid ↦ ?_⟩
      · exact (hmem _ _).mpr (hjoined (Finmap.mem_of_lookup_eq_some hbucket) key hkey)
      · exact hs.lt_next hlt id ((hmem _ _).mp hid)
    | replicated =>
      have hfree := hopening.target_free
      simp only [ensureTargetFree, bind_eq_ok, check_eq_ok] at hfree
      obtain ⟨-, hbucket, -⟩ := hfree
      exact ⟨hjoined (Finmap.lookup_isSome.mp hbucket), hs.lt_next⟩
  | toppedUp who bucketId provider additionalBytes maxPayment info old new ledger events hinfo
      hactive hold hrole hbytes hmoves =>
    exact hs.kept (fun _ ↦ .rfl) (fun key ↦ (mem_insert_of_lookup hold new key).mp) rfl
  | amended who call bucketId provider old new ledger stats events hold hrole hbytes hmoves =>
    exact hs.kept (fun _ ↦ .rfl) (fun key ↦ (mem_insert_of_lookup hold new key).mp) rfl
  | closed who call bucketId provider old ledger deposit stats events hpending hold hmoves =>
    refine hs.kept (fun id ↦ ?_) (fun key hkey ↦ (Finmap.mem_erase.mp hkey).2) rfl
    simp only
    split_ifs with hprimary
    · exact mem_removePrimaryFromBucket s.buckets bucketId id provider
    · exact Iff.rfl
  | challengeOpened who call bucketId provider bucket agreement commitment target challengeId
      challenge ledger events hcall hbucket hagreement hlive hleaf hdeadline hindex hbound
      hchallenge hmoves => exact hs.kept (fun _ ↦ .rfl) (fun _ hkey ↦ hkey) rfl
  | challengeAnswered who challengeId response challenge bucket paid ledger hchallenge hprovider
      hdeadline hbucket hresponse hpaid hmoves =>
    exact hs.kept (fun _ ↦ .rfl) (fun _ hkey ↦ hkey) rfl
  | challengeExpired origin challengeId challenge hchallenge hexpired =>
    refine hs.kept (fun id ↦ ?_) (fun key hkey ↦ ?_) (slashProvider_buckets challenge challengeId _).2
    · rw [(slashProvider_buckets challenge challengeId _).1]
    · rw [(slashProvider_escrow challenge challengeId _ challenge.provider).1] at hkey
      exact hkey

theorem Genesis.bucketsIndexed (genesis : Genesis cfg) : BucketsIndexed genesis.state := by
  refine genesis.induction BucketsIndexed ⟨fun key hkey ↦ ?_, fun _ id hid ↦ ?_⟩
    (fun _ _ _ _ _ _ _ hs _ h ↦ h.bucketsIndexed hs) (fun _ _ _ _ _ _ _ _ hs _ _ h ↦ h.bucketsIndexed hs)
  · exact absurd hkey Finmap.notMem_empty
  · exact absurd hid Finmap.notMem_empty

/-- In every reachable state the agreements have buckets and these lie below the counter. -/
theorem bucketsIndexed_run (genesis : Genesis cfg) (inputs : List (Input AccountId)) :
    BucketsIndexed (run (step cfg) genesis.state inputs) :=
  genesis.invariant_of_effect BucketsIndexed genesis.bucketsIndexed
    (fun _ _ _ _ hs h ↦ h.bucketsIndexed hs) inputs

/-- In every reachable state below the last value of the counter, a bucket creation takes an id that
no bucket and no agreement has. -/
theorem nextBucketId_fresh (genesis : Genesis cfg) (inputs : List (Input AccountId))
    (hnext : (run (step cfg) genesis.state inputs).nextBucketId < u64Max) :
    (run (step cfg) genesis.state inputs).buckets.lookup
        (run (step cfg) genesis.state inputs).nextBucketId = none ∧
      ∀ provider, (run (step cfg) genesis.state inputs).storageAgreements.lookup
        ((run (step cfg) genesis.state inputs).nextBucketId, provider) = none := by
  have hindexed := bucketsIndexed_run genesis inputs
  exact ⟨hindexed.fresh hnext, hindexed.lookup_eq_none (hindexed.fresh hnext)⟩

/-! ### The counter reaches its last value -/

section Churn

variable {who : AccountId} {minProviders : ℕ} {visibility : Visibility}
  {data : AccountData HoldReason}

/-- Dropping a ticket right after it was paid gives the ledger back. -/
private theorem dropTicket_of_newTicket {kind : RecordKind} {ledger : Funds AccountId}
    {ticketed : ℕ × Funds AccountId} (h : newTicket cfg who kind ledger = .ok ticketed)
    (hdata : ledger.lookup who = some data) :
    dropTicket who ticketed.1 ticketed.2 = .ok ledger := by
  simp only [newTicket, bind_eq_ok, pure_eq_ok, currency_eq_ok] at h
  obtain ⟨after, hhold, rfl⟩ := h
  unfold dropTicket
  rw [Ledger.release_of_hold hhold hdata]
  rfl

private theorem lookup_of_newTicket {kind : RecordKind} {ledger : Funds AccountId}
    {ticketed : ℕ × Funds AccountId} (h : newTicket cfg who kind ledger = .ok ticketed) :
    ∃ data, ticketed.2.lookup who = some data := by
  simp only [newTicket, bind_eq_ok, pure_eq_ok, currency_eq_ok] at h
  obtain ⟨after, hhold, rfl⟩ := h
  obtain ⟨-, -, -, rfl⟩ := Ledger.hold_eq_ok.mp hhold
  exact ⟨_, Finmap.lookup_insert _⟩

/-- Whether a bucket can be created depends neither on the counter nor on the events. -/
private theorem createBucket_of_createBucket
    (h : createBucket cfg who minProviders visibility s = .ok s') (next : ℕ)
    (events : List (Event AccountId)) :
    ∃ after, createBucket cfg who minProviders visibility
      { s with nextBucketId := next, events := events } = .ok after := by
  simp only [createBucket, createBucketInternal, bind_eq_ok, pure_eq_ok] at h ⊢
  obtain ⟨created, ⟨checked, hmin, memberTicket, hmember, checked', hmembers, checked'', hprimaries,
    bucketTicket, hbucket, done, hindexed, rfl⟩, rfl⟩ := h
  exact ⟨_, _, ⟨checked, hmin, memberTicket, hmember, checked', hmembers, checked'', hprimaries,
    bucketTicket, hbucket, done, hindexed, rfl⟩, rfl⟩

/-- A bucket that is deleted right after its creation leaves only the counter changed. Assumes: a
listed admin, the same price for both records of the bucket, and no other bucket. -/
theorem deleteBucket_of_createBucket (hdata : s.ledger.lookup who = some data)
    (hprice : cfg.storageDeposit .member = cfg.storageDeposit .bucket)
    (hbuckets : s.buckets = ∅) (hagreements : s.storageAgreements = ∅)
    (hpending : s.pendingChallengesByBucket = ∅) (hmembers : s.memberBuckets = ∅)
    (h : createBucket cfg who minProviders visibility s = .ok s') :
    deleteBucket who s.nextBucketId s'.withoutEvents = .ok { s with
      nextBucketId := saturatingAdd u64Max s.nextBucketId 1
      events := [.bucketDeleted s.nextBucketId] } := by
  simp only [createBucket, createBucketInternal, bind_eq_ok, pure_eq_ok] at h
  obtain ⟨created, ⟨-, -, memberTicket, hmemberTicket, -, -, -, -, bucketTicket, hbucketTicket, -,
    -, rfl⟩, rfl⟩ := h
  -- the tickets go back in the order they were paid, which the equal price allows
  obtain ⟨middle, hmiddle⟩ := lookup_of_newTicket hmemberTicket
  have hamount : memberTicket.1 = bucketTicket.1 := by
    rw [(newTicket_moves hmemberTicket).1, (newTicket_moves hbucketTicket).1, hprice]
  have hfirst := dropTicket_of_newTicket hbucketTicket hmiddle
  have hsecond := dropTicket_of_newTicket hmemberTicket hdata
  rw [← hamount] at hfirst
  rw [hamount] at hsecond
  have hunbound : FiniteMap.anyEntry (fun (key : ℕ × AccountId) (_ : StorageAgreement AccountId) ↦
      key.1 = s.nextBucketId) ∅ = false := rfl
  have hunchallenged : FiniteMap.anyEntry (fun (key : ℕ × AccountId) (_ : ℕ) ↦
      key.1 = s.nextBucketId) ∅ = false := rfl
  have hfreshBucket : s.buckets.lookup s.nextBucketId = none := by
    rw [hbuckets]
    rfl
  have hfreshMember : s.memberBuckets.lookup who = none := by
    rw [hmembers]
    rfl
  simp only [deleteBucket, State.withoutEvents, fetch, Finmap.lookup_insert, require_some, ok_bind,
    hagreements, hpending, ensureNoPendingChallenge, ensureAdmin, removeBucketInternal,
    releaseMembers, hfirst, check, List.any_cons, List.any_nil, decide_true, Bool.and_self,
    Bool.or_false, ensure_true, hsecond, hunbound, hunchallenged, Bool.not_false]
  simp only [FiniteMap.erase_insert_of_lookup_none hfreshBucket, removeFromMemberIndex,
    Finmap.lookup_insert, bucketsOf, hfreshMember, Option.getD_none, List.nil_append,
    List.filter_cons, List.filter_nil, ne_eq, not_true_eq_false, decide_false, Bool.false_eq_true,
    if_false, if_true, FiniteMap.erase_insert_of_lookup_none hfreshMember]
  rfl

/-- Create a bucket and delete it again, a number of times. -/
def churn (who : AccountId) : ℕ → List (Input AccountId)
  | 0 => []
  | count + 1 => churn who count ++
    [.call (.signed who) (.createBucket 1 .publicRead), .call (.signed who) (.deleteBucket count)]

/-- One creation and deletion moves the counter by one. -/
private theorem step_churn (hdata : s.ledger.lookup who = some data)
    (hprice : cfg.storageDeposit .member = cfg.storageDeposit .bucket)
    (hbuckets : s.buckets = ∅) (hagreements : s.storageAgreements = ∅)
    (hpending : s.pendingChallengesByBucket = ∅) (hmembers : s.memberBuckets = ∅)
    (hnext : s.nextBucketId < u64Max)
    (h : createBucket cfg who 1 .publicRead s.withoutEvents = .ok s') :
    step cfg (step cfg s (.call (.signed who) (.createBucket 1 .publicRead)))
        (.call (.signed who) (.deleteBucket s.nextBucketId)) =
      { s with
        nextBucketId := s.nextBucketId + 1
        events := [.bucketDeleted s.nextBucketId] } := by
  have hcreate : step cfg s (.call (.signed who) (.createBucket 1 .publicRead)) = s' := by
    simp only [step, Call.fits, dispatch, dispatchSigned, h]
    rfl
  have hdelete := deleteBucket_of_createBucket (s := s.withoutEvents) hdata hprice hbuckets
    hagreements hpending hmembers h
  have hfits : (Call.deleteBucket s.nextBucketId).fits cfg = true := by
    simpa [Call.fits] using hnext.le
  have hsum : saturatingAdd u64Max s.nextBucketId 1 = s.nextBucketId + 1 := saturatingAdd_of_le hnext
  rw [hcreate]
  simp only [State.withoutEvents] at hdelete
  simp only [step, hfits, dispatch, dispatchSigned, State.withoutEvents, hdelete, if_true, hsum]

/-- Creating and deleting buckets takes the counter to every value. Assumes: a state without buckets
whose counter stands at zero and an admin that can pay for one bucket. -/
theorem run_churn (hdata : s.ledger.lookup who = some data)
    (hprice : cfg.storageDeposit .member = cfg.storageDeposit .bucket)
    (hbuckets : s.buckets = ∅) (hagreements : s.storageAgreements = ∅)
    (hpending : s.pendingChallengesByBucket = ∅) (hmembers : s.memberBuckets = ∅)
    (hzero : s.nextBucketId = 0)
    (h : createBucket cfg who 1 .publicRead s = .ok s') (count : ℕ) (hcount : count ≤ u64Max) :
    ∃ events, run (step cfg) s (churn who count) =
      { s with nextBucketId := count, events := events } := by
  induction count with
  | zero =>
    refine ⟨s.events, ?_⟩
    change s = _
    rw [← hzero]
  | succ count ih =>
    obtain ⟨events, hrun⟩ := ih (by omega)
    obtain ⟨after, hafter⟩ := createBucket_of_createBucket h count []
    refine ⟨[.bucketDeleted count], ?_⟩
    rw [churn, run_append, hrun]
    have hround := step_churn (s := { s with nextBucketId := count, events := events }) hdata hprice
      hbuckets hagreements hpending hmembers hcount hafter
    exact hround

/-- A call does not see the events of the call before it. -/
private theorem run_call (origin : Origin AccountId) (call : Call AccountId)
    (rest : List (Input AccountId)) (events : List (Event AccountId)) :
    run (step cfg) { s with events := events } (.call origin call :: rest) =
      run (step cfg) s (.call origin call :: rest) :=
  rfl

/-- A run that goes on after the creations and deletions sees only the counter moved. -/
theorem run_churn_append (hdata : s.ledger.lookup who = some data)
    (hprice : cfg.storageDeposit .member = cfg.storageDeposit .bucket)
    (hbuckets : s.buckets = ∅) (hagreements : s.storageAgreements = ∅)
    (hpending : s.pendingChallengesByBucket = ∅) (hmembers : s.memberBuckets = ∅)
    (hzero : s.nextBucketId = 0)
    (h : createBucket cfg who 1 .publicRead s = .ok s') (origin : Origin AccountId)
    (call : Call AccountId) (rest : List (Input AccountId)) :
    run (step cfg) s (churn who u64Max ++ .call origin call :: rest) =
      run (step cfg) { s with nextBucketId := u64Max } (.call origin call :: rest) := by
  obtain ⟨events, hrun⟩ := run_churn hdata hprice hbuckets hagreements hpending hmembers hzero h
    u64Max le_rfl
  rw [run_append, hrun]
  exact run_call (s := { s with nextBucketId := u64Max }) origin call rest events

end Churn

end Web3Storage.Pallet
