import Web3Storage.Foundations.WindowSlot
import Web3Storage.Pallet.Membership

/-!
# The recorded history of a bucket

A replica may lag behind the current snapshot, so a bucket keeps six earlier commitments, each for the
window of a number of blocks. `historical_roots_scheduled` relates them to the checkpoints of the
bucket: every place stands in the window of the last checkpoint and holds the commitment of the first
checkpoint there. The first window is the one exception, because a new bucket stands in it already: its
places hold no commitment until the window is over. A replica can match no root but one that a
checkpoint of the bucket installed.
-/

set_option autoImplicit false
set_option relaxedAutoImplicit false

namespace Web3Storage.Pallet

open Foundations Primitives

variable {AccountId : Type} [DecidableEq AccountId] {cfg : Config AccountId}
  {s s' : State AccountId} {input : Input AccountId} {bucketId : ℕ}

/-! ### The checkpoints of a bucket -/

/-- The accepted checkpoints of a bucket, with their blocks, after one more step. A new bucket has
none. -/
def recordCheckpoint (cfg : Config AccountId) (bucketId : ℕ) (s : State AccountId)
    (history : List (ℕ × Commitment)) : Input AccountId → List (ℕ × Commitment)
  | .call origin (.checkpoint target commitment signatures) =>
    if target = bucketId ∧ accepted cfg s origin (.checkpoint target commitment signatures) = true then
      history ++ [(s.anchorBlock, commitment)]
    else history
  | input =>
    if createsBucket cfg s input = true ∧ s.nextBucketId = bucketId then [] else history

/-- The accepted checkpoints of a bucket along a run, after those before it. -/
def checkpointHistory (cfg : Config AccountId) (bucketId : ℕ) :
    State AccountId → List (ℕ × Commitment) → List (Input AccountId) → List (ℕ × Commitment)
  | _, history, [] => history
  | s, history, input :: rest =>
    checkpointHistory cfg bucketId (step cfg s input) (recordCheckpoint cfg bucketId s history input) rest

/-- The roots of a new bucket after some checkpoints. -/
def rootsAfter (history : List (ℕ × Commitment)) : Fin 6 → ℕ × Commitment :=
  history.foldl (fun roots entry ↦ updateHistoricalRoots roots entry.1 entry.2)
    fun _ ↦ (0, Commitment.default)

/-! ### The schedule -/

section Schedule

variable {history : List (ℕ × Commitment)}

/-- A place is a slot for its window. -/
theorem rootsAfter_apply (hfits : ∀ entry ∈ history, entry.1 ≤ u32Max) (i : Fin 6) :
    rootsAfter history i = (history.map fun entry ↦ (entry.1 / historicalRootPrimes i, entry.2)).foldl
      replaceSlot (0, Commitment.default) := by
  induction history using List.reverseRecOn with
  | nil => rfl
  | append_singleton earlier last ih =>
    have hlast := hfits last (List.mem_append_right _ List.mem_cons_self)
    have hearlier := ih fun entry hentry ↦ hfits entry (List.mem_append_left _ hentry)
    rw [rootsAfter, List.foldl_append, List.foldl_cons, List.foldl_nil, ← rootsAfter, List.map_append,
      List.foldl_append, ← hearlier]
    simp only [updateHistoricalRoots, if_pos hlast]
    rfl

/-- A place stands in the window of the last checkpoint, and after the first window holds the
commitment of the first checkpoint there. -/
theorem rootsAfter_spec (hfits : ∀ entry ∈ history, entry.1 ≤ u32Max)
    (hsorted : history.Pairwise fun first second ↦ first.1 ≤ second.1) {last : ℕ × Commitment}
    (hlast : history.getLast? = some last) (i : Fin 6) :
    (rootsAfter history i).1 = last.1 / historicalRootPrimes i ∧
      if (rootsAfter history i).1 = 0 then rootsAfter history i = (0, Commitment.default)
      else ∃ first, history.find? (fun entry ↦ entry.1 / historicalRootPrimes i =
        last.1 / historicalRootPrimes i) = some first ∧ (rootsAfter history i).2 = first.2 := by
  have hwindows : (history.map fun entry ↦ (entry.1 / historicalRootPrimes i, entry.2)).Pairwise
      fun first second ↦ first.1 ≤ second.1 := by
    rw [List.pairwise_map]
    exact hsorted.imp fun hle ↦ Nat.div_le_div_right hle
  obtain ⟨hwindow, -, hentry⟩ := foldl_replaceSlot (0, Commitment.default) hwindows
    fun entry _ ↦ Nat.zero_le _
  rw [← rootsAfter_apply hfits] at hwindow hentry
  rw [List.getLast?_map, hlast, Option.map_some, Option.getD_some] at hwindow
  refine ⟨hwindow, ?_⟩
  by_cases hzero : (rootsAfter history i).1 = 0
  · rw [if_pos hzero] at hentry ⊢
    exact hentry
  · rw [if_neg hzero] at hentry ⊢
    rw [List.find?_map, hwindow] at hentry
    obtain ⟨first, hfirst, hroot⟩ := Option.map_eq_some_iff.mp hentry
    refine ⟨first, hfirst, ?_⟩
    rw [← hroot]

end Schedule

/-! ### One step -/

/-- The record of a bucket in a state: its checkpoints happened in order, the last one has the
commitment of its snapshot, and its roots are what they left. -/
structure Recorded (s : State AccountId) (bucketId : ℕ) (history : List (ℕ × Commitment)) : Prop where
  clock_le : s.anchorBlock ≤ u32Max
  blocks_le : ∀ entry ∈ history, entry.1 ≤ s.anchorBlock
  sorted : history.Pairwise fun first second ↦ first.1 ≤ second.1
  roots : ∀ bucket, s.buckets.lookup bucketId = some bucket →
    bucket.historicalRoots = rootsAfter history ∧
      bucket.snapshot.map BucketSnapshot.commitment = history.getLast?.map Prod.snd

/-- The clock never goes back and stays within its width. -/
theorem Effect.clock_le (h : Effect cfg s input s') : s.anchorBlock ≤ s'.anchorBlock ∧
    (s.anchorBlock ≤ u32Max → s'.anchorBlock ≤ u32Max) := by
  cases h with
  | rejected | outside | registered | providerChanged | deregistered | bucketCreated | bucketDeleted
  | bucketChanged | checkpointed | checkpointExtended | opened | toppedUp | amended | closed
  | challengeOpened | challengeAnswered => exact ⟨le_rfl, id⟩
  | advanced block hnow hfits => exact ⟨hnow, fun _ ↦ hfits⟩
  | challengeExpired origin challengeId challenge hchallenge hexpired =>
    have hclock : ∀ state : State AccountId,
        (slashProviderForFailedChallenge cfg challenge challengeId state).anchorBlock =
          state.anchorBlock := by
      intro state
      unfold slashProviderForFailedChallenge
      split
      · rfl
      · rfl
    rw [hclock]
    exact ⟨le_rfl, id⟩

/-- Two buckets with the same recorded roots and the same commitment. -/
def SameRecord (old new : Bucket AccountId) : Prop :=
  new.historicalRoots = old.historicalRoots ∧
    new.snapshot.map BucketSnapshot.commitment = old.snapshot.map BucketSnapshot.commitment

omit [DecidableEq AccountId] in
/-- A written bucket with the record it had. -/
private theorem sameRecord_insert {target id : ℕ} {old new bucket : Bucket AccountId}
    (hold : s.buckets.lookup target = some old) (hsame : SameRecord old new)
    (hbucket : (s.buckets.insert target new).lookup id = some bucket) :
    ∃ before, s.buckets.lookup id = some before ∧ SameRecord before bucket := by
  rw [FiniteMap.lookup_insert_eq] at hbucket
  split_ifs at hbucket with hid
  · subst hid
    cases hbucket
    exact ⟨old, hold, hsame⟩
  · exact ⟨bucket, hbucket, rfl, rfl⟩

/-- A step that neither creates a bucket nor checkpoints one changes no record. -/
theorem Effect.sameRecord (h : Effect cfg s input s')
    (hcreates : ∀ origin call, input = .call origin call → call.createsBucket = false)
    (hcheckpoint : ∀ origin target commitment signatures,
      input ≠ .call origin (.checkpoint target commitment signatures))
    {new : Bucket AccountId} (hnew : s'.buckets.lookup bucketId = some new) :
    ∃ old, s.buckets.lookup bucketId = some old ∧ SameRecord old new := by
  cases h with
  | rejected | advanced | outside | registered | providerChanged | deregistered | toppedUp | amended
  | challengeOpened | challengeAnswered => exact ⟨new, hnew, rfl, rfl⟩
  | bucketCreated who minProviders visibility => cases hcreates _ _ rfl
  | bucketDeleted who target =>
    simp only [FiniteMap.lookup_erase_eq] at hnew
    split_ifs at hnew
    exact ⟨new, hnew, rfl, rfl⟩
  | bucketChanged who call target old changed ledger memberBuckets events gain loss hold hprimaries
      hsnapshot hfrozen hgain hloss hmoves hmembers hroots =>
    exact sameRecord_insert hold ⟨hroots, by rw [hsnapshot]⟩ hnew
  | checkpointed who target commitment signatures => exact absurd rfl (hcheckpoint _ _ _ _)
  | checkpointExtended who target signatures old changed snapshot bits signers events hok hold
      hsnapshotOld =>
    obtain ⟨bucket, current, signed, hbucket, hcurrent, -, hchanged⟩ := extendCheckpoint_ok hok
    have hbuckets := congrArg State.buckets hchanged
    simp only [State.withoutEvents] at hbuckets hbucket
    simp only [hbuckets] at hnew
    refine sameRecord_insert hbucket ?_ hnew
    refine ⟨rfl, ?_⟩
    rw [hcurrent]
    rfl
  | opened owner call target provider terms signature bucketTarget kind info agreement deposits
      ledger buckets nextBucketId nonces memberBuckets events hopening hbuckets hcall =>
    cases hbuckets with
    | created bucket hid =>
      obtain ⟨visibility, rfl⟩ := hcall rfl
      cases hcreates _ _ rfl
    | joined bucket hbucket =>
      refine sameRecord_insert hbucket ?_ hnew
      refine ⟨rfl, ?_⟩
      rw [Option.map_map]
      rfl
    | replicated => exact ⟨new, hnew, rfl, rfl⟩
  | closed who call target provider old ledger deposit stats events hpending hold hmoves =>
    simp only at hnew
    split_ifs at hnew
    · obtain ⟨hkept, -⟩ | ⟨-, before, pos, hbefore, -, rfl⟩ := lookup_removePrimaryFromBucket hnew
      · exact ⟨new, hkept, rfl, rfl⟩
      · refine ⟨before, hbefore, rfl, ?_⟩
        rw [Option.map_map]
        congr 1
        funext snapshot
        simp only [Function.comp_apply, BucketSnapshot.removeSigner]
        split_ifs
        · rfl
        · rfl
    · exact ⟨new, hnew, rfl, rfl⟩
  | challengeExpired origin challengeId challenge hchallenge hexpired =>
    rw [(slashProvider_buckets challenge challengeId _).1] at hnew
    exact ⟨new, hnew, rfl, rfl⟩

/-! ### Whole runs -/

omit [DecidableEq AccountId] in
/-- A step that leaves the record of the bucket alone. -/
private theorem Recorded.kept {history : List (ℕ × Commitment)} (hs : Recorded s bucketId history)
    (hclock : s.anchorBlock ≤ s'.anchorBlock) (hfits : s'.anchorBlock ≤ u32Max)
    (hsame : ∀ new, s'.buckets.lookup bucketId = some new →
      ∃ old, s.buckets.lookup bucketId = some old ∧ SameRecord old new) :
    Recorded s' bucketId history := by
  refine ⟨hfits, fun entry hentry ↦ (hs.blocks_le entry hentry).trans hclock, hs.sorted, ?_⟩
  intro new hnew
  obtain ⟨old, hold, hroots, hcommitment⟩ := hsame new hnew
  rw [hroots, hcommitment]
  exact hs.roots old hold

omit [DecidableEq AccountId] in
/-- A new bucket has no record. -/
private theorem Recorded.created {history : List (ℕ × Commitment)} (hs : Recorded s bucketId history)
    {target : ℕ} {bucket : Bucket AccountId} (hbuckets : s'.buckets = s.buckets.insert target bucket)
    (hclock : s'.anchorBlock = s.anchorBlock)
    (hroots : bucket.historicalRoots = fun _ ↦ (0, Commitment.default))
    (hsnapshot : bucket.snapshot = none) :
    Recorded s' bucketId (if target = bucketId then [] else history) := by
  split_ifs with htarget
  · subst htarget
    refine ⟨hclock ▸ hs.clock_le, fun entry hentry ↦ absurd hentry List.not_mem_nil, .nil, ?_⟩
    intro new hnew
    rw [hbuckets, Finmap.lookup_insert] at hnew
    cases hnew
    rw [hroots, hsnapshot]
    exact ⟨rfl, rfl⟩
  · refine ⟨hclock ▸ hs.clock_le, hclock ▸ hs.blocks_le, hs.sorted, fun new hnew ↦ ?_⟩
    rw [hbuckets, Finmap.lookup_insert_of_ne _ (Ne.symm htarget)] at hnew
    exact hs.roots new hnew

/-- An accepted checkpoint adds itself to the record of its bucket. -/
private theorem Recorded.checkpointed {history : List (ℕ × Commitment)}
    (hs : Recorded s bucketId history) {who : AccountId} {target : ℕ} {commitment : Commitment}
    {signatures : List (AccountId × MultiSignature)}
    (h : checkpoint cfg who target commitment signatures s.withoutEvents = .ok s') :
    Recorded s' bucketId
      (if target = bucketId then history ++ [(s.anchorBlock, commitment)] else history) := by
  obtain ⟨bucket, signed, hbucket, -, -, -, rfl⟩ := checkpoint_ok h
  split_ifs with htarget
  · subst htarget
    refine ⟨hs.clock_le, ?_, ?_, fun new hnew ↦ ?_⟩
    · intro entry hentry
      rcases List.mem_append.mp hentry with hmem | hmem
      · exact hs.blocks_le entry hmem
      · rw [List.mem_singleton.mp hmem]
        exact le_rfl
    · rw [List.pairwise_append]
      refine ⟨hs.sorted, List.pairwise_singleton _ _, fun entry hentry last hlast ↦ ?_⟩
      rw [List.mem_singleton.mp hlast]
      exact hs.blocks_le entry hentry
    · rw [Finmap.lookup_insert] at hnew
      cases hnew
      constructor
      · rw [rootsAfter, List.foldl_append, List.foldl_cons, List.foldl_nil, ← rootsAfter,
          ← (hs.roots bucket hbucket).1]
        rfl
      · rw [List.getLast?_append]
        rfl
  · refine ⟨hs.clock_le, hs.blocks_le, hs.sorted, fun new hnew ↦ ?_⟩
    rw [Finmap.lookup_insert_of_ne _ (Ne.symm htarget)] at hnew
    exact hs.roots new hnew

/-- A call from another origin than a signed one creates no bucket and makes no checkpoint. -/
private theorem signed_of_accepted {origin : Origin AccountId} {call : Call AccountId}
    (h : accepted cfg s origin call = true) :
    (∃ who, origin = .signed who) ∨ ∃ challengeId, call = .resolveExpiredChallenge challengeId := by
  have hdispatch := dispatch_of_accepted h
  unfold dispatch at hdispatch
  split at hdispatch
  · exact .inl ⟨_, rfl⟩
  · exact .inr ⟨_, rfl⟩
  · cases hdispatch

/-- An accepted creation writes a bucket without a record. -/
private theorem created_of_accepted {who : AccountId} {call : Call AccountId}
    (hcreates : call.createsBucket = true)
    (h : accepted cfg s (.signed who) call = true) :
    ∃ bucket, (step cfg s (.call (.signed who) call)).buckets =
        s.buckets.insert s.nextBucketId bucket ∧
      (step cfg s (.call (.signed who) call)).anchorBlock = s.anchorBlock ∧
        bucket.historicalRoots = (fun _ ↦ (0, Commitment.default)) ∧ bucket.snapshot = none := by
  have hdispatch : dispatchSigned cfg who call s.withoutEvents = _ := dispatch_of_accepted h
  generalize step cfg s (.call (.signed who) call) = after at hdispatch ⊢
  cases call with
  | createBucket minProviders visibility =>
    obtain ⟨ledger, bucket, -, -, hbucket, hafter⟩ :=
      createBucketInternal_ok (createBucket_ok hdispatch)
    simp only at hafter
    subst hafter
    exact ⟨bucket, rfl, rfl, by rw [hbucket], by rw [hbucket]⟩
  | createBucketWithPrimary provider terms signature visibility =>
    obtain ⟨info, agreement, bucket, ledger, deposits, -, hbucket, rfl⟩ :=
      createBucketWithPrimary_ok hdispatch
    exact ⟨bucket, rfl, rfl, by rw [hbucket], by rw [hbucket]⟩
  | _ => cases hcreates

/-- Every step keeps the record of a bucket. -/
private theorem recorded_step (hfunded : Funded s) {history : List (ℕ × Commitment)}
    (hs : Recorded s bucketId history) (input : Input AccountId) :
    Recorded (step cfg s input) bucketId (recordCheckpoint cfg bucketId s history input) := by
  have heffect : Effect cfg s input (step cfg s input) := effect_of_step hfunded input
  obtain ⟨hclock, hfits⟩ := heffect.clock_le
  have hother (hcreates : ∀ origin call, input = .call origin call → call.createsBucket = false)
      (hcheckpoint : ∀ origin target commitment signatures,
        input ≠ .call origin (.checkpoint target commitment signatures)) :
      Recorded (step cfg s input) bucketId history :=
    hs.kept hclock (hfits hs.clock_le) fun new hnew ↦
      heffect.sameRecord hcreates hcheckpoint hnew
  cases input with
  | advance | credit | debit | reap =>
    exact hother (fun _ _ ↦ nofun) fun _ _ _ _ ↦ nofun
  | call origin call =>
    by_cases haccepted : accepted cfg s origin call = true
    · by_cases hcheckpoint : ∃ target commitment signatures,
          call = .checkpoint target commitment signatures
      · obtain ⟨target, commitment, signatures, rfl⟩ := hcheckpoint
        obtain ⟨who, rfl⟩ | ⟨challengeId, hcall⟩ := signed_of_accepted haccepted
        · have hdispatch : checkpoint cfg who target commitment signatures s.withoutEvents = _ :=
            dispatch_of_accepted haccepted
          have hrecorded := hs.checkpointed hdispatch
          simp only [recordCheckpoint, haccepted, and_true]
          exact hrecorded
        · cases hcall
      · have hrecord : recordCheckpoint cfg bucketId s history (.call origin call) =
            if createsBucket cfg s (.call origin call) = true ∧ s.nextBucketId = bucketId then []
              else history := by
          unfold recordCheckpoint
          split
          · next heq =>
            cases heq
            exact absurd ⟨_, _, _, rfl⟩ hcheckpoint
          · rfl
        rw [hrecord]
        by_cases hcreates : call.createsBucket = true
        · obtain ⟨who, rfl⟩ | ⟨challengeId, hcall⟩ := signed_of_accepted haccepted
          · have hcreated : createsBucket cfg s (.call (.signed who) call) = true := by
              rw [createsBucket, hcreates, Bool.true_and]
              exact haccepted
            obtain ⟨bucket, hbuckets, hsame, hroots, hsnapshot⟩ :=
              created_of_accepted hcreates haccepted
            simp only [hcreated, true_and]
            exact hs.created hbuckets hsame hroots hsnapshot
          · subst hcall
            cases hcreates
        · have hnot : createsBucket cfg s (.call origin call) ≠ true := by
            intro hcreated
            cases origin with
            | signed who =>
              rw [createsBucket, Bool.and_eq_true, Bool.and_eq_true] at hcreated
              exact hcreates hcreated.1.1
            | root => cases hcreated
            | none => cases hcreated
          rw [if_neg fun hboth ↦ hnot hboth.1]
          refine hother ?_ ?_
          · intro origin' call' hinput
            cases hinput
            simpa using hcreates
          · rintro origin' target commitment signatures hinput
            cases hinput
            exact hcheckpoint ⟨_, _, _, rfl⟩
    · have hrefused : accepted cfg s origin call = false := by simpa using haccepted
      have hrecord : recordCheckpoint cfg bucketId s history (.call origin call) = history := by
        unfold recordCheckpoint
        split
        · next heq =>
          cases heq
          rw [if_neg fun hboth ↦ haccepted hboth.2]
        · rw [if_neg]
          rintro ⟨hcreated, -⟩
          cases origin with
          | signed who =>
            rw [createsBucket, Bool.and_assoc, Bool.and_eq_true] at hcreated
            exact haccepted hcreated.2
          | root => cases hcreated
          | none => cases hcreated
      rw [hrecord, step_of_refused hrefused]
      exact hs.kept le_rfl hs.clock_le fun new hnew ↦ ⟨new, hnew, rfl, rfl⟩

/-- Along a run the record of a bucket is its checkpoints. -/
private theorem recorded_run (hfunded : Funded s) {history : List (ℕ × Commitment)}
    (hs : Recorded s bucketId history) (inputs : List (Input AccountId)) :
    Recorded (run (step cfg) s inputs) bucketId (checkpointHistory cfg bucketId s history inputs) := by
  induction inputs generalizing s history with
  | nil => exact hs
  | cons input rest ih =>
    have heffect : Effect cfg s input (step cfg s input) := effect_of_step hfunded input
    exact ih (heffect.funded hfunded) (recorded_step hfunded hs input)

/-- No bucket of a genesis has a record. -/
private theorem recorded_genesis (genesis : Genesis cfg) : Recorded genesis.state bucketId [] := by
  have hclock : genesis.state.anchorBlock ≤ u32Max :=
    genesis.induction (fun s ↦ s.anchorBlock ≤ u32Max) (Nat.zero_le _)
      (fun _ _ _ _ _ _ _ hs _ _ ↦ hs) (fun _ _ _ _ _ _ _ _ hs _ _ _ ↦ hs)
  have hproviders : ∀ providers (s s' : State AccountId), s.buckets = ∅ →
      registerGenesisProviders cfg providers s = .ok s' → s'.buckets = ∅ := by
    intro providers
    induction providers with
    | nil =>
      intro s s' hs h
      cases h
      exact hs
    | cons p rest ih =>
      intro s s' hs h
      simp only [registerGenesisProviders, bind_eq_ok] at h
      obtain ⟨middle, hmiddle, hrest⟩ := h
      obtain ⟨ledger, info, -, -, -, -, -, rfl⟩ := registerProviderInternal_ok hmiddle
      refine ih _ _ ?_ hrest
      exact hs
  have hbuckets : ∀ entries (s s' : State AccountId),
      (∀ id bucket, s.buckets.lookup id = some bucket →
        bucket.historicalRoots = rootsAfter [] ∧ bucket.snapshot = none) →
        createGenesisBuckets cfg entries s = .ok s' →
          ∀ id bucket, s'.buckets.lookup id = some bucket →
            bucket.historicalRoots = rootsAfter [] ∧ bucket.snapshot = none := by
    intro entries
    induction entries with
    | nil =>
      intro s s' hs h
      cases h
      exact hs
    | cons entry rest ih =>
      intro s s' hs h
      simp only [createGenesisBuckets, bind_eq_ok] at h
      obtain ⟨created, hcreated, hrest⟩ := h
      obtain ⟨ledger, bucket, -, -, hbucket, hstate⟩ := createBucketInternal_ok hcreated
      refine ih _ _ (fun id new hnew ↦ ?_) hrest
      rw [hstate] at hnew
      simp only [FiniteMap.lookup_insert_eq] at hnew
      split_ifs at hnew
      · cases hnew
        rw [hbucket]
        exact ⟨rfl, rfl⟩
      · exact hs id new hnew
  have hbuilt := genesis.built
  simp only [buildGenesis, bind_eq_ok] at hbuilt
  obtain ⟨registered, hregistered, hcreated⟩ := hbuilt
  have hnone := hproviders _ _ _ rfl hregistered
  refine ⟨hclock, fun entry hentry ↦ absurd hentry List.not_mem_nil, .nil, fun bucket hbucket ↦ ?_⟩
  obtain ⟨hroots, hsnapshot⟩ := hbuckets _ _ _ (fun id bucket hempty ↦ by
    rw [hnone] at hempty
    cases hempty) hcreated bucketId bucket hbucket
  rw [hroots, hsnapshot]
  exact ⟨rfl, rfl⟩

omit [DecidableEq AccountId] in
/-- What a replica can match: the current snapshot at place 0, and a written place of the history at
the others. -/
theorem findMatchingRoot_ok {bucket : Bucket AccountId} {roots : Fin 7 → Option H256}
    {matched : ℕ × Commitment} (h : findMatchingRoot bucket roots = .ok matched) :
    (matched.1 = 0 ∧ bucket.snapshot.map BucketSnapshot.commitment = some matched.2) ∨
      ∃ i : Fin 6, matched.1 = i.val + 1 ∧ matched.2 = (bucket.historicalRoots i).2 ∧
        (bucket.historicalRoots i).2.mmrRoot ≠ H256.zero := by
  simp only [findMatchingRoot, fetch_eq_ok, Option.or_eq_some_iff] at h
  rcases h with hcurrent | ⟨-, hhistorical⟩
  · left
    simp only [Option.bind_eq_bind, Option.bind_eq_some_iff] at hcurrent
    obtain ⟨snapshot, hsnapshot, root, -, hmatch⟩ := hcurrent
    split_ifs at hmatch
    cases hmatch
    rw [hsnapshot]
    exact ⟨rfl, rfl⟩
  · right
    obtain ⟨i, -, hentry⟩ := List.exists_of_findSome?_eq_some hhistorical
    split_ifs at hentry with hwritten
    cases hentry
    exact ⟨i, rfl, rfl, hwritten.1⟩

/-- The historical roots follow their schedule. In every reachable state, for every bucket and its
accepted checkpoints since it was created: they happened in order, and the place of a prime stands in
the window of the last one and, unless that is the first window, holds the commitment of the first
checkpoint in the window. A replica matches only a commitment that one of them installed, and position
0 only for the current snapshot. -/
theorem historical_roots_scheduled (genesis : Genesis cfg) (inputs : List (Input AccountId))
    (bucketId : ℕ) (bucket : Bucket AccountId)
    (hbucket : (run (step cfg) genesis.state inputs).buckets.lookup bucketId = some bucket) :
    ((checkpointHistory cfg bucketId genesis.state [] inputs).Pairwise
      fun first second ↦ first.1 ≤ second.1) ∧
    (∀ last, (checkpointHistory cfg bucketId genesis.state [] inputs).getLast? = some last →
      ∀ i, (bucket.historicalRoots i).1 = last.1 / historicalRootPrimes i ∧
        ((bucket.historicalRoots i).1 ≠ 0 → ∃ first,
          (checkpointHistory cfg bucketId genesis.state [] inputs).find? (fun entry ↦
            entry.1 / historicalRootPrimes i = last.1 / historicalRootPrimes i) = some first ∧
              (bucket.historicalRoots i).2 = first.2)) ∧
    ∀ (roots : Fin 7 → Option H256) (position : ℕ) (commitment : Commitment),
      findMatchingRoot bucket roots = .ok (position, commitment) →
        commitment ∈ (checkpointHistory cfg bucketId genesis.state [] inputs).map Prod.snd ∧
          (position = 0 → bucket.snapshot.map BucketSnapshot.commitment = some commitment) := by
  have hrecorded : Recorded (run (step cfg) genesis.state inputs) bucketId
      (checkpointHistory cfg bucketId genesis.state [] inputs) :=
    recorded_run genesis.funded (recorded_genesis genesis) inputs
  generalize checkpointHistory cfg bucketId genesis.state [] inputs = history at hrecorded ⊢
  obtain ⟨hroots, hcommitment⟩ := hrecorded.roots bucket hbucket
  have hfits : ∀ entry ∈ history, entry.1 ≤ u32Max := fun entry hentry ↦
    (hrecorded.blocks_le entry hentry).trans hrecorded.clock_le
  refine ⟨hrecorded.sorted, fun last hlast i ↦ ?_, fun roots position commitment hmatch ↦ ?_⟩
  · rw [hroots]
    obtain ⟨hwindow, hentry⟩ := rootsAfter_spec hfits hrecorded.sorted hlast i
    refine ⟨hwindow, fun hzero ↦ ?_⟩
    rw [if_neg hzero] at hentry
    exact hentry
  · rcases findMatchingRoot_ok hmatch with ⟨hzero, hcurrent⟩ | ⟨i, hplace, hroot, hwritten⟩
    · refine ⟨?_, fun _ ↦ hcurrent⟩
      rw [hcommitment, Option.map_eq_some_iff] at hcurrent
      obtain ⟨last, hlast, hsame⟩ := hcurrent
      exact List.mem_map.mpr ⟨last, List.mem_of_getLast? hlast, hsame⟩
    · refine ⟨?_, fun hzero ↦ ?_⟩
      · simp only at hroot
        rw [hroot, hroots]
        rw [hroots] at hwritten
        cases hlast : history.getLast? with
        | none =>
          rw [List.getLast?_eq_none_iff.mp hlast] at hwritten
          exact absurd rfl hwritten
        | some last =>
          obtain ⟨-, hentry⟩ := rootsAfter_spec hfits hrecorded.sorted hlast i
          split_ifs at hentry
          · rw [hentry] at hwritten
            exact absurd rfl hwritten
          · obtain ⟨first, hfirst, hsame⟩ := hentry
            rw [hsame]
            exact List.mem_map_of_mem (List.mem_of_find?_eq_some hfirst)
      · simp only at hplace
        omega

/-! ### A run on the mock runtime -/

/-- A bucket that is checkpointed at block 10 and at block 12. -/
def twoCheckpoints : List (Input ℕ) :=
  [Mock.redeemLong, .advance 10, Mock.checkpointSigned Mock.oneLeaf, .advance 12,
    Mock.checkpointSigned Mock.twoLeaves]

theorem historical_roots_scheduled_two :
    ∃ bucket, (run (step Mock.config) Mock.twoParties.state twoCheckpoints).buckets.lookup 0 =
        some bucket ∧ (bucket.historicalRoots 0).1 = 12 / 3 ∧
      ∃ first, [(10, Mock.oneLeaf), (12, Mock.twoLeaves)].find? (fun entry ↦
          entry.1 / historicalRootPrimes 1 = 12 / historicalRootPrimes 1) = some first ∧
        (bucket.historicalRoots 1).2 = first.2 := by
  have hfound : ((run (step Mock.config) Mock.twoParties.state twoCheckpoints).buckets.lookup 0).map
      (fun bucket ↦ (bucket.historicalRoots 1).1) = some 1 := by
    decide +kernel
  have hhistory : checkpointHistory Mock.config 0 Mock.twoParties.state [] twoCheckpoints =
      [(10, Mock.oneLeaf), (12, Mock.twoLeaves)] := by
    decide +kernel
  obtain ⟨bucket, hbucket, hwindow⟩ := Option.map_eq_some_iff.mp hfound
  have hscheduled := historical_roots_scheduled Mock.twoParties twoCheckpoints 0 bucket hbucket
  rw [hhistory] at hscheduled
  obtain ⟨hfirst, -⟩ := hscheduled.2.1 _ rfl 0
  obtain ⟨-, hsecond⟩ := hscheduled.2.1 _ rfl 1
  exact ⟨bucket, hbucket, hfirst, hsecond (by rw [hwindow]; decide)⟩

end Web3Storage.Pallet
