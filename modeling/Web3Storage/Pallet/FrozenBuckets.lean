import Web3Storage.Pallet.BucketIds
import Web3Storage.Pallet.Mock

/-!
# Frozen buckets

Freezing a bucket pins the first sequence number of its snapshot. A later checkpoint has to start
there, but the pallet does not compare the number of leaves: the history stays append-only exactly as
far as every checkpoint that is submitted covers at least the leaves of the one before
(`frozen_append_only`). A quorum that signs fewer of them cuts the frozen history short
(`frozen_history_cut`).
-/

set_option autoImplicit false
set_option relaxedAutoImplicit false

namespace Web3Storage.Pallet

open Foundations Primitives

variable {AccountId : Type} [DecidableEq AccountId] {cfg : Config AccountId}
  {s s' : State AccountId} {input : Input AccountId} {bucketId : ℕ}

/-- The commitment of the current snapshot of a bucket. -/
def State.commitmentOf (s : State AccountId) (bucketId : ℕ) : Option Commitment :=
  ((s.buckets.lookup bucketId).bind Bucket.snapshot).map BucketSnapshot.commitment

/-- A checkpoint of the bucket covers at least the leaves of its current snapshot, and no bucket is
created under its id. -/
def GrowsOnly (bucketId : ℕ) (s : State AccountId) : Input AccountId → Prop
  | .call (.signed _) (.checkpoint target commitment _) => target = bucketId →
    ∀ current ∈ s.commitmentOf bucketId, current.leafCount ≤ commitment.leafCount
  | .call (.signed _) (.createBucket _ _) => s.nextBucketId ≠ bucketId
  | .call (.signed _) (.createBucketWithPrimary _ _ _ _) => s.nextBucketId ≠ bucketId
  | _ => True

instance (bucketId : ℕ) (s : State AccountId) (input : Input AccountId) :
    Decidable (GrowsOnly bucketId s input) := by
  induction input using Input.casesOn with
  | call origin call =>
    induction origin using Origin.casesOn with
    | signed who =>
      induction call using Call.casesOn with
      | checkpoint target commitment signatures => exact inferInstanceAs (Decidable (target = bucketId →
          ∀ current ∈ s.commitmentOf bucketId, current.leafCount ≤ commitment.leafCount))
      | createBucket minProviders visibility => exact inferInstanceAs (Decidable (s.nextBucketId ≠ bucketId))
      | createBucketWithPrimary provider terms signature visibility =>
        exact inferInstanceAs (Decidable (s.nextBucketId ≠ bucketId))
      | _ => exact .isTrue trivial
    | _ => exact .isTrue trivial
  | _ => exact .isTrue trivial

/-! ### One step -/

/-- The bucket, while it exists, is frozen at the start of a commitment and covers its leaves. -/
def AppendedTo (s : State AccountId) (bucketId : ℕ) (commitment : Commitment) : Prop :=
  ∀ bucket, s.buckets.lookup bucketId = some bucket →
    bucket.frozenStartSeq = some commitment.startSeq ∧
      ∃ snapshot, bucket.snapshot = some snapshot ∧
        snapshot.commitment.startSeq = commitment.startSeq ∧
          commitment.leafCount ≤ snapshot.commitment.leafCount

/-- Two buckets with the same frozen start and the same commitment. -/
def SameHistory (old new : Bucket AccountId) : Prop :=
  new.frozenStartSeq = old.frozenStartSeq ∧
    new.snapshot.map BucketSnapshot.commitment = old.snapshot.map BucketSnapshot.commitment

omit [DecidableEq AccountId] in
theorem SameHistory.refl (bucket : Bucket AccountId) : SameHistory bucket bucket :=
  ⟨rfl, rfl⟩

omit [DecidableEq AccountId] in
/-- A step after which the bucket, if it exists, has the history it had. -/
private theorem AppendedTo.kept {commitment : Commitment} (hs : AppendedTo s bucketId commitment)
    (hsame : ∀ new, s'.buckets.lookup bucketId = some new →
      ∃ old, s.buckets.lookup bucketId = some old ∧ SameHistory old new) :
    AppendedTo s' bucketId commitment := by
  intro new hnew
  obtain ⟨old, hold, hfrozen, hcommitment⟩ := hsame new hnew
  obtain ⟨hpinned, snapshot, hsnapshot, hstart, hleaves⟩ := hs old hold
  rw [hsnapshot] at hcommitment
  obtain ⟨snapshot', hsnapshot', heq⟩ := Option.map_eq_some_iff.mp hcommitment
  refine ⟨hfrozen.trans hpinned, snapshot', hsnapshot', ?_, ?_⟩
  · rw [heq, hstart]
  · rw [heq]
    exact hleaves

omit [DecidableEq AccountId] in
/-- A written bucket under another id, or with the same history. -/
private theorem sameHistory_insert {target : ℕ} (old : Bucket AccountId) {new : Bucket AccountId}
    (hbuckets : s'.buckets = s.buckets.insert target new)
    (hold : target = bucketId → s.buckets.lookup target = some old ∧ SameHistory old new)
    (bucket : Bucket AccountId) (hbucket : s'.buckets.lookup bucketId = some bucket) :
    ∃ before, s.buckets.lookup bucketId = some before ∧ SameHistory before bucket := by
  rw [hbuckets, FiniteMap.lookup_insert_eq] at hbucket
  split_ifs at hbucket with htarget
  · subst htarget
    cases hbucket
    exact ⟨old, hold rfl⟩
  · exact ⟨bucket, hbucket, .refl bucket⟩

/-- Removing a primary keeps the history of every bucket. -/
private theorem sameHistory_removePrimary {target : ℕ} {provider : AccountId}
    {buckets : FiniteMap ℕ (Bucket AccountId)} {bucket : Bucket AccountId}
    (hbucket : (removePrimaryFromBucket target provider buckets).lookup bucketId = some bucket) :
    ∃ before, buckets.lookup bucketId = some before ∧ SameHistory before bucket := by
  obtain ⟨hsame, -⟩ | ⟨-, old, pos, hold, -, rfl⟩ := lookup_removePrimaryFromBucket hbucket
  · exact ⟨bucket, hsame, .refl bucket⟩
  · refine ⟨old, hold, rfl, ?_⟩
    rw [Option.map_map]
    congr 1
    funext snapshot
    simp only [Function.comp_apply, BucketSnapshot.removeSigner]
    split_ifs
    · rfl
    · rfl

/-- Every effect that only grows a frozen bucket keeps what was appended. -/
theorem Effect.appendedTo (h : Effect cfg s input s') (hgrows : GrowsOnly bucketId s input)
    {commitment : Commitment} (hs : AppendedTo s bucketId commitment) :
    AppendedTo s' bucketId commitment := by
  cases h with
  | rejected | outside | advanced | registered | providerChanged | deregistered | toppedUp | amended
  | challengeOpened | challengeAnswered => exact hs
  | bucketCreated who minProviders visibility bucket ledger memberBuckets events gain hprimaries
      hsnapshot hfrozen hgain hmoves =>
    refine hs.kept (sameHistory_insert bucket rfl fun hid ↦ ?_)
    exact absurd hid hgrows
  | bucketDeleted who target ledger memberBuckets events loss hagreements hpending hloss hmoves =>
    refine hs.kept fun new hnew ↦ ?_
    simp only [FiniteMap.lookup_erase_eq] at hnew
    split_ifs at hnew
    exact ⟨new, hnew, .refl new⟩
  | bucketChanged who call target old new ledger memberBuckets events gain loss hold hprimaries
      hsnapshot hfrozen hgain hloss hmoves =>
    refine hs.kept (sameHistory_insert old rfl fun hid ↦ ⟨hold, ?_, by rw [hsnapshot]⟩)
    subst hid
    rcases hfrozen with hsame | ⟨hnone, -⟩
    · exact hsame
    · -- a frozen bucket is not frozen again
      have hpinned := (hs old hold).1
      rw [hnone] at hpinned
      cases hpinned
  | checkpointed who target submitted signatures old new bits signers events hok hold hpinned hsigned
      hprimaries hfrozen hsnapshot =>
    intro bucket hbucket
    simp only [FiniteMap.lookup_insert_eq] at hbucket
    split_ifs at hbucket with htarget
    · subst htarget
      cases hbucket
      obtain ⟨hstart, snapshot, hcurrent, -, hleaves⟩ := hs old hold
      have hmem : snapshot.commitment ∈ s.commitmentOf bucketId := by
        rw [State.commitmentOf, hold, Option.bind_some, hcurrent]
        rfl
      have hmore := hgrows rfl snapshot.commitment hmem
      exact ⟨hfrozen.trans hstart, _, hsnapshot, hpinned _ hstart, hleaves.trans hmore⟩
    · exact hs bucket hbucket
  | checkpointExtended who target signatures old new snapshot bits signers events hok hold
      hsnapshotOld hsigned hprimaries hfrozen hsnapshot =>
    refine hs.kept (sameHistory_insert old rfl fun _ ↦ ⟨hold, hfrozen, ?_⟩)
    rw [hsnapshot, hsnapshotOld]
    rfl
  | opened owner call target provider terms signature bucketTarget kind info agreement deposits
      ledger buckets nextBucketId nonces memberBuckets events hopening hbuckets hcall =>
    cases hbuckets with
    | created bucket hid hprimaries hsnapshot hfrozen =>
      obtain ⟨visibility, rfl⟩ := hcall rfl
      refine hs.kept (sameHistory_insert bucket rfl fun htarget ↦ ?_)
      exact absurd (hid.symm.trans htarget) hgrows
    | joined bucket hbucket =>
      refine hs.kept (sameHistory_insert bucket rfl fun _ ↦ ⟨hbucket, rfl, ?_⟩)
      rw [Option.map_map]
      rfl
    | replicated => exact hs
  | closed who call target provider old ledger deposit stats events hpending hold hmoves =>
    refine hs.kept fun new hnew ↦ ?_
    simp only at hnew
    split_ifs at hnew
    · exact sameHistory_removePrimary hnew
    · exact ⟨new, hnew, .refl new⟩
  | challengeExpired origin challengeId challenge hchallenge hexpired =>
    intro bucket hbucket
    rw [(slashProvider_buckets challenge challengeId _).1] at hbucket
    exact hs bucket hbucket

/-! ### Whole runs -/

/-- Along a run that only grows the bucket, what was appended stays. -/
private theorem appendedTo_run {commitment : Commitment} (hfunded : Funded s)
    (hs : AppendedTo s bucketId commitment) {inputs : List (Input AccountId)}
    (hinputs : StepsMeet (step cfg) (OfAccepted cfg (GrowsOnly bucketId)) s inputs) :
    AppendedTo (run (step cfg) s inputs) bucketId commitment := by
  have hboth : Funded (run (step cfg) s inputs) ∧
      AppendedTo (run (step cfg) s inputs) bucketId commitment := by
    refine invariant_of_step (fun state ↦ Funded state ∧ AppendedTo state bucketId commitment) ?_
      ⟨hfunded, hs⟩ hinputs
    rintro state input ⟨hstate, happended⟩ hcondition
    have heffect : Effect cfg state input (step cfg state input) := effect_of_step hstate input
    refine ⟨heffect.funded hstate, ?_⟩
    rcases hcondition.cases with hgrows | hrefused
    · exact heffect.appendedTo hgrows happended
    · rw [hrefused]
      exact happended
  exact hboth.2

omit [DecidableEq AccountId] in
/-- What the snapshot of a bucket that was appended to says. -/
private theorem AppendedTo.commitmentOf {commitment later : Commitment}
    (hs : AppendedTo s bucketId commitment) (hlater : s.commitmentOf bucketId = some later) :
    later.startSeq = commitment.startSeq ∧ commitment.leafCount ≤ later.leafCount ∧
      AppendedTo s bucketId later := by
  unfold State.commitmentOf at hlater
  obtain ⟨snapshot, hsnapshot, rfl⟩ := Option.map_eq_some_iff.mp hlater
  obtain ⟨bucket, hbucket, hcurrent⟩ := Option.bind_eq_some_iff.mp hsnapshot
  obtain ⟨hpinned, covered, hcovered, hstart, hleaves⟩ := hs bucket hbucket
  cases hcurrent.symm.trans hcovered
  refine ⟨hstart, hleaves, fun other hother ↦ ?_⟩
  cases hbucket.symm.trans hother
  exact ⟨by rw [hpinned, hstart], snapshot, hcurrent, rfl, le_rfl⟩

/-- A freeze pins the commitment of the bucket. -/
private theorem appendedTo_freezeBucket {who : AccountId}
    (h : freezeBucket who bucketId s = .ok s') :
    ∃ pinned, s'.commitmentOf bucketId = some pinned ∧ AppendedTo s' bucketId pinned := by
  obtain ⟨bucket, snapshot, -, -, hsnapshot, rfl⟩ := freezeBucket_ok h
  refine ⟨snapshot.commitment, ?_, fun current hcurrent ↦ ?_⟩
  · simp [State.commitmentOf, hsnapshot]
  · rw [Finmap.lookup_insert] at hcurrent
    cases hcurrent
    exact ⟨rfl, snapshot, hsnapshot, rfl, le_rfl⟩

/-- A commitment with the same start and at least as many leaves covers what the other covers. -/
private theorem containsSeq_of_le {earlier later : Commitment}
    (hstart : later.startSeq = earlier.startSeq) (hleaves : earlier.leafCount ≤ later.leafCount)
    {seq : ℕ} (hseq : earlier.containsSeq seq = true) : later.containsSeq seq = true := by
  have hend : earlier.rangeEnd ≤ later.rangeEnd := by
    unfold Commitment.rangeEnd saturatingAdd
    rw [hstart]
    exact min_le_min_right u64Max (Nat.add_le_add_left hleaves _)
  simp only [Commitment.containsSeq, hstart, Bool.and_eq_true, decide_eq_true_eq] at hseq ⊢
  exact ⟨hseq.1, hseq.2.trans_le hend⟩

/-- A frozen bucket is append-only. Assumes: after the freeze no checkpoint of the bucket covers fewer
leaves than the snapshot before it, and no bucket is created under its id. Every commitment of the
bucket starts where the frozen one does, and covers what every earlier one since the freeze covered. -/
theorem frozen_append_only (genesis : Genesis cfg) (before : List (Input AccountId))
    (who : AccountId) (bucketId : ℕ) (frozen : State AccountId)
    (hfreeze : freezeBucket who bucketId (run (step cfg) genesis.state before).withoutEvents =
      .ok frozen) (after : List (Input AccountId))
    (hafter : StepsMeet (step cfg) (OfAccepted cfg (GrowsOnly bucketId)) frozen after) :
    ∃ pinned, frozen.commitmentOf bucketId = some pinned ∧
      ∀ first second, first ++ second <+: after → ∀ earlier later : Commitment,
        (run (step cfg) frozen first).commitmentOf bucketId = some earlier →
          (run (step cfg) frozen (first ++ second)).commitmentOf bucketId = some later →
            earlier.startSeq = pinned.startSeq ∧ later.startSeq = pinned.startSeq ∧
              earlier.leafCount ≤ later.leafCount ∧
                ∀ seq, earlier.containsSeq seq = true → later.containsSeq seq = true := by
  have hbefore : Funded (run (step cfg) genesis.state before) :=
    funded_run cfg genesis.funded before
  have hfunded : Funded frozen := by
    have heffect : Effect cfg (run (step cfg) genesis.state before)
        (.call (.signed who) (.freezeBucket bucketId)) frozen :=
      effect_of_dispatchSigned hbefore hfreeze
    exact heffect.funded hbefore
  obtain ⟨pinned, hpinned, hstart⟩ := appendedTo_freezeBucket hfreeze
  refine ⟨pinned, hpinned, fun first second hpre earlier later hearlier hlater ↦ ?_⟩
  obtain ⟨rest, rfl⟩ := hpre
  -- the invariant is carried from the freeze to the first point, and from there to the second
  have hfirst := appendedTo_run hfunded hstart hafter.left.left
  obtain ⟨hearlierStart, -, hfrom⟩ := hfirst.commitmentOf hearlier
  have hsecond := appendedTo_run (funded_run cfg hfunded first) hfrom hafter.left.right
  rw [← run_append] at hsecond
  obtain ⟨hlaterStart, hleaves, -⟩ := hsecond.commitmentOf hlater
  exact ⟨hearlierStart, hlaterStart.trans hearlierStart, hleaves,
    fun seq ↦ containsSeq_of_le hlaterStart hleaves⟩

/-- A checkpoint of two leaves in a new bucket. -/
def checkpointTwo : List (Input ℕ) := [Mock.redeemLong, Mock.checkpointSigned Mock.twoLeaves]

/-- The bucket frozen at its two leaves. -/
def frozenAtTwo : State ℕ :=
  step Mock.config (run (step Mock.config) Mock.twoParties.state checkpointTwo)
    (.call (.signed 1) (.freezeBucket 0))

private theorem freezeBucket_checkpointTwo :
    freezeBucket 1 0 (run (step Mock.config) Mock.twoParties.state checkpointTwo).withoutEvents =
      .ok frozenAtTwo := by
  have hok : isOk (freezeBucket 1 0
      (run (step Mock.config) Mock.twoParties.state checkpointTwo).withoutEvents) = true := by
    decide +kernel
  have hfrozen := Mock.eq_ok_getD_of_isOk Mock.twoParties.state hok
  have hfits : (Call.freezeBucket 0).fits Mock.config = true := by decide
  rw [frozenAtTwo, step_of_dispatchSigned hfits hfrozen]
  exact hfrozen

theorem frozen_append_only_same :
    ∃ pinned, frozenAtTwo.commitmentOf 0 = some pinned ∧
      ∀ later, (step Mock.config frozenAtTwo (Mock.checkpointSigned Mock.twoLeaves)).commitmentOf 0 =
        some later → pinned.leafCount ≤ later.leafCount := by
  have hafter : StepsMeet (step Mock.config) (OfAccepted Mock.config (GrowsOnly 0)) frozenAtTwo
      [Mock.checkpointSigned Mock.twoLeaves] :=
    stepsMeet_ofAccepted (by decide +kernel)
  obtain ⟨pinned, hpinned, hgrows⟩ := frozen_append_only Mock.twoParties checkpointTwo 1 0 frozenAtTwo
    freezeBucket_checkpointTwo [Mock.checkpointSigned Mock.twoLeaves] hafter
  refine ⟨pinned, hpinned, fun later hlater ↦ ?_⟩
  have hstep : run (step Mock.config) frozenAtTwo ([] ++ [Mock.checkpointSigned Mock.twoLeaves]) = _ :=
    run_concat frozenAtTwo [] _
  rw [run_nil] at hstep
  rw [← hstep] at hlater
  refine (hgrows [] _ (List.prefix_refl _) pinned later ?_ hlater).2.2.1
  rw [run_nil]
  exact hpinned

/-- The frozen history is cut: after a checkpoint that its primary signed too, the bucket is still
frozen at the same start but the second of its two leaves is no longer covered. -/
theorem frozen_history_cut :
    freezeBucket 1 0 (run (step Mock.config) Mock.twoParties.state checkpointTwo).withoutEvents =
        .ok frozenAtTwo ∧
      ∃ earlier later : Commitment, frozenAtTwo.commitmentOf 0 = some earlier ∧
        (step Mock.config frozenAtTwo (Mock.checkpointSigned Mock.oneLeaf)).commitmentOf 0 =
          some later ∧
        later.leafCount < earlier.leafCount ∧
          earlier.containsSeq 1 = true ∧ later.containsSeq 1 = false := by
  refine ⟨freezeBucket_checkpointTwo, Mock.twoLeaves, Mock.oneLeaf, ?_, ?_, ?_⟩
  · decide +kernel
  · decide +kernel
  · decide

end Web3Storage.Pallet
