import Web3Storage.Client.Base
import Web3Storage.Foundations.Grouping
import Web3Storage.Pallet.Mock
import Web3Storage.Pallet.Signatures

/-!
# How a client collects a checkpoint

A client asks the providers of a bucket for their commitments, drops those whose range is behind the
snapshot on the chain, groups the rest by their root, and batches the signatures of the largest group
under the range of its first member. The group agrees in the root only. `batch_self_consistent_iff`
says which responses make every such batch verify as a whole.
-/

set_option autoImplicit false
set_option relaxedAutoImplicit false

namespace Web3Storage.Client

open Foundations Primitives
open Pallet (Config ProviderInfo verifySignature)

/-- A provider's answer: the range it commits to and its signature. -/
structure CommitmentResponse where
  bucketId : ℕ
  mmrRoot : H256
  startSeq : ℕ
  leafCount : ℕ
  providerSignature : MultiSignature
  bucketId_le : bucketId ≤ u64Max
  startSeq_le : startSeq ≤ u64Max
  leafCount_le : leafCount ≤ u64Max

namespace CommitmentResponse

variable (response : CommitmentResponse)

/-- The commitment a provider reports. -/
def commitment : Commitment := ⟨response.mmrRoot, response.startSeq, response.leafCount⟩

end CommitmentResponse

variable (AccountId : Type)

/-- What a client collected for a bucket. -/
structure CommitmentCollection where
  bucketId : ℕ
  mmrRoot : H256
  startSeq : ℕ
  leafCount : ℕ
  signatures : List (AccountId × MultiSignature)
  agreeingProviders : List AccountId
  disagreeingProviders : List (AccountId × H256)
  unreachableProviders : List AccountId

/-- One round of questions about a bucket: its range on the chain, if it has a snapshot, and what each
provider answered, if it did. -/
structure Round where
  bucketId : ℕ
  floor : Option (ℕ × ℕ)
  responses : List (AccountId × Option CommitmentResponse)
  bucketId_le : bucketId ≤ u64Max

variable {AccountId}

/-- Neither end of a range is behind the range on the chain. -/
def withinFloor (floor : Option (ℕ × ℕ)) (startSeq leafCount : ℕ) : Bool :=
  match floor with
  | none => true
  | some (floorStartSeq, floorLeafCount) =>
    !(startSeq < floorStartSeq || saturatingAdd u64Max startSeq leafCount <
      saturatingAdd u64Max floorStartSeq floorLeafCount)

def commitmentWithinFloor (response : CommitmentResponse) (floor : Option (ℕ × ℕ)) : Bool :=
  withinFloor floor response.startSeq response.leafCount

namespace Round

variable (round : Round AccountId)

/-- The usable responses. -/
def kept : List (AccountId × CommitmentResponse) :=
  round.responses.filterMap fun (account, response) ↦ match response with
    | none => none
    | some response =>
      if commitmentWithinFloor response round.floor then some (account, response) else none

/-- The providers without a usable response. -/
def unreachable : List AccountId :=
  round.responses.filterMap fun (account, response) ↦ match response with
    | none => some account
    | some response => if commitmentWithinFloor response round.floor then none else some account

/-- The usable responses by their root. -/
def commitmentsByRoot : List (H256 × List (AccountId × CommitmentResponse)) :=
  grouped (fun entry ↦ entry.2.mmrRoot) round.kept

end Round

/-- The batch of a round, with the order in which the map of roots is traversed. -/
def Round.collection (round : Round AccountId)
    (traversal : Traversal H256 (AccountId × CommitmentResponse)) : CommitmentCollection AccountId :=
  let commitmentsByRoot := traversal.order round.commitmentsByRoot
  let (majorityRoot, agreeing) := (lastLongest commitmentsByRoot).getD (H256.zero, [])
  let (startSeq, leafCount) :=
    (agreeing.head?.map fun entry ↦ (entry.2.startSeq, entry.2.leafCount)).getD (0, 0)
  { bucketId := round.bucketId
    mmrRoot := majorityRoot
    startSeq := startSeq
    leafCount := leafCount
    signatures := agreeing.map fun entry ↦ (entry.1, entry.2.providerSignature)
    agreeingProviders := agreeing.map Prod.fst
    disagreeingProviders := (commitmentsByRoot.filter fun group ↦ group.1 ≠ majorityRoot).flatMap
      fun group ↦ group.2.map fun entry ↦ (entry.1, group.1)
    unreachableProviders := round.unreachable }

/-- Collect a batch from the providers of a bucket. -/
def collectCommitments (traversal : Traversal H256 (AccountId × CommitmentResponse))
    (round : Round AccountId) : Except ClientError (CommitmentCollection AccountId) :=
  if round.responses = [] then
    .error (.chain s!"No providers found for bucket {round.bucketId}")
  else .ok (round.collection traversal)

/-- The commitment a batch is submitted with. -/
def CommitmentCollection.commitment (collection : CommitmentCollection AccountId) : Commitment :=
  ⟨collection.mmrRoot, collection.startSeq, collection.leafCount⟩

theorem CommitmentCollection.range_of_commitment {collection : CommitmentCollection AccountId}
    {root : H256} {startSeq leafCount : ℕ}
    (h : collection.commitment = ⟨root, startSeq, leafCount⟩) :
    collection.startSeq = startSeq ∧ collection.leafCount = leafCount :=
  ⟨congrArg Commitment.startSeq h, congrArg Commitment.leafCount h⟩

/-! ### What a batch promises -/

section Batch

variable [DecidableEq AccountId] (cfg : Config AccountId) (registry : FiniteMap AccountId ProviderInfo)

/-- The chain accepts a provider's signature over a commitment to a bucket. -/
def Verifies (account : AccountId) (signature : MultiSignature) (bucketId : ℕ)
    (commitment : Commitment) : Prop :=
  verifySignature cfg registry signature (CommitmentPayload.new bucketId commitment).encode account =
    .ok ()

/-- Every provider that answered signed what it reports. -/
def ValidResponses (round : Round AccountId) : Prop :=
  ∀ account response, (account, some response) ∈ round.responses →
    Verifies cfg registry account response.providerSignature response.bucketId response.commitment

/-- Every signature of a batch is over its commitment, whose range is not behind the chain's. -/
structure SelfConsistent (floor : Option (ℕ × ℕ)) (collection : CommitmentCollection AccountId) :
    Prop where
  signatures_verify : ∀ account signature, (account, signature) ∈ collection.signatures →
    Verifies cfg registry account signature collection.bucketId collection.commitment
  within_floor : withinFloor floor collection.startSeq collection.leafCount = true

/-- A signature verifies for one message at most. -/
def SignaturesBind : Prop :=
  ∀ (signature : MultiSignature) (message message' : Bytes) (account : H256),
    cfg.crypto.verify signature message account = true →
      cfg.crypto.verify signature message' account = true → message = message'

end Batch

/-- No root is reported by more usable responses. -/
def Round.IsLargest (round : Round AccountId) (root : H256) : Prop :=
  root ∈ round.kept.map (fun entry ↦ entry.2.mmrRoot) ∧
    ∀ other, (round.kept.filter fun entry ↦ entry.2.mmrRoot = other).length ≤
      (round.kept.filter fun entry ↦ entry.2.mmrRoot = root).length

/-- The responses of every largest group are about the bucket and report one range, and if no response
is usable the chain has no range above zero. -/
structure Round.Uniform (round : Round AccountId) : Prop where
  same_bucket : ∀ root, round.IsLargest root → ∀ entry ∈ round.kept, entry.2.mmrRoot = root →
    entry.2.bucketId = round.bucketId
  same_range : ∀ root, round.IsLargest root → ∀ entry ∈ round.kept, ∀ other ∈ round.kept,
    entry.2.mmrRoot = root → other.2.mmrRoot = root →
      entry.2.startSeq = other.2.startSeq ∧ entry.2.leafCount = other.2.leafCount
  empty_floor : round.responses ≠ [] → round.kept = [] → withinFloor round.floor 0 0 = true

/-! ### The largest group -/

section Group

variable {round : Round AccountId} {traversal : Traversal H256 (AccountId × CommitmentResponse)}
  {root : H256} {agreeing : List (AccountId × CommitmentResponse)}

theorem mem_kept {entry : AccountId × CommitmentResponse} : entry ∈ round.kept ↔
    (entry.1, some entry.2) ∈ round.responses ∧
      commitmentWithinFloor entry.2 round.floor = true := by
  obtain ⟨account, response⟩ := entry
  unfold Round.kept
  rw [List.mem_filterMap]
  constructor
  · rintro ⟨⟨other, answer⟩, hmem, h⟩
    cases answer with
    | none => cases h
    | some answer =>
      simp only at h
      split_ifs at h with hfloor
      cases h
      exact ⟨hmem, hfloor⟩
  · rintro ⟨hmem, hfloor⟩
    exact ⟨_, hmem, if_pos hfloor⟩

/-- Whatever the traversal, a batch is of a largest group. -/
theorem group_of_lastLongest
    (h : lastLongest (traversal.order round.commitmentsByRoot) = some (root, agreeing)) :
    round.IsLargest root ∧ agreeing ≠ [] ∧
      agreeing = round.kept.filter fun entry ↦ entry.2.mmrRoot = root := by
  obtain ⟨hmem, hmax⟩ := lastLongest_spec h
  rw [(traversal.perm _).mem_iff, Round.commitmentsByRoot, mem_grouped] at hmem
  obtain ⟨hne, hgroup⟩ := hmem
  refine ⟨⟨?_, fun other ↦ ?_⟩, hne, hgroup⟩
  · obtain ⟨entry, hentry⟩ := List.exists_mem_of_ne_nil _ hne
    rw [hgroup, List.mem_filter, decide_eq_true_iff] at hentry
    exact List.mem_map.2 ⟨entry, hentry⟩
  · by_cases hempty : (round.kept.filter fun entry ↦ entry.2.mmrRoot = other) = []
    · rw [hempty]
      exact Nat.zero_le _
    · have hother : (other, round.kept.filter fun entry ↦ entry.2.mmrRoot = other) ∈
          traversal.order round.commitmentsByRoot := by
        rw [(traversal.perm _).mem_iff, Round.commitmentsByRoot, mem_grouped]
        exact ⟨hempty, rfl⟩
      rw [← hgroup]
      exact hmax _ hother

/-- Without usable responses there is no group. -/
theorem kept_of_lastLongest_eq_none
    (h : lastLongest (traversal.order round.commitmentsByRoot) = none) : round.kept = [] := by
  rw [lastLongest_eq_none] at h
  have hempty : round.commitmentsByRoot = [] := List.Perm.eq_nil (h ▸ (traversal.perm _).symm)
  by_contra hne
  obtain ⟨entry, hentry⟩ := List.exists_mem_of_ne_nil _ hne
  have hgroup : (entry.2.mmrRoot, round.kept.filter fun other ↦ other.2.mmrRoot = entry.2.mmrRoot) ∈
      round.commitmentsByRoot := by
    rw [Round.commitmentsByRoot, mem_grouped]
    refine ⟨?_, rfl⟩
    exact List.ne_nil_of_mem (List.mem_filter.2 ⟨hentry, decide_eq_true rfl⟩)
  rw [hempty] at hgroup
  cases hgroup

/-- The traversal that ends with the group of a root. -/
def traversalTo (root : H256) : Traversal H256 (AccountId × CommitmentResponse) where
  order groups := groups.filter (fun group ↦ !decide (group.1 = root)) ++
    groups.filter fun group ↦ decide (group.1 = root)
  perm groups := by
    refine List.perm_append_comm.trans ?_
    exact List.filter_append_perm (fun group ↦ decide (group.1 = root)) groups

/-- Traversed last, a largest group is the batch. -/
theorem lastLongest_traversalTo (hlargest : round.IsLargest root) :
    lastLongest ((traversalTo root).order round.commitmentsByRoot) =
      some (root, round.kept.filter fun entry ↦ entry.2.mmrRoot = root) := by
  obtain ⟨hroot, hmax⟩ := hlargest
  have hgroup (group : H256 × List (AccountId × CommitmentResponse))
      (hmem : group ∈ round.commitmentsByRoot) :
      group.2 = round.kept.filter fun entry ↦ entry.2.mmrRoot = group.1 :=
    ((mem_grouped _ _).1 hmem).2
  set members := round.kept.filter fun entry ↦ entry.2.mmrRoot = root with hmembers
  have hmem : (root, members) ∈ round.commitmentsByRoot.filter fun group ↦ decide (group.1 = root) := by
    rw [List.mem_filter, Round.commitmentsByRoot, mem_grouped]
    obtain ⟨entry, hentry, hentryRoot⟩ := List.mem_map.1 hroot
    have hne : members ≠ [] :=
      List.ne_nil_of_mem (List.mem_filter.2 ⟨hentry, decide_eq_true hentryRoot⟩)
    exact ⟨⟨hne, rfl⟩, decide_eq_true rfl⟩
  have hall (group : H256 × List (AccountId × CommitmentResponse))
      (hgroupMem : group ∈ round.commitmentsByRoot.filter fun group ↦ decide (group.1 = root)) :
      group = (root, members) := by
    obtain ⟨hfrom, hkey⟩ := List.mem_filter.1 hgroupMem
    have hkey : group.1 = root := of_decide_eq_true hkey
    have hvalue := hgroup group hfrom
    rw [hkey] at hvalue
    exact Prod.ext hkey hvalue
  have hlast : ∃ before, (traversalTo root).order round.commitmentsByRoot =
      before ++ [(root, members)] := by
    obtain ⟨front, last, hsplit⟩ :=
      List.eq_nil_or_concat' _ |>.resolve_left (List.ne_nil_of_mem hmem)
    have hlastEq : last = (root, members) := by
      refine hall last ?_
      rw [hsplit]
      simp
    refine ⟨round.commitmentsByRoot.filter (fun group ↦ !decide (group.1 = root)) ++ front, ?_⟩
    unfold traversalTo
    simp only
    rw [hsplit, hlastEq, List.append_assoc]
  obtain ⟨before, hbefore⟩ := hlast
  rw [hbefore]
  refine lastLongest_concat_of_max fun other hother ↦ ?_
  have hfrom : other ∈ round.commitmentsByRoot := by
    refine ((traversalTo root).perm _).mem_iff.1 ?_
    rw [hbefore]
    exact List.mem_append_left _ hother
  rw [hgroup other hfrom]
  exact hmax other.1

/-- A batch has the root of its group, the range of the first member and the signatures of all. -/
theorem collection_of_group {first : AccountId × CommitmentResponse}
    {rest : List (AccountId × CommitmentResponse)}
    (h : lastLongest (traversal.order round.commitmentsByRoot) = some (root, first :: rest)) :
    (round.collection traversal).commitment = ⟨root, first.2.startSeq, first.2.leafCount⟩ ∧
      (round.collection traversal).signatures =
        (first :: rest).map fun entry ↦ (entry.1, entry.2.providerSignature) := by
  simp only [Round.collection, CommitmentCollection.commitment, h, Option.getD_some,
    List.head?_cons, Option.map_some, and_self]

/-- Without a usable response a batch is empty, and its range is zero. -/
theorem collection_of_none (h : lastLongest (traversal.order round.commitmentsByRoot) = none) :
    (round.collection traversal).commitment = ⟨H256.zero, 0, 0⟩ ∧
      (round.collection traversal).signatures = [] := by
  simp only [Round.collection, CommitmentCollection.commitment, h, Option.getD_none,
    List.head?_nil, Option.map_none, List.map_nil, and_self]

/-- Collecting fails only for a bucket without providers. -/
theorem collectCommitments_eq_ok {collection : CommitmentCollection AccountId} :
    collectCommitments traversal round = .ok collection ↔
      round.responses ≠ [] ∧ round.collection traversal = collection := by
  unfold collectCommitments
  split_ifs with hempty
  · simp [hempty]
  · simp [hempty]

end Group

/-! ### When every batch verifies -/

section Consistency

variable [DecidableEq AccountId] {cfg : Config AccountId}
  {registry : FiniteMap AccountId ProviderInfo} {round : Round AccountId}

/-- If signatures bind, a signature the chain accepts for two commitments is over one message. -/
theorem Verifies.unique {account : AccountId} {signature : MultiSignature} {bucketId bucketId' : ℕ}
    {commitment commitment' : Commitment} (hbind : SignaturesBind cfg)
    (h : Verifies cfg registry account signature bucketId commitment)
    (h' : Verifies cfg registry account signature bucketId' commitment') :
    (CommitmentPayload.new bucketId commitment).encode =
      (CommitmentPayload.new bucketId' commitment').encode := by
  unfold Verifies verifySignature at h h'
  cases hprovider : registry.lookup account with
  | none =>
    simp only [hprovider, Pallet.plainAccountVerifies] at h h'
    split_ifs at h h' with hlength
    · split at h
      · cases h
      · cases h
      · rename_i hverify
        split at h'
        · cases h'
        · cases h'
        · rename_i hverify'
          exact hbind _ _ _ _ (Option.some.inj hverify) (Option.some.inj hverify')
  | some provider =>
    simp only [hprovider, Pallet.check, bind_eq_ok, ensure_eq_ok] at h h'
    obtain ⟨signer, hsigner, hverify⟩ := h
    obtain ⟨signer', hsigner', hverify'⟩ := h'
    rw [hsigner] at hsigner'
    cases hsigner'
    exact hbind _ _ _ _ hverify hverify'

/-- If the responses of the largest groups agree, every batch verifies. -/
theorem Round.Uniform.selfConsistent (huniform : round.Uniform)
    (hvalid : ValidResponses cfg registry round) (hresponses : round.responses ≠ [])
    (traversal : Traversal H256 (AccountId × CommitmentResponse)) :
    SelfConsistent cfg registry round.floor (round.collection traversal) := by
  cases hgroup : lastLongest (traversal.order round.commitmentsByRoot) with
  | none =>
    obtain ⟨hcommitment, hsignatures⟩ := collection_of_none hgroup
    refine ⟨fun account signature hmem ↦ ?_, ?_⟩
    · rw [hsignatures] at hmem
      cases hmem
    · obtain ⟨hstart, hleaves⟩ := CommitmentCollection.range_of_commitment hcommitment
      rw [hstart, hleaves]
      exact huniform.empty_floor hresponses (kept_of_lastLongest_eq_none hgroup)
  | some group =>
    obtain ⟨root, agreeing⟩ := group
    obtain ⟨hlargest, hne, hagreeing⟩ := group_of_lastLongest hgroup
    obtain ⟨first, rest, rfl⟩ := List.exists_cons_of_ne_nil hne
    obtain ⟨hcommitment, hsignatures⟩ := collection_of_group hgroup
    have hmember {entry : AccountId × CommitmentResponse} (hentry : entry ∈ first :: rest) :
        entry ∈ round.kept ∧ entry.2.mmrRoot = root := by
      rw [hagreeing, List.mem_filter] at hentry
      exact ⟨hentry.1, of_decide_eq_true hentry.2⟩
    obtain ⟨hfirst, hfirstRoot⟩ := hmember List.mem_cons_self
    refine ⟨fun account signature hmem ↦ ?_, ?_⟩
    · rw [hsignatures] at hmem
      obtain ⟨entry, hentry, hsame⟩ := List.mem_map.1 hmem
      cases hsame
      obtain ⟨hkept, hroot⟩ := hmember hentry
      have hbucket := huniform.same_bucket root hlargest entry hkept hroot
      obtain ⟨hstart, hleaves⟩ :=
        huniform.same_range root hlargest entry hkept first hfirst hroot hfirstRoot
      have hverifies := hvalid _ _ (mem_kept.1 hkept).1
      have hown : entry.2.commitment = (round.collection traversal).commitment := by
        rw [hcommitment, ← hstart, ← hleaves, ← hroot]
        rfl
      rw [hown, hbucket] at hverifies
      exact hverifies
    · obtain ⟨hstart, hleaves⟩ := CommitmentCollection.range_of_commitment hcommitment
      rw [hstart, hleaves]
      exact (mem_kept.1 hfirst).2

/-- If every batch verifies, the responses of the largest groups agree. -/
theorem uniform_of_selfConsistent (hbind : SignaturesBind cfg)
    (hvalid : ValidResponses cfg registry round)
    (hconsistent : round.responses ≠ [] → ∀ traversal,
      SelfConsistent cfg registry round.floor (round.collection traversal)) : round.Uniform := by
  -- A largest group can be traversed last; the signature of a member then covers the range of the
  -- first one besides its own.
  have hagree (root : H256) (hlargest : round.IsLargest root) : ∃ commitment : Commitment,
      ∀ entry ∈ round.kept, entry.2.mmrRoot = root →
        entry.2.bucketId = round.bucketId ∧ entry.2.commitment = commitment := by
    have hgroup := lastLongest_traversalTo hlargest
    obtain ⟨-, hne, -⟩ := group_of_lastLongest hgroup
    obtain ⟨first, rest, hmembers⟩ := List.exists_cons_of_ne_nil hne
    rw [hmembers] at hgroup
    obtain ⟨hcommitment, hsignatures⟩ := collection_of_group hgroup
    refine ⟨⟨root, first.2.startSeq, first.2.leafCount⟩, fun entry hentry hroot ↦ ?_⟩
    have hkept := (mem_kept.1 hentry).1
    have hmem : entry ∈ first :: rest := by
      rw [← hmembers, List.mem_filter]
      exact ⟨hentry, decide_eq_true hroot⟩
    have hbatch := (hconsistent (List.ne_nil_of_mem hkept) (traversalTo root)).signatures_verify
      entry.1 entry.2.providerSignature
    rw [hsignatures, hcommitment] at hbatch
    have hmessage := (hvalid _ _ hkept).unique hbind (hbatch (List.mem_map_of_mem hmem))
    exact CommitmentPayload.encode_new_inj entry.2.bucketId_le round.bucketId_le
      entry.2.startSeq_le first.2.startSeq_le entry.2.leafCount_le first.2.leafCount_le hmessage
  refine ⟨fun root hlargest entry hentry hroot ↦ ?_,
    fun root hlargest entry hentry other hother hroot hotherRoot ↦ ?_, fun hresponses hempty ↦ ?_⟩
  · obtain ⟨commitment, hall⟩ := hagree root hlargest
    exact (hall entry hentry hroot).1
  · obtain ⟨commitment, hall⟩ := hagree root hlargest
    have hsame := (hall entry hentry hroot).2.trans (hall other hother hotherRoot).2.symm
    exact ⟨congrArg Commitment.startSeq hsame, congrArg Commitment.leafCount hsame⟩
  · have hfloor := (hconsistent hresponses (traversalTo H256.zero)).within_floor
    cases hgroup : lastLongest ((traversalTo H256.zero).order round.commitmentsByRoot) with
    | none =>
      obtain ⟨hcommitment, -⟩ := collection_of_none hgroup
      obtain ⟨hstart, hleaves⟩ := CommitmentCollection.range_of_commitment hcommitment
      rw [hstart, hleaves] at hfloor
      exact hfloor
    | some group =>
      obtain ⟨largestRoot, agreeing⟩ := group
      obtain ⟨⟨hroot, -⟩, -, -⟩ := group_of_lastLongest hgroup
      rw [hempty] at hroot
      cases hroot

/-- **Batches are self-consistent exactly if every largest group agrees on the bucket and the range**,
and no empty batch is behind the chain. -/
theorem batch_self_consistent_iff (hvalid : ValidResponses cfg registry round) :
    (round.Uniform → ∀ traversal collection, collectCommitments traversal round = .ok collection →
        SelfConsistent cfg registry round.floor collection) ∧
      (SignaturesBind cfg →
        (∀ traversal collection, collectCommitments traversal round = .ok collection →
          SelfConsistent cfg registry round.floor collection) → round.Uniform) := by
  refine ⟨fun huniform traversal collection hcollect ↦ ?_, fun hbind hconsistent ↦ ?_⟩
  · obtain ⟨hresponses, rfl⟩ := collectCommitments_eq_ok.1 hcollect
    exact huniform.selfConsistent hvalid hresponses traversal
  · refine uniform_of_selfConsistent hbind hvalid fun hresponses traversal ↦ ?_
    exact hconsistent traversal _ (collectCommitments_eq_ok.2 ⟨hresponses, rfl⟩)

end Consistency

/-! ### Two ranges under one root -/

section Spoiled

open Pallet.Mock

/-- Providers 2 and 4 are registered. -/
def twoProviders : FiniteMap ℕ ProviderInfo :=
  let info (provider : ℕ) : ProviderInfo :=
    ⟨[0x2f], (keyOf provider).bytes, 1000, 0, .default, .new 0, none, 0⟩
  ((∅ : FiniteMap ℕ ProviderInfo).insert 2 (info 2)).insert 4 (info 4)

/-- A signed answer about the first bucket. -/
def answer (provider leafCount : ℕ) (hleaves : leafCount ≤ u64Max) : CommitmentResponse where
  bucketId := 0
  mmrRoot := oneLeaf.mmrRoot
  startSeq := 0
  leafCount := leafCount
  providerSignature := (signCommitment provider ⟨oneLeaf.mmrRoot, 0, leafCount⟩).2
  bucketId_le := Nat.zero_le _
  startSeq_le := Nat.zero_le _
  leafCount_le := hleaves

/-- Both providers answer about a bucket without a snapshot, the second with some leaf count. -/
def answers (leafCount : ℕ) (hleaves : leafCount ≤ u64Max) : Round ℕ where
  bucketId := 0
  floor := none
  responses := [(2, some (answer 2 1 (by decide))), (4, some (answer 4 leafCount hleaves))]
  bucketId_le := Nat.zero_le _

theorem answers_valid (leafCount : ℕ) (hleaves : leafCount ≤ u64Max) :
    ValidResponses config twoProviders (answers leafCount hleaves) := by
  have hsigned (provider : ℕ) (commitment : Commitment) (hprovider : provider = 2 ∨ provider = 4) :
      Verifies config twoProviders provider (signCommitment provider commitment).2 0 commitment := by
    have hverify : config.crypto.verify (signCommitment provider commitment).2
        (CommitmentPayload.new 0 commitment).encode (keyOf provider) = true :=
      (verify_sign _ _ _ _).2 ⟨rfl, rfl⟩
    have hregistered : twoProviders.lookup provider =
        some ⟨[0x2f], (keyOf provider).bytes, 1000, 0, .default, .new 0, none, 0⟩ := by
      rcases hprovider with rfl | rfl
      · rfl
      · rfl
    have hkey : Pallet.expectedSignerAccount config (keyOf provider).bytes
        (signCommitment provider commitment).2 = .ok (keyOf provider) := by
      rcases hprovider with rfl | rfl
      · rfl
      · rfl
    unfold Verifies verifySignature
    simp only [hregistered, bind_eq_ok, Pallet.check, ensure_eq_ok]
    exact ⟨keyOf provider, hkey, hverify⟩
  intro account response hmem
  rcases List.mem_cons.1 hmem with h | h
  · cases h
    exact hsigned 2 _ (.inl rfl)
  · cases List.mem_singleton.1 h
    exact hsigned 4 _ (.inr rfl)

theorem batch_self_consistent_iff_agreeing :
    SelfConsistent config twoProviders none
      ((answers 1 (by decide)).collection ⟨id, fun _ ↦ .refl _⟩) := by
  have huniform : (answers 1 (by decide)).Uniform := by
    have hkept : (answers 1 (by decide)).kept =
        [(2, answer 2 1 (by decide)), (4, answer 4 1 (by decide))] := rfl
    refine ⟨?_, ?_, ?_⟩
    · rw [hkept]
      simp [answer, answers]
    · rw [hkept]
      simp [answer]
    · rw [hkept]
      simp
  exact (batch_self_consistent_iff (answers_valid 1 (by decide))).1 huniform _ _ rfl

/-- Two valid answers under one root with one and two leaves: the signature of the second provider does
not verify over the batch. -/
theorem batch_spoiled : ∃ round : Round ℕ, ValidResponses config twoProviders round ∧
    ∃ traversal collection, collectCommitments traversal round = .ok collection ∧
      ∃ account signature, (account, signature) ∈ collection.signatures ∧
        ¬ Verifies config twoProviders account signature collection.bucketId
          collection.commitment := by
  refine ⟨answers 2 (by decide), answers_valid 2 (by decide), ⟨id, fun _ ↦ .refl _⟩, _, rfl, 4,
    (signCommitment 4 ⟨oneLeaf.mmrRoot, 0, 2⟩).2, ?_, ?_⟩
  · decide +kernel
  · unfold Verifies
    decide +kernel

end Spoiled

end Web3Storage.Client
