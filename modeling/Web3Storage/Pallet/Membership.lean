import Web3Storage.Foundations.ReverseIndex
import Web3Storage.Pallet.BucketIds
import Web3Storage.Pallet.Mock

/-!
# Membership

The members of a bucket and the buckets of a member are two lists of one relation. Every call that
edits one of them edits the other: `membership_exact` says that in every reachable state the index of
`MemberBuckets` is exact, every bucket has an admin, and an admin leaves only by its own call.
-/

set_option autoImplicit false
set_option relaxedAutoImplicit false

namespace Web3Storage.Pallet

open Foundations Primitives

variable {AccountId : Type} [DecidableEq AccountId] {cfg : Config AccountId}
  {s s' : State AccountId} {input : Input AccountId} {who : AccountId} {bucketId : ℕ}

/-! ### The members of one bucket -/

/-- A member list names nobody twice and has an admin. -/
structure MembersListed (members : List (Member AccountId)) : Prop where
  nodup : (members.map Member.account).Nodup
  admin : ∃ member ∈ members, member.role = .admin

/-- An account is an admin of a member list. -/
def IsAdmin (members : List (Member AccountId)) (account : AccountId) : Prop :=
  ∃ member ∈ members, member.account = account ∧ member.role = .admin

/-- What `locateMember` finds. -/
theorem locateMember_spec (bucket : Bucket AccountId) (account : AccountId) :
    (locateMember bucket account).2.2 =
        min (bucket.members.countP fun m ↦ m.role = .admin) u32Max ∧
      ((locateMember bucket account).1 = none → account ∉ bucket.members.map Member.account) ∧
        ∀ place, (locateMember bucket account).1 = some place →
          ∃ member, bucket.members[place]? = some member ∧ member.account = account ∧
            (locateMember bucket account).2.1 = decide (member.role = .admin) := by
  unfold locateMember
  generalize bucket.members = members
  -- the source walks the list from the front, so the last member is the last step
  induction members using List.reverseRecOn with
  | nil => simp
  | append_singleton rest last ih =>
    obtain ⟨hcount, hnone, hsome⟩ := ih
    rw [List.zipIdx_append, List.foldl_append]
    simp only [List.zipIdx_singleton, List.foldl_cons, List.foldl_nil, Nat.zero_add]
    generalize rest.zipIdx.foldl _ _ = found at hcount hnone hsome ⊢
    have hadmins : (if last.role = .admin then saturatingAdd u32Max found.2.2 1 else found.2.2) =
        min ((rest ++ [last]).countP fun m ↦ m.role = .admin) u32Max := by
      rw [hcount, List.countP_append, List.countP_singleton]
      by_cases hrole : last.role = .admin
      · simp only [hrole, decide_true, if_true, saturatingAdd]
        omega
      · simp [hrole]
    rw [hadmins]
    by_cases haccount : last.account = account
    · rw [if_pos haccount]
      refine ⟨rfl, fun hfound ↦ absurd hfound (Option.some_ne_none _), fun place hplace ↦
        ⟨last, ?_, haccount, rfl⟩⟩
      cases hplace
      exact List.getElem?_concat_length
    · rw [if_neg haccount]
      refine ⟨rfl, fun hfound ↦ ?_, fun place hplace ↦ ?_⟩
      · rw [List.map_append, List.mem_append, not_or]
        refine ⟨hnone hfound, ?_⟩
        simpa using Ne.symm haccount
      · obtain ⟨member, hmember, hsame, hadmin⟩ := hsome place hplace
        refine ⟨member, ?_, hsame, hadmin⟩
        rw [List.getElem?_append_left (List.getElem?_eq_some_iff.mp hmember).1]
        exact hmember

omit [DecidableEq AccountId] in
/-- The other members of a list, around one place, are members after its role was set. -/
private theorem mem_modify_of_mem_eraseIdx {members : List (Member AccountId)} {place : ℕ}
    {member : Member AccountId} (change : Member AccountId → Member AccountId)
    (h : member ∈ members.eraseIdx place) : member ∈ members.modify place change := by
  obtain ⟨i, hi, hplace⟩ := List.mem_eraseIdx_iff_getElem?.mp h
  have hkept : (members.modify place change)[i]? = some member := by
    rw [List.getElem?_modify, hplace]
    simp [Ne.symm hi]
  exact List.mem_of_getElem? hkept

omit [DecidableEq AccountId] in
/-- A member that is not the one at a place stays when that one is taken out. -/
private theorem mem_eraseIdx_of_ne {members : List (Member AccountId)} {place : ℕ}
    {member other : Member AccountId} (hplace : members[place]? = some other)
    (hmember : member ∈ members) (hne : member ≠ other) : member ∈ members.eraseIdx place := by
  obtain ⟨i, hi⟩ := List.mem_iff_getElem?.mp hmember
  refine List.mem_eraseIdx_iff_getElem?.mpr ⟨i, ?_, hi⟩
  rintro rfl
  rw [hplace] at hi
  exact hne (Option.some.inj hi).symm

omit [DecidableEq AccountId] in
/-- A list with two admins keeps one when a place is taken out. -/
private theorem exists_admin_eraseIdx {members : List (Member AccountId)} (place : ℕ)
    (hcount : 1 < members.countP fun m ↦ m.role = .admin) :
    ∃ member ∈ members.eraseIdx place, member.role = .admin := by
  have hpos : 0 < (members.eraseIdx place).countP fun m ↦ m.role = .admin := by
    rw [List.eraseIdx_eq_take_drop_succ, List.countP_append]
    have hsplit := congrArg (List.countP fun m ↦ m.role = .admin) (List.take_append_drop place members)
    rw [List.countP_append] at hsplit
    cases hdrop : members.drop place with
    | nil =>
      rw [hdrop, List.countP_nil] at hsplit
      omega
    | cons first rest =>
      have hrest : members.drop (place + 1) = rest := by
        rw [← List.drop_drop, hdrop, List.drop_succ_cons, List.drop_zero]
      rw [hdrop, List.countP_cons] at hsplit
      rw [hrest]
      split_ifs at hsplit
      · omega
      · omega
  obtain ⟨member, hmember, hadmin⟩ := List.countP_pos_iff.mp hpos
  exact ⟨member, hmember, of_decide_eq_true hadmin⟩

omit [DecidableEq AccountId] in
/-- Without the member at a place there is still an admin, if that member was not the only one. -/
private theorem MembersListed.admin_eraseIdx {members : List (Member AccountId)}
    (h : MembersListed members) {place : ℕ} {target : Member AccountId}
    (htarget : members[place]? = some target)
    (hstep : target.role = .admin → 1 < members.countP fun m ↦ m.role = .admin) :
    ∃ member ∈ members.eraseIdx place, member.role = .admin := by
  by_cases hwas : target.role = .admin
  · exact exists_admin_eraseIdx place (hstep hwas)
  · obtain ⟨member, hmember, hadmin⟩ := h.admin
    refine ⟨member, mem_eraseIdx_of_ne htarget hmember ?_, hadmin⟩
    rintro rfl
    exact hwas hadmin

omit [DecidableEq AccountId] in
/-- Setting a role changes no account. -/
private theorem map_account_modify (members : List (Member AccountId)) (place : ℕ) (role : Role) :
    (members.modify place fun m ↦ { m with role := role }).map Member.account =
      members.map Member.account := by
  refine List.ext_getElem? fun i ↦ ?_
  rw [List.getElem?_map, List.getElem?_modify, List.getElem?_map]
  cases members[i]? with
  | none => rfl
  | some member =>
    simp only [Option.map_eq_map, Option.map_some]
    split_ifs
    · rfl
    · rfl

/-- A change keeps a member list well formed, and takes no admin but the caller. -/
theorem MembersChange.listed {old : Bucket AccountId} {index index' : FiniteMap AccountId (List ℕ)}
    {members : List (Member AccountId)}
    (h : MembersChange who bucketId old index members index') (hold : MembersListed old.members) :
    MembersListed members ∧
      ∀ account, account ≠ who → IsAdmin old.members account → IsAdmin members account := by
  cases h with
  | kept => exact ⟨hold, fun _ _ h ↦ h⟩
  | roleSet account role place hplace hadmin =>
    obtain ⟨hcount, -, hsome⟩ := locateMember_spec old account
    obtain ⟨target, htarget, haccount, hrole⟩ := hsome place hplace
    have hset : { target with role := role } ∈
        old.members.modify place fun m ↦ { m with role := role } := by
      have hchanged : (old.members.modify place fun m ↦ { m with role := role })[place]? =
          some { target with role := role } := by
        rw [List.getElem?_modify, htarget]
        simp
      exact List.mem_of_getElem? hchanged
    have hothers : ∀ member ∈ old.members.eraseIdx place,
        member ∈ old.members.modify place fun m ↦ { m with role := role } :=
      fun member ↦ mem_modify_of_mem_eraseIdx _
    have hstep : target.role = .admin → role ≠ .admin → account = who ∧
        1 < old.members.countP fun m ↦ m.role = .admin := by
      intro hwas hnew
      have hmay := hadmin (by simp [hrole, hwas]) hnew
      rw [hcount] at hmay
      exact ⟨hmay.1, hmay.2.trans_le (min_le_left _ _)⟩
    refine ⟨⟨?_, ?_⟩, fun admin hother hadmins ↦ ?_⟩
    · rw [map_account_modify]
      exact hold.nodup
    · by_cases hnew : role = .admin
      · exact ⟨_, hset, hnew⟩
      · obtain ⟨member, hmember, hisAdmin⟩ :=
          hold.admin_eraseIdx htarget fun hwas ↦ (hstep hwas hnew).2
        exact ⟨member, hothers member hmember, hisAdmin⟩
    · obtain ⟨member, hmember, hsame, hisAdmin⟩ := hadmins
      by_cases hmine : member = target
      · subst hmine
        -- another admin keeps the role
        by_cases hnew : role = .admin
        · exact ⟨_, hset, hsame, hnew⟩
        · exact absurd (hsame.symm.trans (haccount.trans (hstep hisAdmin hnew).1)) hother
      · exact ⟨member, hothers member (mem_eraseIdx_of_ne htarget hmember hmine), hsame, hisAdmin⟩
  | added account role deposit hplace =>
    have hnew := (locateMember_spec old account).2.1 hplace
    refine ⟨⟨?_, ?_⟩, fun admin _ hadmins ↦ ?_⟩
    · rw [List.map_append]
      refine List.Nodup.append hold.nodup (List.nodup_singleton _) ?_
      rw [List.map_singleton, List.disjoint_singleton]
      exact hnew
    · obtain ⟨member, hmember, hadmin⟩ := hold.admin
      exact ⟨member, List.mem_append_left _ hmember, hadmin⟩
    · obtain ⟨member, hmember, hadmin⟩ := hadmins
      exact ⟨member, List.mem_append_left _ hmember, hadmin⟩
  | removed account place hplace hadmin =>
    obtain ⟨hcount, -, hsome⟩ := locateMember_spec old account
    obtain ⟨target, htarget, haccount, hrole⟩ := hsome place hplace
    have hstep : target.role = .admin → account = who ∧
        1 < old.members.countP fun m ↦ m.role = .admin := by
      intro hwas
      have hmay := hadmin (by simp [hrole, hwas])
      rw [hcount] at hmay
      exact ⟨hmay.1, hmay.2.trans_le (min_le_left _ _)⟩
    refine ⟨⟨?_, hold.admin_eraseIdx htarget fun hwas ↦ (hstep hwas).2⟩,
      fun admin hother hadmins ↦ ?_⟩
    · exact hold.nodup.sublist ((List.eraseIdx_sublist _ _).map _)
    · obtain ⟨member, hmember, hsame, hisAdmin⟩ := hadmins
      refine ⟨member, mem_eraseIdx_of_ne htarget hmember ?_, hsame, hisAdmin⟩
      rintro rfl
      exact hother (hsame.symm.trans (haccount.trans (hstep hisAdmin).1))

/-! ### The index -/

/-- An account is in the member list of a bucket. -/
def Belongs (s : State AccountId) (bucketId : ℕ) (account : AccountId) : Prop :=
  ∃ bucket, s.buckets.lookup bucketId = some bucket ∧ account ∈ bucket.members.map Member.account

/-- An account is an admin of a bucket. -/
def AdminOf (s : State AccountId) (bucketId : ℕ) (account : AccountId) : Prop :=
  ∃ bucket, s.buckets.lookup bucketId = some bucket ∧ IsAdmin bucket.members account

/-- Every member list is well formed, and the reverse index is exact. -/
structure MembershipKept (s : State AccountId) : Prop where
  listed : ∀ bucketId bucket, s.buckets.lookup bucketId = some bucket → MembersListed bucket.members
  indexed : Indexes s.memberBuckets (Belongs s)

omit [DecidableEq AccountId] in
/-- Membership after a bucket was written. -/
private theorem belongs_insert {bucket : Bucket AccountId}
    (hbuckets : s'.buckets = s.buckets.insert bucketId bucket) (id : ℕ) (account : AccountId) :
    Belongs s' id account ↔
      if id = bucketId then account ∈ bucket.members.map Member.account else Belongs s id account := by
  unfold Belongs
  rw [hbuckets, FiniteMap.lookup_insert_eq]
  split_ifs with hid
  · simp
  · rfl

omit [DecidableEq AccountId] in
/-- Membership after a bucket was removed. -/
private theorem belongs_erase (hbuckets : s'.buckets = s.buckets.erase bucketId) (id : ℕ)
    (account : AccountId) : Belongs s' id account ↔ Belongs s id account ∧ id ≠ bucketId := by
  unfold Belongs
  rw [hbuckets, FiniteMap.lookup_erase_eq]
  split_ifs with hid
  · simp [hid]
  · simp [hid]

/-- The index of members is a reverse index. -/
theorem removeFromMemberIndex_eq (member : AccountId) (bucketId : ℕ)
    (index : FiniteMap AccountId (List ℕ)) :
    removeFromMemberIndex member bucketId index = dropEntry index member bucketId := by
  unfold removeFromMemberIndex dropEntry
  cases index.lookup member with
  | none => rfl
  | some buckets => rfl

omit [DecidableEq AccountId] in
/-- The accounts left when one of a list without repetitions is taken out. -/
private theorem mem_map_eraseIdx {members : List (Member AccountId)}
    (hnodup : (members.map Member.account).Nodup) {place : ℕ} {target : Member AccountId}
    (htarget : members[place]? = some target) (account : AccountId) :
    account ∈ (members.eraseIdx place).map Member.account ↔
      account ∈ members.map Member.account ∧ account ≠ target.account := by
  have hplace : (members.map Member.account)[place]? = some target.account := by
    rw [List.getElem?_map, htarget, Option.map_some]
  rw [← List.eraseIdx_map, List.mem_eraseIdx_iff_getElem?]
  constructor
  · rintro ⟨i, hi, haccount⟩
    refine ⟨List.mem_of_getElem? haccount, ?_⟩
    rintro rfl
    have hlt := (List.getElem?_eq_some_iff.mp haccount).1
    exact hi ((List.getElem?_inj hlt hnodup).mp (haccount.trans hplace.symm))
  · rintro ⟨hmem, hne⟩
    obtain ⟨i, hi⟩ := List.mem_iff_getElem?.mp hmem
    refine ⟨i, ?_, hi⟩
    rintro rfl
    exact hne (Option.some.inj (hi.symm.trans hplace))

/-- The index after a change of one bucket's members. -/
private theorem MembersChange.indexed {old new : Bucket AccountId}
    {index' : FiniteMap AccountId (List ℕ)} (hs : MembershipKept s)
    (hold : s.buckets.lookup bucketId = some old)
    (hbuckets : s'.buckets = s.buckets.insert bucketId new)
    (h : MembersChange who bucketId old s.memberBuckets new.members index') :
    Indexes index' (Belongs s') := by
  have hmember : ∀ account, account ∈ old.members.map Member.account ↔ Belongs s bucketId account := by
    intro account
    unfold Belongs
    rw [hold]
    simp
  generalize hmembers : new.members = members at h
  have hbelongs : ∀ id account, Belongs s' id account ↔ if id = bucketId then
      account ∈ members.map Member.account else Belongs s id account := by
    rw [← hmembers]
    exact belongs_insert hbuckets
  cases h with
  | kept =>
    refine hs.indexed.congr fun id account ↦ ?_
    rw [hbelongs]
    split_ifs with hid
    · rw [hid, hmember]
    · rfl
  | roleSet account role place hplace hadmin =>
    refine hs.indexed.congr fun id other ↦ ?_
    rw [hbelongs, map_account_modify]
    split_ifs with hid
    · rw [hid, hmember]
    · rfl
  | added account role deposit hplace =>
    have hnew : ¬ Belongs s bucketId account := by
      rw [← hmember]
      exact (locateMember_spec old account).2.1 hplace
    have hunlisted : bucketId ∉ bucketsOf s.memberBuckets account :=
      fun hlisted ↦ hnew ((hs.indexed.mem_iff account bucketId).mp hlisted)
    rw [if_neg hunlisted]
    refine (hs.indexed.add hnew).congr fun id other ↦ ?_
    rw [hbelongs, List.map_append, List.mem_append, hmember]
    split_ifs with hid
    · simp [hid]
    · simp [hid]
  | removed account place hplace hadmin =>
    obtain ⟨target, htarget, haccount, -⟩ := (locateMember_spec old account).2.2 place hplace
    rw [removeFromMemberIndex_eq]
    refine (hs.indexed.drop account bucketId).congr fun id other ↦ ?_
    rw [hbelongs]
    split_ifs with hid
    · subst hid
      rw [← hmember, mem_map_eraseIdx (hs.listed id old hold).nodup htarget, haccount]
      simp
    · simp [hid]

/-! ### One step -/

/-- The member lists and the index are as before. -/
private structure SameMembers (s s' : State AccountId) : Prop where
  index_eq : s'.memberBuckets = s.memberBuckets
  members_eq : ∀ id, (s'.buckets.lookup id).map Bucket.members = (s.buckets.lookup id).map Bucket.members

omit [DecidableEq AccountId] in
private theorem sameMembers_insert {old new : Bucket AccountId}
    (hold : s.buckets.lookup bucketId = some old) (hmembers : new.members = old.members)
    (hbuckets : s'.buckets = s.buckets.insert bucketId new)
    (hindex : s'.memberBuckets = s.memberBuckets) : SameMembers s s' := by
  refine ⟨hindex, fun id ↦ ?_⟩
  rw [hbuckets, FiniteMap.lookup_insert_eq]
  split_ifs with hid
  · rw [hid, hold, Option.map_some, Option.map_some, hmembers]
  · rfl

omit [DecidableEq AccountId] in
private theorem SameMembers.lookup (h : SameMembers s s') {id : ℕ} {bucket : Bucket AccountId}
    (hbucket : s.buckets.lookup id = some bucket) :
    ∃ bucket', s'.buckets.lookup id = some bucket' ∧ bucket'.members = bucket.members := by
  have hsame := h.members_eq id
  rw [hbucket, Option.map_some] at hsame
  exact Option.map_eq_some_iff.mp hsame

omit [DecidableEq AccountId] in
private theorem SameMembers.symm (h : SameMembers s s') : SameMembers s' s :=
  ⟨h.index_eq.symm, fun id ↦ (h.members_eq id).symm⟩

/-- What a step keeps: well-formed members with an exact index, and every admin that did not act, as
long as its bucket exists. -/
private def Keeps (who : Option AccountId) (s s' : State AccountId) : Prop :=
  MembershipKept s' ∧ ∀ bucketId account, who ≠ some account → AdminOf s bucketId account →
    s'.buckets.lookup bucketId ≠ none → AdminOf s' bucketId account

private theorem SameMembers.keeps (h : SameMembers s s') (hs : MembershipKept s)
    (who : Option AccountId) : Keeps who s s' := by
  refine ⟨⟨fun id bucket hbucket ↦ ?_, ?_⟩, fun id account _ ⟨bucket, hbucket, hadmin⟩ _ ↦ ?_⟩
  · obtain ⟨old, hold, hsame⟩ := h.symm.lookup hbucket
    rw [← hsame]
    exact hs.listed id old hold
  · rw [h.index_eq]
    refine hs.indexed.congr fun id account ↦ ?_
    constructor
    · rintro ⟨bucket, hbucket, hmem⟩
      obtain ⟨new, hnew, hsame⟩ := h.lookup hbucket
      exact ⟨new, hnew, hsame ▸ hmem⟩
    · rintro ⟨bucket, hbucket, hmem⟩
      obtain ⟨old, hold, hsame⟩ := h.symm.lookup hbucket
      exact ⟨old, hold, hsame ▸ hmem⟩
  · obtain ⟨new, hnew, hsame⟩ := h.lookup hbucket
    exact ⟨new, hnew, hsame ▸ hadmin⟩

/-- A bucket under a new id with its creator as the admin. -/
private theorem keeps_created {bucket : Bucket AccountId} {deposit : ℕ} (hs : MembershipKept s)
    (hfresh : s.buckets.lookup bucketId = none)
    (hmembers : bucket.members = [⟨who, .admin, who, deposit⟩])
    (hbuckets : s'.buckets = s.buckets.insert bucketId bucket)
    (hindex : s'.memberBuckets =
      s.memberBuckets.insert who (bucketsOf s.memberBuckets who ++ [bucketId]))
    (caller : Option AccountId) : Keeps caller s s' := by
  have hnew : ¬ Belongs s bucketId who := by
    rintro ⟨old, hold, -⟩
    rw [hfresh] at hold
    cases hold
  refine ⟨⟨fun id other hother ↦ ?_, ?_⟩, fun id account _ ⟨old, hold, hadmin⟩ _ ↦ ?_⟩
  · rw [hbuckets, FiniteMap.lookup_insert_eq] at hother
    split_ifs at hother with hid
    · cases hother
      rw [hmembers]
      exact ⟨List.nodup_singleton _, _, List.mem_singleton_self _, rfl⟩
    · exact hs.listed id other hother
  · rw [hindex]
    refine (hs.indexed.add hnew).congr fun id account ↦ ?_
    rw [belongs_insert hbuckets, hmembers]
    split_ifs with hid
    · subst hid
      have hnobody : ¬ Belongs s id account := by
        rintro ⟨old, hold, -⟩
        rw [hfresh] at hold
        cases hold
      simp [hnobody]
    · simp [hid]
  · have hid : id ≠ bucketId := by
      rintro rfl
      rw [hfresh] at hold
      cases hold
    refine ⟨old, ?_, hadmin⟩
    rw [hbuckets, FiniteMap.lookup_insert_eq, if_neg hid]
    exact hold

/-- A removed bucket. -/
private theorem keeps_erased {bucket : Bucket AccountId} (hs : MembershipKept s)
    (hbucket : s.buckets.lookup bucketId = some bucket)
    (hbuckets : s'.buckets = s.buckets.erase bucketId)
    (hindex : s'.memberBuckets = bucket.members.foldl
      (fun index m ↦ removeFromMemberIndex m.account bucketId index) s.memberBuckets)
    (caller : Option AccountId) : Keeps caller s s' := by
  refine ⟨⟨fun id other hother ↦ ?_, ?_⟩, fun id account _ ⟨old, hold, hadmin⟩ hexists ↦ ?_⟩
  · rw [hbuckets, FiniteMap.lookup_erase_eq] at hother
    split_ifs at hother
    exact hs.listed id other hother
  · have hdropped : s'.memberBuckets = (bucket.members.map Member.account).foldl
        (fun index member ↦ dropEntry index member bucketId) s.memberBuckets := by
      rw [hindex, List.foldl_map]
      simp only [removeFromMemberIndex_eq]
    rw [hdropped]
    refine (hs.indexed.dropAll _ bucketId).congr fun id account ↦ ?_
    rw [belongs_erase hbuckets]
    constructor
    · rintro ⟨⟨old, hold, hmem⟩, hleft⟩
      refine ⟨⟨old, hold, hmem⟩, ?_⟩
      rintro rfl
      rw [hbucket] at hold
      cases hold
      exact hleft ⟨rfl, hmem⟩
    · rintro ⟨hbelongs, hid⟩
      exact ⟨hbelongs, fun hleft ↦ hid hleft.1⟩
  · rw [hbuckets, FiniteMap.lookup_erase_eq] at hexists
    split_ifs at hexists with hid
    · exact absurd rfl hexists
    · refine ⟨old, ?_, hadmin⟩
      rw [hbuckets, FiniteMap.lookup_erase_eq, if_neg hid]
      exact hold

/-- A bucket whose members an account changed. -/
private theorem keeps_changed {old new : Bucket AccountId} (hs : MembershipKept s)
    (hold : s.buckets.lookup bucketId = some old)
    (hbuckets : s'.buckets = s.buckets.insert bucketId new)
    (h : MembersChange who bucketId old s.memberBuckets new.members s'.memberBuckets) :
    Keeps (some who) s s' := by
  obtain ⟨hlisted, hadmins⟩ := h.listed (hs.listed bucketId old hold)
  refine ⟨⟨fun id bucket hbucket ↦ ?_, h.indexed hs hold hbuckets⟩,
    fun id account hwho ⟨bucket, hbucket, hadmin⟩ _ ↦ ?_⟩
  · rw [hbuckets, FiniteMap.lookup_insert_eq] at hbucket
    split_ifs at hbucket
    · cases hbucket
      exact hlisted
    · exact hs.listed id bucket hbucket
  · by_cases hid : id = bucketId
    · subst hid
      rw [hold] at hbucket
      cases hbucket
      refine ⟨new, ?_, hadmins account ?_ hadmin⟩
      · rw [hbuckets, Finmap.lookup_insert]
      · rintro rfl
        exact hwho rfl
    · refine ⟨bucket, ?_, hadmin⟩
      rw [hbuckets, FiniteMap.lookup_insert_eq, if_neg hid]
      exact hbucket

/-- The account that signed an input. -/
def Input.caller : Input AccountId → Option AccountId
  | .call (.signed who) _ => some who
  | _ => none

/-- Taking a primary from a bucket leaves its members. -/
private theorem map_members_removePrimary (buckets : FiniteMap ℕ (Bucket AccountId)) (target id : ℕ)
    (provider : AccountId) :
    ((removePrimaryFromBucket target provider buckets).lookup id).map Bucket.members =
      (buckets.lookup id).map Bucket.members := by
  unfold removePrimaryFromBucket
  cases hbucket : buckets.lookup target with
  | none => rfl
  | some bucket =>
    simp only
    split
    · rfl
    · rw [FiniteMap.lookup_insert_eq]
      split_ifs with hid
      · rw [hid, hbucket]
        rfl
      · rfl

/-- Every effect keeps the membership. Assumes: a bucket is created under an unused id. -/
private theorem Effect.keeps (h : Effect cfg s input s') (hs : MembershipKept s)
    (hfresh : ∀ who call, input = .call (.signed who) call → call.createsBucket = true →
      s.buckets.lookup s.nextBucketId = none) : Keeps input.caller s s' := by
  cases h with
  | rejected | advanced | outside | registered | providerChanged | deregistered | toppedUp | amended
  | challengeOpened | challengeAnswered =>
    refine SameMembers.keeps ?_ hs _
    exact ⟨rfl, fun _ ↦ rfl⟩
  | bucketCreated who minProviders visibility bucket ledger memberBuckets events gain hprimaries
      hsnapshot hfrozen hgain hmoves hmembers hindex =>
    exact keeps_created hs (hfresh _ _ rfl rfl) hmembers rfl hindex _
  | bucketDeleted who target ledger memberBuckets events loss hagreements hpending hloss hmoves
      hindex =>
    obtain ⟨bucket, hbucket, hindex⟩ := hindex
    exact keeps_erased hs hbucket rfl hindex _
  | bucketChanged who call target old new ledger memberBuckets events gain loss hold hprimaries
      hsnapshot hfrozen hgain hloss hmoves hmembers => exact keeps_changed hs hold rfl hmembers
  | checkpointed who target submitted signatures old new bits signers events hok hold hpinned hsigned
      hprimaries hfrozen hsnapshot hmembers =>
    refine SameMembers.keeps ?_ hs _
    exact sameMembers_insert hold hmembers rfl rfl
  | checkpointExtended who target signatures old new snapshot bits signers events hok hold
      hsnapshotOld hsigned hprimaries hfrozen hsnapshot hmembers =>
    refine SameMembers.keeps ?_ hs _
    exact sameMembers_insert hold hmembers rfl rfl
  | opened owner call target provider terms signature bucketTarget kind info agreement deposits
      ledger buckets nextBucketId nonces memberBuckets events hopening hbuckets hcall hredemption
      hnonces hmembers hindex =>
    cases hbuckets with
    | created bucket hid =>
      subst hid
      obtain ⟨visibility, rfl⟩ := hcall rfl
      obtain ⟨stored, hstored, hmembers, hindex⟩ := hmembers rfl
      rw [Finmap.lookup_insert] at hstored
      cases hstored
      exact keeps_created hs (hfresh _ _ rfl rfl) hmembers rfl hindex _
    | joined bucket hbucket =>
      refine SameMembers.keeps ?_ hs _
      refine sameMembers_insert hbucket ?_ rfl (hindex nofun)
      rfl
    | replicated =>
      refine SameMembers.keeps ?_ hs _
      exact ⟨hindex nofun, fun _ ↦ rfl⟩
  | closed who call target provider old ledger deposit stats events hpending hold hmoves =>
    refine SameMembers.keeps ?_ hs _
    refine ⟨rfl, fun id ↦ ?_⟩
    simp only
    split_ifs
    · exact map_members_removePrimary s.buckets target id provider
    · rfl
  | challengeExpired origin challengeId challenge hchallenge hexpired =>
    refine SameMembers.keeps ?_ hs _
    refine ⟨?_, fun id ↦ ?_⟩
    · unfold slashProviderForFailedChallenge
      split
      · rfl
      · rfl
    · rw [(slashProvider_buckets challenge challengeId _).1]

/-! ### Whole runs -/

/-- Whether a step creates a bucket. -/
def createsBucket (cfg : Config AccountId) (s : State AccountId) : Input AccountId → Bool
  | .call (.signed who) call =>
    call.createsBucket && call.fits cfg && isOk (dispatchSigned cfg who call s.withoutEvents)
  | _ => false

/-- The number of buckets a run creates. -/
def createdBuckets (cfg : Config AccountId) : State AccountId → List (Input AccountId) → ℕ
  | _, [] => 0
  | s, input :: rest =>
    (if createsBucket cfg s input then 1 else 0) + createdBuckets cfg (step cfg s input) rest

private theorem createdBuckets_append (first second : List (Input AccountId)) :
    createdBuckets cfg s (first ++ second) =
      createdBuckets cfg s first + createdBuckets cfg (run (step cfg) s first) second := by
  induction first generalizing s with
  | nil => simp [createdBuckets]
  | cons input rest ih => rw [List.cons_append, createdBuckets, createdBuckets, ih, run_cons, add_assoc]

/-- A step that creates no bucket was refused or asked for none. -/
private theorem step_of_createsBucket_false {call : Call AccountId} (hcall : call.createsBucket = true)
    (h : createsBucket cfg s (.call (.signed who) call) = false) :
    step cfg s (.call (.signed who) call) = s.withoutEvents := by
  rw [createsBucket, hcall, Bool.true_and] at h
  exact step_of_refused h

/-- The counter moves by one at most, and only for a call that asks for a bucket. -/
private theorem Effect.nextBucketId_le (h : Effect cfg s input s') :
    s'.nextBucketId ≤ s.nextBucketId + 1 ∧
      ((∀ who call, input = .call (.signed who) call → call.createsBucket = false) →
        s'.nextBucketId = s.nextBucketId) := by
  cases h with
  | rejected | advanced | outside | registered | providerChanged | deregistered | toppedUp | amended
  | challengeOpened | challengeAnswered | bucketDeleted | bucketChanged | checkpointed
  | checkpointExtended | closed => exact ⟨Nat.le_succ _, fun _ ↦ rfl⟩
  | bucketCreated who minProviders visibility =>
    refine ⟨min_le_left _ _, fun hnone ↦ ?_⟩
    cases hnone _ _ rfl
  | opened owner call target provider terms signature bucketTarget kind info agreement deposits
      ledger buckets nextBucketId nonces memberBuckets events hopening hbuckets hcall =>
    cases hbuckets with
    | created bucket hid =>
      subst hid
      obtain ⟨visibility, rfl⟩ := hcall rfl
      refine ⟨min_le_left _ _, fun hnone ↦ ?_⟩
      cases hnone _ _ rfl
    | joined bucket hbucket => exact ⟨Nat.le_succ _, fun _ ↦ rfl⟩
    | replicated => exact ⟨Nat.le_succ _, fun _ ↦ rfl⟩
  | challengeExpired origin challengeId challenge hchallenge hexpired =>
    rw [(slashProvider_buckets challenge challengeId _).2]
    exact ⟨Nat.le_succ _, fun _ ↦ rfl⟩

/-- A step that creates a bucket moves the counter by one at most, and others leave it. -/
private theorem nextBucketId_step_le (cfg : Config AccountId) (hs : Funded s) (input : Input AccountId) :
    (step cfg s input).nextBucketId ≤
      s.nextBucketId + if createsBucket cfg s input then 1 else 0 := by
  have heffect : Effect cfg s input (step cfg s input) := effect_of_step hs input
  obtain ⟨hle, hsame⟩ := heffect.nextBucketId_le
  by_cases hcreates : createsBucket cfg s input = true
  · rw [if_pos hcreates]
    exact hle
  · rw [if_neg hcreates, add_zero]
    by_cases hasks : ∃ who call, input = .call (.signed who) call ∧ call.createsBucket = true
    · obtain ⟨who, call, rfl, hcall⟩ := hasks
      rw [step_of_createsBucket_false hcall (by simpa using hcreates)]
      exact le_rfl
    · refine (hsame fun who call hinput ↦ ?_).le
      by_contra hcall
      exact hasks ⟨who, call, hinput, by simpa using hcall⟩

/-- What a step of a run keeps. Assumes: a bucket is created only while the counter is not at its
last value. -/
private theorem keeps_step (hfunded : Funded s) (hindexed : BucketsIndexed s) (hs : MembershipKept s)
    (hfresh : createsBucket cfg s input = true → s.nextBucketId < u64Max) :
    Keeps input.caller s (step cfg s input) := by
  by_cases hrefused : ∃ who call, input = .call (.signed who) call ∧ call.createsBucket = true ∧
      createsBucket cfg s input = false
  · obtain ⟨who, call, rfl, hcall, hfalse⟩ := hrefused
    rw [step_of_createsBucket_false hcall hfalse]
    refine SameMembers.keeps ?_ hs _
    exact ⟨rfl, fun _ ↦ rfl⟩
  · refine (effect_of_step hfunded input).keeps hs fun who call hinput hcall ↦ ?_
    refine hindexed.fresh (hfresh ?_)
    by_contra hfalse
    exact hrefused ⟨who, call, hinput, hcall, by simpa using hfalse⟩

/-- The membership in every state of a run. -/
private theorem membershipKept_run (hfunded : Funded s) (hindexed : BucketsIndexed s)
    (hs : MembershipKept s) {inputs : List (Input AccountId)}
    (hcount : s.nextBucketId + createdBuckets cfg s inputs < 2 ^ 64) :
    MembershipKept (run (step cfg) s inputs) ∧
      (run (step cfg) s inputs).nextBucketId ≤ s.nextBucketId + createdBuckets cfg s inputs := by
  induction inputs generalizing s with
  | nil => exact ⟨hs, le_rfl⟩
  | cons input rest ih =>
    rw [createdBuckets] at hcount ⊢
    have heffect : Effect cfg s input (step cfg s input) := effect_of_step hfunded input
    have hnext := nextBucketId_step_le cfg hfunded input
    have hfresh : createsBucket cfg s input = true → s.nextBucketId < u64Max := by
      intro hcreates
      rw [if_pos hcreates] at hcount
      unfold u64Max
      omega
    obtain ⟨hkept, -⟩ := keeps_step hfunded hindexed hs hfresh
    obtain ⟨hlast, hbound⟩ := ih (heffect.funded hfunded) (heffect.bucketsIndexed hindexed) hkept
      (by omega)
    exact ⟨hlast, by rw [run_cons]; omega⟩

/-! ### Genesis -/

/-- Genesis buckets take the ids from the counter on. -/
private theorem membershipKept_genesisBuckets {buckets : List (AccountId × ℕ)}
    (hs : MembershipKept s) (hids : ∀ id ∈ s.buckets, id < s.nextBucketId)
    (hcount : s.nextBucketId + buckets.length < 2 ^ 64)
    (h : createGenesisBuckets cfg buckets s = .ok s') :
    MembershipKept s' ∧ s'.nextBucketId = s.nextBucketId + buckets.length := by
  induction buckets generalizing s with
  | nil =>
    cases h
    exact ⟨hs, rfl⟩
  | cons entry rest ih =>
    simp only [createGenesisBuckets, bind_eq_ok] at h
    obtain ⟨created, hcreated, hrest⟩ := h
    obtain ⟨ledger, bucket, -, -, hbucket, hs'⟩ := createBucketInternal_ok hcreated
    rw [List.length_cons] at hcount
    have hsum : saturatingAdd u64Max s.nextBucketId 1 = s.nextBucketId + 1 :=
      saturatingAdd_of_le (by unfold u64Max; omega)
    have hfresh : s.buckets.lookup s.nextBucketId = none := by
      rw [Finmap.lookup_eq_none]
      exact fun hmem ↦ absurd (hids _ hmem) (lt_irrefl _)
    have hnext : created.2.nextBucketId = s.nextBucketId + 1 := by rw [hs', ← hsum]
    have hmembers : bucket.members = [⟨entry.1, .admin, entry.1, cfg.storageDeposit .member⟩] := by
      rw [hbucket]
    have hkept : Keeps none s created.2 :=
      keeps_created hs hfresh hmembers (by rw [hs']) (by rw [hs']) none
    have hbelow : ∀ id ∈ created.2.buckets, id < created.2.nextBucketId := by
      intro id hid
      rw [hs'] at hid
      rw [hnext]
      rcases Finmap.mem_insert.mp hid with rfl | hold
      · exact Nat.lt_succ_self _
      · exact (hids id hold).trans (Nat.lt_succ_self _)
    obtain ⟨hlast, hbound⟩ := ih hkept.1 hbelow (by omega) hrest
    refine ⟨hlast, ?_⟩
    rw [hbound, hnext, List.length_cons]
    omega

/-- Genesis providers are registered without buckets. -/
private theorem registerGenesisProviders_buckets {providers : List (GenesisProvider AccountId)}
    (h : registerGenesisProviders cfg providers s = .ok s') :
    s'.buckets = s.buckets ∧ s'.memberBuckets = s.memberBuckets ∧
      s'.nextBucketId = s.nextBucketId := by
  induction providers generalizing s with
  | nil =>
    cases h
    exact ⟨rfl, rfl, rfl⟩
  | cons p rest ih =>
    simp only [registerGenesisProviders, bind_eq_ok] at h
    obtain ⟨middle, hmiddle, hrest⟩ := h
    obtain ⟨ledger, info, -, -, -, -, -, rfl⟩ := registerProviderInternal_ok hmiddle
    obtain ⟨hbuckets, hindex, hnext⟩ := ih hrest
    exact ⟨hbuckets, hindex, hnext⟩

theorem Genesis.membershipKept (genesis : Genesis cfg) (hcount : genesis.buckets.length < 2 ^ 64) :
    MembershipKept genesis.state ∧ genesis.state.nextBucketId = genesis.buckets.length := by
  have hbuilt := genesis.built
  simp only [buildGenesis, bind_eq_ok] at hbuilt
  obtain ⟨registered, hregistered, hcreated⟩ := hbuilt
  obtain ⟨hbuckets, hindex, hnext⟩ := registerGenesisProviders_buckets hregistered
  have hempty : MembershipKept registered := by
    refine ⟨fun id bucket hbucket ↦ ?_, ?_⟩
    · rw [hbuckets] at hbucket
      cases hbucket
    · rw [hindex]
      refine indexes_empty.congr fun id account ↦ ?_
      simp [Belongs, hbuckets, emptyState]
  have hzero : registered.nextBucketId = 0 := hnext
  have hbelow : ∀ id ∈ registered.buckets, id < registered.nextBucketId := by
    intro id hid
    rw [hbuckets] at hid
    exact absurd hid Finmap.notMem_empty
  have hfits : registered.nextBucketId + genesis.buckets.length < 2 ^ 64 := by
    rw [hzero, zero_add]
    exact hcount
  obtain ⟨hkept, hlast⟩ := membershipKept_genesisBuckets hempty hbelow hfits hcreated
  exact ⟨hkept, by rw [hlast, hzero, zero_add]⟩

/-- The membership index is exact. Assumes: fewer than `2 ^ 64` buckets are ever created. In every
reachable state the buckets listed for an account are those that list it as a member, each list names
nobody and nothing twice, no empty list is stored, every bucket has an admin, and a step that is not
an admin's own leaves it an admin of every bucket that still exists. -/
theorem membership_exact (genesis : Genesis cfg) (inputs : List (Input AccountId))
    (hcount : genesis.buckets.length + createdBuckets cfg genesis.state inputs < 2 ^ 64) :
    (∀ account bucketId,
      bucketId ∈ bucketsOf (run (step cfg) genesis.state inputs).memberBuckets account ↔
        ∃ bucket, (run (step cfg) genesis.state inputs).buckets.lookup bucketId = some bucket ∧
          account ∈ bucket.members.map Member.account) ∧
    (∀ account, (bucketsOf (run (step cfg) genesis.state inputs).memberBuckets account).Nodup ∧
      (run (step cfg) genesis.state inputs).memberBuckets.lookup account ≠ some []) ∧
    (∀ bucketId bucket,
      (run (step cfg) genesis.state inputs).buckets.lookup bucketId = some bucket →
        (bucket.members.map Member.account).Nodup ∧
          ∃ member ∈ bucket.members, member.role = .admin) ∧
    ∀ before input after, inputs = before ++ input :: after → ∀ bucketId account,
      input.caller ≠ some account →
        AdminOf (run (step cfg) genesis.state before) bucketId account →
          (step cfg (run (step cfg) genesis.state before) input).buckets.lookup bucketId ≠ none →
            AdminOf (step cfg (run (step cfg) genesis.state before) input) bucketId account := by
  obtain ⟨hgenesis, hnext⟩ := genesis.membershipKept (by omega)
  rw [← hnext] at hcount
  obtain ⟨hkept, -⟩ := membershipKept_run genesis.funded genesis.bucketsIndexed hgenesis hcount
  refine ⟨fun account bucketId ↦ hkept.indexed.mem_iff account bucketId,
    fun account ↦ ⟨hkept.indexed.nodup account, hkept.indexed.lookup_ne_nil account⟩,
    fun bucketId bucket hbucket ↦ ?_, ?_⟩
  · exact ⟨(hkept.listed bucketId bucket hbucket).nodup, (hkept.listed bucketId bucket hbucket).admin⟩
  · rintro before input after rfl bucketId account hcaller hadmin hexists
    rw [createdBuckets_append, createdBuckets] at hcount
    have hearlier : genesis.state.nextBucketId + createdBuckets cfg genesis.state before < 2 ^ 64 := by
      omega
    obtain ⟨hbefore, hbound⟩ :=
      membershipKept_run genesis.funded genesis.bucketsIndexed hgenesis hearlier
    refine (keeps_step (funded_run cfg genesis.funded before) (bucketsIndexed_run genesis before)
      hbefore fun hcreates ↦ ?_).2 bucketId account hcaller hadmin hexists
    rw [if_pos hcreates] at hcount
    unfold u64Max
    omega

/-- Account 1 creates a bucket and adds account 5 as a reader. -/
def createThenAdd : List (Input ℕ) :=
  [.call (.signed 1) (.createBucket 1 .publicRead), .call (.signed 1) (.setMember 0 5 .reader)]

theorem membership_exact_added :
    ∃ bucket, (run (step Mock.config) Mock.twoParties.state createThenAdd).buckets.lookup 0 =
      some bucket ∧ 5 ∈ bucket.members.map Member.account := by
  have hexact := membership_exact Mock.twoParties createThenAdd (by decide +kernel)
  exact (hexact.1 5 0).mp (by decide +kernel)

end Web3Storage.Pallet
