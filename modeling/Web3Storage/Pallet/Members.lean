import Web3Storage.Pallet.Funds

/-!
# Members of a bucket

Who may do what in a bucket, and the two calls that edit its member list. A member entry carries the
storage deposit the adding admin paid, and every member has the bucket in its reverse index.
-/

set_option autoImplicit false
set_option relaxedAutoImplicit false

namespace Web3Storage.Pallet

open Foundations Primitives

variable {AccountId : Type} [DecidableEq AccountId]

def ensureAdmin (who : AccountId) (bucket : Bucket AccountId) : Except DispatchError Unit :=
  check (bucket.members.any fun m ↦ m.account = who && m.role = .admin) .notBucketAdmin

def ensureWriterOrAdmin (who : AccountId) (bucket : Bucket AccountId) :
    Except DispatchError Unit :=
  check (bucket.members.any fun m ↦ m.account = who && (m.role = .admin || m.role = .writer))
    .notBucketWriter

def isMember (who : AccountId) (bucket : Bucket AccountId) : Bool :=
  bucket.members.any fun m ↦ m.account = who

/-- A member of the bucket, or the owner of any agreement on it. -/
def isAuthorized (s : State AccountId) (who : AccountId) (bucketId : ℕ)
    (bucket : Bucket AccountId) : Bool :=
  isMember who bucket ||
    FiniteMap.anyEntry (fun key agreement ↦ key.1 = bucketId && agreement.owner = who)
      s.storageAgreements

/-- A member of the bucket, or the owner of a primary agreement on it. -/
def isAuthorizedForPrivate (s : State AccountId) (who : AccountId) (bucketId : ℕ)
    (bucket : Bucket AccountId) : Bool :=
  isMember who bucket ||
    bucket.primaryProviders.any fun p ↦
      (s.storageAgreements.lookup (bucketId, p)).any fun agreement ↦ agreement.owner = who

/-- The place of a member (the last one with that account), whether it is an admin, and the number
of admins of the bucket. -/
def locateMember (bucket : Bucket AccountId) (member : AccountId) : Option ℕ × Bool × ℕ :=
  bucket.members.zipIdx.foldl
    (fun found entry ↦
      let adminCount :=
        if entry.1.role = .admin then saturatingAdd u32Max found.2.2 1 else found.2.2
      if entry.1.account = member then (some entry.2, entry.1.role = .admin, adminCount)
      else (found.1, found.2.1, adminCount))
    (none, false, 0)

/-- An admin steps down only by itself, and never as the last one. -/
def ensureMayStepDown (caller member : AccountId) (adminCount : ℕ) : Except DispatchError Unit := do
  check (member = caller) .cannotDemoteAdmin
  check (adminCount > 1) .lastAdminCannotBeRemoved

/-- The buckets an account is a member of. -/
def bucketsOf (memberBuckets : FiniteMap AccountId (List ℕ)) (member : AccountId) : List ℕ :=
  (memberBuckets.lookup member).getD []

/-- Remove a bucket from the reverse index of a member, and the entry with its last bucket. -/
def removeFromMemberIndex (member : AccountId) (bucketId : ℕ)
    (memberBuckets : FiniteMap AccountId (List ℕ)) : FiniteMap AccountId (List ℕ) :=
  match memberBuckets.lookup member with
  | none => memberBuckets
  | some buckets =>
    let left := buckets.filter fun id ↦ id ≠ bucketId
    if left = [] then memberBuckets.erase member else memberBuckets.insert member left

variable (cfg : Config AccountId)

/-- Add a member, or change the role of one. -/
def setMember (caller : AccountId) (bucketId : ℕ) (member : AccountId) (role : Role)
    (s : State AccountId) : Except DispatchError (State AccountId) := do
  let bucket ← fetch (s.buckets.lookup bucketId) .bucketNotFound
  ensureAdmin caller bucket
  match locateMember bucket member with
  | (some index, targetIsAdmin, adminCount) => do
    onlyIf (targetIsAdmin && role ≠ .admin) (ensureMayStepDown caller member adminCount)
    let members := bucket.members.modify index fun m ↦ { m with role := role }
    return { s with
      buckets := s.buckets.insert bucketId { bucket with members := members }
      events := s.events ++ [.memberSet bucketId member role] }
  | (none, _, _) => do
    let ticketed ← newTicket cfg caller .member s.ledger
    check (bucket.members.length < cfg.maxMembers) .maxMembersReached
    let buckets := bucketsOf s.memberBuckets member
    check (bucketId ∈ buckets || buckets.length < cfg.maxBucketsPerMember) .tooManyBucketsForMember
    let members := bucket.members ++ [⟨member, role, caller, ticketed.1⟩]
    return { s with
      ledger := ticketed.2
      buckets := s.buckets.insert bucketId { bucket with members := members }
      memberBuckets := s.memberBuckets.insert member
        (if bucketId ∈ buckets then buckets else buckets ++ [bucketId])
      events := s.events ++ [.memberSet bucketId member role] }

/-- Remove a member and release the deposit of the entry. -/
def removeMember (caller : AccountId) (bucketId : ℕ) (member : AccountId) (s : State AccountId) :
    Except DispatchError (State AccountId) := do
  let bucket ← fetch (s.buckets.lookup bucketId) .bucketNotFound
  ensureAdmin caller bucket
  let located := locateMember bucket member
  let index ← fetch located.1 .memberNotFound
  onlyIf located.2.1 (ensureMayStepDown caller member located.2.2)
  let removed ← fetch (bucket.members[index]?) .memberNotFound
  let ledger ← dropTicket removed.depositor removed.deposit s.ledger
  return { s with
    ledger := ledger
    buckets := s.buckets.insert bucketId { bucket with members := bucket.members.eraseIdx index }
    memberBuckets := removeFromMemberIndex member bucketId s.memberBuckets
    events := s.events ++ [.memberRemoved bucketId member] }

/-! ### What the calls do -/

section Specification

open Ledger (Moves amountAt held)

variable {cfg} {caller member : AccountId} {bucketId : ℕ} {role : Role} {s s' : State AccountId}

/-- What a call does to the members of a bucket and to the reverse index. -/
inductive MembersChange (who : AccountId) (bucketId : ℕ) (old : Bucket AccountId)
    (index : FiniteMap AccountId (List ℕ)) :
    List (Member AccountId) → FiniteMap AccountId (List ℕ) → Prop
  | kept : MembersChange who bucketId old index old.members index
  | roleSet (member : AccountId) (role : Role) (place : ℕ)
      (hplace : (locateMember old member).1 = some place)
      (hadmin : (locateMember old member).2.1 = true → role ≠ .admin →
        member = who ∧ 1 < (locateMember old member).2.2) :
      MembersChange who bucketId old index
        (old.members.modify place fun m ↦ { m with role := role }) index
  | added (member : AccountId) (role : Role) (deposit : ℕ)
      (hplace : (locateMember old member).1 = none) :
      MembersChange who bucketId old index (old.members ++ [⟨member, role, who, deposit⟩])
        (index.insert member (if bucketId ∈ bucketsOf index member then bucketsOf index member
          else bucketsOf index member ++ [bucketId]))
  | removed (member : AccountId) (place : ℕ)
      (hplace : (locateMember old member).1 = some place)
      (hadmin : (locateMember old member).2.1 = true →
        member = who ∧ 1 < (locateMember old member).2.2) :
      MembersChange who bucketId old index (old.members.eraseIdx place)
        (removeFromMemberIndex member bucketId index)

theorem ensureMayStepDown_ok {adminCount : ℕ}
    (h : ensureMayStepDown caller member adminCount = .ok ()) : member = caller ∧ 1 < adminCount := by
  simp only [ensureMayStepDown, bind_eq_ok, check_eq_ok, decide_eq_true_eq] at h
  obtain ⟨-, hcaller, hcount⟩ := h
  exact ⟨hcaller, hcount⟩

theorem setMember_ok (h : setMember cfg caller bucketId member role s = .ok s') :
    ∃ bucket members ledger memberBuckets amount, s.buckets.lookup bucketId = some bucket ∧
      Moves (amountAt .storageDeposit caller amount) 0 s.ledger ledger ∧
        MembersChange caller bucketId bucket s.memberBuckets members memberBuckets ∧
        s' = { s with
          ledger := ledger
          buckets := s.buckets.insert bucketId { bucket with members := members }
          memberBuckets := memberBuckets
          events := s.events ++ [.memberSet bucketId member role] } := by
  simp only [setMember, bind_eq_ok, fetch_eq_ok] at h
  obtain ⟨bucket, hbucket, -, -, h⟩ := h
  split at h
  · next place isAdmin adminCount hlocated =>
    simp only [bind_eq_ok, pure_eq_ok, onlyIf_eq_ok] at h
    obtain ⟨-, hadmin, rfl⟩ := h
    refine ⟨bucket, _, s.ledger, s.memberBuckets, 0, hbucket, ?_, .roleSet member role place ?_ ?_,
      rfl⟩
    · rw [Ledger.amountAt_zero]
      exact Moves.refl s.ledger
    · rw [hlocated]
    · rw [hlocated]
      intro htarget hrole
      have hdemoted : (isAdmin && decide (role ≠ .admin)) = true := by
        rw [Bool.and_eq_true]
        exact ⟨htarget, decide_eq_true hrole⟩
      exact ensureMayStepDown_ok (hadmin hdemoted)
  · next isAdmin adminCount hlocated =>
    simp only [bind_eq_ok, pure_eq_ok] at h
    obtain ⟨ticketed, hticket, -, -, -, -, rfl⟩ := h
    refine ⟨bucket, _, ticketed.2, _, _, hbucket, (newTicket_moves hticket).2,
      .added member role ticketed.1 ?_, rfl⟩
    rw [hlocated]

theorem removeMember_ok (h : removeMember caller bucketId member s = .ok s') :
    ∃ bucket members ledger memberBuckets depositor amount,
      s.buckets.lookup bucketId = some bucket ∧
        Moves 0 (amountAt .storageDeposit depositor amount) s.ledger ledger ∧
          MembersChange caller bucketId bucket s.memberBuckets members memberBuckets ∧
          s' = { s with
            ledger := ledger
            buckets := s.buckets.insert bucketId { bucket with members := members }
            memberBuckets := memberBuckets
            events := s.events ++ [.memberRemoved bucketId member] } := by
  simp only [removeMember, bind_eq_ok, pure_eq_ok, fetch_eq_ok, onlyIf_eq_ok] at h
  obtain ⟨bucket, hbucket, -, -, place, hplace, -, hadmin, removed, -, ledger, hledger, rfl⟩ := h
  exact ⟨bucket, _, ledger, _, removed.depositor, _, hbucket, dropTicket_moves hledger,
    .removed member place hplace fun htarget ↦ ensureMayStepDown_ok (hadmin htarget), rfl⟩

end Specification

end Web3Storage.Pallet
