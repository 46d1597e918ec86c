import Web3Storage.Node.AccessFeed

/-!
# The cache of access entries

Lookups run at the same time over one cache, one feed of invalidations and one epoch, a word of 64 bits
that wraps around. Each runs in atomic steps: it drains the feed and applies what it found, bucket by
bucket, probes the cache, samples the epoch, fetches, and inserts what it fetched if the epoch has not
moved; then it looks at the epoch once more and undoes the insert if it has. Between any two steps of a
lookup others may run, events may be broadcast, and entries may expire. Whether an entry is fresh and what
a fetch returns is arbitrary.

The clock counts steps and stamps events, lookups, fetches and invalidations, so that a statement can say
which came first. No step reads it, nor the number of bumps or what a lookup has drained.
`cache_never_resurrects` is about the entries in the cache, `lookups_fresh` about what a lookup returns.
-/

set_option autoImplicit false
set_option relaxedAutoImplicit false

namespace Web3Storage.Node

open Foundations Primitives

/-- A cached access entry, with the time at which its fetch began. -/
structure CachedMembership (AccountId : Type) where
  access : BucketAccess AccountId
  servesAsReplica : Bool
  since : ℕ

/-- The epoch as a lookup samples it, after some number of bumps. -/
structure EpochSample where
  epoch : UInt64
  bumps : ℕ

/-- What a lookup does next. On `retry` the fetch has failed. -/
inductive Phase (AccountId : Type)
  /-- Drain the feed. -/
  | drain (retry : Bool)
  /-- Invalidate the buckets that are left, by a bump and a removal each. -/
  | apply (ids : List ℕ) (retry : Bool)
  | remove (id : ℕ) (rest : List ℕ) (retry : Bool)
  /-- Invalidate all buckets. -/
  | applyAll (retry : Bool)
  | removeAll (retry : Bool)
  /-- Look in the cache. -/
  | probe (retry : Bool)
  | sample
  | fetch (epochBefore : EpochSample)
  | fetching (epochBefore : EpochSample) (since : ℕ)
  /-- Look at the epoch, insert, look again, and undo. -/
  | check (epochBefore : EpochSample) (entry : CachedMembership AccountId)
  | insert (epochBefore : EpochSample) (entry : CachedMembership AccountId)
  | recheck (epochBefore : EpochSample) (entry : CachedMembership AccountId)
  | undo (entry : CachedMembership AccountId)
  /-- The lookup is over, with an entry or an error. -/
  | returned (result : Option (CachedMembership AccountId))

def Phase.isDrain {AccountId : Type} : Phase AccountId → Bool
  | .drain _ => true
  | _ => false

/-- A lookup of a bucket, with what it drained last. -/
structure Lookup (AccountId : Type) where
  bucketId : ℕ
  startedAt : ℕ
  phase : Phase AccountId
  drained : List (ℕ × Received AccountId)

/-- The shared state and all lookups, finished ones included. -/
structure CacheState (AccountId : Type) where
  feed : List (ℕ × Received AccountId)
  epoch : UInt64
  cache : FiniteMap ℕ (CachedMembership AccountId)
  lookups : FiniteMap ℕ (Lookup AccountId)
  now : ℕ
  /-- How often the epoch was bumped. -/
  bumps : ℕ
  /-- What was broadcast, and when. -/
  broadcasts : List (ℕ × Received AccountId)
  /-- When the epoch was last bumped for a bucket, and when the bucket was removed after that. -/
  invalidatedAt : ℕ → ℕ
  removedAt : ℕ → ℕ

/-- What happens next. -/
inductive Action (AccountId : Type)
  | broadcast (event : BlockEvent AccountId)
  /-- The oldest event is overwritten in a full channel; its receiver learns that it lagged. -/
  | overwrite
  /-- An entry expires. -/
  | expire (bucketId : ℕ)
  | start (lookup bucketId : ℕ)
  /-- One step of a lookup: a probe finds its entry fresh or not, a fetch ends with a result. -/
  | advance (lookup : ℕ) (fresh : Bool)
      (fetched : Except Unit (BucketAccess AccountId × Bool))

variable {AccountId : Type}

/-- The oldest message is lost, and the receiver is told so in its place. -/
def overwriteOldest : List (ℕ × Received AccountId) → List (ℕ × Received AccountId)
  | (sent, .lagged) :: _ :: rest => (sent, .lagged) :: rest
  | (sent, _) :: rest => (sent, .lagged) :: rest
  | [] => []

namespace CacheState

def initial : CacheState AccountId where
  feed := []
  epoch := 0
  cache := ∅
  lookups := ∅
  now := 1
  bumps := 0
  broadcasts := []
  invalidatedAt _ := 0
  removedAt _ := 0

variable (s : CacheState AccountId)

/-- Bump the epoch for a bucket. -/
def bump (bucketId : ℕ) : CacheState AccountId :=
  { s with
    epoch := s.epoch + 1
    bumps := s.bumps + 1
    invalidatedAt := Function.update s.invalidatedAt bucketId s.now }

/-- Bump the epoch for all buckets. -/
def bumpAll : CacheState AccountId :=
  { s with
    epoch := s.epoch + 1
    bumps := s.bumps + 1
    invalidatedAt := fun _ ↦ s.now }

/-- One step of a lookup of a bucket: what becomes of the shared state and of the lookup. -/
def advance (bucketId : ℕ) (fresh : Bool) (fetched : Except Unit (BucketAccess AccountId × Bool)) :
    Phase AccountId → CacheState AccountId × Phase AccountId
  | .drain retry =>
    match Node.drain (s.feed.map Prod.snd) with
    | .none => ({ s with feed := [] }, .probe retry)
    | .buckets ids => ({ s with feed := [] }, .apply ids retry)
    | .all => ({ s with feed := [] }, .applyAll retry)
  | .apply [] retry => (s, .probe retry)
  | .apply (id :: rest) retry => (s.bump id, .remove id rest retry)
  | .remove id rest retry =>
    ({ s with
        cache := s.cache.erase id
        removedAt := Function.update s.removedAt id s.now }, .apply rest retry)
  | .applyAll retry => (s.bumpAll, .removeAll retry)
  | .removeAll retry => ({ s with cache := ∅, removedAt := fun _ ↦ s.now }, .probe retry)
  | .probe false =>
    match s.cache.lookup bucketId with
    | some entry => (s, if fresh then .returned (some entry) else .sample)
    | none => (s, .sample)
  | .probe true => (s, .returned (s.cache.lookup bucketId))
  | .sample => (s, .fetch ⟨s.epoch, s.bumps⟩)
  | .fetch epochBefore => (s, .fetching epochBefore s.now)
  | .fetching epochBefore since =>
    match fetched with
    | .ok (access, servesAsReplica) => (s, .check epochBefore ⟨access, servesAsReplica, since⟩)
    | .error _ => (s, .drain true)
  | .check epochBefore entry =>
    (s, if s.epoch = epochBefore.epoch then .insert epochBefore entry else .returned (some entry))
  | .insert epochBefore entry =>
    ({ s with cache := s.cache.insert bucketId entry }, .recheck epochBefore entry)
  | .recheck epochBefore entry =>
    (s, if s.epoch = epochBefore.epoch then .returned (some entry) else .undo entry)
  | .undo entry => ({ s with cache := s.cache.erase bucketId }, .returned (some entry))
  | .returned result => (s, .returned result)

/-- Put a lookup in its place. -/
def withLookup (id : ℕ) (lookup : Lookup AccountId) : CacheState AccountId :=
  { s with lookups := s.lookups.insert id lookup }

/-- What an action does, before the clock ticks. -/
def act : Action AccountId → CacheState AccountId
  | .broadcast event =>
    { s with
      feed := s.feed ++ [(s.now, .event event)]
      broadcasts := s.broadcasts ++ [(s.now, .event event)] }
  | .overwrite => { s with feed := overwriteOldest s.feed }
  | .expire bucketId => { s with cache := s.cache.erase bucketId }
  | .start id bucketId =>
    match s.lookups.lookup id with
    | none => s.withLookup id ⟨bucketId, s.now, .drain false, []⟩
    | some _ => s
  | .advance id fresh fetched =>
    match s.lookups.lookup id with
    | none => s
    | some lookup =>
      let (next, phase) := s.advance lookup.bucketId fresh fetched lookup.phase
      let drained := if lookup.phase.isDrain then s.feed else lookup.drained
      next.withLookup id { lookup with phase := phase, drained := drained }

/-- One atomic step. -/
def step (action : Action AccountId) : CacheState AccountId :=
  let next := s.act action
  { next with now := s.now + 1 }

end CacheState

/-- The states that are reached by any interleaving. -/
def cacheRun (actions : List (Action AccountId)) : CacheState AccountId :=
  run CacheState.step .initial actions

end Web3Storage.Node
