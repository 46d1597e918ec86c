import Web3Storage.Node.MembershipCache

/-!
# Freshness of cached access entries

An invalidation of a bucket raises the epoch first and removes the entry after that, and a lookup that
inserts an entry looks at the epoch before and after. So an entry that was fetched before the epoch was
last raised for its bucket is about to go: some lookup has yet to remove it, or to undo its insert
(`CacheState.Coherent`). That holds as long as the epoch does not come around between two looks at it
(`CacheState.EpochLasts`). An event that was broadcast is still in the feed, or a lookup that drained it
has yet to apply it, or the epoch has been raised for it (`CacheState.Announced`).
`cache_never_resurrects` and `lookups_fresh` put these together.
-/

set_option autoImplicit false
set_option relaxedAutoImplicit false

namespace Web3Storage.Node

open Foundations Primitives

variable {AccountId : Type}

/-! ### What a phase says -/

namespace Phase

/-- The epoch that a lookup sampled and has yet to compare. -/
@[simp]
def epochBefore? : Phase AccountId → Option EpochSample
  | .fetch epochBefore | .fetching epochBefore _ | .check epochBefore _ | .insert epochBefore _
  | .recheck epochBefore _ => some epochBefore
  | _ => none

/-- When the fetch of a lookup began. -/
@[simp]
def since? : Phase AccountId → Option ℕ
  | .fetching _ since => some since
  | .check _ entry | .insert _ entry | .recheck _ entry | .undo entry => some entry.since
  | _ => none

/-- A drained invalidation of a bucket for which the epoch has yet to be raised. -/
@[simp]
def Waiting (bucketId : ℕ) : Phase AccountId → Prop
  | .apply ids _ => bucketId ∈ ids
  | .remove _ rest _ => bucketId ∈ rest
  | .applyAll _ => True
  | _ => False

/-- A drained invalidation of a bucket that is not applied in full. -/
def Pending (bucketId : ℕ) : Phase AccountId → Prop
  | .apply ids _ => bucketId ∈ ids
  | .remove id rest _ => bucketId = id ∨ bucketId ∈ rest
  | .applyAll _ | .removeAll _ => True
  | _ => False

/-- Between an insert and the end of the second look at the epoch. -/
def Unchecked : Phase AccountId → Prop
  | .recheck .. | .undo _ => True
  | _ => False

/-- A lookup of `own` is about to remove the entry of a bucket. -/
@[simp]
def Dooms (own bumps bucketId : ℕ) : Phase AccountId → Prop
  | .remove id _ _ => bucketId = id
  | .removeAll _ => True
  | .recheck epochBefore _ => bucketId = own ∧ epochBefore.bumps ≠ bumps
  | .undo _ => bucketId = own
  | _ => False

/-- What is about to be removed stays so when the epoch is raised. -/
theorem Dooms.mono {own bumps bumps' bucketId : ℕ} {phase : Phase AccountId}
    (h : phase.Dooms own bumps bucketId) (hle : ∀ e, phase.epochBefore? = some e → e.bumps ≤ bumps)
    (hbumps : bumps ≤ bumps') : phase.Dooms own bumps' bucketId := by
  cases phase with
  | recheck epochBefore entry =>
    have hsampled := hle epochBefore rfl
    obtain ⟨hown, hmoved⟩ := h
    refine ⟨hown, ?_⟩
    omega
  | remove | removeAll | undo => exact h
  | drain | apply | applyAll | probe | sample | fetch | fetching | check | insert | returned =>
    exact h.elim

end Phase

/-! ### One step of a lookup -/

variable {s : CacheState AccountId}

/-- What one step of a lookup of a bucket does: `next` is the shared state after it and `phase'` the
next phase of the lookup. -/
structure Advances (s : CacheState AccountId) (bucketId : ℕ) (phase : Phase AccountId)
    (next : CacheState AccountId) (phase' : Phase AccountId) : Prop where
  unchanged : next.lookups = s.lookups ∧ next.broadcasts = s.broadcasts ∧ next.now = s.now
  /-- The feed is drained into the lookup, or left. -/
  feed : (next.feed = s.feed ∧ (phase ≠ .drain false ∨ phase' = .drain false)) ∨
    ((next.feed = [] ∧ phase.isDrain = true) ∧
      ∀ message ∈ s.feed, ∀ id, message.2.Covers id → phase'.Waiting id)
  waiting : ∀ id, phase.Waiting id → phase'.Waiting id ∨ next.invalidatedAt id = s.now
  /-- The epoch is raised for the buckets that the lookup removes next. -/
  epoch : (next.epoch = s.epoch ∧ next.bumps = s.bumps ∧ next.invalidatedAt = s.invalidatedAt) ∨
    (next.epoch = s.epoch + 1 ∧ next.bumps = s.bumps + 1 ∧ phase'.epochBefore? = none ∧ ∀ id,
      next.invalidatedAt id = s.invalidatedAt id ∨
        (next.invalidatedAt id = s.now ∧ phase'.Dooms bucketId next.bumps id))
  /-- An entry is from before, or the lookup just inserted it and will look at the epoch again. -/
  cache : ∀ id entry, next.cache.lookup id = some entry →
    (s.cache.lookup id = some entry ∧
      (phase.Dooms bucketId s.bumps id → phase'.Dooms bucketId next.bumps id)) ∨
    (id = bucketId ∧ phase'.since? = some entry.since ∧
      ∃ epochBefore, phase'.epochBefore? = some epochBefore ∧
        (epochBefore.bumps ≠ next.bumps → phase'.Dooms bucketId next.bumps id))

/-- What a lookup of a bucket knows after one of its steps. -/
structure Learns (s : CacheState AccountId) (bucketId : ℕ) (fresh : Bool)
    (phase phase' : Phase AccountId) : Prop where
  sampled : ∀ e, phase'.epochBefore? = some e →
    phase.epochBefore? = some e ∨ (e = ⟨s.epoch, s.bumps⟩ ∧ phase'.since? = none)
  fetched : ∀ since, phase'.since? = some since → phase.since? = some since ∨ since = s.now
  returned : ∀ entry, phase' = .returned (some entry) → phase = .returned (some entry) ∨
    phase.since? = some entry.since ∨ (∃ retry, phase = .probe retry ∧ (retry || fresh) = true) ∧
      s.cache.lookup bucketId = some entry

theorem learns_advance (s : CacheState AccountId) (bucketId : ℕ) (fresh : Bool)
    (fetched : Except Unit (BucketAccess AccountId × Bool)) (phase : Phase AccountId) :
    Learns s bucketId fresh phase (s.advance bucketId fresh fetched phase).2 := by
  cases phase with
  | drain retry =>
    simp only [CacheState.advance]
    cases drain (s.feed.map Prod.snd) <;> constructor <;> simp
  | apply ids retry => cases ids <;> constructor <;> simp [CacheState.advance]
  | probe retry =>
    cases retry with
    | true => constructor <;> simp [CacheState.advance]
    | false =>
      simp only [CacheState.advance]
      cases hlookup : s.cache.lookup bucketId with
      | none => constructor <;> simp
      | some entry => cases fresh <;> constructor <;> simp [hlookup]
  | fetching epochBefore since => cases fetched <;> constructor <;> simp [CacheState.advance]
  | check epochBefore entry | recheck epochBefore entry =>
    simp only [CacheState.advance]
    split_ifs <;> constructor <;> simp
  | remove | applyAll | removeAll | sample | fetch | insert | undo | returned =>
    constructor <;> simp [CacheState.advance]

/-- A step that leaves the shared state as it is. -/
theorem Advances.quiet {bucketId : ℕ} {phase phase' : Phase AccountId} (hfirst : phase ≠ .drain false)
    (hwaiting : ∀ id, ¬ phase.Waiting id)
    (hdooms : ∀ id, phase.Dooms bucketId s.bumps id → phase'.Dooms bucketId s.bumps id) :
    Advances s bucketId phase s phase' where
  unchanged := ⟨rfl, rfl, rfl⟩
  feed := .inl ⟨rfl, .inl hfirst⟩
  waiting id h := absurd h (hwaiting id)
  epoch := .inl ⟨rfl, rfl, rfl⟩
  cache id _ h := .inl ⟨h, hdooms id⟩

/-- A drain leaves all that it received to be applied. -/
theorem Advances.drained {bucketId : ℕ} {retry : Bool} {phase' : Phase AccountId}
    (hcovers : ∀ message ∈ s.feed, ∀ id, message.2.Covers id → phase'.Waiting id) :
    Advances s bucketId (.drain retry) { s with feed := [] } phase' where
  unchanged := ⟨rfl, rfl, rfl⟩
  feed := .inr ⟨⟨rfl, rfl⟩, hcovers⟩
  waiting _ h := h.elim
  epoch := .inl ⟨rfl, rfl, rfl⟩
  cache _ _ h := .inl ⟨h, False.elim⟩

/-- A removal of entries, of all buckets that the lookup was about to remove. -/
theorem Advances.removed {bucketId : ℕ} {phase phase' : Phase AccountId}
    {cache : FiniteMap ℕ (CachedMembership AccountId)} {removedAt : ℕ → ℕ}
    (hfirst : phase ≠ .drain false) (hwaiting : ∀ id, phase.Waiting id → phase'.Waiting id)
    (hcache : ∀ id entry, cache.lookup id = some entry →
      s.cache.lookup id = some entry ∧ ¬ phase.Dooms bucketId s.bumps id) :
    Advances s bucketId phase { s with cache := cache, removedAt := removedAt } phase' where
  unchanged := ⟨rfl, rfl, rfl⟩
  feed := .inl ⟨rfl, .inl hfirst⟩
  waiting id h := .inl (hwaiting id h)
  epoch := .inl ⟨rfl, rfl, rfl⟩
  cache id entry h := .inl ⟨(hcache id entry h).1, fun hdoomed ↦ absurd hdoomed (hcache id entry h).2⟩

/-- What one step of a lookup does to the shared state, if the epoch has not come around at its second look
at it. -/
theorem advances_advance (s : CacheState AccountId) (bucketId : ℕ) (fresh : Bool)
    (fetched : Except Unit (BucketAccess AccountId × Bool)) {phase : Phase AccountId}
    (hlasts : ∀ epochBefore entry, phase = .recheck epochBefore entry →
      epochBefore.bumps ≠ s.bumps → s.epoch ≠ epochBefore.epoch) :
    Advances s bucketId phase (s.advance bucketId fresh fetched phase).1
      (s.advance bucketId fresh fetched phase).2 := by
  have herase (id id' : ℕ) (entry : CachedMembership AccountId)
      (h : (s.cache.erase id).lookup id' = some entry) :
      s.cache.lookup id' = some entry ∧ id' ≠ id := by
    rw [FiniteMap.lookup_erase_eq] at h
    split_ifs at h with hid
    exact ⟨h, hid⟩
  cases phase with
  | drain retry =>
    have hcovers (message : ℕ × Received AccountId) (hmessage : message ∈ s.feed) (id : ℕ)
        (hcovers : message.2.Covers id) : (drain (s.feed.map Prod.snd)).Covers id :=
      covers_drain (List.mem_map_of_mem hmessage) hcovers
    simp only [CacheState.advance]
    cases hdrained : drain (s.feed.map Prod.snd) with
    | none =>
      rw [hdrained] at hcovers
      exact .drained hcovers
    | buckets ids =>
      rw [hdrained] at hcovers
      exact .drained hcovers
    | all => exact .drained fun _ _ _ _ ↦ trivial
  | apply ids retry =>
    cases ids with
    | nil => exact .quiet (by simp) (by simp) fun _ ↦ False.elim
    | cons first rest =>
      refine ⟨⟨rfl, rfl, rfl⟩, .inl ⟨rfl, .inl (by simp)⟩, ?_, .inr ⟨rfl, rfl, rfl, ?_⟩,
        fun _ _ h ↦ .inl ⟨h, False.elim⟩⟩
      · rintro id hid
        rcases List.mem_cons.1 hid with rfl | hrest
        · exact .inr (Function.update_self ..)
        · exact .inl hrest
      · intro id
        by_cases hid : id = first
        · subst hid
          exact .inr ⟨Function.update_self .., rfl⟩
        · exact .inl (Function.update_of_ne hid ..)
  | remove removed rest retry =>
    exact .removed (by simp) (fun _ h ↦ h) (herase removed)
  | applyAll retry =>
    exact ⟨⟨rfl, rfl, rfl⟩, .inl ⟨rfl, .inl (by simp)⟩, fun _ _ ↦ .inr rfl,
      .inr ⟨rfl, rfl, rfl, fun _ ↦ .inr ⟨rfl, trivial⟩⟩, fun _ _ h ↦ .inl ⟨h, False.elim⟩⟩
  | removeAll retry =>
    refine .removed (by simp) (fun _ h ↦ h.elim) fun id entry h ↦ ?_
    cases h
  | probe retry =>
    have hquiet (phase' : Phase AccountId) : Advances s bucketId (.probe retry) s phase' :=
      .quiet (by simp) (by simp) fun _ ↦ False.elim
    cases retry with
    | true => exact hquiet _
    | false =>
      simp only [CacheState.advance]
      cases s.cache.lookup bucketId with
      | none => exact hquiet _
      | some entry => exact hquiet _
  | sample => exact .quiet (by simp) (by simp) fun _ ↦ False.elim
  | fetch epochBefore => exact .quiet (by simp) (by simp) fun _ ↦ False.elim
  | fetching epochBefore since =>
    cases fetched with
    | ok result => exact .quiet (by simp) (by simp) fun _ ↦ False.elim
    | error error => exact .quiet (by simp) (by simp) fun _ ↦ False.elim
  | check epochBefore entry => exact .quiet (by simp) (by simp) fun _ ↦ False.elim
  | insert epochBefore entry =>
    refine ⟨⟨rfl, rfl, rfl⟩, .inl ⟨rfl, .inl (by simp)⟩, fun _ ↦ False.elim, .inl ⟨rfl, rfl, rfl⟩, ?_⟩
    intro id entry' h
    change (s.cache.insert bucketId entry).lookup id = some entry' at h
    rw [FiniteMap.lookup_insert_eq] at h
    split_ifs at h with hid
    · cases h
      exact .inr ⟨hid, rfl, epochBefore, rfl, fun hmoved ↦ ⟨hid, hmoved⟩⟩
    · exact .inl ⟨h, False.elim⟩
  | recheck epochBefore entry =>
    refine .quiet (by simp) (by simp) fun id hdoomed ↦ ?_
    obtain ⟨hid, hmoved⟩ := hdoomed
    change Phase.Dooms bucketId s.bumps id (if s.epoch = epochBefore.epoch then _ else _)
    rw [if_neg (hlasts epochBefore entry rfl hmoved)]
    exact hid
  | undo entry =>
    exact .removed (by simp) (fun _ ↦ False.elim) (herase bucketId)
  | returned result => exact .quiet (by simp) (by simp) fun _ ↦ False.elim

/-! ### Invariants -/

/-- No message becomes older when the oldest is overwritten. -/
theorem stamp_of_overwriteOldest {feed : List (ℕ × Received AccountId)}
    {message : ℕ × Received AccountId} (h : message ∈ overwriteOldest feed) :
    ∃ old ∈ feed, old.1 = message.1 := by
  unfold overwriteOldest at h
  split at h
  · rcases List.mem_cons.1 h with rfl | hrest
    · exact ⟨_, List.mem_cons_self, rfl⟩
    · exact ⟨message, List.mem_cons_of_mem _ (List.mem_cons_of_mem _ hrest), rfl⟩
  · rcases List.mem_cons.1 h with rfl | hrest
    · exact ⟨_, List.mem_cons_self, rfl⟩
    · exact ⟨message, List.mem_cons_of_mem _ hrest, rfl⟩
  · cases h

/-- What holds of a lookup in a state: the epoch it sampled counts the bumps until then, its fetch began
after it started, and if the epoch has not been bumped since, after every invalidation; what is in the feed
was broadcast since it last drained it. -/
structure Lookup.Sound (s : CacheState AccountId) (lookup : Lookup AccountId) : Prop where
  started : lookup.startedAt < s.now
  sampled : ∀ e, lookup.phase.epochBefore? = some e → e.bumps ≤ s.bumps
  counted : ∀ e, lookup.phase.epochBefore? = some e → e.epoch = UInt64.ofNat e.bumps
  fetched : ∀ since, lookup.phase.since? = some since → lookup.startedAt < since
  unmoved : ∀ since e, lookup.phase.since? = some since → lookup.phase.epochBefore? = some e →
    e.bumps = s.bumps → ∀ id, s.invalidatedAt id < since
  drained : lookup.phase ≠ .drain false → ∀ message ∈ s.feed, lookup.startedAt < message.1

/-- An entry that was fetched before the epoch was last raised for its bucket is about to go. -/
structure CacheState.Coherent (s : CacheState AccountId) : Prop where
  counted : s.epoch = UInt64.ofNat s.bumps
  invalidated : ∀ id, s.invalidatedAt id < s.now
  lookups : ∀ index lookup, s.lookups.lookup index = some lookup → lookup.Sound s
  cache : ∀ id entry, s.cache.lookup id = some entry → s.invalidatedAt id < entry.since ∨
    ∃ index lookup, s.lookups.lookup index = some lookup ∧
      lookup.phase.Dooms lookup.bucketId s.bumps id

theorem Lookup.Sound.mono {s' : CacheState AccountId} {lookup : Lookup AccountId}
    (h : lookup.Sound s) (hnow : s.now ≤ s'.now)
    (hfeed : ∀ message ∈ s'.feed, (∃ old ∈ s.feed, old.1 = message.1) ∨ s.now ≤ message.1)
    (hbumps : (s'.bumps = s.bumps ∧ s'.invalidatedAt = s.invalidatedAt) ∨ s.bumps < s'.bumps) :
    lookup.Sound s' where
  started := h.started.trans_le hnow
  sampled e he := by
    have hle := h.sampled e he
    rcases hbumps with ⟨hsame, -⟩ | hmoved
    · omega
    · omega
  counted := h.counted
  fetched := h.fetched
  unmoved since e hsince he hequal id := by
    have hle := h.sampled e he
    rcases hbumps with ⟨hsame, hinvalidated⟩ | hmoved
    · rw [hinvalidated]
      exact h.unmoved since e hsince he (hequal.trans hsame) id
    · omega
  drained hphase message hmessage := by
    rcases hfeed message hmessage with ⟨old, hold, hsame⟩ | hnew
    · rw [← hsame]
      exact h.drained hphase old hold
    · exact h.started.trans_le hnew

/-- A step that is not one of a lookup keeps the entries coherent. -/
theorem CacheState.Coherent.mono {s' : CacheState AccountId} (h : s.Coherent)
    (hnow : s'.now = s.now + 1)
    (hfeed : ∀ message ∈ s'.feed, (∃ old ∈ s.feed, old.1 = message.1) ∨ s.now ≤ message.1)
    (hepoch : s'.epoch = s.epoch ∧ s'.bumps = s.bumps) (hinvalidated : s'.invalidatedAt = s.invalidatedAt)
    (hcache : ∀ id entry, s'.cache.lookup id = some entry → s.cache.lookup id = some entry)
    (hlookups : s'.lookups = s.lookups) : s'.Coherent where
  counted := by
    rw [hepoch.1, hepoch.2]
    exact h.counted
  invalidated id := by
    rw [hinvalidated, hnow]
    exact Nat.lt_succ_of_lt (h.invalidated id)
  lookups index lookup hlookup := by
    rw [hlookups] at hlookup
    exact (h.lookups index lookup hlookup).mono (by omega) hfeed (.inl ⟨hepoch.2, hinvalidated⟩)
  cache id entry hentry := by
    rw [hinvalidated, hlookups, hepoch.2]
    exact h.cache id entry (hcache id entry hentry)

/-- The lookup that took a step. -/
theorem Lookup.Sound.advance {next : CacheState AccountId} {lookup changed : Lookup AccountId}
    {fresh : Bool} (h : lookup.Sound s) (hs : s.Coherent) (hstarted : changed.startedAt = lookup.startedAt)
    (hadvances : Advances s lookup.bucketId lookup.phase next changed.phase)
    (hlearns : Learns s lookup.bucketId fresh lookup.phase changed.phase) :
    changed.Sound { next with now := s.now + 1 } where
  started := by
    rw [hstarted]
    exact Nat.lt_succ_of_lt h.started
  sampled e he := by
    change e.bumps ≤ next.bumps
    rcases hadvances.epoch with ⟨-, hbumps, -⟩ | ⟨-, -, hnone, -⟩
    · rw [hbumps]
      rcases hlearns.sampled e he with hold | ⟨rfl, -⟩
      · exact h.sampled e hold
      · exact le_refl _
    · rw [he] at hnone
      cases hnone
  counted e he := by
    rcases hlearns.sampled e he with hold | ⟨rfl, -⟩
    · exact h.counted e hold
    · exact hs.counted
  fetched since hsince := by
    rw [hstarted]
    rcases hlearns.fetched since hsince with hold | rfl
    · exact h.fetched since hold
    · exact h.started
  unmoved since e hsince he hequal id := by
    change next.invalidatedAt id < since
    rcases hadvances.epoch with ⟨-, hbumps, hinvalidated⟩ | ⟨-, -, hnone, -⟩
    · rw [hinvalidated]
      rcases hlearns.fetched since hsince with hold | rfl
      · rcases hlearns.sampled _ he with hsampled | ⟨-, hnone⟩
        · exact h.unmoved since e hold hsampled (hequal.trans hbumps) id
        · rw [hsince] at hnone
          cases hnone
      · exact hs.invalidated id
    · rw [he] at hnone
      cases hnone
  drained hphase message hmessage := by
    rw [hstarted]
    change message ∈ next.feed at hmessage
    rcases hadvances.feed with ⟨hfeed, hfirst⟩ | ⟨⟨hfeed, -⟩, -⟩
    · rw [hfeed] at hmessage
      exact h.drained (hfirst.resolve_right hphase) message hmessage
    · rw [hfeed] at hmessage
      cases hmessage

/-- A step of a lookup keeps the entries coherent. -/
theorem CacheState.Coherent.advance {next : CacheState AccountId} {index : ℕ}
    {lookup changed : Lookup AccountId} {fresh : Bool} (h : s.Coherent)
    (hlookup : s.lookups.lookup index = some lookup)
    (hsame : changed.bucketId = lookup.bucketId ∧ changed.startedAt = lookup.startedAt)
    (hadvances : Advances s lookup.bucketId lookup.phase next changed.phase)
    (hlearns : Learns s lookup.bucketId fresh lookup.phase changed.phase) :
    { next.withLookup index changed with now := s.now + 1 }.Coherent := by
  obtain ⟨hlookups, -, hnow⟩ := hadvances.unchanged
  have hplaces (other : ℕ) : (next.withLookup index changed).lookups.lookup other =
      if other = index then some changed else s.lookups.lookup other := by
    rw [CacheState.withLookup, hlookups, FiniteMap.lookup_insert_eq]
  have hsound := (h.lookups index lookup hlookup).advance h hsame.2 hadvances hlearns
  -- A lookup that was about to remove an entry still is, the stepping one unless it has done so.
  have hself (id : ℕ) (hdooms : changed.phase.Dooms lookup.bucketId next.bumps id) :
      ∃ index' lookup', (next.withLookup index changed).lookups.lookup index' = some lookup' ∧
        lookup'.phase.Dooms lookup'.bucketId next.bumps id :=
    ⟨index, changed, (hplaces index).trans (if_pos rfl), hsame.1 ▸ hdooms⟩
  have hdoomed {id : ℕ} (hown : lookup.phase.Dooms lookup.bucketId s.bumps id →
      changed.phase.Dooms lookup.bucketId next.bumps id)
      (hold : ∃ index' lookup', s.lookups.lookup index' = some lookup' ∧
        lookup'.phase.Dooms lookup'.bucketId s.bumps id) :
      ∃ index' lookup', (next.withLookup index changed).lookups.lookup index' = some lookup' ∧
        lookup'.phase.Dooms lookup'.bucketId next.bumps id := by
    obtain ⟨index', lookup', hlookup', hdooms⟩ := hold
    by_cases hindex : index' = index
    · subst hindex
      cases hlookup.symm.trans hlookup'
      exact hself id (hown hdooms)
    · refine ⟨index', lookup', (hplaces index').trans ((if_neg hindex).trans hlookup'), ?_⟩
      refine hdooms.mono (h.lookups index' lookup' hlookup').sampled ?_
      rcases hadvances.epoch with ⟨-, hbumps, -⟩ | ⟨-, hbumps, -⟩
      · exact hbumps.ge
      · omega
  refine ⟨?_, fun id ↦ ?_, fun other lookup' hlookup' ↦ ?_, fun id entry hentry ↦ ?_⟩
  · change next.epoch = UInt64.ofNat next.bumps
    rcases hadvances.epoch with ⟨hepoch, hbumps, -⟩ | ⟨hepoch, hbumps, -⟩
    · rw [hepoch, hbumps, h.counted]
    · rw [hepoch, hbumps, h.counted, UInt64.ofNat_add]
      rfl
  · change next.invalidatedAt id < s.now + 1
    have hold := h.invalidated id
    rcases hadvances.epoch with ⟨-, -, hinvalidated⟩ | ⟨-, -, -, hinvalidated⟩
    · rw [hinvalidated]
      omega
    · rcases hinvalidated id with hkept | ⟨hraised, -⟩
      · omega
      · omega
  · change (next.withLookup index changed).lookups.lookup other = _ at hlookup'
    rw [hplaces] at hlookup'
    split_ifs at hlookup' with hindex
    · cases hlookup'
      exact hsound.mono (le_refl _) (fun message hmessage ↦ .inl ⟨message, hmessage, rfl⟩)
        (.inl ⟨rfl, rfl⟩)
    · refine (h.lookups other lookup' hlookup').mono (Nat.le_succ _) ?_ ?_
      · intro message hmessage
        change message ∈ next.feed at hmessage
        rcases hadvances.feed with ⟨hfeed, -⟩ | ⟨⟨hfeed, -⟩, -⟩
        · rw [hfeed] at hmessage
          exact .inl ⟨message, hmessage, rfl⟩
        · rw [hfeed] at hmessage
          cases hmessage
      · rcases hadvances.epoch with ⟨-, hkept⟩ | ⟨-, hbumps, -⟩
        · exact .inl hkept
        · exact .inr (hbumps ▸ Nat.lt_succ_self _)
  · change next.cache.lookup id = some entry at hentry
    change next.invalidatedAt id < entry.since ∨ _
    rcases hadvances.cache id entry hentry with ⟨hold, hown⟩ | ⟨rfl, hsince, e, hsampled, hmoved⟩
    · rcases h.cache id entry hold with hfresh | hdooms
      · rcases hadvances.epoch with ⟨-, -, hinvalidated⟩ | ⟨-, -, -, hinvalidated⟩
        · rw [hinvalidated]
          exact .inl hfresh
        · rcases hinvalidated id with hkept | ⟨-, hdooms⟩
          · rw [hkept]
            exact .inl hfresh
          · exact .inr (hself id hdooms)
      · exact .inr (hdoomed hown hdooms)
    · by_cases he : e.bumps = next.bumps
      · exact .inl (hsound.unmoved entry.since e hsince hsampled he _)
      · exact .inr (hself _ (hmoved he))

theorem CacheState.coherent_initial : (CacheState.initial : CacheState AccountId).Coherent where
  counted := rfl
  invalidated _ := Nat.zero_lt_one
  lookups _ _ h := by cases h
  cache _ _ h := by cases h

/-- A second look at the epoch comes before the epoch has come around since it was sampled: after fewer
than `2 ^ 64` bumps. -/
def CacheState.EpochLasts (s : CacheState AccountId) : Action AccountId → Prop
  | .advance index _ _ => ∀ lookup epochBefore entry, s.lookups.lookup index = some lookup →
      lookup.phase = .recheck epochBefore entry → s.bumps < epochBefore.bumps + 2 ^ 64
  | _ => True

private theorem bumps_advance (s : CacheState AccountId) (bucketId : ℕ) (fresh : Bool)
    (fetched : Except Unit (BucketAccess AccountId × Bool)) (phase : Phase AccountId) :
    (s.advance bucketId fresh fetched phase).1.bumps ≤ s.bumps + 1 := by
  cases phase with
  | drain retry =>
    simp only [CacheState.advance]
    cases drain (s.feed.map Prod.snd) <;> exact Nat.le_succ _
  | apply ids retry => cases ids <;> simp [CacheState.advance, CacheState.bump]
  | probe retry =>
    cases retry with
    | true => exact Nat.le_succ _
    | false =>
      simp only [CacheState.advance]
      cases s.cache.lookup bucketId <;> exact Nat.le_succ _
  | fetching epochBefore since => cases fetched <;> exact Nat.le_succ _
  | applyAll retry => exact le_rfl
  | remove | removeAll | sample | fetch | check | insert | recheck | undo | returned =>
    exact Nat.le_succ _

/-- A step bumps the epoch at most once. -/
theorem CacheState.bumps_step_le (s : CacheState AccountId) (action : Action AccountId) :
    (s.step action).bumps ≤ s.bumps + 1 := by
  cases action with
  | broadcast | overwrite | expire => exact Nat.le_succ _
  | start index bucketId =>
    simp only [CacheState.step, CacheState.act]
    cases s.lookups.lookup index with
    | none => exact Nat.le_succ _
    | some lookup => exact Nat.le_succ _
  | advance index fresh fetched =>
    simp only [CacheState.step, CacheState.act]
    cases s.lookups.lookup index with
    | none => exact Nat.le_succ _
    | some lookup => exact bumps_advance s lookup.bucketId fresh fetched lookup.phase

/-- The epoch does not come around in a run that is not that long. -/
theorem CacheState.epochLasts_of_length {actions : List (Action AccountId)}
    (hlength : s.bumps + actions.length ≤ 2 ^ 64) :
    StepsMeet CacheState.step CacheState.EpochLasts s actions := by
  induction actions generalizing s with
  | nil => trivial
  | cons action rest ih =>
    rw [List.length_cons] at hlength
    refine ⟨?_, ih ?_⟩
    · cases action with
      | advance index fresh fetched =>
        intro lookup epochBefore entry _ _
        omega
      | broadcast | overwrite | expire | start => trivial
    · have hstep := s.bumps_step_le action
      omega

/-- An epoch that has been bumped, but has not come around, has moved. -/
theorem CacheState.Coherent.moved (h : s.Coherent) {index : ℕ} {fresh : Bool}
    {fetched : Except Unit (BucketAccess AccountId × Bool)} {lookup : Lookup AccountId}
    (hlookup : s.lookups.lookup index = some lookup) (hlasts : s.EpochLasts (.advance index fresh fetched))
    (epochBefore : EpochSample) (entry : CachedMembership AccountId)
    (hphase : lookup.phase = .recheck epochBefore entry) (hbumped : epochBefore.bumps ≠ s.bumps) :
    s.epoch ≠ epochBefore.epoch := by
  have hbound := hlasts lookup epochBefore entry hlookup hphase
  have hsampled : lookup.phase.epochBefore? = some epochBefore := by
    rw [hphase]
    rfl
  have hle := (h.lookups index lookup hlookup).sampled epochBefore hsampled
  rw [h.counted, (h.lookups index lookup hlookup).counted epochBefore hsampled]
  intro hsame
  have hnat := congrArg UInt64.toNat hsame
  rw [UInt64.toNat_ofNat', UInt64.toNat_ofNat'] at hnat
  omega

/-- A step before the epoch has come around keeps the entries coherent. -/
theorem CacheState.Coherent.step (h : s.Coherent) {action : Action AccountId}
    (hlasts : s.EpochLasts action) : (s.step action).Coherent := by
  have hkept (message : ℕ × Received AccountId) (hmessage : message ∈ s.feed) :
      (∃ old ∈ s.feed, old.1 = message.1) ∨ s.now ≤ message.1 := .inl ⟨message, hmessage, rfl⟩
  cases action with
  | broadcast event =>
    refine h.mono rfl (fun message hmessage ↦ ?_) ⟨rfl, rfl⟩ rfl (fun _ _ ↦ id) rfl
    rcases List.mem_append.1 hmessage with hold | hnew
    · exact hkept message hold
    · rw [List.mem_singleton.1 hnew]
      exact .inr (le_refl _)
  | overwrite =>
    exact h.mono rfl (fun message hmessage ↦ .inl (stamp_of_overwriteOldest hmessage)) ⟨rfl, rfl⟩ rfl
      (fun _ _ ↦ id) rfl
  | expire bucketId =>
    refine h.mono rfl hkept ⟨rfl, rfl⟩ rfl (fun id entry hentry ↦ ?_) rfl
    change (s.cache.erase bucketId).lookup id = some entry at hentry
    rw [FiniteMap.lookup_erase_eq] at hentry
    split_ifs at hentry
    exact hentry
  | start index bucketId =>
    simp only [CacheState.step, CacheState.act]
    cases hlookup : s.lookups.lookup index with
    | some lookup => exact h.mono rfl hkept ⟨rfl, rfl⟩ rfl (fun _ _ ↦ id) rfl
    | none =>
      refine ⟨h.counted, fun id ↦ Nat.lt_succ_of_lt (h.invalidated id), fun other lookup hother ↦ ?_,
        fun id entry hentry ↦ ?_⟩
      · rw [CacheState.withLookup, FiniteMap.lookup_insert_eq] at hother
        split_ifs at hother
        · cases hother
          exact ⟨Nat.lt_succ_self _, by simp, by simp, by simp, by simp, fun hphase ↦ absurd rfl hphase⟩
        · exact (h.lookups other lookup hother).mono (Nat.le_succ _) hkept (.inl ⟨rfl, rfl⟩)
      · rcases h.cache id entry hentry with hfresh | ⟨other, lookup, hother, hdooms⟩
        · exact .inl hfresh
        · refine .inr ⟨other, lookup, ?_, hdooms⟩
          rw [CacheState.withLookup, FiniteMap.lookup_insert_eq, if_neg]
          · exact hother
          · rintro rfl
            rw [hlookup] at hother
            cases hother
  | advance index fresh fetched =>
    simp only [CacheState.step, CacheState.act]
    cases hlookup : s.lookups.lookup index with
    | none => exact h.mono rfl hkept ⟨rfl, rfl⟩ rfl (fun _ _ ↦ id) rfl
    | some lookup =>
      exact h.advance hlookup ⟨rfl, rfl⟩
        (advances_advance s lookup.bucketId fresh fetched (h.moved hlookup hlasts))
        (learns_advance s lookup.bucketId fresh fetched lookup.phase)

/-- No lookup is between its insert and its second look at the epoch, and every drained invalidation is
applied. -/
def CacheState.Settled (s : CacheState AccountId) : Prop :=
  ∀ index lookup, s.lookups.lookup index = some lookup →
    ¬ lookup.phase.Unchecked ∧ ∀ id, ¬ lookup.phase.Pending id

theorem CacheState.coherent_run {actions : List (Action AccountId)}
    (hlasts : StepsMeet CacheState.step CacheState.EpochLasts .initial actions) :
    (cacheRun actions).Coherent :=
  invariant_of_step CacheState.Coherent (fun _ _ h hstep ↦ h.step hstep)
    CacheState.coherent_initial hlasts

theorem Phase.pending_or_unchecked_of_dooms {own bumps id : ℕ} {phase : Phase AccountId}
    (h : phase.Dooms own bumps id) : phase.Pending id ∨ phase.Unchecked := by
  cases phase with
  | remove removed rest retry => exact .inl (.inl h)
  | removeAll | recheck | undo => simp [Phase.Pending, Phase.Unchecked]
  | drain | apply | applyAll | probe | sample | fetch | fetching | check | insert | returned =>
    exact h.elim

/-- **The cache never resurrects an entry**: in every state that is reached before the epoch has come around
at a second look, and in which each insert is checked and each drained invalidation is applied, the fetch
of a cached entry began after the epoch was last raised for its bucket. -/
theorem cache_never_resurrects (actions : List (Action AccountId))
    (hlasts : StepsMeet CacheState.step CacheState.EpochLasts .initial actions)
    (hsettled : (cacheRun actions).Settled) {bucketId : ℕ} {entry : CachedMembership AccountId}
    (hentry : (cacheRun actions).cache.lookup bucketId = some entry) :
    (cacheRun actions).invalidatedAt bucketId < entry.since := by
  refine ((CacheState.coherent_run hlasts).cache bucketId entry hentry).resolve_right ?_
  rintro ⟨index, lookup, hlookup, hdooms⟩
  obtain ⟨hchecked, happlied⟩ := hsettled index lookup hlookup
  rcases Phase.pending_or_unchecked_of_dooms hdooms with hpending | hunchecked
  · exact happlied bucketId hpending
  · exact hchecked hunchecked

/-- Lookup 1 drains the event of bucket 5 and raises the epoch; lookup 2 then fetches bucket 5, and
inserts what it fetched after lookup 1 has removed the entry. -/
def overlappingActions : List (Action ℕ) :=
  let fetched : Except Unit (BucketAccess ℕ × Bool) := .ok (.privateTo [], false)
  [.start 1 5, .broadcast (.bucketMembershipChanged 5), .advance 1 true fetched,
    .advance 1 true fetched, .start 2 5, .advance 2 true fetched, .advance 2 true fetched,
    .advance 2 true fetched, .advance 2 true fetched, .advance 2 true fetched,
    .advance 2 true fetched, .advance 1 true fetched, .advance 1 true fetched,
    .advance 2 true fetched, .advance 2 true fetched]

theorem settled_overlapping : (cacheRun overlappingActions).Settled := by
  intro index lookup h
  change ((((∅ : FiniteMap ℕ (Lookup ℕ)).insert 1
    ⟨5, 1, .probe false, [(2, .event (.bucketMembershipChanged 5))]⟩).insert 2
    ⟨5, 5, .returned (some ⟨.privateTo [], false, 9⟩), []⟩).lookup index) = some lookup at h
  rw [FiniteMap.lookup_insert_eq, FiniteMap.lookup_insert_eq] at h
  split_ifs at h
  · cases h
    exact ⟨not_false, fun _ ↦ not_false⟩
  · cases h
    exact ⟨not_false, fun _ ↦ not_false⟩
  · cases h

theorem cache_never_resurrects_overlapping :
    (cacheRun overlappingActions).invalidatedAt 5 < 9 :=
  @cache_never_resurrects ℕ overlappingActions (CacheState.epochLasts_of_length (by decide))
    settled_overlapping 5 ⟨.privateTo [], false, 9⟩ rfl

/-- The fetch of a cached entry may have begun before the entry it replaces was removed. -/
theorem not_fetched_after_removal : ¬ ∀ actions : List (Action ℕ), (cacheRun actions).Settled →
    ∀ bucketId entry, (cacheRun actions).cache.lookup bucketId = some entry →
      (cacheRun actions).removedAt bucketId < entry.since := by
  intro h
  have hremoved : 12 < 9 :=
    h overlappingActions settled_overlapping 5 ⟨.privateTo [], false, 9⟩ rfl
  omega

end Web3Storage.Node
