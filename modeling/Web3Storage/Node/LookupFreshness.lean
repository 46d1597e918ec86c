import Web3Storage.Node.CacheFreshness

/-!
# Freshness of what a lookup returns

An event that was broadcast is still in the feed, or a lookup that drained it has yet to raise the epoch
for it, or the epoch has been raised since (`CacheState.Announced`). A lookup drains the feed before it
looks in the cache, so an event from before the lookup is past the feed by then. What another lookup
drained may still wait to be applied, though, and an entry that another lookup is about to remove or to
undo may still be found (`CacheState.Clear`): `lookups_fresh` says that what a lookup returns is otherwise
from after every such event.
-/

set_option autoImplicit false
set_option relaxedAutoImplicit false

namespace Web3Storage.Node

open Foundations Primitives

variable {AccountId : Type} {s : CacheState AccountId}

/-! ### Where an event is -/

/-- A lookup has drained an event of a bucket, from some time or before, and has yet to bump the epoch
for it. -/
def Lookup.Holds (lookup : Lookup AccountId) (bucketId time : ℕ) : Prop :=
  lookup.phase.Waiting bucketId ∧
    ∃ message ∈ lookup.drained, message.1 ≤ time ∧ message.2.Covers bucketId

/-- An event that drops the entry of a bucket is in the feed, drained, or applied. -/
structure CacheState.Announced (s : CacheState AccountId) : Prop where
  inOrder : (s.feed.map Prod.fst).Pairwise (· ≤ ·)
  received : ∀ message ∈ s.feed, message.1 < s.now
  sent : ∀ message ∈ s.broadcasts, message.1 < s.now
  announced : ∀ message ∈ s.broadcasts, ∀ id, message.2.Covers id →
    (∃ message' ∈ s.feed, message'.1 ≤ message.1 ∧ message'.2.Covers id) ∨
      (∃ index lookup, s.lookups.lookup index = some lookup ∧ lookup.Holds id message.1) ∨
        message.1 < s.invalidatedAt id

theorem CacheState.announced_initial : (CacheState.initial : CacheState AccountId).Announced where
  inOrder := List.Pairwise.nil
  received _ h := by cases h
  sent _ h := by cases h
  announced _ h := by cases h

/-- What the oldest message covered, the notice in its place covers. -/
theorem covers_overwriteOldest {feed : List (ℕ × Received AccountId)}
    (hfeed : (feed.map Prod.fst).Pairwise (· ≤ ·)) {message : ℕ × Received AccountId} {id : ℕ}
    (hmessage : message ∈ feed) (hcovers : message.2.Covers id) :
    ∃ message' ∈ overwriteOldest feed, message'.1 ≤ message.1 ∧ message'.2.Covers id := by
  unfold overwriteOldest
  split
  · rename_i sent missed rest
    simp only [List.map_cons, List.pairwise_cons, List.mem_cons, forall_eq_or_imp] at hfeed
    obtain ⟨⟨hmissed, -⟩, -⟩ := hfeed
    rcases List.mem_cons.1 hmessage with rfl | hmessage
    · exact ⟨_, List.mem_cons_self, le_refl _, trivial⟩
    · rcases List.mem_cons.1 hmessage with rfl | hrest
      · exact ⟨_, List.mem_cons_self, hmissed, trivial⟩
      · exact ⟨message, List.mem_cons_of_mem _ hrest, le_refl _, hcovers⟩
  · rename_i sent oldest rest
    rcases List.mem_cons.1 hmessage with rfl | hrest
    · exact ⟨_, List.mem_cons_self, le_refl _, trivial⟩
    · exact ⟨message, List.mem_cons_of_mem _ hrest, le_refl _, hcovers⟩
  · cases hmessage

theorem inOrder_overwriteOldest {feed : List (ℕ × Received AccountId)}
    (hfeed : (feed.map Prod.fst).Pairwise (· ≤ ·)) :
    ((overwriteOldest feed).map Prod.fst).Pairwise (· ≤ ·) := by
  unfold overwriteOldest
  split
  · simp only [List.map_cons, List.pairwise_cons, List.mem_cons, forall_eq_or_imp] at hfeed
    exact List.pairwise_cons.2 ⟨hfeed.1.2, hfeed.2.2⟩
  · exact hfeed
  · exact List.Pairwise.nil

theorem Phase.not_isDrain_of_waiting {id : ℕ} {phase : Phase AccountId} (h : phase.Waiting id) :
    ¬ phase.isDrain = true := by
  cases phase with
  | drain => exact h.elim
  | apply | remove | applyAll | removeAll | probe | sample | fetch | fetching | check | insert | recheck
  | undo | returned => exact Bool.false_ne_true

/-- A step of a lookup leaves no event behind. -/
theorem CacheState.Announced.advance {next : CacheState AccountId} {index : ℕ}
    {lookup changed : Lookup AccountId} (h : s.Announced)
    (hlookup : s.lookups.lookup index = some lookup)
    (hdrained : changed.drained = if lookup.phase.isDrain then s.feed else lookup.drained)
    (hadvances : Advances s lookup.bucketId lookup.phase next changed.phase) :
    { next.withLookup index changed with now := s.now + 1 }.Announced := by
  obtain ⟨hlookups, hbroadcasts, -⟩ := hadvances.unchanged
  have hplaces (other : ℕ) : (next.withLookup index changed).lookups.lookup other =
      if other = index then some changed else s.lookups.lookup other := by
    rw [CacheState.withLookup, hlookups, FiniteMap.lookup_insert_eq]
  have hfeed : next.feed = s.feed ∨ next.feed = [] := by
    rcases hadvances.feed with ⟨hsame, -⟩ | ⟨⟨hempty, -⟩, -⟩
    · exact .inl hsame
    · exact .inr hempty
  refine ⟨?_, fun message hmessage ↦ ?_, fun message hmessage ↦ ?_, fun message hmessage id hcovers ↦ ?_⟩
  · change (next.feed.map Prod.fst).Pairwise (· ≤ ·)
    rcases hfeed with hsame | hempty
    · rw [hsame]
      exact h.inOrder
    · rw [hempty]
      exact List.Pairwise.nil
  · change message ∈ next.feed at hmessage
    rcases hfeed with hsame | hempty
    · rw [hsame] at hmessage
      exact Nat.lt_succ_of_lt (h.received message hmessage)
    · rw [hempty] at hmessage
      cases hmessage
  · change message ∈ next.broadcasts at hmessage
    rw [hbroadcasts] at hmessage
    exact Nat.lt_succ_of_lt (h.sent message hmessage)
  · change message ∈ next.broadcasts at hmessage
    rw [hbroadcasts] at hmessage
    have hself (hholds : changed.Holds id message.1) : ∃ index' lookup',
        (next.withLookup index changed).lookups.lookup index' = some lookup' ∧
          lookup'.Holds id message.1 :=
      ⟨index, changed, (hplaces index).trans (if_pos rfl), hholds⟩
    rcases h.announced message hmessage id hcovers with
      ⟨message', hmessage', hle, hcovers'⟩ | ⟨index', lookup', hlookup', hwaiting, hheld⟩ | hinvalidated
    · rcases hadvances.feed with ⟨hsame, -⟩ | ⟨hdrain, hwaits⟩
      · rw [← hsame] at hmessage'
        exact .inl ⟨message', hmessage', hle, hcovers'⟩
      · rw [if_pos hdrain.2] at hdrained
        refine .inr (.inl (hself ⟨hwaits message' hmessage' id hcovers', message', ?_, hle, hcovers'⟩))
        rwa [hdrained]
    · by_cases hindex : index' = index
      · subst hindex
        cases hlookup.symm.trans hlookup'
        rcases hadvances.waiting id hwaiting with hwaiting' | hraised
        · rw [if_neg (Phase.not_isDrain_of_waiting hwaiting)] at hdrained
          rw [← hdrained] at hheld
          exact .inr (.inl (hself ⟨hwaiting', hheld⟩))
        · refine .inr (.inr ?_)
          change message.1 < next.invalidatedAt id
          rw [hraised]
          exact h.sent message hmessage
      · exact .inr (.inl ⟨index', lookup', (hplaces index').trans ((if_neg hindex).trans hlookup'),
          hwaiting, hheld⟩)
    · refine .inr (.inr ?_)
      change message.1 < next.invalidatedAt id
      rcases hadvances.epoch with ⟨-, -, hsame⟩ | ⟨-, -, -, hraised⟩
      · rw [hsame]
        exact hinvalidated
      · rcases hraised id with hsame | ⟨hnow, -⟩
        · rw [hsame]
          exact hinvalidated
        · rw [hnow]
          exact h.sent message hmessage

/-- A step before the epoch has come around leaves no event behind. -/
theorem CacheState.Announced.step (h : s.Announced) (hcoherent : s.Coherent) {action : Action AccountId}
    (hlasts : s.EpochLasts action) : (s.step action).Announced := by
  have hreceived (message : ℕ × Received AccountId) (hmessage : message ∈ s.feed) :
      message.1 < s.now + 1 := Nat.lt_succ_of_lt (h.received message hmessage)
  have hsent (message : ℕ × Received AccountId) (hmessage : message ∈ s.broadcasts) :
      message.1 < s.now + 1 := Nat.lt_succ_of_lt (h.sent message hmessage)
  cases action with
  | broadcast event =>
    refine ⟨?_, fun message hmessage ↦ ?_, fun message hmessage ↦ ?_, fun message hmessage id hcovers ↦ ?_⟩
    · change ((s.feed ++ [(s.now, Received.event event)]).map Prod.fst).Pairwise (· ≤ ·)
      rw [List.map_append, List.pairwise_append]
      refine ⟨h.inOrder, List.pairwise_singleton _ _, fun sent hmem now hnow ↦ ?_⟩
      obtain ⟨message, hmessage, rfl⟩ := List.mem_map.1 hmem
      rw [List.map_singleton, List.mem_singleton] at hnow
      subst hnow
      exact (h.received message hmessage).le
    · rcases List.mem_append.1 hmessage with hold | hnew
      · exact hreceived message hold
      · rw [List.mem_singleton.1 hnew]
        exact Nat.lt_succ_self _
    · rcases List.mem_append.1 hmessage with hold | hnew
      · exact hsent message hold
      · rw [List.mem_singleton.1 hnew]
        exact Nat.lt_succ_self _
    · rcases List.mem_append.1 hmessage with hold | hnew
      · rcases h.announced message hold id hcovers with ⟨message', hmessage', hrest⟩ | hrest
        · exact .inl ⟨message', List.mem_append_left _ hmessage', hrest⟩
        · exact .inr hrest
      · exact .inl ⟨message, List.mem_append_right _ hnew, le_refl _, hcovers⟩
  | overwrite =>
    refine ⟨inOrder_overwriteOldest h.inOrder, fun message hmessage ↦ ?_, hsent,
      fun message hmessage id hcovers ↦ ?_⟩
    · obtain ⟨old, hold, hstamp⟩ := stamp_of_overwriteOldest hmessage
      rw [← hstamp]
      exact hreceived old hold
    · rcases h.announced message hmessage id hcovers with ⟨message', hmessage', hle, hcovers'⟩ | hrest
      · obtain ⟨notice, hnotice, hle', hcovers''⟩ :=
          covers_overwriteOldest h.inOrder hmessage' hcovers'
        exact .inl ⟨notice, hnotice, hle'.trans hle, hcovers''⟩
      · exact .inr hrest
  | expire bucketId => exact ⟨h.inOrder, hreceived, hsent, h.announced⟩
  | start index bucketId =>
    simp only [CacheState.step, CacheState.act]
    cases hlookup : s.lookups.lookup index with
    | some lookup => exact ⟨h.inOrder, hreceived, hsent, h.announced⟩
    | none =>
      refine ⟨h.inOrder, hreceived, hsent, fun message hmessage id hcovers ↦ ?_⟩
      rcases h.announced message hmessage id hcovers with
        hfeed | ⟨index', lookup', hlookup', hwaiting⟩ | hinvalidated
      · exact .inl hfeed
      · refine .inr (.inl ⟨index', lookup', ?_, hwaiting⟩)
        rw [CacheState.withLookup, FiniteMap.lookup_insert_eq, if_neg]
        · exact hlookup'
        · rintro rfl
          rw [hlookup] at hlookup'
          cases hlookup'
      · exact .inr (.inr hinvalidated)
  | advance index fresh fetched =>
    simp only [CacheState.step, CacheState.act]
    cases hlookup : s.lookups.lookup index with
    | none => exact ⟨h.inOrder, hreceived, hsent, h.announced⟩
    | some lookup =>
      exact h.advance hlookup rfl
        (advances_advance s lookup.bucketId fresh fetched (hcoherent.moved hlookup hlasts))

/-! ### What a lookup returns -/

/-- The fetch of an entry that a lookup returned began after every event that drops the entry of the
bucket and was broadcast before the lookup started. -/
def CacheState.LookupsFresh (s : CacheState AccountId) : Prop :=
  ∀ index lookup entry, s.lookups.lookup index = some lookup →
    lookup.phase = .returned (some entry) → ∀ message ∈ s.broadcasts,
      message.2.Covers lookup.bucketId → message.1 < lookup.startedAt → message.1 < entry.since

/-- A lookup answers from the cache only when no lookup holds an event of the bucket from before it
started, and when the entry was fetched after the last bump for the bucket or no lookup is about to remove
it. -/
def CacheState.Clear (s : CacheState AccountId) : Action AccountId → Prop
  | .advance index fresh _ => ∀ lookup retry entry, s.lookups.lookup index = some lookup →
      lookup.phase = .probe retry → (retry || fresh) = true →
      s.cache.lookup lookup.bucketId = some entry →
        (∀ index' lookup' time, s.lookups.lookup index' = some lookup' → time < lookup.startedAt →
          ¬ lookup'.Holds lookup.bucketId time) ∧
        (s.invalidatedAt lookup.bucketId < entry.since ∨
          ∀ index' lookup', s.lookups.lookup index' = some lookup' →
            ¬ lookup'.phase.Dooms lookup'.bucketId s.bumps lookup.bucketId)
  | _ => True

/-- A lookup that finds an entry in the cache finds one from after every event before the lookup. -/
theorem fresh_of_probe {lookup : Lookup AccountId} {entry : CachedMembership AccountId}
    (hcoherent : s.Coherent) (hannounced : s.Announced) (hlookup : lookup.Sound s)
    (hphase : lookup.phase ≠ .drain false)
    (hheld : ∀ index' lookup' time, s.lookups.lookup index' = some lookup' → time < lookup.startedAt →
      ¬ lookup'.Holds lookup.bucketId time)
    (hclear : s.invalidatedAt lookup.bucketId < entry.since ∨
      ∀ index' lookup', s.lookups.lookup index' = some lookup' →
        ¬ lookup'.phase.Dooms lookup'.bucketId s.bumps lookup.bucketId)
    (hentry : s.cache.lookup lookup.bucketId = some entry) {message : ℕ × Received AccountId}
    (hmessage : message ∈ s.broadcasts) (hcovers : message.2.Covers lookup.bucketId)
    (hbefore : message.1 < lookup.startedAt) : message.1 < entry.since := by
  have hinvalidated : message.1 < s.invalidatedAt lookup.bucketId := by
    rcases hannounced.announced message hmessage _ hcovers with
      ⟨message', hfeed, hle, -⟩ | ⟨index', lookup', hlookup', hholds⟩ | hinvalidated
    · -- The lookup drained the feed after it started, so what is left in it is later.
      have hlate := hlookup.drained hphase message' hfeed
      omega
    · exact absurd hholds (hheld index' lookup' message.1 hlookup' hbefore)
    · exact hinvalidated
  rcases hcoherent.cache _ entry hentry with hfresh | ⟨index', lookup', hlookup', hdooms⟩
  · exact hinvalidated.trans hfresh
  · rcases hclear with hfresh | hnone
    · exact hinvalidated.trans hfresh
    · exact absurd hdooms (hnone index' lookup' hlookup')

/-- A step that is not one of a lookup keeps what lookups return fresh. -/
theorem CacheState.LookupsFresh.mono {s' : CacheState AccountId} (h : s.LookupsFresh)
    (hcoherent : s.Coherent) (hbroadcasts : ∀ message ∈ s'.broadcasts,
      message ∈ s.broadcasts ∨ s.now ≤ message.1) (hlookups : s'.lookups = s.lookups) :
    s'.LookupsFresh := by
  intro index lookup entry hlookup hphase message hmessage hcovers hbefore
  rw [hlookups] at hlookup
  rcases hbroadcasts message hmessage with hold | hnew
  · exact h index lookup entry hlookup hphase message hold hcovers hbefore
  · have hstarted := (hcoherent.lookups index lookup hlookup).started
    omega

/-- A step that answers from the cache only when that is clear keeps what lookups return fresh. -/
theorem CacheState.LookupsFresh.step (h : s.LookupsFresh) (hcoherent : s.Coherent)
    (hannounced : s.Announced) {action : Action AccountId} (hlasts : s.EpochLasts action)
    (hclear : s.Clear action) : (s.step action).LookupsFresh := by
  have hkept (message : ℕ × Received AccountId) (hmessage : message ∈ s.broadcasts) :
      message ∈ s.broadcasts ∨ s.now ≤ message.1 := .inl hmessage
  cases action with
  | broadcast event =>
    refine h.mono hcoherent (fun message hmessage ↦ ?_) rfl
    rcases List.mem_append.1 hmessage with hold | hnew
    · exact .inl hold
    · rw [List.mem_singleton.1 hnew]
      exact .inr (le_refl _)
  | overwrite => exact h.mono hcoherent hkept rfl
  | expire bucketId => exact h.mono hcoherent hkept rfl
  | start index bucketId =>
    simp only [CacheState.step, CacheState.act]
    cases hlookup : s.lookups.lookup index with
    | some lookup => exact h.mono hcoherent hkept rfl
    | none =>
      intro other lookup entry hother hphase
      rw [CacheState.withLookup, FiniteMap.lookup_insert_eq] at hother
      split_ifs at hother
      · cases hother
        cases hphase
      · exact h other lookup entry hother hphase
  | advance index fresh fetched =>
    simp only [CacheState.step, CacheState.act]
    cases hlookup : s.lookups.lookup index with
    | none => exact h.mono hcoherent hkept rfl
    | some lookup =>
      have hadvances :=
        advances_advance s lookup.bucketId fresh fetched (hcoherent.moved hlookup hlasts)
      have hlearns := learns_advance s lookup.bucketId fresh fetched lookup.phase
      have hsound := hcoherent.lookups index lookup hlookup
      simp only
      generalize s.advance lookup.bucketId fresh fetched lookup.phase = result at hadvances hlearns ⊢
      generalize (if lookup.phase.isDrain = true then s.feed else lookup.drained) = drained
      obtain ⟨next, phase'⟩ := result
      obtain ⟨hlookups, hbroadcasts, -⟩ := hadvances.unchanged
      intro other lookup' entry hother hphase message hmessage hcovers hbefore
      change message ∈ next.broadcasts at hmessage
      rw [hbroadcasts] at hmessage
      rw [CacheState.withLookup, hlookups, FiniteMap.lookup_insert_eq] at hother
      split_ifs at hother with hindex
      · cases hother
        rcases hlearns.returned entry hphase with hold | hsince | ⟨⟨retry, hprobe, hhit⟩, hentry⟩
        · exact h index lookup entry hlookup hold message hmessage hcovers hbefore
        · exact hbefore.trans (hsound.fetched entry.since hsince)
        · obtain ⟨hheld, hkept⟩ := hclear lookup retry entry hlookup hprobe hhit hentry
          refine fresh_of_probe hcoherent hannounced hsound ?_ hheld hkept hentry hmessage hcovers hbefore
          rw [hprobe]
          simp
      · exact h other lookup' entry hother hphase message hmessage hcovers hbefore

/-- **What a lookup returns is fresh**: in a run in which lookups answer from the cache only when that
is clear, and look at the epoch again before it has come around, the fetch of an entry that a lookup
returns began after every event that drops the entry and was broadcast before the lookup started. -/
theorem lookups_fresh (actions : List (Action AccountId))
    (hsteps : StepsMeet CacheState.step (fun s action ↦ s.Clear action ∧ s.EpochLasts action) .initial
      actions) :
    (cacheRun actions).LookupsFresh := by
  have hinvariant := invariant_of_step
    (fun s : CacheState AccountId ↦ s.Coherent ∧ s.Announced ∧ s.LookupsFresh)
    (fun s action ⟨hcoherent, hannounced, hfresh⟩ ⟨hclear, hlasts⟩ ↦
      ⟨hcoherent.step hlasts, hannounced.step hcoherent hlasts,
        hfresh.step hcoherent hannounced hlasts hclear⟩)
    ⟨CacheState.coherent_initial, CacheState.announced_initial, fun _ _ _ h ↦ by cases h⟩ hsteps
  exact hinvariant.2.2

/-- A step of a lookup that is not at a probe is clear. -/
theorem CacheState.Clear.of_phase {index : ℕ} {fresh : Bool}
    {fetched : Except Unit (BucketAccess AccountId × Bool)} {lookup : Lookup AccountId}
    (hlookup : s.lookups.lookup index = some lookup) (hphase : ∀ retry, lookup.phase ≠ .probe retry) :
    s.Clear (.advance index fresh fetched) := by
  intro lookup' retry entry hlookup' hprobe
  cases hlookup.symm.trans hlookup'
  exact absurd hprobe (hphase retry)

/-- What a fetch of a private bucket without members gives. -/
def fetchedNothing : Except Unit (BucketAccess ℕ × Bool) := .ok (.privateTo [], false)

/-- Lookup 1 drains an event of bucket 5, applies it and fetches; lookup 2 answers from the cache. -/
def servedActions : List (Action ℕ) :=
  [.broadcast (.bucketMembershipChanged 5), .start 1 5] ++
    List.replicate 11 (.advance 1 true fetchedNothing) ++
    .start 2 5 :: List.replicate 2 (.advance 2 true fetchedNothing)

theorem clear_served : StepsMeet CacheState.step CacheState.Clear .initial servedActions := by
  refine ⟨trivial, trivial, .of_phase rfl nofun, .of_phase rfl nofun, .of_phase rfl nofun,
    .of_phase rfl nofun, ?_, .of_phase rfl nofun, .of_phase rfl nofun, .of_phase rfl nofun,
    .of_phase rfl nofun, .of_phase rfl nofun, .of_phase rfl nofun, trivial, .of_phase rfl nofun, ?_,
    trivial⟩
  · rintro lookup retry entry hlookup - - hentry
    cases hlookup
    cases hentry
  · rintro lookup retry entry hlookup - - hentry
    cases hlookup
    cases hentry
    refine ⟨fun index' lookup' time hlookup' _ hholds ↦ ?_, .inl (by decide)⟩
    change ((((∅ : FiniteMap ℕ (Lookup ℕ)).insert 1
      ⟨5, 2, .returned (some ⟨.privateTo [], false, 9⟩),
        [(1, .event (.bucketMembershipChanged 5))]⟩).insert 2 ⟨5, 14, .probe false, []⟩).lookup
          index') = some lookup' at hlookup'
    rw [FiniteMap.lookup_insert_eq, FiniteMap.lookup_insert_eq] at hlookup'
    split_ifs at hlookup'
    · cases hlookup'
      exact hholds.1
    · cases hlookup'
      exact hholds.1
    · cases hlookup'

theorem lookups_fresh_served : (cacheRun servedActions).LookupsFresh :=
  lookups_fresh servedActions
    (clear_served.and (CacheState.epochLasts_of_length (by decide)))

/-- Lookup 1 caches an entry of bucket 5. After an event of the bucket lookup 2 drains it, and before
lookup 2 applies it, lookup 3 finds the feed empty and the entry in the cache. -/
def staleActions : List (Action ℕ) :=
  .start 1 5 :: List.replicate 8 (.advance 1 true fetchedNothing) ++
    [.broadcast (.bucketMembershipChanged 5), .start 2 7, .advance 2 true fetchedNothing,
      .start 3 5, .advance 3 true fetchedNothing, .advance 3 true fetchedNothing]

theorem not_lookupsFresh : ¬ ∀ actions : List (Action ℕ), (cacheRun actions).LookupsFresh := by
  intro h
  have hfresh : 10 < 5 := h staleActions 3 ⟨5, 13, .returned (some ⟨.privateTo [], false, 5⟩), []⟩
    ⟨.privateTo [], false, 5⟩ rfl rfl (10, .event (.bucketMembershipChanged 5)) List.mem_cons_self rfl
    (by decide)
  omega

end Web3Storage.Node
