import Web3Storage.Foundations.OrderedFeed
import Web3Storage.Foundations.Run
import Web3Storage.Primitives.Types

/-!
# The event stream

A background task turns the finalized heads of a block stream into the events of their blocks. It keeps
one marker, the last block it processed, and backfills what lies between the marker and a head. A block
is the same whenever it is read; which reads fail is up to the node, and when the consumer drops the
stream is up to the consumer.

The stream neither repeats nor reorders as long as no head stalls: as long as no head fails its own read
after its backfill has delivered events. It leaves no block out that could be read as long as no head fails
before the first one that is processed (`stream_orderly`). A head that stalls leaves the marker behind
what was delivered, so that the next head delivers it again (`repeated_of_stalls`); a first head that fails
leaves no marker, so that the next head has no gap (`uncovered_of_failsFirst`).
-/

set_option autoImplicit false
set_option relaxedAutoImplicit false

namespace Web3Storage.Indexers

open Foundations Primitives

variable {Event : Type}

/-- Most blocks that are backfilled for one gap. -/
def maxBackfill : ℕ := 256

/-! ### Blocks and filters -/

/-- A decoded event with its block. -/
structure BlockEvent (Event : Type) where
  blockHash : H256
  blockNumber : ℕ
  event : Event

/-- An event as a node returns it. -/
inductive RawEvent (Event : Type)
  | unreadable
  | event (palletName : String) (decoded : Option Event)

/-- A finalized block. -/
structure Block (Event : Type) where
  hash : H256
  events : List (RawEvent Event)

structure EventFilter (Event : Type) where
  pallets : Option (List String)
  predicate : Option (BlockEvent Event → Bool)

namespace EventFilter

/-- Whether events of a pallet are decoded at all. -/
def matchesPallet (filter : EventFilter Event) (palletName : String) : Bool :=
  match filter.pallets with
  | some pallets => pallets.contains palletName
  | none => true

/-- Whether a decoded event passes. -/
def matchesEvent (filter : EventFilter Event) (event : BlockEvent Event) : Bool :=
  match filter.predicate with
  | some predicate => predicate event
  | none => true

end EventFilter

/-! ### The channel -/

/-- The channel to the consumer: what was sent, and how many events the consumer still takes before it
drops the stream, if it does. -/
structure Channel (Event : Type) where
  sent : List (BlockEvent Event)
  room : Option ℕ

namespace Channel

def isClosed (tx : Channel Event) : Bool := tx.room == some 0

/-- Send an event, unless the consumer is gone. -/
def send (tx : Channel Event) (event : BlockEvent Event) : Option (Channel Event) :=
  match tx.room with
  | none => some ⟨tx.sent ++ [event], none⟩
  | some 0 => none
  | some (room + 1) => some ⟨tx.sent ++ [event], some room⟩

end Channel

/-- The outcome for one block. -/
inductive Forwarded
  | processed
  | skipped
  | consumerGone
  deriving DecidableEq

/-- Send the events of a block that pass the filter. -/
def forwardEvents (filter : EventFilter Event) (blockHash : H256) (blockNumber : ℕ) :
    List (RawEvent Event) → Channel Event → Forwarded × Channel Event
  | [], tx => (.processed, tx)
  | .unreadable :: rest, tx => forwardEvents filter blockHash blockNumber rest tx
  | .event palletName decoded :: rest, tx =>
    if !filter.matchesPallet palletName then forwardEvents filter blockHash blockNumber rest tx
    else
      match decoded with
      | none => forwardEvents filter blockHash blockNumber rest tx
      | some event =>
        let blockEvent : BlockEvent Event := ⟨blockHash, blockNumber, event⟩
        if !filter.matchesEvent blockEvent then forwardEvents filter blockHash blockNumber rest tx
        else
          match tx.send blockEvent with
          | none => (.consumerGone, tx)
          | some tx => forwardEvents filter blockHash blockNumber rest tx

/-- Fetch the events of a block and send those that pass the filter. -/
def forwardBlockEvents (chain : ℕ → Block Event) (filter : EventFilter Event) (readable : Bool)
    (blockNumber : ℕ) (tx : Channel Event) : Forwarded × Channel Event :=
  if !readable then (.skipped, tx)
  else forwardEvents filter (chain blockNumber).hash blockNumber (chain blockNumber).events tx

/-! ### Heads -/

/-- A finalized head, with what the node answers while it is processed: whether the head itself and
each block of its gap can be accessed, and whether the events of a block can be read. `room` is the
number of events the consumer takes before it drops the stream meanwhile, `none` if it stays. -/
structure Head where
  number : ℕ
  accessible : Bool
  blockFound : ℕ → Bool
  eventsRead : ℕ → Bool
  room : Option ℕ

/-- Whether a block of the gap can be read. -/
def Head.reads (head : Head) (missed : ℕ) : Bool :=
  head.blockFound missed && head.eventsRead missed

/-- The blocks between the marker and a head, at most the last `maxBackfill` of them. A head without a
marker before it has no gap. -/
def missedBlocks (lastSeen : Option ℕ) (blockNumber : ℕ) : List ℕ :=
  match lastSeen with
  | none => []
  | some last =>
    -- the head is above the marker, so that this does not saturate
    let next := last + 1
    let start := max next (blockNumber - maxBackfill)
    List.range' start (blockNumber - start)

variable (chain : ℕ → Block Event) (filter : EventFilter Event)

/-- Deliver the blocks of a gap in order, without those that cannot be read. Returns whether the
consumer is gone. -/
def backfill (head : Head) : List ℕ → Channel Event → Bool × Channel Event
  | [], tx => (false, tx)
  | missed :: rest, tx =>
    if tx.isClosed then (true, tx)
    else if !head.blockFound missed then backfill head rest tx
    else
      match forwardBlockEvents chain filter (head.eventsRead missed) missed tx with
      | (.consumerGone, tx) => (true, tx)
      | (_, tx) => backfill head rest tx

/-- The state of the task: its marker, what it has sent and whether it has stopped. -/
structure Progress (Event : Type) where
  lastSeen : Option ℕ
  sent : List (BlockEvent Event)
  stopped : Bool

def Progress.start : Progress Event := ⟨none, [], false⟩

/-- Process one head. -/
def processHead (s : Progress Event) (head : Head) : Progress Event :=
  if s.stopped then s
  else if s.lastSeen.any (head.number ≤ ·) then s
  else if !head.accessible then s
  else
    match backfill chain filter head (missedBlocks s.lastSeen head.number) ⟨s.sent, head.room⟩ with
    | (true, tx) => { s with sent := tx.sent, stopped := true }
    | (false, tx) =>
      match forwardBlockEvents chain filter (head.eventsRead head.number) head.number tx with
      | (.processed, tx) => ⟨some head.number, tx.sent, head.room.isSome⟩
      | (.skipped, tx) => ⟨s.lastSeen, tx.sent, head.room.isSome⟩
      | (.consumerGone, tx) => ⟨s.lastSeen, tx.sent, true⟩

/-! ### What is sent -/

/-- The event that is sent for a raw one, if any. -/
def passing (blockHash : H256) (blockNumber : ℕ) : RawEvent Event → Option (BlockEvent Event)
  | .unreadable => none
  | .event palletName decoded =>
    if filter.matchesPallet palletName then
      (decoded.map fun event ↦ ⟨blockHash, blockNumber, event⟩).filter filter.matchesEvent
    else none

/-- The events of a block that pass the filter, in block order. -/
def matching (blockNumber : ℕ) : List (BlockEvent Event) :=
  (chain blockNumber).events.filterMap (passing filter (chain blockNumber).hash blockNumber)

/-- What reached the channel of some events that were to be sent: all of them, or a first part when the
consumer is gone. -/
inductive Delivery (tx : Channel Event) (whole : List (BlockEvent Event)) :
    Bool → Channel Event → Prop
  | all (after : Channel Event) (hsent : after.sent = tx.sent ++ whole)
      (hroom : tx.room = none → after.room = none) : Delivery tx whole false after
  | cut (after : Channel Event) (added : List (BlockEvent Event))
      (hsent : after.sent = tx.sent ++ added) (hpre : added <+: whole) (hroom : tx.room ≠ none) :
      Delivery tx whole true after

namespace Delivery

variable {tx middle after : Channel Event} {first rest : List (BlockEvent Event)} {gone : Bool}

theorem none (tx : Channel Event) : Delivery tx [] false tx :=
  .all tx (List.append_nil _).symm id

theorem trans (hfirst : Delivery tx first false middle) (hrest : Delivery middle rest gone after) :
    Delivery tx (first ++ rest) gone after := by
  cases hfirst with
  | all middle hsent hroom =>
    cases hrest with
    | all after hsent' hroom' =>
      refine .all after ?_ fun hnone ↦ hroom' (hroom hnone)
      rw [hsent', hsent, List.append_assoc]
    | cut after added hsent' hpre hroom' =>
      refine .cut after (first ++ added) ?_ (List.prefix_append_right_inj first |>.mpr hpre)
        fun hnone ↦ hroom' (hroom hnone)
      rw [hsent', hsent, List.append_assoc]

theorem cut_append (h : Delivery tx first true after) (rest : List (BlockEvent Event)) :
    Delivery tx (first ++ rest) true after := by
  cases h with
  | cut after added hsent hpre hroom =>
    exact .cut after added hsent (hpre.trans (List.prefix_append first rest)) hroom

/-- A consumer that stays gets everything. -/
theorem stays (h : Delivery tx rest gone after) (hroom : tx.room = Option.none) :
    gone = false ∧ after.room = Option.none := by
  cases h with
  | all after hsent hkept => exact ⟨rfl, hkept hroom⟩
  | cut after added hsent hpre hgoes => exact (hgoes hroom).elim

/-- A first part of the events reaches the channel, all of them if the consumer stays. -/
theorem exists_added (h : Delivery tx rest gone after) :
    ∃ added, after.sent = tx.sent ++ added ∧ added <+: rest ∧ (gone = false → added = rest) := by
  cases h with
  | all after hsent hroom => exact ⟨rest, hsent, List.prefix_rfl, fun _ ↦ rfl⟩
  | cut after added hsent hpre hroom => exact ⟨added, hsent, hpre, nofun⟩

end Delivery

section Sent

variable {chain filter}

theorem blockNumber_of_matching {n : ℕ} {event : BlockEvent Event}
    (h : event ∈ matching chain filter n) : event.blockNumber = n := by
  obtain ⟨raw, -, hpassing⟩ := List.mem_filterMap.mp h
  cases raw with
  | unreadable => cases hpassing
  | event palletName decoded =>
    simp only [passing] at hpassing
    split_ifs at hpassing
    rw [Option.filter_eq_some_iff, Option.map_eq_some_iff] at hpassing
    obtain ⟨⟨decoded, -, rfl⟩, -⟩ := hpassing
    rfl

/-- An event is sent, or the consumer is gone. -/
theorem delivery_send (tx : Channel Event) (event : BlockEvent Event) :
    match tx.send event with
    | none => Delivery tx [event] true tx
    | some after => Delivery tx [event] false after := by
  unfold Channel.send
  cases hroom : tx.room with
  | none => exact .all _ rfl fun _ ↦ rfl
  | some room =>
    have hgoes : tx.room ≠ none := by
      rw [hroom]
      nofun
    cases room with
    | zero => exact .cut tx [] (List.append_nil _).symm List.nil_prefix hgoes
    | succ room => exact .all _ rfl fun hnone ↦ (hgoes hnone).elim

/-- The outcome of a block whose events were read. -/
def outcome (gone : Bool) : Forwarded := if gone then .consumerGone else .processed

/-- The passing events of a block are sent in their order. -/
theorem delivery_forwardEvents (blockHash : H256) (blockNumber : ℕ)
    (events : List (RawEvent Event)) (tx : Channel Event) :
    ∃ gone after, forwardEvents filter blockHash blockNumber events tx = (outcome gone, after) ∧
      Delivery tx (events.filterMap (passing filter blockHash blockNumber)) gone after := by
  induction events generalizing tx with
  | nil => exact ⟨false, tx, rfl, .none tx⟩
  | cons raw rest ih =>
    -- an event that does not pass is left out
    have hskip (hnone : passing filter blockHash blockNumber raw = none)
        (hsame : forwardEvents filter blockHash blockNumber (raw :: rest) tx =
          forwardEvents filter blockHash blockNumber rest tx) :
        ∃ gone after,
          forwardEvents filter blockHash blockNumber (raw :: rest) tx = (outcome gone, after) ∧
            Delivery tx ((raw :: rest).filterMap (passing filter blockHash blockNumber)) gone
              after := by
      rw [List.filterMap_cons_none hnone, hsame]
      exact ih tx
    cases raw with
    | unreadable => exact hskip rfl rfl
    | event palletName decoded =>
      by_cases hpallet : filter.matchesPallet palletName = true
      · cases decoded with
        | none => exact hskip (by simp [passing]) (by simp [forwardEvents])
        | some event =>
          by_cases hevent : filter.matchesEvent ⟨blockHash, blockNumber, event⟩ = true
          · have hpassing : passing filter blockHash blockNumber (.event palletName (some event)) =
                some ⟨blockHash, blockNumber, event⟩ := by
              simp [passing, hpallet, hevent]
            have hsent := delivery_send tx ⟨blockHash, blockNumber, event⟩
            rw [List.filterMap_cons_some hpassing, ← List.singleton_append]
            cases hsend : tx.send ⟨blockHash, blockNumber, event⟩ with
            | none =>
              rw [hsend] at hsent
              refine ⟨true, tx, ?_, hsent.cut_append _⟩
              simp [forwardEvents, hpallet, hevent, hsend, outcome]
            | some middle =>
              rw [hsend] at hsent
              obtain ⟨gone, after, hrest, hdelivery⟩ := ih middle
              refine ⟨gone, after, ?_, hsent.trans hdelivery⟩
              rw [← hrest]
              simp [forwardEvents, hpallet, hevent, hsend]
          · exact hskip (by simp [passing, hevent]) (by simp [forwardEvents, hevent])
      · exact hskip (by simp [passing, hpallet]) (by simp [forwardEvents, hpallet])

/-- A block whose events are read is delivered. -/
theorem delivery_forwardBlockEvents (blockNumber : ℕ) (tx : Channel Event) :
    ∃ gone after, forwardBlockEvents chain filter true blockNumber tx = (outcome gone, after) ∧
      Delivery tx (matching chain filter blockNumber) gone after :=
  delivery_forwardEvents _ _ _ tx

/-- The blocks of a gap that can be read are delivered in their order. -/
theorem delivery_backfill (head : Head) (missed : List ℕ) (tx : Channel Event) :
    ∃ gone after, backfill chain filter head missed tx = (gone, after) ∧
      Delivery tx ((missed.filter head.reads).flatMap (matching chain filter)) gone after := by
  induction missed generalizing tx with
  | nil => exact ⟨false, tx, rfl, .none tx⟩
  | cons first rest ih =>
    by_cases hclosed : tx.isClosed = true
    · refine ⟨true, tx, by simp [backfill, hclosed], .cut tx [] (List.append_nil _).symm
        List.nil_prefix ?_⟩
      unfold Channel.isClosed at hclosed
      rw [beq_iff_eq] at hclosed
      rw [hclosed]
      nofun
    · by_cases hreads : head.reads first = true
      · obtain ⟨hfound, hread⟩ : head.blockFound first = true ∧ head.eventsRead first = true := by
          simpa [Head.reads] using hreads
        rw [List.filter_cons_of_pos hreads, List.flatMap_cons]
        obtain ⟨gone, middle, hforward, hfirst⟩ :=
          @delivery_forwardBlockEvents _ chain filter first tx
        cases gone with
        | true =>
          refine ⟨true, middle, ?_, hfirst.cut_append _⟩
          simp [backfill, hclosed, hfound, hread, hforward, outcome]
        | false =>
          obtain ⟨gone, after, hrest, hdelivery⟩ := ih middle
          refine ⟨gone, after, ?_, hfirst.trans hdelivery⟩
          rw [← hrest]
          simp [backfill, hclosed, hfound, hread, hforward, outcome]
      · rw [List.filter_cons_of_neg hreads]
        obtain ⟨gone, after, hrest, hdelivery⟩ := ih tx
        refine ⟨gone, after, ?_, hdelivery⟩
        rw [← hrest]
        by_cases hfound : head.blockFound first = true
        · have hread : head.eventsRead first = false := by
            simpa [Head.reads, hfound] using hreads
          simp [backfill, hclosed, hfound, hread, forwardBlockEvents]
        · simp [backfill, hclosed, hfound]

end Sent

/-! ### One head -/

/-- Whether a head is above the marker of a task that runs. -/
def IsNew (s : Progress Event) (head : Head) : Prop :=
  s.stopped = false ∧ ∀ last ∈ s.lastSeen, last < head.number

instance (s : Progress Event) (head : Head) : Decidable (IsNew s head) := by
  unfold IsNew
  infer_instance

/-- The blocks that are read for a head, in their order. -/
def blocksRead (s : Progress Event) (head : Head) : List ℕ :=
  (missedBlocks s.lastSeen head.number).filter head.reads ++
    if head.eventsRead head.number then [head.number] else []

section Blocks

variable {s : Progress Event} {head : Head} {n : ℕ}

/-- The blocks of a gap lie between the marker and the head, at most `maxBackfill` behind the head. -/
theorem mem_missedBlocks {lastSeen : Option ℕ} {blockNumber : ℕ} :
    n ∈ missedBlocks lastSeen blockNumber ↔
      (∃ last, lastSeen = some last ∧ last < n) ∧ n < blockNumber ∧ blockNumber ≤ n + maxBackfill := by
  unfold missedBlocks
  cases lastSeen with
  | none => simp
  | some last =>
    simp only [List.mem_range'_1, Option.some.injEq, exists_eq_left']
    omega

theorem pairwise_missedBlocks (lastSeen : Option ℕ) (blockNumber : ℕ) :
    (missedBlocks lastSeen blockNumber).Pairwise (· < ·) := by
  unfold missedBlocks
  cases lastSeen with
  | none => exact .nil
  | some last => exact List.pairwise_lt_range'

/-- A block that is read is a readable one of the gap, or the head. -/
theorem mem_blocksRead : n ∈ blocksRead s head ↔
    n ∈ missedBlocks s.lastSeen head.number ∧ head.reads n = true ∨
      n = head.number ∧ head.eventsRead n = true := by
  unfold blocksRead
  rw [List.mem_append, List.mem_filter]
  split_ifs with hread
  · rw [List.mem_singleton]
    constructor
    · rintro (hmissed | rfl)
      · exact .inl hmissed
      · exact .inr ⟨rfl, hread⟩
    · rintro (hmissed | ⟨hn, -⟩)
      · exact .inl hmissed
      · exact .inr hn
  · constructor
    · rintro (hmissed | hnone)
      · exact .inl hmissed
      · cases hnone
    · rintro (hmissed | ⟨rfl, hn⟩)
      · exact .inl hmissed
      · exact (hread hn).elim

theorem pairwise_blocksRead (s : Progress Event) (head : Head) :
    (blocksRead s head).Pairwise (· < ·) := by
  unfold blocksRead
  rw [List.pairwise_append]
  refine ⟨(pairwise_missedBlocks _ _).sublist List.filter_sublist, ?_, ?_⟩
  · split_ifs
    · exact List.pairwise_singleton _ _
    · exact .nil
  · intro missed hmissed own hown
    split_ifs at hown
    · rw [List.mem_singleton] at hown
      rw [hown]
      exact (mem_missedBlocks.mp (List.mem_filter.mp hmissed).1).2.1
    · cases hown

theorem le_of_mem_blocksRead (h : n ∈ blocksRead s head) : n ≤ head.number := by
  rcases mem_blocksRead.mp h with ⟨hmissed, -⟩ | ⟨rfl, -⟩
  · exact (mem_missedBlocks.mp hmissed).2.1.le
  · exact le_rfl

/-- The blocks that are read lie above the marker. -/
theorem lt_of_mem_blocksRead (hnew : IsNew s head) (h : n ∈ blocksRead s head) :
    ∀ last ∈ s.lastSeen, last < n := by
  intro last hlast
  rcases mem_blocksRead.mp h with ⟨hmissed, -⟩ | ⟨rfl, -⟩
  · obtain ⟨⟨last', hlast', hlt⟩, -⟩ := mem_missedBlocks.mp hmissed
    rw [hlast, Option.some.injEq] at hlast'
    rwa [hlast']
  · exact hnew.2 last hlast

end Blocks

section Heads

variable {chain filter} {s : Progress Event} {head : Head}

/-- A head that is not new or cannot be accessed changes nothing. -/
theorem processHead_ignored (h : ¬ (IsNew s head ∧ head.accessible = true)) :
    processHead chain filter s head = s := by
  unfold processHead
  split_ifs with hstopped hold haccessible
  · rfl
  · rfl
  · rfl
  · refine (h ⟨⟨Bool.eq_false_of_not_eq_true hstopped, fun last hlast ↦ ?_⟩, ?_⟩).elim
    · rw [hlast] at hold
      simpa using hold
    · simpa using haccessible

/-- What a head delivers. Its blocks reach the consumer in their order, all of them as long as it stays,
and the marker moves only if the head's own events are read. -/
theorem processHead_spec (hnew : IsNew s head) (haccessible : head.accessible = true) :
    ∃ added, (processHead chain filter s head).sent = s.sent ++ added ∧
      added <+: (blocksRead s head).flatMap (matching chain filter) ∧
        ((processHead chain filter s head).stopped = false ↔ head.room = none) ∧
          ((processHead chain filter s head).lastSeen = some head.number ∧
              head.eventsRead head.number = true ∧
                added = (blocksRead s head).flatMap (matching chain filter) ∨
            (processHead chain filter s head).lastSeen = s.lastSeen ∧
              (head.room = none → head.eventsRead head.number = false ∧
                added = (blocksRead s head).flatMap (matching chain filter))) := by
  have hold : s.lastSeen.any (head.number ≤ ·) = false := by
    cases hlast : s.lastSeen with
    | none => rfl
    | some last =>
      have habove := hnew.2 last hlast
      simpa using habove
  obtain ⟨gone, middle, hbackfill, hmissed⟩ := @delivery_backfill _ chain filter head
    (missedBlocks s.lastSeen head.number) ⟨s.sent, head.room⟩
  unfold blocksRead
  rw [List.flatMap_append]
  cases gone with
  | true =>
    have hgoes : head.room ≠ none := fun hnone ↦ by
      have hstays := (hmissed.stays hnone).1
      cases hstays
    obtain ⟨added, hsent, hpre, -⟩ := hmissed.exists_added
    have hresult : processHead chain filter s head =
        { s with sent := middle.sent, stopped := true } := by
      simp [processHead, hnew.1, hold, haccessible, hbackfill]
    rw [hresult]
    refine ⟨added, hsent, hpre.trans (List.prefix_append _ _), ?_, .inr ⟨rfl, fun hnone ↦ ?_⟩⟩
    · exact iff_of_false (by nofun) hgoes
    · exact (hgoes hnone).elim
  | false =>
    obtain ⟨missed, hsent, -, hall⟩ := hmissed.exists_added
    have hstopped : head.room.isSome = false ↔ head.room = none := by
      rw [Option.isSome_eq_false_iff, Option.isNone_iff_eq_none]
    by_cases hread : head.eventsRead head.number = true
    · obtain ⟨gone, after, hforward, hown⟩ :=
        @delivery_forwardBlockEvents _ chain filter head.number middle
      obtain ⟨own, hsent', hpre', hall'⟩ := hown.exists_added
      rw [if_pos hread, List.flatMap_singleton]
      rw [hall rfl] at hsent
      cases gone with
      | true =>
        have hgoes : head.room ≠ none := fun hnone ↦ by
          have hstays := (hown.stays (hmissed.stays hnone).2).1
          cases hstays
        have hresult : processHead chain filter s head = ⟨s.lastSeen, after.sent, true⟩ := by
          simp [processHead, hnew.1, hold, haccessible, hbackfill, hread, hforward, outcome]
        rw [hresult]
        refine ⟨_ ++ own, ?_, (List.prefix_append_right_inj _).mpr hpre', ?_,
          .inr ⟨rfl, fun hnone ↦ (hgoes hnone).elim⟩⟩
        · rw [hsent', hsent, List.append_assoc]
        · exact iff_of_false (by nofun) hgoes
      | false =>
        have hresult : processHead chain filter s head =
            ⟨some head.number, after.sent, head.room.isSome⟩ := by
          simp [processHead, hnew.1, hold, haccessible, hbackfill, hread, hforward, outcome]
        rw [hresult]
        rw [hall' rfl] at hsent'
        refine ⟨_, ?_, List.prefix_rfl, hstopped, .inl ⟨rfl, hread, rfl⟩⟩
        rw [hsent', hsent, List.append_assoc]
    · have hskipped : head.eventsRead head.number = false := Bool.eq_false_of_not_eq_true hread
      have hresult : processHead chain filter s head = ⟨s.lastSeen, middle.sent, head.room.isSome⟩ := by
        simp [processHead, hnew.1, hold, haccessible, hbackfill, hskipped, forwardBlockEvents]
      rw [hresult, if_neg hread, List.flatMap_nil, List.append_nil]
      rw [hall rfl] at hsent
      exact ⟨_, hsent, List.prefix_rfl, hstopped, .inr ⟨rfl, fun _ ↦ ⟨hskipped, rfl⟩⟩⟩

end Heads

/-! ### Runs -/

section Runs

/-- A head stalls: the consumer stays, the head's own events cannot be read, and a block of its gap has
been delivered. -/
def Stalls (s : Progress Event) (head : Head) : Prop :=
  IsNew s head ∧ head.accessible = true ∧ head.room = none ∧
    head.eventsRead head.number = false ∧
      ∃ n ∈ missedBlocks s.lastSeen head.number, head.reads n = true ∧ matching chain filter n ≠ []

instance (s : Progress Event) (head : Head) :
    Decidable (Stalls chain filter s head) := by
  have hempty (n : ℕ) : Decidable (matching chain filter n ≠ []) :=
    decidable_of_iff ((matching chain filter n).isEmpty = false) (by simp)
  unfold Stalls
  infer_instance

/-- A head fails before the first processed one: it cannot be accessed, or its own events cannot be read
and the consumer stays. -/
def FailsFirst (s : Progress Event) (head : Head) : Prop :=
  IsNew s head ∧ s.lastSeen = none ∧
    (head.accessible = false ∨ head.eventsRead head.number = false ∧ head.room = none)

instance (s : Progress Event) (head : Head) : Decidable (FailsFirst s head) := by
  unfold FailsFirst
  infer_instance

/-- The events that were sent never go back in the chain, and those of a block were sent at most once
and in block order. -/
abbrev OrderlySent (s : Progress Event) : Prop :=
  Orderly BlockEvent.blockNumber (matching chain filter) s.sent

/-- All that a running task has sent lies at or below its marker. -/
def Marked (s : Progress Event) : Prop :=
  s.stopped = false → ∀ event ∈ s.sent, ∃ last ∈ s.lastSeen, event.blockNumber ≤ last

variable {chain filter} {s : Progress Event} {head : Head}

/-- What has been sent lies below the blocks that are read next. -/
theorem Marked.lt_of_mem_blocksRead (hs : Marked s) (hnew : IsNew s head)
    {event : BlockEvent Event} (hevent : event ∈ s.sent) {n : ℕ} (hn : n ∈ blocksRead s head) :
    event.blockNumber < n := by
  obtain ⟨last, hlast, hle⟩ := hs hnew.1 event hevent
  exact hle.trans_lt (Indexers.lt_of_mem_blocksRead hnew hn last hlast)

theorem OrderlySent.step (hs : OrderlySent chain filter s) (hmarked : Marked s) (head : Head) :
    OrderlySent chain filter (processHead chain filter s head) := by
  by_cases hactive : IsNew s head ∧ head.accessible = true
  · obtain ⟨added, hsent, hpre, -⟩ := @processHead_spec _ chain filter s head hactive.1 hactive.2
    unfold OrderlySent
    rw [hsent]
    exact hs.append (fun n event ↦ blockNumber_of_matching) (pairwise_blocksRead s head)
      (fun event hevent n hn ↦ hmarked.lt_of_mem_blocksRead hactive.1 hevent hn) hpre
  · rwa [processHead_ignored hactive]

/-- A head that does not stall leaves nothing above the marker. -/
theorem Marked.step (hs : Marked s) (hstalls : ¬ Stalls chain filter s head) :
    Marked (processHead chain filter s head) := by
  by_cases hactive : IsNew s head ∧ head.accessible = true
  · obtain ⟨added, hsent, hpre, hstopped, hmarker⟩ :=
      @processHead_spec _ chain filter s head hactive.1 hactive.2
    intro hruns event hevent
    rw [hsent, List.mem_append] at hevent
    have hroom := hstopped.mp hruns
    rcases hmarker with ⟨hlast, -, hall⟩ | ⟨hlast, hkept⟩
    · refine ⟨head.number, hlast, ?_⟩
      rcases hevent with hbefore | hadded
      · obtain ⟨last, hbelow, hle⟩ := hs hactive.1.1 event hbefore
        exact hle.trans (hactive.1.2 last hbelow).le
      · obtain ⟨n, hn, hmatch⟩ := List.mem_flatMap.mp (hpre.subset hadded)
        rw [blockNumber_of_matching hmatch]
        exact le_of_mem_blocksRead hn
    · obtain ⟨hskipped, hall⟩ := hkept hroom
      rw [hlast]
      rcases hevent with hbefore | hadded
      · exact hs hactive.1.1 event hbefore
      · -- the head was not read, so that the event is from a block of its gap
        obtain ⟨n, hn, hmatch⟩ := List.mem_flatMap.mp (hpre.subset hadded)
        rcases mem_blocksRead.mp hn with ⟨hmissed, hreads⟩ | ⟨rfl, hread⟩
        · exact (hstalls ⟨hactive.1, hactive.2, hroom, hskipped, n, hmissed, hreads,
            List.ne_nil_of_mem hmatch⟩).elim
        · rw [hskipped] at hread
          cases hread
  · rwa [processHead_ignored hactive]

/-- In a run without a stall, what was sent is orderly and lies at or below the marker. -/
theorem orderly_run {heads : List Head}
    (hheads : StepsMeet (processHead chain filter) (fun s head ↦ ¬ Stalls chain filter s head)
      .start heads) :
    OrderlySent chain filter (run (processHead chain filter) .start heads) ∧
      Marked (run (processHead chain filter) .start heads) := by
  refine invariant_of_step (fun s ↦ OrderlySent chain filter s ∧ Marked s) ?_ ?_ hheads
  · rintro s head ⟨hs, hmarked⟩ hstalls
    exact ⟨hs.step hmarked head, hmarked.step hstalls⟩
  · exact ⟨.nil, fun _ event hevent ↦ by cases hevent⟩

/-! ### What is left out -/

/-- The events that were sent for a block. -/
def sentFor (s : Progress Event) (n : ℕ) : List (BlockEvent Event) :=
  s.sent.filter fun event ↦ decide (event.blockNumber = n)

/-- A head leaves a block out: the block is the head and a read of it fails, it lies in the gap and a
read of it fails, or it lies more than `maxBackfill` blocks behind the head that ends its gap. -/
def LeavesOut (s : Progress Event) (head : Head) (n : ℕ) : Prop :=
  IsNew s head ∧
    (n = head.number ∧ (head.accessible = false ∨ head.eventsRead n = false) ∨
      head.accessible = true ∧
        (n ∈ missedBlocks s.lastSeen head.number ∧ head.reads n = false ∨
          (∃ last ∈ s.lastSeen, last < n) ∧ n + maxBackfill < head.number))

/-- A block that was read for a head has been sent in full, if all that was to be sent was. -/
private theorem sentFor_read (hmarked : Marked s) (hnew : IsNew s head) {n : ℕ}
    (hn : n ∈ blocksRead s head)
    (hsent : (processHead chain filter s head).sent =
      s.sent ++ (blocksRead s head).flatMap (matching chain filter)) :
    sentFor (processHead chain filter s head) n = matching chain filter n := by
  unfold sentFor
  rw [hsent]
  exact Orderly.filter_append_eq (fun n event ↦ blockNumber_of_matching) (pairwise_blocksRead s head)
    (fun event hevent n hn ↦ hmarked.lt_of_mem_blocksRead hnew hevent hn) hn

/-- Nothing more is sent for a block at or below the marker. -/
private theorem sentFor_kept {last n : ℕ} (hlast : s.lastSeen = some last) (hn : n ≤ last)
    (head : Head) : sentFor (processHead chain filter s head) n = sentFor s n := by
  by_cases hactive : IsNew s head ∧ head.accessible = true
  · obtain ⟨added, hsent, hpre, -⟩ := @processHead_spec _ chain filter s head hactive.1 hactive.2
    have hnone : added.filter (fun event ↦ decide (event.blockNumber = n)) = [] := by
      rw [List.filter_eq_nil_iff]
      intro event hevent heq
      rw [decide_eq_true_eq] at heq
      obtain ⟨k, hk, hmatch⟩ := List.mem_flatMap.mp (hpre.subset hevent)
      have habove := lt_of_mem_blocksRead hactive.1 hk last hlast
      rw [blockNumber_of_matching hmatch] at heq
      omega
    unfold sentFor
    rw [hsent, List.filter_append, hnone, List.append_nil]
  · rw [processHead_ignored hactive]

/-- The marker is never lost. -/
private theorem lastSeen_run {start : Progress Event} (hstart : start.lastSeen.isSome = true)
    (heads : List Head) : (run (processHead chain filter) start heads).lastSeen.isSome = true := by
  refine invariant_of_every_step (fun s : Progress Event ↦ s.lastSeen.isSome = true)
    (fun s head hs ↦ ?_) hstart heads
  by_cases hactive : IsNew s head ∧ head.accessible = true
  · obtain ⟨added, -, -, -, ⟨hlast, -⟩ | ⟨hlast, -⟩⟩ :=
      @processHead_spec _ chain filter s head hactive.1 hactive.2
    · rw [hlast]
      rfl
    · rwa [hlast]
  · rwa [processHead_ignored hactive]

/-- The marker has been at or below a block in the course of a run. -/
def Reached (chain : ℕ → Block Event) (filter : EventFilter Event) (heads : List Head) (n : ℕ) : Prop :=
  ∃ before after first, heads = before ++ after ∧
    (run (processHead chain filter) .start before).lastSeen = some first ∧ first ≤ n

/-- A block that the marker has passed was sent in full, or left out by some head of the run. -/
theorem sent_or_leftOut {heads : List Head}
    (hheads : StepsMeet (processHead chain filter) (fun s head ↦ ¬ Stalls chain filter s head)
      .start heads) {last n : ℕ}
    (hlast : (run (processHead chain filter) .start heads).lastSeen = some last)
    (hreached : Reached chain filter heads n) (hn : n ≤ last) :
    sentFor (run (processHead chain filter) .start heads) n = matching chain filter n ∨
      ∃ before head after, heads = before ++ head :: after ∧
        LeavesOut (run (processHead chain filter) .start before) head n := by
  induction heads using List.reverseRecOn generalizing last with
  | nil => cases hlast
  | append_singleton heads head ih =>
    have hmarked := (orderly_run hheads.left).2
    rw [run_concat] at hlast ⊢
    -- a block of the run before is sent or left out there
    have hearlier {last : ℕ}
        (hlast : (run (processHead chain filter) .start heads).lastSeen = some last)
        (hreached : Reached chain filter heads n) (hn : n ≤ last) :
        sentFor (processHead chain filter (run (processHead chain filter) .start heads) head) n =
            matching chain filter n ∨
          ∃ before head' after, heads ++ [head] = before ++ head' :: after ∧
            LeavesOut (run (processHead chain filter) .start before) head' n := by
      rcases ih hheads.left hlast hreached hn with hsent | ⟨before, head', after, rfl, hleft⟩
      · left
        rw [sentFor_kept hlast hn]
        exact hsent
      · exact .inr ⟨before, head', after ++ [head], by simp, hleft⟩
    obtain ⟨before, after, first, hsplit, hfirst, hle⟩ := hreached
    -- a head that does not move the marker reaches nothing new
    have hstill (hsame : (processHead chain filter (run (processHead chain filter) .start heads)
        head).lastSeen = (run (processHead chain filter) .start heads).lastSeen) :
        Reached chain filter heads n := by
      rcases List.eq_nil_or_concat after with rfl | ⟨rest, last, rfl⟩
      · rw [List.append_nil] at hsplit
        rw [← hsplit, run_concat, hsame] at hfirst
        exact ⟨heads, [], first, (List.append_nil _).symm, hfirst, hle⟩
      · rw [List.concat_eq_append, ← List.append_assoc] at hsplit
        obtain ⟨rfl, -⟩ := List.append_inj' hsplit rfl
        exact ⟨before, rest, first, rfl, hfirst, hle⟩
    by_cases hactive : IsNew (run (processHead chain filter) .start heads) head ∧
        head.accessible = true
    · obtain ⟨added, hsent, -, -, ⟨hmoved, hread, hall⟩ | ⟨hstays, -⟩⟩ :=
        @processHead_spec _ chain filter _ head hactive.1 hactive.2
      · rw [hmoved, Option.some.injEq] at hlast
        subst hlast
        rw [hall] at hsent
        by_cases hown : n = head.number
        · left
          refine sentFor_read hmarked hactive.1 (mem_blocksRead.mpr (.inr ⟨hown, ?_⟩)) hsent
          rwa [hown]
        · have hbelow : n < head.number := by omega
          -- the marker was at or below the block before this head
          rcases List.eq_nil_or_concat after with rfl | ⟨rest, last, rfl⟩
          · rw [List.append_nil] at hsplit
            rw [← hsplit, run_concat, hmoved, Option.some.injEq] at hfirst
            omega
          · rw [List.concat_eq_append, ← List.append_assoc] at hsplit
            obtain ⟨rfl, -⟩ := List.append_inj' hsplit rfl
            have hsome : (run (processHead chain filter) .start (before ++ rest)).lastSeen.isSome =
                true := by
              rw [run_append]
              exact lastSeen_run (by rw [hfirst]; rfl) rest
            obtain ⟨marker, hmarker⟩ := Option.isSome_iff_exists.mp hsome
            by_cases hpassed : n ≤ marker
            · exact hearlier hmarker ⟨before, rest, first, rfl, hfirst, hle⟩ hpassed
            · push Not at hpassed
              by_cases hfar : n + maxBackfill < head.number
              · exact .inr ⟨before ++ rest, head, [], rfl, hactive.1,
                  .inr ⟨hactive.2, .inr ⟨⟨marker, hmarker, hpassed⟩, hfar⟩⟩⟩
              · push Not at hfar
                have hmissed := mem_missedBlocks.mpr ⟨⟨marker, hmarker, hpassed⟩, hbelow, hfar⟩
                by_cases hreads : head.reads n = true
                · left
                  exact sentFor_read hmarked hactive.1
                    (mem_blocksRead.mpr (.inl ⟨hmissed, hreads⟩)) hsent
                · exact .inr ⟨before ++ rest, head, [], rfl, hactive.1,
                    .inr ⟨hactive.2, .inl ⟨hmissed, Bool.eq_false_of_not_eq_true hreads⟩⟩⟩
      · rw [hstays] at hlast
        exact hearlier hlast (hstill hstays) hn
    · have hignored := congrArg Progress.lastSeen (@processHead_ignored _ chain filter _ head hactive)
      rw [hignored] at hlast
      exact hearlier hlast (hstill hignored) hn

/-! ### Stalls -/

/-- A head that is delivered again, and read in full this time. -/
def Head.readAgain (head : Head) : Head :=
  { head with accessible := true, blockFound := fun _ ↦ true, eventsRead := fun _ ↦ true }

/-- After a stall, the same head delivers what its gap had delivered once more. -/
theorem repeated_of_stalls (hstalls : Stalls chain filter s head) :
    ¬ OrderlySent chain filter
      (processHead chain filter (processHead chain filter s head) head.readAgain) := by
  obtain ⟨hnew, haccessible, hroom, hskipped, n, hmissed, hreads, hmatching⟩ := hstalls
  obtain ⟨first, hfirst, -, hstopped, ⟨-, hread, -⟩ | ⟨hlast, hall⟩⟩ :=
    @processHead_spec _ chain filter s head hnew haccessible
  · rw [hskipped] at hread
    cases hread
  · obtain ⟨-, rfl⟩ := hall hroom
    have hagain : IsNew (processHead chain filter s head) head.readAgain := by
      refine ⟨hstopped.mpr hroom, ?_⟩
      rw [hlast]
      exact hnew.2
    obtain ⟨second, hsecond, -, -, ⟨-, -, rfl⟩ | ⟨-, hall⟩⟩ :=
      @processHead_spec _ chain filter (processHead chain filter s head) head.readAgain hagain rfl
    · have hitems : ∀ k, ∀ event ∈ matching chain filter k, event.blockNumber = k :=
        fun k event ↦ blockNumber_of_matching
      have hbefore : n ∈ blocksRead s head := mem_blocksRead.mpr (.inl ⟨hmissed, hreads⟩)
      have hafter : n ∈ blocksRead (processHead chain filter s head) head.readAgain := by
        refine mem_blocksRead.mpr (.inl ⟨?_, rfl⟩)
        rw [hlast]
        exact hmissed
      have hnodup {s : Progress Event} {head : Head} : (blocksRead s head).Nodup :=
        (pairwise_blocksRead s head).imp fun hlt ↦ hlt.ne
      refine Orderly.not_of_repeated hmatching ?_
      rw [hsecond, hfirst, List.filter_append, List.filter_append,
        Orderly.filter_flatMap hitems hnodup, Orderly.filter_flatMap hitems hnodup, if_pos hbefore,
        if_pos hafter, List.append_assoc]
      exact List.sublist_append_right _ _
    · obtain ⟨hunread, -⟩ := hall hroom
      cases hunread

/-! ### First heads that fail -/

/-- A task that has stopped does nothing more. -/
private theorem run_of_stopped (hstopped : s.stopped = true) (heads : List Head) :
    run (processHead chain filter) s heads = s := by
  induction heads with
  | nil => rfl
  | cons head rest ih =>
    have hignored : processHead chain filter s head = s :=
      processHead_ignored fun hactive ↦ by simp [IsNew, hstopped] at hactive
    rw [run_cons, hignored]
    exact ih

/-- If no head fails before the first processed one, the marker starts at the first head. -/
private theorem reached_of_first {heads : List Head}
    (hheads : StepsMeet (processHead chain filter) (fun s head ↦ ¬ FailsFirst s head) .start heads)
    {last n : ℕ} (hlast : (run (processHead chain filter) .start heads).lastSeen = some last)
    (hfirst : ∀ first ∈ heads.head?, first.number ≤ n) : Reached chain filter heads n := by
  cases heads with
  | nil => cases hlast
  | cons first rest =>
    obtain ⟨hprocessed, -⟩ := hheads
    have hnew : IsNew (.start : Progress Event) first := ⟨rfl, fun _ hnone ↦ by cases hnone⟩
    have haccessible : first.accessible = true := by
      by_contra hnot
      exact hprocessed ⟨hnew, rfl, .inl (Bool.eq_false_of_not_eq_true hnot)⟩
    obtain ⟨added, -, -, hstopped, ⟨hmoved, -⟩ | ⟨hstays, hskipped⟩⟩ :=
      @processHead_spec _ chain filter .start first hnew haccessible
    · exact ⟨[first], rest, first.number, rfl, hmoved, hfirst first rfl⟩
    · -- the consumer is gone, so that the marker is never set
      have hgone : first.room ≠ none := fun hnone ↦
        hprocessed ⟨hnew, rfl, .inr ⟨(hskipped hnone).1, hnone⟩⟩
      have hstops : (processHead chain filter .start first).stopped = true := by
        by_contra hruns
        exact hgone (hstopped.mp (Bool.eq_false_of_not_eq_true hruns))
      rw [run_cons, run_of_stopped hstops, hstays] at hlast
      cases hlast

/-- Before the first processed head nothing is sent to a consumer that stays. -/
private theorem sent_before_first (heads : List Head) :
    (run (processHead chain filter) .start heads).lastSeen = none →
      (run (processHead chain filter) .start heads).stopped = false →
        (run (processHead chain filter) .start heads).sent = [] := by
  refine invariant_of_every_step (fun s : Progress Event ↦ s.lastSeen = none → s.stopped = false →
    s.sent = []) (fun s head hs hlast hruns ↦ ?_) (fun _ _ ↦ rfl) heads
  by_cases hactive : IsNew s head ∧ head.accessible = true
  · obtain ⟨added, hsent, -, hstopped, ⟨hmoved, -⟩ | ⟨hstays, hskipped⟩⟩ :=
      @processHead_spec _ chain filter s head hactive.1 hactive.2
    · rw [hmoved] at hlast
      cases hlast
    · obtain ⟨hunread, hadded⟩ := hskipped (hstopped.mp hruns)
      rw [hstays] at hlast
      rw [hsent, hs hlast hactive.1.1, hadded, blocksRead, hlast, hunread]
      rfl
  · rw [processHead_ignored hactive] at hlast hruns ⊢
    exact hs hlast hruns

/-- Every block from the first head to the marker was sent in full, unless a head of the run left it out. -/
def Covered (chain : ℕ → Block Event) (filter : EventFilter Event) (heads : List Head) : Prop :=
  ∀ last n, (run (processHead chain filter) .start heads).lastSeen = some last →
    (∀ first ∈ heads.head?, first.number ≤ n) → n ≤ last →
      sentFor (run (processHead chain filter) .start heads) n = matching chain filter n ∨
        ∃ before head after, heads = before ++ head :: after ∧
          LeavesOut (run (processHead chain filter) .start before) head n

/-- A head that is read in full. -/
def readHead (number : ℕ) : Head := ⟨number, true, fun _ ↦ true, fun _ ↦ true, none⟩

/-- A head that fails first leaves the task at its start. -/
private theorem run_of_failsFirst {heads : List Head}
    (hfails : FailsFirst (run (processHead chain filter) .start heads) head) :
    run (processHead chain filter) .start (heads ++ [head]) = .start := by
  obtain ⟨hnew, hnone, hfailed⟩ := hfails
  have hempty := sent_before_first heads hnone hnew.1
  have hstart : run (processHead chain filter) .start heads = .start := by
    generalize run (processHead chain filter) .start heads = s at hnew hnone hempty
    obtain ⟨lastSeen, sent, stopped⟩ := s
    obtain ⟨hruns, -⟩ := hnew
    subst hnone hempty hruns
    rfl
  rw [run_concat, hstart]
  by_cases haccessible : head.accessible = true
  · obtain ⟨hunread, hroom⟩ : head.eventsRead head.number = false ∧ head.room = none := by
      simpa [haccessible] using hfailed
    simp [processHead, Progress.start, haccessible, missedBlocks, backfill, forwardBlockEvents, hunread,
      hroom]
  · exact processHead_ignored fun hactive ↦ haccessible hactive.2

/-- After a head that fails first, the next head leaves the blocks between them unread. -/
theorem uncovered_of_failsFirst {heads : List Head}
    (hfails : FailsFirst (run (processHead chain filter) .start heads) head) {n : ℕ}
    (hbelow : ∀ earlier ∈ heads ++ [head], earlier.number < n) (hmatching : matching chain filter n ≠ []) :
    ¬ Covered chain filter (heads ++ [head, readHead (n + 1)]) := by
  have hstart := run_of_failsFirst hfails
  have hsplit : heads ++ [head, readHead (n + 1)] = (heads ++ [head]) ++ [readHead (n + 1)] := by simp
  have hnew : IsNew (.start : Progress Event) (readHead (n + 1)) := ⟨rfl, fun _ hnone ↦ by cases hnone⟩
  obtain ⟨added, hsent, -, -, ⟨hmoved, -, hadded⟩ | ⟨-, hskipped⟩⟩ :=
    @processHead_spec _ chain filter .start (readHead (n + 1)) hnew rfl
  · intro hcovered
    rw [hsplit] at hcovered
    have hcase := hcovered (n + 1) n
    rw [run_concat, hstart] at hcase
    have hfirst : ∀ first ∈ ((heads ++ [head]) ++ [readHead (n + 1)]).head?, first.number ≤ n := by
      intro first hfirst
      rw [List.head?_append_of_ne_nil _ (by simp)] at hfirst
      exact (hbelow first (List.mem_of_mem_head? hfirst)).le
    rcases hcase hmoved hfirst n.le_succ with hfull | ⟨before, next, after, hheads, hnext, hleft⟩
    · -- the events that were sent are those of the last head
      refine hmatching (hfull.symm.trans ?_)
      unfold sentFor
      rw [hsent, hadded, List.filter_eq_nil_iff]
      intro event hevent heq
      rw [decide_eq_true_eq] at heq
      simp only [Progress.start, List.nil_append, List.mem_flatMap] at hevent
      obtain ⟨k, hk, hmatch⟩ := hevent
      rw [blockNumber_of_matching hmatch] at heq
      rcases mem_blocksRead.mp hk with ⟨hmissed, -⟩ | ⟨hown, -⟩
      · exact absurd hmissed (by simp [missedBlocks])
      · simp only [readHead] at hown
        omega
    · rcases List.eq_nil_or_concat after with rfl | ⟨rest, last, rfl⟩
      · -- the last head has no gap
        obtain ⟨rfl, hlast⟩ := List.append_inj' hheads rfl
        rw [List.singleton_inj] at hlast
        subst hlast
        rw [hstart] at hleft
        simp [readHead, missedBlocks, Progress.start] at hleft
      · -- the heads before it are below the block
        have hmem : next ∈ heads ++ [head] := by
          rw [List.concat_eq_append, ← List.cons_append, ← List.append_assoc] at hheads
          obtain ⟨hheads, -⟩ := List.append_inj' hheads rfl
          rw [hheads]
          simp
        have hlow := hbelow next hmem
        rcases hleft with ⟨rfl, -⟩ | ⟨-, ⟨hmissed, -⟩ | ⟨-, hfar⟩⟩
        · exact lt_irrefl _ hlow
        · have habove := (mem_missedBlocks.mp hmissed).2.1
          omega
        · omega
  · obtain ⟨hunread, -⟩ := hskipped rfl
    cases hunread

variable (chain filter) in
/-- The order of the stream. In a run in which no head stalls and none fails before the first processed
one, what was sent never goes back in the chain and has the events of each block at most once, in block
order; and a block from the first head to the marker was sent in full unless a head of the run left it out.
After a stall, the same head delivered again repeats a block; after a head that fails first, a block between
it and the next one is neither sent nor left out. -/
theorem stream_orderly :
    (∀ heads, StepsMeet (processHead chain filter)
        (fun s head ↦ ¬ Stalls chain filter s head ∧ ¬ FailsFirst s head) .start heads →
      OrderlySent chain filter (run (processHead chain filter) .start heads) ∧
        Covered chain filter heads) ∧
    (∀ heads head, Stalls chain filter (run (processHead chain filter) .start heads) head →
      ¬ OrderlySent chain filter
        (run (processHead chain filter) .start (heads ++ [head, head.readAgain]))) ∧
    ∀ heads head, FailsFirst (run (processHead chain filter) .start heads) head →
      ∀ n, (∀ earlier ∈ heads ++ [head], earlier.number < n) → matching chain filter n ≠ [] →
        ∃ next, ¬ Covered chain filter (heads ++ [head, next]) := by
  refine ⟨fun heads hheads ↦ ?_, fun heads head hstalls ↦ ?_, fun heads head hfails n hbelow hmatching ↦
    ⟨_, uncovered_of_failsFirst hfails hbelow hmatching⟩⟩
  · have hcalm := hheads.mono fun _ _ h ↦ h.1
    exact ⟨(orderly_run hcalm).1, fun last n hlast hfirst hn ↦
      sent_or_leftOut hcalm hlast (reached_of_first (hheads.mono fun _ _ h ↦ h.2) hlast hfirst) hn⟩
  · rw [run_append]
    exact repeated_of_stalls hstalls

end Runs

/-! ### A chain of one event a block -/

/-- Every block has one event, its number. -/
def numbered (n : ℕ) : Block ℕ := ⟨.repeatByte 0, [.event "StorageProvider" (some n)]⟩

def everything : EventFilter ℕ := ⟨none, none⟩

/-- A head whose own events cannot be read. -/
def unreadHead (number : ℕ) : Head := ⟨number, true, fun _ ↦ true, fun n ↦ n ≠ number, none⟩

theorem stream_orderly_numbered :
    (OrderlySent numbered everything
        (run (processHead numbered everything) .start [readHead 1, readHead 4, readHead 3]) ∧
      Covered numbered everything [readHead 1, readHead 4, readHead 3]) ∧
    ¬ OrderlySent numbered everything (run (processHead numbered everything) .start
      ([readHead 1] ++ [unreadHead 4, (unreadHead 4).readAgain])) ∧
    ∃ next, ¬ Covered numbered everything ([] ++ [unreadHead 5, next]) :=
  ⟨(stream_orderly numbered everything).1 [readHead 1, readHead 4, readHead 3] (by decide),
    (stream_orderly numbered everything).2.1 [readHead 1] (unreadHead 4) (by decide),
    (stream_orderly numbered everything).2.2 [] (unreadHead 5) (by decide) 8 (by decide) (by decide)⟩

/-- The events of head 4 cannot be read after those of blocks 2 and 3 were delivered. When the head is
delivered again, the stream goes back to block 2 and repeats both. -/
theorem stream_repeats :
    (run (processHead numbered everything) .start
      [readHead 1, unreadHead 4, readHead 4]).sent.map BlockEvent.blockNumber =
        [1, 2, 3, 2, 3, 4] := by
  decide

end Web3Storage.Indexers
