import Web3Storage.Node.ChainState
import Web3Storage.Pallet.Dispatch

/-!
# How a node follows the chain

A node decodes the events of each finalized block, sends those its coordinators react to, and reads
its provider record again when the block has a lifecycle event of its own account. A read that fails
leaves what the node knew. `FinalizedChain` is a run of the pallet cut into blocks, as a node meets
it: every block is readable, every read succeeds and is at the finalized head, which is never behind
the block the node processes.
-/

set_option autoImplicit false
set_option relaxedAutoImplicit false

namespace Web3Storage.Node

open Foundations Primitives
open Pallet (Config Event Genesis Input State step)

/-! ### Events of a block -/

/-- An event of a block as it was stored: of this pallet, with whether its fields decode, of another
pallet, or not even a well-formed record. -/
inductive RawEvent (AccountId : Type)
  | storageProvider (event : Event AccountId) (decodes : Bool)
  | foreign
  | malformed

/-- What the coordinators of a node react to. -/
inductive BlockEvent (AccountId : Type)
  | challengeCreated (deadline index bucketId : ℕ) (provider : AccountId)
  | replicaAgreementEstablished (bucketId : ℕ) (provider : AccountId)
  | bucketCheckpointed (bucketId : ℕ)
  | bucketMembershipChanged (bucketId : ℕ)
  | resubscribed (atBlock : ℕ)
  | membershipScopeUnknown (atBlock : ℕ)
  deriving DecidableEq

/-- The decoded events of a block: those to send on, and the accounts of its lifecycle events. -/
structure BlockContents (AccountId : Type) where
  events : List (BlockEvent AccountId)
  lifecycle : List AccountId

variable {AccountId : Type}

/-- Whether an event changes the members of a bucket. -/
def isMembershipEvent : Event AccountId → Bool
  | .bucketCreated .. | .memberSet .. | .memberRemoved .. | .bucketDeleted ..
  | .bucketVisibilityChanged .. => true
  | _ => false

/-- Whether an event is for the coordinators or about the life of a provider. -/
def isOtherRelevantEvent : Event AccountId → Bool
  | .challengeCreated .. | .replicaAgreementEstablished .. | .bucketCheckpointed ..
  | .providerRegistered .. | .providerSettingsUpdated .. | .providerMultiaddrUpdated ..
  | .deregisterAnnounced .. | .deregisterCancelled .. | .providerDeregistered .. => true
  | _ => false

/-- The account of a lifecycle event. -/
def lifecycleAccount : Event AccountId → Option AccountId
  | .providerDeregistered provider _ => some provider
  | .providerRegistered provider _ => some provider
  | .providerSettingsUpdated provider _ => some provider
  | .providerMultiaddrUpdated provider _ => some provider
  | .deregisterAnnounced provider _ => some provider
  | .deregisterCancelled provider => some provider
  | _ => none

/-- What an event means to the coordinators. -/
def blockEvent : Event AccountId → Option (BlockEvent AccountId)
  | .challengeCreated challengeId bucketId provider _ _ =>
    some (.challengeCreated challengeId.deadline challengeId.index bucketId provider)
  | .replicaAgreementEstablished bucketId provider _ _ _ =>
    some (.replicaAgreementEstablished bucketId provider)
  | .bucketCheckpointed bucketId _ _ => some (.bucketCheckpointed bucketId)
  | .bucketCreated bucketId _ => some (.bucketMembershipChanged bucketId)
  | .memberSet bucketId _ _ => some (.bucketMembershipChanged bucketId)
  | .memberRemoved bucketId _ => some (.bucketMembershipChanged bucketId)
  | .bucketDeleted bucketId => some (.bucketMembershipChanged bucketId)
  | .bucketVisibilityChanged bucketId _ => some (.bucketMembershipChanged bucketId)
  | _ => none

/-- Decode the relevant events of a block. A change of members that does not decode may be of any
bucket; any other event that does not decode is skipped. -/
def decodeBlockContents (blockNumber : ℕ) : List (RawEvent AccountId) → BlockContents AccountId
  | [] => ⟨[], []⟩
  | raw :: rest =>
    let contents := decodeBlockContents blockNumber rest
    match raw with
    | .malformed | .foreign => contents
    | .storageProvider event decodes =>
      let membership := isMembershipEvent event
      if !membership && !isOtherRelevantEvent event then contents
      else if decodes then
        ⟨(blockEvent event).toList ++ contents.events,
          (lifecycleAccount event).toList ++ contents.lifecycle⟩
      else if membership then
        { contents with events := .membershipScopeUnknown blockNumber :: contents.events }
      else contents

/-! ### Reads of the chain -/

/-- Why a read failed. -/
inductive ChainClientError
  | query (what reason : String)
  | decode (what reason : String)

/-- A finalized block as a node receives it. The anchor block and the contents are missing when they
could not be read. -/
structure FinalizedBlock (AccountId : Type) where
  number : ℕ
  anchorBlock : Option ℕ
  contents : Option (BlockContents AccountId)

/-- The answer to a read of the provider record. -/
abbrev ProviderRead := Except ChainClientError (Option ProviderInfo)

/-- A block of the stream, with the answer a read after it gets. -/
structure Delivery (AccountId : Type) where
  block : FinalizedBlock AccountId
  providerRead : ProviderRead

/-- What a connection answers: the reads of the bootstrap, then the blocks of its stream. -/
structure ChainConnection (AccountId : Type) where
  requestTimeoutRead : Except ChainClientError (Option ℕ)
  providerRead : ProviderRead
  deliveries : List (Delivery AccountId)

def syncConstants (read : Except ChainClientError (Option ℕ)) (chainState : ChainState) :
    ChainState :=
  match read with
  | .ok (some timeout) => { chainState with constants := some ⟨timeout⟩ }
  | .ok none | .error _ => chainState

/-- Publish the provider record that was read. -/
def refreshProviderState (read : ProviderRead) (chainState : ChainState) : ChainState :=
  match read with
  | .ok info => { chainState with providerInfo := info }
  | .error _ => chainState

variable [DecidableEq AccountId]

/-- Read the record again if a lifecycle event is about the provider. -/
def refreshIfRelevantEvent (providerAccount : AccountId) (eventProviders : List AccountId)
    (read : ProviderRead) (chainState : ChainState) : ChainState :=
  if providerAccount ∈ eventProviders then refreshProviderState read chainState else chainState

/-! ### The loop -/

/-- The chain state of a node, and the events it has sent. -/
structure Followed (AccountId : Type) where
  chainState : ChainState
  sent : List (BlockEvent AccountId)

/-- Process one block of the stream. -/
def followBlock (providerAccount : AccountId) (followed : Followed AccountId)
    (delivery : Delivery AccountId) : Followed AccountId :=
  let chainState :=
    match delivery.block.anchorBlock with
    | some anchorBlock => { followed.chainState with currentAnchorBlock := anchorBlock }
    | none => followed.chainState
  match delivery.block.contents with
  | none => ⟨chainState, followed.sent ++ [.membershipScopeUnknown delivery.block.number]⟩
  | some contents =>
    ⟨refreshIfRelevantEvent providerAccount contents.lifecycle delivery.providerRead chainState,
      followed.sent ++ contents.events⟩

/-- Read the constants and the provider record, and tell the coordinators to reconcile. -/
def bootstrap (connection : ChainConnection AccountId) (chainState : ChainState) :
    Followed AccountId :=
  let chainState := syncConstants connection.requestTimeoutRead chainState
  let chainState := refreshProviderState connection.providerRead chainState
  ⟨chainState, [.resubscribed chainState.currentAnchorBlock]⟩

/-- Follow a connection until its stream ends. -/
def follow (providerAccount : AccountId) (connection : ChainConnection AccountId)
    (chainState : ChainState) : Followed AccountId :=
  run (followBlock providerAccount) (bootstrap connection chainState) connection.deliveries

/-! ### A chain to follow -/

variable (cfg : Config AccountId)

/-- The events an input puts into its block. -/
def emitted (s : State AccountId) : Input AccountId → List (Event AccountId)
  | .call origin call => (step cfg s (.call origin call)).events
  | _ => []

/-- The events of the pallet in a block. -/
def blockEvents : State AccountId → List (Input AccountId) → List (Event AccountId)
  | _, [] => []
  | s, input :: rest => emitted cfg s input ++ blockEvents (step cfg s input) rest

/-- The state after a number of blocks. -/
def stateAt (genesis : Genesis cfg) (blocks : ℕ → List (Input AccountId)) : ℕ → State AccountId
  | 0 => genesis.state
  | n + 1 => run (step cfg) (stateAt genesis blocks n) (blocks n)

/-- The event of this pallet that a stored event is. -/
def RawEvent.palletEvent : RawEvent AccountId → Option (Event AccountId)
  | .storageProvider event _ => some event
  | .foreign | .malformed => none

/-- Whether a stored event can be read. -/
def RawEvent.readable : RawEvent AccountId → Bool
  | .storageProvider _ decodes => decodes
  | .foreign => true
  | .malformed => false

/-- A run of the pallet cut into finalized blocks, as a node meets it. Block `n + 1` is made of
`blocks n`; its stored events are those of the pallet among those of others. `latest n` is the
finalized head when the node reads after block `n`. -/
structure FinalizedChain where
  genesis : Genesis cfg
  blocks : ℕ → List (Input AccountId)
  rawEvents : ℕ → List (RawEvent AccountId)
  latest : ℕ → ℕ
  events_eq : ∀ n, (rawEvents n).filterMap RawEvent.palletEvent =
    blockEvents cfg (stateAt cfg genesis blocks n) (blocks n)
  readable : ∀ n, ∀ raw ∈ rawEvents n, raw.readable = true
  le_latest : ∀ n, n ≤ latest n

namespace FinalizedChain

variable {cfg} (chain : FinalizedChain cfg)

/-- The state after block `n`. -/
def state (n : ℕ) : State AccountId := stateAt cfg chain.genesis chain.blocks n

/-- The record of a provider after block `n`. -/
def record (provider : AccountId) (n : ℕ) : Option Pallet.ProviderInfo :=
  (chain.state n).providers.lookup provider

/-- The answer to a read after block `n`. -/
def providerRead (provider : AccountId) (n : ℕ) : ProviderRead :=
  .ok ((chain.record provider (chain.latest n)).map providerInfoFromRuntime)

/-- Block `n + 1` of the stream. -/
def delivery (provider : AccountId) (n : ℕ) : Delivery AccountId where
  block :=
    { number := (n + 1) % 2 ^ 32
      anchorBlock := some (chain.state (n + 1)).anchorBlock
      contents := some (decodeBlockContents ((n + 1) % 2 ^ 32) (chain.rawEvents n)) }
  providerRead := chain.providerRead provider (n + 1)

/-- A connection that was opened after block `start` and streams a number of blocks. -/
def connection (provider : AccountId) (start count : ℕ) : ChainConnection AccountId where
  requestTimeoutRead := .ok (some cfg.requestTimeout)
  providerRead := chain.providerRead provider start
  deliveries := (List.range count).map fun i ↦ chain.delivery provider (start + i)

end FinalizedChain

/-! ### Lifecycle events -/

omit [DecidableEq AccountId] in
/-- Every lifecycle event is relevant. -/
theorem isOtherRelevantEvent_of_lifecycleAccount {event : Event AccountId} {provider : AccountId}
    (h : lifecycleAccount event = some provider) : isOtherRelevantEvent event = true := by
  unfold lifecycleAccount at h
  split at h <;> first | rfl | cases h

omit [DecidableEq AccountId] in
/-- The lifecycle accounts of a readable block are those of the pallet's events. -/
theorem lifecycle_decodeBlockContents (blockNumber : ℕ) {rawEvents : List (RawEvent AccountId)}
    (hreadable : ∀ raw ∈ rawEvents, raw.readable = true) :
    (decodeBlockContents blockNumber rawEvents).lifecycle =
      (rawEvents.filterMap RawEvent.palletEvent).filterMap lifecycleAccount := by
  induction rawEvents with
  | nil => rfl
  | cons raw rest ih =>
    have hrest := ih fun other hother ↦ hreadable other (List.mem_cons_of_mem _ hother)
    have hraw := hreadable raw List.mem_cons_self
    cases raw with
    | malformed => cases hraw
    | foreign => exact hrest
    | storageProvider event decodes =>
      obtain rfl : decodes = true := hraw
      have hcons : ((RawEvent.storageProvider event true :: rest).filterMap
          RawEvent.palletEvent).filterMap lifecycleAccount =
            (lifecycleAccount event).toList ++
              (rest.filterMap RawEvent.palletEvent).filterMap lifecycleAccount := by
        cases haccount : lifecycleAccount event <;> simp [RawEvent.palletEvent, haccount]
      rw [hcons, ← hrest]
      simp only [decodeBlockContents]
      split_ifs with hskipped
      · -- a skipped event has no lifecycle account
        cases haccount : lifecycleAccount event with
        | none => rfl
        | some provider =>
          rw [isOtherRelevantEvent_of_lifecycleAccount haccount] at hskipped
          simp at hskipped
      · rfl

end Web3Storage.Node
