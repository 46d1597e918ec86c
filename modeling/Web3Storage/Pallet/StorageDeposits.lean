import Web3Storage.Pallet.BucketIds
import Web3Storage.Pallet.Mock

/-!
# Storage deposits equal their tickets

Every record carries the ticket of a storage deposit: a provider its own, a bucket that of its creator,
a member entry and an agreement that of whoever paid for it. The storage deposits held on an account are
the tickets with it as depositor, and a call that removes records releases exactly their tickets, each on
the account that paid it (`storage_deposits_exact`). This needs that no bucket is written over: a bucket
that is created relies on the new id, and the counter of bucket ids saturates. At the largest id the
second creation writes over the first bucket, whose tickets stay on hold for nobody
(`deposit_without_ticket`).
-/

set_option autoImplicit false
set_option relaxedAutoImplicit false

namespace Web3Storage.Pallet

open Foundations Primitives
open Ledger (Moves amountAt held free)

variable {AccountId : Type} [DecidableEq AccountId] {cfg : Config AccountId}
  {s s' : State AccountId} {input : Input AccountId}

/-! ### Tickets -/

/-- An amount that one account paid. -/
def paidBy (who : AccountId) (amount : ℕ) (a : AccountId) : ℕ :=
  if a = who then amount else 0

/-- The tickets of member entries. -/
def memberTickets (members : List (Member AccountId)) (a : AccountId) : ℕ :=
  (members.map fun m ↦ paidBy m.depositor m.deposit a).sum

/-- The tickets of a bucket: its own and those of its member entries. -/
def Bucket.tickets (bucket : Bucket AccountId) (a : AccountId) : ℕ :=
  paidBy bucket.creator bucket.deposit a + memberTickets bucket.members a

/-- The tickets of provider records. -/
def State.providerTickets (s : State AccountId) (a : AccountId) : ℕ :=
  FiniteMap.weightedSum (fun who info ↦ paidBy who info.deposit a) s.providers

/-- The tickets of buckets and their members. -/
def State.bucketTickets (s : State AccountId) (a : AccountId) : ℕ :=
  FiniteMap.weightedSum (fun _ bucket ↦ bucket.tickets a) s.buckets

/-- The tickets of agreements. -/
def State.agreementTickets (s : State AccountId) (a : AccountId) : ℕ :=
  FiniteMap.weightedSum (fun _ agreement ↦ paidBy agreement.depositor agreement.deposit a)
    s.storageAgreements

/-- The tickets recorded in the state with an account as depositor. -/
def State.ticketsOf (s : State AccountId) (a : AccountId) : ℕ :=
  s.providerTickets a + s.bucketTickets a + s.agreementTickets a

/-- The storage deposits held on each account are the tickets it paid for. -/
def DepositsExact (s : State AccountId) : Prop :=
  ∀ a, s.held .storageDeposit a = s.ticketsOf a

/-- An accepted call that creates a bucket finds none under its new id. -/
def CreatesAtFreeId (cfg : Config AccountId) (s : State AccountId) : Input AccountId → Prop
  | .call origin call => call.createsBucket = true → accepted cfg s origin call = true →
    s.buckets.lookup s.nextBucketId = none
  | _ => True

/-- Storage deposits that are released, each on the account that paid it. -/
structure Releases (table : AccountId → ℕ) (before after : Funds AccountId) : Prop where
  held_add : ∀ a, held after .storageDeposit a + table a = held before .storageDeposit a
  free_eq : ∀ a, free after a = free before a + table a

/-- A step that writes records takes the deposits of their tickets. -/
def TakesTickets (s s' : State AccountId) : Prop :=
  ∃ taken : AccountId → ℕ, (∀ a, s'.held .storageDeposit a = s.held .storageDeposit a + taken a) ∧
    ∀ a, s'.ticketsOf a = s.ticketsOf a + taken a

/-- The calls that remove records. -/
def Call.removesRecords : Call AccountId → Bool
  | .completeDeregister | .deleteBucket _ | .removeMember .. | .removeSlashed .. | .endAgreement ..
  | .claimExpiredAgreement _ => true
  | _ => false

/-- What becomes free besides its ticket when an agreement is settled. -/
def StorageAgreement.frees (cfg : Config AccountId) (provider : AccountId) (action : EndAction)
    (agreement : StorageAgreement AccountId) (a : AccountId) : ℕ :=
  paidBy provider (splitPayment action agreement.paymentLocked).1 a +
    paidBy cfg.treasury (splitPayment action agreement.paymentLocked).2 a +
      paidBy agreement.owner agreement.syncBalance a

/-- What becomes free of other holds when a call removes records. -/
def Call.frees (cfg : Config AccountId) (s : State AccountId) (who : AccountId) :
    Call AccountId → AccountId → ℕ
  | .completeDeregister => fun a ↦
    (s.providers.lookup who).elim 0 fun info ↦ paidBy who info.stake a
  | .removeSlashed bucketId provider => fun a ↦
    (s.storageAgreements.lookup (bucketId, provider)).elim 0 fun agreement ↦
      paidBy agreement.owner agreement.escrow a
  | .endAgreement bucketId provider action => fun a ↦
    (s.storageAgreements.lookup (bucketId, provider)).elim 0 fun agreement ↦
      agreement.frees cfg provider action a
  | .claimExpiredAgreement bucketId => fun a ↦
    (s.storageAgreements.lookup (bucketId, who)).elim 0 fun agreement ↦
      agreement.frees cfg who .pay a
  | _ => fun _ ↦ 0

/-- A step that removes records releases their tickets: what an account no longer has as tickets
leaves its hold and is free on it, besides what the step frees of other holds. -/
def ReleasesTickets (frees : AccountId → ℕ) (s s' : State AccountId) : Prop :=
  ∃ table : AccountId → ℕ, (∀ a, s'.ticketsOf a + table a = s.ticketsOf a) ∧
    (∀ a, s'.held .storageDeposit a + table a = s.held .storageDeposit a) ∧
      ∀ a, free s'.ledger a = free s.ledger a + table a + frees a

theorem TakesTickets.exact (h : TakesTickets s s') (hs : DepositsExact s) : DepositsExact s' := by
  obtain ⟨taken, hheld, htickets⟩ := h
  intro a
  rw [hheld, htickets, hs a]

theorem ReleasesTickets.exact {frees : AccountId → ℕ} (h : ReleasesTickets frees s s')
    (hs : DepositsExact s) : DepositsExact s' := by
  obtain ⟨table, htickets, hheld, -⟩ := h
  intro a
  have hbefore := hs a
  have hleft := htickets a
  have hreleased := hheld a
  omega

/-! ### Records and their tickets -/

section Congruence

/-- What an optional entry weighs depends on one field of it. -/
private theorem elim_of_map {V β : Type} {field : V → β} (weigh : β → ℕ) {entry entry' : Option V}
    (hsame : entry'.map field = entry.map field) :
    entry'.elim 0 (fun value ↦ weigh (field value)) =
      entry.elim 0 fun value ↦ weigh (field value) := by
  have helim (entry : Option V) :
      entry.elim 0 (fun value ↦ weigh (field value)) = (entry.map field).elim 0 weigh := by
    cases entry with
    | none => rfl
    | some value => rfl
  rw [helim, helim, hsame]

theorem providerTickets_congr (h : ∀ who, (s'.providers.lookup who).map ProviderInfo.deposit =
      (s.providers.lookup who).map ProviderInfo.deposit) (a : AccountId) :
    s'.providerTickets a = s.providerTickets a :=
  FiniteMap.weightedSum_eq_of_lookup fun who ↦
    elim_of_map (fun deposit ↦ paidBy who deposit a) (h who)

theorem bucketTickets_congr (h : ∀ id, (s'.buckets.lookup id).map Bucket.tickets =
      (s.buckets.lookup id).map Bucket.tickets) (a : AccountId) :
    s'.bucketTickets a = s.bucketTickets a :=
  FiniteMap.weightedSum_eq_of_lookup fun id ↦ elim_of_map (fun tickets ↦ tickets a) (h id)

/-- Who paid for an agreement, and how much. -/
def StorageAgreement.ticket (agreement : StorageAgreement AccountId) : AccountId × ℕ :=
  (agreement.depositor, agreement.deposit)

theorem agreementTickets_congr
    (h : ∀ key, (s'.storageAgreements.lookup key).map StorageAgreement.ticket =
      (s.storageAgreements.lookup key).map StorageAgreement.ticket) (a : AccountId) :
    s'.agreementTickets a = s.agreementTickets a :=
  FiniteMap.weightedSum_eq_of_lookup fun key ↦
    elim_of_map (fun ticket : AccountId × ℕ ↦ paidBy ticket.1 ticket.2 a) (h key)

end Congruence

theorem provider_ticket_le {who : AccountId} {info : ProviderInfo}
    (h : s.providers.lookup who = some info) : info.deposit ≤ s.ticketsOf who := by
  have hle := FiniteMap.weight_le_weightedSum (fun key info ↦ paidBy key info.deposit who) h
  rw [paidBy, if_pos rfl] at hle
  unfold State.ticketsOf State.providerTickets
  omega

theorem bucket_tickets_le {bucketId : ℕ} {bucket : Bucket AccountId}
    (h : s.buckets.lookup bucketId = some bucket) (a : AccountId) :
    bucket.tickets a ≤ s.ticketsOf a := by
  have hle := FiniteMap.weight_le_weightedSum (fun _ bucket ↦ bucket.tickets a) h
  unfold State.ticketsOf State.bucketTickets
  omega

theorem agreement_ticket_le {key : ℕ × AccountId} {agreement : StorageAgreement AccountId}
    (h : s.storageAgreements.lookup key = some agreement) :
    agreement.deposit ≤ s.ticketsOf agreement.depositor := by
  have hle := FiniteMap.weight_le_weightedSum
    (fun _ other ↦ paidBy other.depositor other.deposit agreement.depositor) h
  rw [paidBy, if_pos rfl] at hle
  unfold State.ticketsOf State.agreementTickets
  omega

/-! ### Releases -/

section Releases

variable {table table' : AccountId → ℕ} {who : AccountId} {amount : ℕ}
  {before middle after : Funds AccountId}

theorem Releases.trans (h : Releases table before middle) (h' : Releases table' middle after) :
    Releases (fun a ↦ table a + table' a) before after where
  held_add a := by
    have hfirst := h.held_add a
    have hsecond := h'.held_add a
    omega
  free_eq a := by
    rw [h'.free_eq, h.free_eq]
    omega

/-- A ticket that is held is released in full, on the account that paid it. -/
theorem releases_dropTicket (h : dropTicket who amount before = .ok after)
    (hle : amount ≤ held before .storageDeposit who) : Releases (paidBy who amount) before after := by
  have hmin : min amount (held before .storageDeposit who) = amount := Nat.min_eq_left hle
  have hrelease := Ledger.release_bestEffort HoldReason.storageDeposit who amount before
  have hmoves := dropTicket_moves h
  have hfree := Ledger.free_of_release hrelease
  rw [dropTicket, hrelease] at h
  rw [hmin] at hmoves hfree h
  cases h
  refine ⟨fun a ↦ ?_, hfree⟩
  have hheld := hmoves.held_add .storageDeposit a
  simp only [Ledger.amountAt_apply, Pi.zero_apply, true_and, add_zero] at hheld
  exact hheld

/-- The members of a bucket are released with the tickets of their entries. -/
theorem releases_releaseMembers {bucketId : ℕ} {members : List (Member AccountId)}
    {memberBuckets : FiniteMap AccountId (List ℕ)}
    {released : Funds AccountId × FiniteMap AccountId (List ℕ)}
    (h : releaseMembers bucketId members before memberBuckets = .ok released)
    (hle : ∀ a, memberTickets members a ≤ held before .storageDeposit a) :
    Releases (memberTickets members) before released.1 := by
  induction members generalizing before memberBuckets with
  | nil =>
    cases h
    exact ⟨fun _ ↦ rfl, fun _ ↦ rfl⟩
  | cons member rest ih =>
    simp only [releaseMembers, bind_eq_ok] at h
    obtain ⟨dropped, hdropped, hrest⟩ := h
    have hown := hle member.depositor
    simp only [memberTickets, List.map_cons, List.sum_cons, paidBy, if_true] at hown
    have hfirst := releases_dropTicket hdropped (by omega)
    refine hfirst.trans (ih hrest fun a ↦ ?_)
    have hall := hle a
    have hleft := hfirst.held_add a
    simp only [memberTickets, List.map_cons, List.sum_cons] at hall ⊢
    omega

/-- A new ticket is held on the account that pays it. -/
theorem held_newTicket {kind : RecordKind} {ticketed : ℕ × Funds AccountId}
    (h : newTicket cfg who kind before = .ok ticketed) (a : AccountId) :
    held ticketed.2 .storageDeposit a =
      held before .storageDeposit a + paidBy who (cfg.storageDeposit kind) a := by
  have hheld := (newTicket_moves h).2.held_add .storageDeposit a
  simp only [Ledger.amountAt_apply, Pi.zero_apply, true_and, add_zero] at hheld
  exact hheld

end Releases

/-! ### Every call -/

section Calls

variable {who provider member : AccountId} {bucketId : ℕ}

/-- A step that moves no storage deposit and keeps every ticket. -/
theorem TakesTickets.kept (hheld : ∀ a, s'.held .storageDeposit a = s.held .storageDeposit a)
    (hproviders : ∀ who, (s'.providers.lookup who).map ProviderInfo.deposit =
      (s.providers.lookup who).map ProviderInfo.deposit)
    (hbuckets : ∀ id, (s'.buckets.lookup id).map Bucket.tickets =
      (s.buckets.lookup id).map Bucket.tickets)
    (hagreements : ∀ key, (s'.storageAgreements.lookup key).map StorageAgreement.ticket =
      (s.storageAgreements.lookup key).map StorageAgreement.ticket) : TakesTickets s s' := by
  refine ⟨fun _ ↦ 0, hheld, fun a ↦ ?_⟩
  rw [State.ticketsOf, providerTickets_congr hproviders, bucketTickets_congr hbuckets,
    agreementTickets_congr hagreements]
  rfl

/-- Amounts of other reasons move no storage deposit. -/
theorem deposits_of_moves {before after : Funds AccountId} {gain loss : HoldReason → AccountId → ℕ}
    (hmoves : Moves gain loss before after) (hgain : ∀ a, gain .storageDeposit a = 0)
    (hloss : ∀ a, loss .storageDeposit a = 0) (a : AccountId) :
    held after .storageDeposit a = held before .storageDeposit a := by
  have hheld := hmoves.held_add .storageDeposit a
  rw [hgain, hloss] at hheld
  exact hheld

theorem amount_no_deposit {reason : HoldReason} (hreason : .storageDeposit ≠ reason)
    (who : AccountId) (amount : ℕ) (a : AccountId) :
    amountAt reason who amount .storageDeposit a = 0 := by
  rw [Ledger.amountAt_apply, if_neg fun h ↦ hreason h.1]

/-- The removal of a primary keeps the tickets of the bucket. -/
theorem tickets_removePrimary (target : ℕ) (provider : AccountId)
    (buckets : FiniteMap ℕ (Bucket AccountId)) (id : ℕ) :
    ((removePrimaryFromBucket target provider buckets).lookup id).map Bucket.tickets =
      (buckets.lookup id).map Bucket.tickets := by
  unfold removePrimaryFromBucket
  split
  · rfl
  · rename_i bucket hbucket
    split
    · rfl
    · refine FiniteMap.map_lookup_insert hbucket ?_ id
      rfl

/-- A closed agreement releases its ticket. -/
theorem ReleasesTickets.closed {agreement : StorageAgreement AccountId} {before : Funds AccountId}
    {change : ProviderInfo → ProviderInfo} {primary : Bool} {frees : AccountId → ℕ}
    (hs : DepositsExact s)
    (hagreement : s.storageAgreements.lookup (bucketId, provider) = some agreement)
    (hbefore : ∀ a, held before .storageDeposit a = s.held .storageDeposit a)
    (hfrees : ∀ a, free before a = free s.ledger a + frees a)
    (hdrop : dropTicket agreement.depositor agreement.deposit before = .ok s'.ledger)
    (hchange : ∀ info, (change info).deposit = info.deposit)
    (hproviders : s'.providers = FiniteMap.modify provider change s.providers)
    (hbuckets : s'.buckets =
      if primary then removePrimaryFromBucket bucketId provider s.buckets else s.buckets)
    (hagreements : s'.storageAgreements = s.storageAgreements.erase (bucketId, provider)) :
    ReleasesTickets frees s s' := by
  have hle : agreement.deposit ≤ held before .storageDeposit agreement.depositor := by
    rw [hbefore, hs]
    exact agreement_ticket_le hagreement
  have hreleases := releases_dropTicket hdrop hle
  refine ⟨paidBy agreement.depositor agreement.deposit, fun a ↦ ?_, fun a ↦ ?_, fun a ↦ ?_⟩
  · have herase := FiniteMap.weightedSum_erase
      (fun _ other ↦ paidBy other.depositor other.deposit a) hagreement
    have hkept : ∀ id, (s'.buckets.lookup id).map Bucket.tickets =
        (s.buckets.lookup id).map Bucket.tickets := by
      intro id
      rw [hbuckets]
      split_ifs
      · exact tickets_removePrimary bucketId provider s.buckets id
      · rfl
    have hsame : ∀ who, (s'.providers.lookup who).map ProviderInfo.deposit =
        (s.providers.lookup who).map ProviderInfo.deposit := by
      intro who
      rw [hproviders]
      exact FiniteMap.map_lookup_modify hchange s.providers provider who
    rw [State.ticketsOf, State.ticketsOf, providerTickets_congr hsame, bucketTickets_congr hkept]
    unfold State.agreementTickets
    rw [hagreements]
    omega
  · rw [← hbefore]
    exact hreleases.held_add a
  · rw [hreleases.free_eq, hfrees]
    omega

/-- A provider that leaves takes its ticket with it. -/
theorem releases_completeDeregister (hs : DepositsExact s) (h : completeDeregister who s = .ok s') :
    ReleasesTickets (Call.completeDeregister.frees cfg s who) s s' := by
  simp only [completeDeregister, bind_eq_ok, pure_eq_ok, fetch_eq_ok] at h
  obtain ⟨info, hinfo, deregisterAt, -, -, -, -, -, -, -, dropped, hdropped, ledger, hledger, rfl⟩ := h
  have hle : info.deposit ≤ held s.ledger .storageDeposit who :=
    (provider_ticket_le hinfo).trans (hs who).ge
  have hreleases := releases_dropTicket hdropped hle
  refine ⟨paidBy who info.deposit, fun a ↦ ?_, fun a ↦ ?_, fun a ↦ ?_⟩
  · have herase := FiniteMap.weightedSum_erase (fun key info ↦ paidBy key info.deposit a) hinfo
    simp only [State.ticketsOf, State.providerTickets, State.bucketTickets, State.agreementTickets]
    omega
  · have hkept := deposits_of_moves (releaseExact_moves hledger) (fun _ ↦ rfl)
      (amount_no_deposit (by decide) who info.stake) a
    have hheld := hreleases.held_add a
    rw [← hkept] at hheld
    exact hheld
  · have hstake := releaseExact_free hledger a
    simp only [hstake, hreleases.free_eq, Call.frees, hinfo, Option.elim_some, paidBy]

/-- A bucket that is deleted releases its ticket and those of its members. -/
theorem releases_deleteBucket (hs : DepositsExact s) (h : deleteBucket who bucketId s = .ok s') :
    ReleasesTickets 0 s s' := by
  simp only [deleteBucket, removeBucketInternal, bind_eq_ok, pure_eq_ok, fetch_eq_ok] at h
  obtain ⟨bucket, hbucket, -, -, -, -, -, -, released, hreleased, ledger, hledger, rfl⟩ := h
  have hle (a : AccountId) : bucket.tickets a ≤ held s.ledger .storageDeposit a :=
    (bucket_tickets_le hbucket a).trans (hs a).ge
  have hmembers := releases_releaseMembers hreleased fun a ↦ by
    have hall := hle a
    unfold Bucket.tickets at hall
    omega
  have hcreator : bucket.deposit ≤ held released.1 .storageDeposit bucket.creator := by
    have hall := hle bucket.creator
    have hleft := hmembers.held_add bucket.creator
    simp only [Bucket.tickets, paidBy, if_true] at hall
    omega
  have hreleases := hmembers.trans (releases_dropTicket hledger hcreator)
  refine ⟨_, fun a ↦ ?_, hreleases.held_add, hreleases.free_eq⟩
  have herase := FiniteMap.weightedSum_erase (fun _ bucket ↦ bucket.tickets a) hbucket
  simp only [Bucket.tickets] at herase
  simp only [State.ticketsOf, State.providerTickets, State.bucketTickets, State.agreementTickets,
    Bucket.tickets]
  omega

/-- A member that is removed releases the ticket of its entry. -/
theorem releases_removeMember (hs : DepositsExact s)
    (h : removeMember who bucketId member s = .ok s') : ReleasesTickets 0 s s' := by
  simp only [removeMember, bind_eq_ok, pure_eq_ok, fetch_eq_ok] at h
  obtain ⟨bucket, hbucket, -, -, place, -, -, -, removed, hremoved, ledger, hledger, rfl⟩ := h
  have hsplit (a : AccountId) : memberTickets bucket.members a =
      paidBy removed.depositor removed.deposit a + memberTickets (bucket.members.eraseIdx place) a := by
    obtain ⟨hplace, rfl⟩ := List.getElem?_eq_some_iff.mp hremoved
    have hperm := List.getElem_cons_eraseIdx_perm hplace
    unfold memberTickets
    rw [← (hperm.map _).sum_eq, List.map_cons, List.sum_cons]
  have hle : removed.deposit ≤ held s.ledger .storageDeposit removed.depositor := by
    have hall := bucket_tickets_le hbucket removed.depositor
    rw [Bucket.tickets, hsplit, paidBy, paidBy, if_pos rfl] at hall
    have hheld := hs removed.depositor
    unfold State.held at hheld
    omega
  have hreleases := releases_dropTicket hledger hle
  refine ⟨_, fun a ↦ ?_, hreleases.held_add, hreleases.free_eq⟩
  have hexchange := FiniteMap.weightedSum_insert_old (fun _ bucket ↦ bucket.tickets a) hbucket
    { bucket with members := bucket.members.eraseIdx place }
  simp only [Bucket.tickets, hsplit] at hexchange
  simp only [State.ticketsOf, State.providerTickets, State.bucketTickets, State.agreementTickets,
    Bucket.tickets]
  omega

/-- A settled agreement releases its ticket. -/
theorem releases_finalizeAgreement {agreement : StorageAgreement AccountId} {action : EndAction}
    {isEarly : Bool} (hs : DepositsExact s)
    (hagreement : s.storageAgreements.lookup (bucketId, provider) = some agreement)
    (h : finalizeAgreement cfg bucketId provider agreement action isEarly s = .ok s') :
    ReleasesTickets (agreement.frees cfg provider action) s s' := by
  simp only [finalizeAgreement, bind_eq_ok, pure_eq_ok] at h
  obtain ⟨paid, hpaid, burned, hburned, released, hreleased, ledger, hledger, rfl⟩ := h
  refine .closed hs hagreement (fun a ↦ ?_) (fun a ↦ ?_) hledger (fun _ ↦ ?_) rfl rfl rfl
  · have hheld := (((settlePayment_moves hpaid).trans (settlePayment_moves hburned)).trans
      (releaseSyncBalance_moves hreleased)).held_add .storageDeposit a
    simp only [Ledger.amountAt_apply, Pi.add_apply, Pi.zero_apply, reduceCtorEq, false_and, if_false,
      add_zero] at hheld
    exact hheld
  · rw [releaseSyncBalance_free hreleased, settlePayment_free hburned, settlePayment_free hpaid]
    simp only [StorageAgreement.frees, paidBy, add_assoc]
  · rfl

/-- The agreement of a slashed provider releases its ticket. -/
theorem releases_removeSlashed (hs : DepositsExact s)
    (h : removeSlashed bucketId provider s = .ok s') :
    ReleasesTickets ((Call.removeSlashed bucketId provider).frees cfg s who) s s' := by
  simp only [removeSlashed, bind_eq_ok, pure_eq_ok, fetch_eq_ok] at h
  obtain ⟨info, -, -, -, -, -, agreement, hagreement, released, hreleased, ledger, hledger, rfl⟩ := h
  refine .closed hs hagreement (fun a ↦ ?_) (fun a ↦ ?_) hledger (fun _ ↦ ?_) rfl rfl rfl
  · exact deposits_of_moves (releaseExact_moves hreleased) (fun _ ↦ rfl)
      (amount_no_deposit (by decide) agreement.owner agreement.escrow) a
  · rw [releaseExact_free hreleased]
    simp only [Call.frees, hagreement, Option.elim_some, paidBy]
  · rfl

/-- The calls that remove records release their tickets. -/
theorem releases_of_dispatchSigned {call : Call AccountId} (hs : DepositsExact s)
    (hremoves : call.removesRecords = true) (h : dispatchSigned cfg who call s = .ok s') :
    ReleasesTickets (call.frees cfg s who) s s' := by
  cases call with
  | completeDeregister => exact releases_completeDeregister hs h
  | deleteBucket target => exact releases_deleteBucket hs h
  | removeMember target member => exact releases_removeMember hs h
  | removeSlashed target provider => exact releases_removeSlashed hs h
  | endAgreement target provider action =>
    obtain ⟨agreement, isEarly, hagreement, -, hfinalize⟩ := endAgreement_ok h
    have hreleases := releases_finalizeAgreement hs hagreement hfinalize
    simp only [Call.frees, hagreement, Option.elim_some]
    exact hreleases
  | claimExpiredAgreement target =>
    obtain ⟨agreement, hagreement, -, hfinalize⟩ := claimExpiredAgreement_ok h
    have hreleases := releases_finalizeAgreement hs hagreement hfinalize
    simp only [Call.frees, hagreement, Option.elim_some]
    exact hreleases
  | _ => cases hremoves

/-! ### Records that are written -/

theorem TakesTickets.trans {s₁ : State AccountId} (h : TakesTickets s s₁) (h' : TakesTickets s₁ s') :
    TakesTickets s s' := by
  obtain ⟨taken, hheld, htickets⟩ := h
  obtain ⟨taken', hheld', htickets'⟩ := h'
  refine ⟨fun a ↦ taken a + taken' a, fun a ↦ ?_, fun a ↦ ?_⟩
  · rw [hheld', hheld, add_assoc]
  · rw [htickets', htickets, add_assoc]

theorem takes_registerProviderInternal {multiaddr publicKey : Bytes} {stake : ℕ}
    {settings : ProviderSettings}
    (h : registerProviderInternal cfg who multiaddr publicKey stake settings s = .ok s') :
    TakesTickets s s' := by
  obtain ⟨ledger, info, hnew, -, -, hmoves, hinfo, rfl⟩ := registerProviderInternal_ok h
  refine ⟨paidBy who (cfg.storageDeposit .provider), fun a ↦ ?_, fun a ↦ ?_⟩
  · have hheld := hmoves.held_add .storageDeposit a
    simp only [Ledger.amountAt_apply, Pi.add_apply, Pi.zero_apply, reduceCtorEq, false_and, if_false,
      true_and, zero_add, add_zero] at hheld
    exact hheld
  · have hinsert := FiniteMap.weightedSum_insert_new
      (fun key info ↦ paidBy key info.deposit a) hnew info
    have hdeposit : info.deposit = cfg.storageDeposit .provider := by rw [hinfo]
    rw [hdeposit] at hinsert
    simp only [State.ticketsOf, State.providerTickets, State.bucketTickets, State.agreementTickets]
    omega

theorem takes_createBucketInternal {admin : AccountId} {minProviders : ℕ}
    {initialPrimary : Option AccountId} {visibility : Visibility} {created : ℕ × State AccountId}
    (hfree : s.buckets.lookup s.nextBucketId = none)
    (h : createBucketInternal cfg admin minProviders initialPrimary visibility s = .ok created) :
    TakesTickets s created.2 := by
  obtain ⟨ledger, bucket, -, hmoves, hbucket, hs'⟩ := createBucketInternal_ok h
  rw [hs']
  refine ⟨bucket.tickets, fun a ↦ ?_, fun a ↦ ?_⟩
  · have hheld := hmoves.held_add .storageDeposit a
    simp only [Ledger.amountAt_apply, Pi.add_apply, Pi.zero_apply, true_and, add_zero] at hheld
    simp only [hbucket, Bucket.tickets, memberTickets, paidBy, List.map_cons, List.map_nil,
      List.sum_cons, List.sum_nil, State.held]
    omega
  · have hinsert := FiniteMap.weightedSum_insert_new (fun _ bucket ↦ bucket.tickets a) hfree bucket
    simp only [State.ticketsOf, State.providerTickets, State.bucketTickets, State.agreementTickets]
    omega

/-- A change of role keeps the tickets of member entries. -/
private theorem memberTickets_modify (members : List (Member AccountId)) (place : ℕ) (role : Role)
    (a : AccountId) :
    memberTickets (members.modify place fun m ↦ { m with role := role }) a =
      memberTickets members a := by
  unfold memberTickets
  refine congrArg List.sum (List.ext_getElem? fun i ↦ ?_)
  rw [List.getElem?_map, List.getElem?_modify, List.getElem?_map]
  cases members[i]? with
  | none => rfl
  | some member =>
    simp only [Option.map_eq_map, Option.map_some]
    split_ifs
    · rfl
    · rfl

/-- A member that is added pays the ticket of its entry; a change of role keeps all. -/
theorem takes_setMember {role : Role} (h : setMember cfg who bucketId member role s = .ok s') :
    TakesTickets s s' := by
  simp only [setMember, bind_eq_ok, fetch_eq_ok] at h
  obtain ⟨bucket, hbucket, -, -, h⟩ := h
  split at h
  · next place isAdmin adminCount hlocated =>
    simp only [bind_eq_ok, pure_eq_ok] at h
    obtain ⟨-, -, rfl⟩ := h
    refine .kept (fun _ ↦ rfl) (fun _ ↦ rfl) (fun id ↦ ?_) fun _ ↦ rfl
    refine FiniteMap.map_lookup_insert hbucket ?_ id
    funext a
    simp only [Bucket.tickets, memberTickets_modify]
  · next isAdmin adminCount hlocated =>
    simp only [bind_eq_ok, pure_eq_ok] at h
    obtain ⟨ticketed, hticket, -, -, -, -, rfl⟩ := h
    have hamount := (newTicket_moves hticket).1
    refine ⟨paidBy who (cfg.storageDeposit .member), held_newTicket hticket, fun a ↦ ?_⟩
    have hexchange := FiniteMap.weightedSum_insert_old (fun _ bucket ↦ bucket.tickets a) hbucket
      { bucket with members := bucket.members ++ [⟨member, role, who, ticketed.1⟩] }
    simp only [Bucket.tickets, memberTickets, List.map_append, List.sum_append, List.map_cons,
      List.map_nil, List.sum_cons, List.sum_nil, hamount] at hexchange
    simp only [State.ticketsOf, State.providerTickets, State.bucketTickets, State.agreementTickets,
      Bucket.tickets, memberTickets, hamount]
    omega

/-! ### Agreements that are opened -/

section Openings

variable {owner admin : AccountId} {terms : AgreementTerms AccountId} {signature : MultiSignature}
  {target : BucketTarget} {kind : QuoteKind} {accepted : AcceptedQuote} {s₁ : State AccountId}

/-- An accepted quote holds a payment, and writes no record. -/
private theorem takes_acceptQuote
    (h : acceptQuote cfg owner provider terms signature target kind s = .ok (accepted, s₁)) :
    TakesTickets s s₁ ∧ ensureTargetFree provider target s = .ok () ∧
      s₁.buckets = s.buckets ∧ s₁.storageAgreements = s.storageAgreements ∧
        s₁.nextBucketId = s.nextBucketId := by
  simp only [acceptQuote, bind_eq_ok, pure_eq_ok, Prod.mk.injEq] at h
  obtain ⟨anchorBlock, -, done, hfree, quoted, -, info, -, -, -, -, -, -, -, -, -, newCommitted, -,
    payment, -, totalHold, -, ledger, hhold, -, rfl⟩ := h
  refine ⟨?_, hfree, rfl, rfl, rfl⟩
  exact .kept (deposits_of_moves (holdPayment_moves hhold)
    (amount_no_deposit (by decide) owner totalHold) fun _ ↦ rfl) (fun _ ↦ rfl) (fun _ ↦ rfl)
      fun _ ↦ rfl

/-- The owner of a new agreement pays its ticket. -/
private theorem takes_insertAgreement {stored : ℕ × State AccountId}
    (hfree : s.storageAgreements.lookup (bucketId, provider) = none)
    (h : insertAgreement cfg bucketId owner provider terms accepted s = .ok stored) :
    TakesTickets s stored.2 := by
  simp only [insertAgreement, bind_eq_ok, pure_eq_ok] at h
  obtain ⟨ticketed, hticket, rfl⟩ := h
  have hamount := (newTicket_moves hticket).1
  refine ⟨paidBy owner (cfg.storageDeposit .agreement), held_newTicket hticket, fun a ↦ ?_⟩
  rw [← hamount]
  have hsame (info : ProviderInfo) : ({ info with
      committedBytes := accepted.newCommitted
      stats := info.stats.agreementOpened terms.maxBytes } : ProviderInfo).deposit = info.deposit := rfl
  simp only [State.ticketsOf]
  rw [providerTickets_congr fun who ↦ FiniteMap.map_lookup_modify hsame s.providers provider who]
  simp only [State.bucketTickets, State.agreementTickets]
  rw [FiniteMap.weightedSum_insert_new _ hfree]
  dsimp only
  omega

private theorem takes_insertPrimaryAgreement
    (hfree : s.storageAgreements.lookup (bucketId, provider) = none)
    (h : insertPrimaryAgreement cfg bucketId owner provider terms accepted s = .ok s') :
    TakesTickets s s' := by
  simp only [insertPrimaryAgreement, bind_eq_ok, pure_eq_ok] at h
  obtain ⟨stored, hstored, rfl⟩ := h
  exact takes_insertAgreement hfree hstored

/-- An existing bucket that is free for a provider has no agreement with it. -/
private theorem lookup_of_ensureTargetFree
    (h : ensureTargetFree provider (.existing bucketId) s = .ok ()) :
    s.storageAgreements.lookup (bucketId, provider) = none := by
  simp only [ensureTargetFree, bind_eq_ok, check_eq_ok] at h
  obtain ⟨-, -, hfree⟩ := h
  simpa using hfree

private theorem takes_createBucketWithPrimary {visibility : Visibility} (hs : BucketsIndexed s)
    (hfree : s.buckets.lookup s.nextBucketId = none)
    (h : createBucketWithPrimary cfg owner provider terms signature visibility s = .ok s') :
    TakesTickets s s' := by
  simp only [createBucketWithPrimary, bind_eq_ok] at h
  obtain ⟨⟨accepted, s₁⟩, haccept, ⟨bucketId, s₂⟩, hcreate, hinsert⟩ := h
  obtain ⟨htakes, -, hbuckets, hagreements, hnext⟩ := takes_acceptQuote haccept
  have hnew : s₁.buckets.lookup s₁.nextBucketId = none := by rwa [hbuckets, hnext]
  have hcreated := takes_createBucketInternal hnew hcreate
  obtain ⟨ledger, bucket, hid, -, -, hs₂⟩ := createBucketInternal_ok hcreate
  refine (htakes.trans hcreated).trans (takes_insertPrimaryAgreement ?_ hinsert)
  have hkey := hs.lookup_eq_none hfree provider
  simp only at hid hs₂
  rw [hs₂, hid, hnext]
  simp only [hagreements]
  exact hkey

private theorem takes_addPrimaryProvider
    (h : addPrimaryProvider cfg admin bucketId provider terms signature s = .ok s') :
    TakesTickets s s' := by
  simp only [addPrimaryProvider, bind_eq_ok, fetch_eq_ok] at h
  obtain ⟨bucket, hbucket, -, -, -, -, ⟨accepted, s₁⟩, haccept, hinsert⟩ := h
  obtain ⟨htakes, htarget, hbuckets, hagreements, -⟩ := takes_acceptQuote haccept
  have hfree := lookup_of_ensureTargetFree htarget
  have hextended : TakesTickets s₁ { s₁ with
      buckets := s₁.buckets.insert bucketId
        { bucket with
          primaryProviders := bucket.primaryProviders ++ [provider]
          snapshot := bucket.snapshot.map BucketSnapshot.pushUnset } } := by
    have hold : s₁.buckets.lookup bucketId = some bucket := by
      rw [hbuckets]
      exact hbucket
    refine .kept (fun _ ↦ rfl) (fun _ ↦ rfl) (fun id ↦ ?_) fun _ ↦ rfl
    refine FiniteMap.map_lookup_insert hold ?_ id
    rfl
  refine (htakes.trans hextended).trans (takes_insertPrimaryAgreement ?_ hinsert)
  simp only [hagreements]
  exact hfree

private theorem takes_addReplicaProvider
    (h : addReplicaProvider cfg owner bucketId provider terms signature s = .ok s') :
    TakesTickets s s' := by
  simp only [addReplicaProvider, bind_eq_ok, pure_eq_ok] at h
  obtain ⟨⟨accepted, s₁⟩, haccept, ⟨expiresAt, s₂⟩, hinsert, rfl⟩ := h
  obtain ⟨htakes, htarget, -, hagreements, -⟩ := takes_acceptQuote haccept
  have hfree := lookup_of_ensureTargetFree htarget
  refine htakes.trans (takes_insertAgreement ?_ hinsert)
  rw [hagreements]
  exact hfree

end Openings

/-! ### Every other call -/

/-- A provider record that is written with the ticket it had. -/
private theorem takes_providerChanged {old new : ProviderInfo} {ledger : Funds AccountId}
    {events : List (Event AccountId)}
    (hheld : ∀ a, held ledger .storageDeposit a = held s.ledger .storageDeposit a)
    (hold : s.providers.lookup who = some old) (hdeposit : new.deposit = old.deposit) :
    TakesTickets s
      { s with ledger := ledger, providers := s.providers.insert who new, events := events } :=
  .kept hheld (FiniteMap.map_lookup_insert hold hdeposit) (fun _ ↦ rfl) fun _ ↦ rfl

/-- A bucket that is written with the tickets it had. -/
private theorem takes_bucketChanged {old new : Bucket AccountId} {events : List (Event AccountId)}
    (hold : s.buckets.lookup bucketId = some old) (hcreator : new.creator = old.creator)
    (hdeposit : new.deposit = old.deposit) (hmembers : new.members = old.members) :
    TakesTickets s { s with buckets := s.buckets.insert bucketId new, events := events } := by
  refine .kept (fun _ ↦ rfl) (fun _ ↦ rfl) (fun id ↦ ?_) fun _ ↦ rfl
  refine FiniteMap.map_lookup_insert hold ?_ id
  funext a
  rw [Bucket.tickets, Bucket.tickets, hcreator, hdeposit, hmembers]

/-- A challenge that is opened holds a deposit of another kind. -/
private theorem takes_createChallenge {challenger : AccountId} {bucket : Bucket AccountId}
    {role : ProviderRole} {commitment : Commitment} {location : ChunkLocation}
    {challengeId : ChallengeId}
    (h : createChallenge cfg challenger bucketId bucket provider role commitment location s =
      .ok (challengeId, s')) : TakesTickets s s' := by
  obtain ⟨ledger, challenge, -, -, -, -, -, hmoves, -, rfl⟩ := createChallenge_ok h
  exact .kept (deposits_of_moves hmoves (amount_no_deposit (by decide) _ _) fun _ ↦ rfl)
    (fun _ ↦ rfl) (fun _ ↦ rfl) fun _ ↦ rfl

/-- The slash of a provider takes its stake, and leaves its record its ticket. -/
private theorem takes_slashProvider (challenge : Challenge AccountId) (challengeId : ChallengeId)
    (s : State AccountId) :
    TakesTickets s (slashProviderForFailedChallenge cfg challenge challengeId s) := by
  cases hinfo : s.providers.lookup challenge.provider with
  | none =>
    rw [slashProvider_of_none cfg challengeId hinfo]
    exact .kept (fun _ ↦ rfl) (fun _ ↦ rfl) (fun _ ↦ rfl) fun _ ↦ rfl
  | some info =>
    obtain ⟨ledger, slashed, -, hheld, -, -, hs'⟩ := slashProvider_of_some cfg challengeId hinfo
    rw [hs']
    refine .kept (fun a ↦ ?_) (FiniteMap.map_lookup_insert hinfo rfl) (fun _ ↦ rfl) fun _ ↦ rfl
    have hafter := hheld .storageDeposit a
    rw [amount_no_deposit (by decide), amount_no_deposit (by decide)] at hafter
    exact hafter

theorem takes_resolveExpiredChallenge {challengeId : ChallengeId}
    (h : resolveExpiredChallenge cfg challengeId s = .ok s') : TakesTickets s s' := by
  obtain ⟨challenge, -, -, rfl⟩ := resolveExpiredChallenge_ok h
  refine TakesTickets.trans ?_ (takes_slashProvider challenge challengeId _)
  exact .kept (fun _ ↦ rfl) (fun _ ↦ rfl) (fun _ ↦ rfl) fun _ ↦ rfl

/-- Every other call takes the tickets of the records it writes. -/
theorem takes_of_dispatchSigned {call : Call AccountId} (hs : BucketsIndexed s)
    (hkeeps : call.removesRecords = false)
    (hfree : call.createsBucket = true → s.buckets.lookup s.nextBucketId = none)
    (h : dispatchSigned cfg who call s = .ok s') : TakesTickets s s' := by
  cases call with
  | registerProvider multiaddr publicKey stake => exact takes_registerProviderInternal h
  | addStake amount =>
    obtain ⟨old, ledger, hold, hmoves, rfl⟩ := addStake_ok h
    exact takes_providerChanged
      (deposits_of_moves hmoves (amount_no_deposit (by decide) who amount) fun _ ↦ rfl) hold rfl
  | deregisterProvider =>
    obtain ⟨old, completeAfter, hold, -, -, -, rfl⟩ := deregisterProvider_ok h
    exact takes_providerChanged (fun _ ↦ rfl) hold rfl
  | cancelDeregister =>
    obtain ⟨old, hold, -, rfl⟩ := cancelDeregister_ok h
    exact takes_providerChanged (fun _ ↦ rfl) hold rfl
  | updateProviderSettings settings =>
    obtain ⟨old, hold, -, -, rfl⟩ := updateProviderSettings_ok h
    exact takes_providerChanged (fun _ ↦ rfl) hold rfl
  | updateProviderMultiaddr multiaddr =>
    obtain ⟨old, hold, rfl⟩ := updateProviderMultiaddr_ok h
    exact takes_providerChanged (fun _ ↦ rfl) hold rfl
  | setExtensionsBlocked target blocked =>
    obtain ⟨old, hold, -, rfl⟩ := setExtensionsBlocked_ok h
    exact .kept (fun _ ↦ rfl) (fun _ ↦ rfl) (fun _ ↦ rfl) (FiniteMap.map_lookup_insert hold rfl)
  | createBucket minProviders visibility =>
    exact takes_createBucketInternal (hfree rfl) (createBucket_ok h)
  | createBucketWithPrimary provider terms signature visibility =>
    exact takes_createBucketWithPrimary hs (hfree rfl) h
  | addPrimaryProvider target provider terms signature => exact takes_addPrimaryProvider h
  | addReplicaProvider target provider terms signature => exact takes_addReplicaProvider h
  | setMinProviders target minProviders =>
    obtain ⟨old, hold, rfl⟩ := setMinProviders_ok h
    exact takes_bucketChanged hold rfl rfl rfl
  | freezeBucket target =>
    obtain ⟨old, snapshot, hold, -, -, rfl⟩ := freezeBucket_ok h
    exact takes_bucketChanged hold rfl rfl rfl
  | setBucketVisibility target visibility =>
    obtain ⟨old, hold, rfl⟩ := setBucketVisibility_ok h
    exact takes_bucketChanged hold rfl rfl rfl
  | setMember target member role => exact takes_setMember h
  | topUpAgreement target provider additionalBytes maxPayment =>
    obtain ⟨info, old, payment, ledger, -, -, hold, -, -, hmoves, -, rfl⟩ := topUpAgreement_ok h
    exact .kept (deposits_of_moves hmoves (amount_no_deposit (by decide) _ _) fun _ ↦ rfl)
      (FiniteMap.map_lookup_modify (fun _ ↦ by rfl) s.providers provider) (fun _ ↦ rfl)
      (FiniteMap.map_lookup_insert hold rfl)
  | transferAgreementOwnership target provider newOwner =>
    obtain ⟨old, ledger, -, hold, -, hmoves, rfl⟩ := transferAgreementOwnership_ok h
    exact .kept (deposits_of_moves hmoves (amount_no_deposit (by decide) _ _)
      (amount_no_deposit (by decide) _ _)) (fun _ ↦ rfl) (fun _ ↦ rfl)
      (FiniteMap.map_lookup_insert hold rfl)
  | extendAgreement target provider additionalDuration maxPayment =>
    obtain ⟨info, old, earned, payment, ledger, role, -, -, hold, -, -, hmoves, -, rfl⟩ :=
      extendAgreement_ok h
    exact .kept (deposits_of_moves hmoves (amount_no_deposit (by decide) _ _)
      (amount_no_deposit (by decide) _ _))
      (FiniteMap.map_lookup_modify (fun _ ↦ by rfl) s.providers provider) (fun _ ↦ rfl)
      (FiniteMap.map_lookup_insert hold rfl)
  | checkpoint target commitment signatures =>
    obtain ⟨old, signed, hold, -, -, -, rfl⟩ := checkpoint_ok h
    exact takes_bucketChanged hold rfl rfl rfl
  | extendCheckpoint target signatures =>
    obtain ⟨old, snapshot, signed, hold, -, -, rfl⟩ := extendCheckpoint_ok h
    exact takes_bucketChanged hold rfl rfl rfl
  | challengeCheckpoint target provider location =>
    obtain ⟨bucket, snapshot, index, agreement, challengeId, -, -, -, -, -, -, hcreate⟩ :=
      challengeCheckpoint_ok h
    exact takes_createChallenge hcreate
  | challengeOffchain target provider commitment location signature =>
    obtain ⟨bucket, agreement, challengeId, -, -, -, -, hcreate⟩ := challengeOffchain_ok h
    exact takes_createChallenge hcreate
  | challengeReplica target provider location =>
    obtain ⟨bucket, agreement, commitment, challengeId, -, -, -, -, hcreate⟩ := challengeReplica_ok h
    exact takes_createChallenge hcreate
  | respondToChallenge challengeId response =>
    obtain ⟨challenge, bucket, ledger, paid, -, -, -, -, -, -, hmoves, -, rfl⟩ :=
      respondToChallenge_ok h
    exact .kept (deposits_of_moves hmoves (fun _ ↦ rfl) (amount_no_deposit (by decide) _ _))
      (FiniteMap.map_lookup_modify (fun _ ↦ by rfl) s.providers who) (fun _ ↦ rfl) fun _ ↦ rfl
  | resolveExpiredChallenge challengeId => exact takes_resolveExpiredChallenge h
  | confirmReplicaSync target roots signature =>
    obtain ⟨bucket, old, ledger, syncBalance, syncPrice, minSyncInterval, lastSync, matched, -, hold,
      -, -, -, -, hmoves, rfl⟩ := confirmReplicaSync_ok h
    exact .kept (deposits_of_moves hmoves (fun _ ↦ rfl) (amount_no_deposit (by decide) _ _))
      (FiniteMap.map_lookup_modify (fun _ ↦ by rfl) s.providers who) (fun _ ↦ rfl)
      (FiniteMap.map_lookup_insert hold rfl)
  | topUpReplicaSyncBalance target provider amount =>
    obtain ⟨old, ledger, syncBalance, syncPrice, minSyncInterval, lastSync, hold, hmoves, -, rfl⟩ :=
      topUpReplicaSyncBalance_ok h
    exact .kept (deposits_of_moves hmoves (amount_no_deposit (by decide) _ _) fun _ ↦ rfl)
      (fun _ ↦ rfl) (fun _ ↦ rfl) (FiniteMap.map_lookup_insert hold rfl)
  | completeDeregister => cases hkeeps
  | deleteBucket target => cases hkeeps
  | removeMember target member => cases hkeeps
  | removeSlashed target provider => cases hkeeps
  | endAgreement target provider action => cases hkeeps
  | claimExpiredAgreement target => cases hkeeps

end Calls

/-! ### Steps -/

/-- The inputs that ask for records to be removed. -/
def Input.removesRecords : Input AccountId → Bool
  | .call _ called => called.removesRecords
  | _ => false

/-- Every accepted call that removes records releases their tickets, each on the account that paid it,
and every other step takes the tickets of the records it writes. -/
structure TicketsFollow (cfg : Config AccountId) (s : State AccountId) : Prop where
  releases : ∀ who call, call.removesRecords = true → accepted cfg s (.signed who) call = true →
    ReleasesTickets (call.frees cfg s who) s (step cfg s (.call (.signed who) call))
  takes : ∀ input, input.removesRecords = false → CreatesAtFreeId cfg s input →
    TakesTickets s (step cfg s input)

/-- A step that moves no hold and writes no record. -/
private theorem takes_nothing (hledger : ∀ a, s'.held .storageDeposit a = s.held .storageDeposit a)
    (hproviders : s'.providers = s.providers) (hbuckets : s'.buckets = s.buckets)
    (hagreements : s'.storageAgreements = s.storageAgreements) : TakesTickets s s' :=
  .kept hledger (fun _ ↦ by rw [hproviders]) (fun _ ↦ by rw [hbuckets]) fun _ ↦ by rw [hagreements]

private theorem takes_of_refused {origin : Origin AccountId} {call : Call AccountId}
    (h : accepted cfg s origin call = false) :
    TakesTickets s (step cfg s (.call origin call)) := by
  rw [step_of_refused h]
  exact takes_nothing (fun _ ↦ rfl) rfl rfl rfl

private theorem takes_of_call {origin : Origin AccountId} {call : Call AccountId}
    (hindexed : BucketsIndexed s) (hkeeps : call.removesRecords = false)
    (hfree : CreatesAtFreeId cfg s (.call origin call)) :
    TakesTickets s (step cfg s (.call origin call)) := by
  cases haccepted : accepted cfg s origin call with
  | false => exact takes_of_refused haccepted
  | true =>
    have hdispatch := dispatch_of_accepted haccepted
    generalize step cfg s (.call origin call) = s' at hdispatch ⊢
    have htakes : TakesTickets s.withoutEvents s' := by
      unfold dispatch at hdispatch
      split at hdispatch
      · have hs : BucketsIndexed s.withoutEvents := ⟨hindexed.mem_buckets, hindexed.lt_next⟩
        exact takes_of_dispatchSigned hs hkeeps (fun hcreates ↦ hfree hcreates haccepted) hdispatch
      · exact takes_resolveExpiredChallenge hdispatch
      · cases hdispatch
    exact htakes

private theorem takes_of_step (hindexed : BucketsIndexed s) (hkeeps : input.removesRecords = false)
    (hfree : CreatesAtFreeId cfg s input) : TakesTickets s (step cfg s input) := by
  cases input with
  | call origin call => exact takes_of_call hindexed hkeeps hfree
  | advance block =>
    simp only [step]
    split_ifs
    · exact takes_nothing (fun _ ↦ rfl) rfl rfl rfl
    · exact takes_nothing (fun _ ↦ rfl) rfl rfl rfl
  | credit who amount =>
    simp only [step]
    split_ifs
    · exact takes_nothing (fun a ↦ Ledger.held_addFree s.ledger _ who a amount) rfl rfl rfl
    · exact takes_nothing (fun _ ↦ rfl) rfl rfl rfl
  | debit who amount =>
    simp only [step]
    split_ifs
    · exact takes_nothing (fun a ↦ Ledger.held_subFree s.ledger _ who a amount) rfl rfl rfl
    · exact takes_nothing (fun _ ↦ rfl) rfl rfl rfl
  | reap who =>
    simp only [step]
    split_ifs
    · exact takes_nothing (fun _ ↦ rfl) rfl rfl rfl
    · exact takes_nothing (fun _ ↦ rfl) rfl rfl rfl

/-- Where the deposits are exact, the tickets follow the records. -/
theorem DepositsExact.ticketsFollow (hs : DepositsExact s) (hindexed : BucketsIndexed s) :
    TicketsFollow cfg s where
  releases who call hremoves haccepted := by
    have hdispatch := dispatch_of_accepted haccepted
    generalize step cfg s (.call (.signed who) call) = s' at hdispatch ⊢
    have hexact : DepositsExact s.withoutEvents := hs
    have hreleases : ReleasesTickets (call.frees cfg s.withoutEvents who) s.withoutEvents s' :=
      releases_of_dispatchSigned hexact hremoves hdispatch
    exact hreleases
  takes _ hkeeps hfree := takes_of_step hindexed hkeeps hfree

/-- A step that creates no bucket over another keeps the deposits exact. -/
theorem DepositsExact.step (hs : DepositsExact s) (hindexed : BucketsIndexed s)
    (hfree : CreatesAtFreeId cfg s input) : DepositsExact (step cfg s input) := by
  have hfollow : TicketsFollow cfg s := hs.ticketsFollow hindexed
  cases hremoves : input.removesRecords with
  | false => exact (hfollow.takes input hremoves hfree).exact hs
  | true =>
    cases input with
    | call origin call =>
      cases haccepted : accepted cfg s origin call with
      | false => exact (takes_of_refused haccepted).exact hs
      | true =>
        cases origin with
        | signed who => exact (hfollow.releases who call hremoves haccepted).exact hs
        | root =>
          -- root may only resolve challenges, and that removes no record with a ticket
          have hdispatch := dispatch_of_accepted haccepted
          unfold dispatch at hdispatch
          split at hdispatch
          · contradiction
          · cases hremoves
          · cases hdispatch
        | none => cases dispatch_of_accepted haccepted
    | advance | credit | debit | reap => cases hremoves

/-! ### Whole runs -/

private theorem exact_registerGenesisProviders {providers : List (GenesisProvider AccountId)}
    (hs : DepositsExact s) (h : registerGenesisProviders cfg providers s = .ok s') :
    DepositsExact s' ∧ s'.buckets = s.buckets ∧ s'.nextBucketId = s.nextBucketId := by
  induction providers generalizing s with
  | nil =>
    cases h
    exact ⟨hs, rfl, rfl⟩
  | cons p rest ih =>
    simp only [registerGenesisProviders, bind_eq_ok] at h
    obtain ⟨registered, hregistered, hrest⟩ := h
    obtain ⟨hexact, hbuckets, hnext⟩ :=
      ih ((takes_registerProviderInternal hregistered).exact hs) hrest
    obtain ⟨ledger, info, -, -, -, -, -, rfl⟩ := registerProviderInternal_ok hregistered
    exact ⟨hexact, hbuckets, hnext⟩

/-- The buckets of genesis get ids one after the other, all of them new. -/
private theorem exact_createGenesisBuckets {buckets : List (AccountId × ℕ)} (hs : DepositsExact s)
    (hbelow : buckets ≠ [] → ∀ id ∈ s.buckets, id < s.nextBucketId)
    (hcount : s.nextBucketId + buckets.length ≤ u64Max + 1)
    (h : createGenesisBuckets cfg buckets s = .ok s') : DepositsExact s' := by
  induction buckets generalizing s with
  | nil =>
    cases h
    exact hs
  | cons entry rest ih =>
    simp only [createGenesisBuckets, bind_eq_ok] at h
    obtain ⟨created, hcreated, hrest⟩ := h
    have hids := hbelow (List.cons_ne_nil entry rest)
    rw [List.length_cons] at hcount
    have hfree : s.buckets.lookup s.nextBucketId = none := by
      rw [Finmap.lookup_eq_none]
      exact fun hmem ↦ absurd (hids _ hmem) (lt_irrefl _)
    have hexact := (takes_createBucketInternal hfree hcreated).exact hs
    obtain ⟨ledger, bucket, -, -, -, hs'⟩ := createBucketInternal_ok hcreated
    refine ih hexact (fun hmore id hid ↦ ?_) ?_ hrest
    · -- another bucket follows, so the counter has not reached its end
      have hlength := List.length_pos_iff.mpr hmore
      rw [hs'] at hid ⊢
      simp only [Finmap.mem_insert, saturatingAdd] at hid ⊢
      rcases hid with rfl | hid
      · omega
      · have hlt := hids id hid
        omega
    · rw [hs']
      simp only [saturatingAdd]
      omega

private theorem Genesis.depositsExact (genesis : Genesis cfg)
    (hcount : genesis.buckets.length ≤ 2 ^ 64) : DepositsExact genesis.state := by
  have hbuilt := genesis.built
  simp only [buildGenesis, bind_eq_ok] at hbuilt
  obtain ⟨registered, hproviders, hbuckets⟩ := hbuilt
  have hempty : DepositsExact (emptyState genesis.ledger) :=
    fun a ↦ genesis.unheld .storageDeposit a
  obtain ⟨hexact, hnone, hzero⟩ := exact_registerGenesisProviders hempty hproviders
  refine exact_createGenesisBuckets hexact (fun _ id hid ↦ ?_) ?_ hbuckets
  · rw [hnone] at hid
    exact absurd hid Finmap.notMem_empty
  · rw [hzero]
    simp only [emptyState, u64Max]
    omega

/-- Storage-deposit exactness. Assumes: a genesis with at most 2^64 buckets and a run from it in which
every bucket that is created gets a new id. In its last state, and so in every state on the way, the
deposits held on an account are the tickets it paid for, and the next step releases the tickets of the
records it removes, each once on the account that paid it. -/
theorem storage_deposits_exact (genesis : Genesis cfg) (hcount : genesis.buckets.length ≤ 2 ^ 64)
    (inputs : List (Input AccountId))
    (hinputs : StepsMeet (step cfg) (CreatesAtFreeId cfg) genesis.state inputs) :
    DepositsExact (run (step cfg) genesis.state inputs) ∧
      TicketsFollow cfg (run (step cfg) genesis.state inputs) := by
  have hall : Funded (run (step cfg) genesis.state inputs) ∧
      BucketsIndexed (run (step cfg) genesis.state inputs) ∧
        DepositsExact (run (step cfg) genesis.state inputs) := by
    refine invariant_of_step (fun s ↦ Funded s ∧ BucketsIndexed s ∧ DepositsExact s) ?_
      ⟨genesis.funded, genesis.bucketsIndexed, genesis.depositsExact hcount⟩ hinputs
    rintro s input ⟨hfunded, hindexed, hs⟩ hfree
    have heffect : Effect cfg s input (step cfg s input) := effect_of_step hfunded input
    exact ⟨heffect.funded hfunded, heffect.bucketsIndexed hindexed, hs.step hindexed hfree⟩
  exact ⟨hall.2.2, hall.2.2.ticketsFollow hall.2.1⟩

/-! ### Runs on the mock runtime -/

instance (s : State AccountId) (input : Input AccountId) :
    Decidable (CreatesAtFreeId cfg s input) :=
  match input with
  | .call origin call => inferInstanceAs (Decidable (call.createsBucket = true →
      accepted cfg s origin call = true → s.buckets.lookup s.nextBucketId = none))
  | .advance _ | .credit _ _ | .debit _ _ | .reap _ => inferInstanceAs (Decidable True)

theorem storage_deposits_exact_redeemed :
    DepositsExact (run (step Mock.config) Mock.twoParties.state [Mock.redeemNewBucket 2 0]) ∧
      TicketsFollow Mock.config
        (run (step Mock.config) Mock.twoParties.state [Mock.redeemNewBucket 2 0]) :=
  storage_deposits_exact Mock.twoParties (by decide) [Mock.redeemNewBucket 2 0] (by decide +kernel)

/-- After all ids but the last are used up, two buckets are created: both get the last id. -/
def createLastTwice : List (Input ℕ) :=
  churn 1 u64Max ++ [.call (.signed 1) (.createBucket 1 .publicRead),
    .call (.signed 1) (.createBucket 1 .publicRead)]

/-- The second bucket replaces the first, whose deposits stay on hold. -/
theorem deposit_without_ticket :
    (run (step Mock.config) Mock.twoParties.state createLastTwice).held .storageDeposit 1 = 40 ∧
      (run (step Mock.config) Mock.twoParties.state createLastTwice).ticketsOf 1 = 20 := by
  have hcreated : isOk (createBucket Mock.config 1 1 .publicRead Mock.twoParties.state) = true := by
    decide +kernel
  have hrun : run (step Mock.config) Mock.twoParties.state createLastTwice =
      run (step Mock.config) { Mock.twoParties.state with nextBucketId := u64Max }
        [.call (.signed 1) (.createBucket 1 .publicRead),
          .call (.signed 1) (.createBucket 1 .publicRead)] :=
    run_churn_append rfl rfl rfl rfl rfl rfl rfl
      (Mock.eq_ok_getD_of_isOk Mock.twoParties.state hcreated) _ _ _
  rw [hrun]
  decide +kernel

end Web3Storage.Pallet
