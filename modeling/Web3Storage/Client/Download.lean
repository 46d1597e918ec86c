import Web3Storage.Client.Base
import Web3Storage.Foundations.Fallible
import Web3Storage.Pallet.Mock
import Web3Storage.Primitives.ChunkTree

/-!
# Downloads and spot checks

A client asks a provider for a range of the data under a root. It checks each chunk of the answer
against the hash that came with the chunk, puts the chunks together and cuts the range out. The hash is
the provider's own, and neither the proof nor the root is looked at, so that a result is bound to the root
if the provider refuses or serves the chunks of the tree in their order (`downloads_bound_of_served`).
Machine words have 64 bits.
-/

set_option autoImplicit false
set_option relaxedAutoImplicit false

namespace Web3Storage.Client

open Foundations Primitives

/-- What the client uses of other crates: a hash function, base64, and hashes in hex. -/
structure Codec where
  blake2256 : Bytes → H256
  decodeBase64 : String → Except String Bytes
  parseHash : String → Except String H256

/-- A chunk of an answer, as the texts of its body. -/
structure ChunkWithProof where
  hash : String
  data : String
  proof : List String

/-- What a provider does with a request: no answer, or a status with a body that can be read or not. -/
inductive ReadAnswer where
  | failed (error : String)
  | answered (status : ℕ) (body : Except String (List ChunkWithProof))

/-- A request for a range of the data under a root. -/
structure ReadRequest where
  providerUrl : String
  bucketId : ℕ
  dataRoot : H256
  offset : ℕ
  length : ℕ

/-- A client with its providers and the decryption of its cipher, if it has one. -/
structure StorageUserClient where
  providerUrls : List String
  decrypt : Option (Bytes → Except ClientError Bytes)

/-- Arithmetic on machine words. A result that does not fit panics if the build checks for it and
wraps around otherwise. -/
def word (overflowChecks : Bool) (result : ℕ) : Option ℕ :=
  if result ≤ u64Max then some result
  else if overflowChecks then none else some (result % (u64Max + 1))

/-- The part of some bytes between two places. It panics if the places are out of order or range. -/
def slice (data : Bytes) (start stop : ℕ) : Option Bytes :=
  if start ≤ stop ∧ stop ≤ data.length then some ((data.take stop).drop start) else none

def isSuccess (status : ℕ) : Bool := 200 ≤ status && status < 300

section Download

variable (codec : Codec)

/-- A hash from its text. -/
def parseH256 (hex : String) : Except ClientError H256 :=
  (codec.parseHash hex).mapError fun error ↦ .serialization s!"Invalid H256 hex: {error}"

/-- The bytes of a chunk, which must have the hash that came with them. -/
def verifiedChunk (chunk : ChunkWithProof) : Except ClientError Bytes := do
  let chunkData ← (codec.decodeBase64 chunk.data).mapError .serialization
  let expectedHash ← parseH256 codec chunk.hash
  ensure (hashLeaf codec.blake2256 chunkData = expectedHash) .verificationFailed
  return chunkData

/-- The chunks of an answer, put together. -/
def reassembled : List ChunkWithProof → Except ClientError Bytes
  | [] => .ok []
  | chunk :: rest => do
    let chunkData ← verifiedChunk codec chunk
    let data ← reassembled rest
    return chunkData ++ data

/-- Read the chunks out of what a provider answered. -/
def readAnswer (answer : ReadAnswer) : Except ClientError Bytes :=
  match answer with
  | .failed error => .error (.http error)
  | .answered status body =>
    if isSuccess status then do
      let chunks ← body.mapError .http
      reassembled codec chunks
    else .error (.httpStatus "GET /read" status)

/-- Cut the requested range out of chunks that start at a multiple of the chunk size. -/
def trimmed (overflowChecks : Bool) (data : Bytes) (offset length : ℕ) : Option Bytes := do
  let start := offset % defaultChunkSize
  let stop ← word overflowChecks (start + length)
  if stop ≤ data.length then slice data start stop else slice data start data.length

namespace StorageUserClient

variable (client : StorageUserClient) (overflowChecks : Bool) (provider : ReadRequest → ReadAnswer)

def getProviderUrl : Except ClientError String :=
  require client.providerUrls.head? (.config "No provider URLs configured")

/-- Download a range of the data under a root. -/
def download (bucketId : ℕ) (dataRoot : H256) (offset length : ℕ) : Outcome Bytes :=
  match client.getProviderUrl with
  | .error error => .returns (.error error)
  | .ok providerUrl =>
    match readAnswer codec (provider ⟨providerUrl, bucketId, dataRoot, offset, length⟩) with
    | .error error => .returns (.error error)
    | .ok data =>
      match trimmed overflowChecks data offset length with
      | none => .panics
      | some range =>
        .returns (match client.decrypt with
          | some decrypt => decrypt range
          | none => .ok range)

/-- Download data from its start. -/
def downloadFull (bucketId : ℕ) (dataRoot : H256) (totalSize : ℕ) : Outcome Bytes :=
  client.download codec overflowChecks provider bucketId dataRoot 0 totalSize

/-- Check a provider by one chunk of the data under a root. -/
def spotCheck (bucketId : ℕ) (dataRoot : H256) (chunkIndex : ℕ) : Outcome Bool :=
  match word overflowChecks (defaultChunkSize * chunkIndex) with
  | none => .panics
  | some offset =>
    match client.getProviderUrl with
    | .error error => .returns (.error error)
    | .ok _ =>
      match client.download codec overflowChecks provider bucketId dataRoot offset
        defaultChunkSize with
      | .panics => .panics
      | .returns (.ok data) => .returns (.ok !data.isEmpty)
      | .returns (.error _) => .returns (.ok false)

end StorageUserClient

/-! ### What a result promises -/

/-- The chunk tree of some data has a root. -/
def HasChunkTree (dataRoot : H256) (content : Bytes) : Prop :=
  content ≠ [] ∧ chunkRoot codec.blake2256 (chunksOf defaultChunkSize content) = dataRoot

/-- A download does not panic, and what it returns is the range of the data under a root. -/
def BoundTo (dataRoot : H256) (offset length : ℕ) (outcome : Outcome Bytes) : Prop :=
  outcome ≠ .panics ∧
    ∀ range, outcome = .returns (.ok range) → ∃ content, HasChunkTree codec dataRoot content ∧
      range = (content.drop offset).take length

/-- A chunk of an answer has some bytes and came with their hash. -/
def ChunkWithProof.Carries (chunk : ChunkWithProof) (chunkData : Bytes) : Prop :=
  codec.decodeBase64 chunk.data = .ok chunkData ∧
    codec.parseHash chunk.hash = .ok (hashLeaf codec.blake2256 chunkData)

/-- An answer is a success whose chunks have some bytes together, each chunk with its hash. -/
def ReadAnswer.Delivers (answer : ReadAnswer) (data : Bytes) : Prop :=
  ∃ status chunks, answer = .answered status (.ok chunks) ∧ isSuccess status = true ∧
    ∃ pieces, List.Forall₂ (ChunkWithProof.Carries codec) chunks pieces ∧ pieces.flatten = data

/-! ### What an answer is -/

/-- An answer is refused: it does not come, it is no success, its body cannot be read, or a chunk of it
does not have the hash that came with it. -/
def ReadAnswer.Refused (answer : ReadAnswer) : Prop :=
  ∀ status chunks, answer = .answered status (.ok chunks) → isSuccess status = true →
    ∃ chunk ∈ chunks, ∀ chunkData, ¬ chunk.Carries codec chunkData

/-- An answer serves a range of the data under a root: its chunks are those of the tree in their order,
from that of the offset on, and reach the end of the range or of the data. The range starts within the
data or at the start of a chunk, and its end fits a word. -/
def ReadAnswer.Serves (answer : ReadAnswer) (dataRoot : H256) (offset length : ℕ) : Prop :=
  ∃ status chunks content count, answer = .answered status (.ok chunks) ∧ isSuccess status = true ∧
    HasChunkTree codec dataRoot content ∧
    List.Forall₂ (ChunkWithProof.Carries codec) chunks
      (((chunksOf defaultChunkSize content).drop (offset / defaultChunkSize)).take count) ∧
    (offset % defaultChunkSize + length ≤ defaultChunkSize * count ∨
      content.length ≤ defaultChunkSize * (offset / defaultChunkSize + count)) ∧
    (offset ≤ content.length ∨ offset % defaultChunkSize = 0) ∧
    offset % defaultChunkSize + length ≤ u64Max

/-- An answer is cut into chunks as the data under a root is, and has no more of them than some number. -/
def ReadAnswer.CutInto (answer : ReadAnswer) (count : ℕ) : Prop :=
  ∀ status chunks pieces, answer = .answered status (.ok chunks) →
    List.Forall₂ (ChunkWithProof.Carries codec) chunks pieces →
      pieces.length ≤ count ∧ chunksOf defaultChunkSize pieces.flatten = pieces

variable {codec}

theorem verifiedChunk_eq_ok {chunk : ChunkWithProof} {chunkData : Bytes} :
    verifiedChunk codec chunk = .ok chunkData ↔ chunk.Carries codec chunkData := by
  simp only [verifiedChunk, parseH256, ChunkWithProof.Carries, bind_eq_ok, mapError_eq_ok,
    ensure_eq_ok, pure_eq_ok, decide_eq_true_iff]
  constructor
  · rintro ⟨decoded, hdecoded, hash, hhash, -, rfl, rfl⟩
    exact ⟨hdecoded, hhash⟩
  · rintro ⟨hdecoded, hhash⟩
    exact ⟨chunkData, hdecoded, _, hhash, (), rfl, rfl⟩

theorem reassembled_eq_ok {chunks : List ChunkWithProof} {data : Bytes} :
    reassembled codec chunks = .ok data ↔
      ∃ pieces, List.Forall₂ (ChunkWithProof.Carries codec) chunks pieces ∧ pieces.flatten = data := by
  induction chunks generalizing data with
  | nil =>
    simp only [reassembled, Except.ok.injEq, List.forall₂_nil_left_iff, exists_eq_left,
      List.flatten_nil]
  | cons chunk rest ih =>
    simp only [reassembled, bind_eq_ok, pure_eq_ok, verifiedChunk_eq_ok, ih,
      List.forall₂_cons_left_iff]
    constructor
    · rintro ⟨piece, hpiece, _, ⟨pieces, hpieces, rfl⟩, rfl⟩
      exact ⟨piece :: pieces, ⟨piece, pieces, hpiece, hpieces, rfl⟩, rfl⟩
    · rintro ⟨_, ⟨piece, pieces, hpiece, hpieces, rfl⟩, rfl⟩
      exact ⟨piece, hpiece, _, ⟨pieces, hpieces, rfl⟩, rfl⟩

/-- The client accepts what an answer delivers. -/
theorem readAnswer_eq_ok {answer : ReadAnswer} {data : Bytes} :
    readAnswer codec answer = .ok data ↔ answer.Delivers codec data := by
  unfold readAnswer ReadAnswer.Delivers
  cases answer with
  | failed error => simp
  | answered status body =>
    simp only [ReadAnswer.answered.injEq]
    split_ifs with hsuccess
    · simp only [bind_eq_ok, mapError_eq_ok, reassembled_eq_ok]
      constructor
      · rintro ⟨chunks, hbody, hpieces⟩
        exact ⟨status, chunks, ⟨rfl, hbody⟩, hsuccess, hpieces⟩
      · rintro ⟨_, chunks, ⟨-, hbody⟩, -, hpieces⟩
        exact ⟨chunks, hbody, hpieces⟩
    · constructor
      · rintro ⟨⟩
      · rintro ⟨_, chunks, ⟨rfl, -⟩, h, -⟩
        exact absurd h hsuccess

/-- The range is cut out exactly if its end fits a word and its start is in the data. -/
theorem trimmed_eq_some {overflowChecks : Bool} {data range : Bytes} {offset length : ℕ}
    (hlength : length ≤ u64Max) :
    trimmed overflowChecks data offset length = some range ↔
      offset % defaultChunkSize + length ≤ u64Max ∧ offset % defaultChunkSize ≤ data.length ∧
        range = (data.drop (offset % defaultChunkSize)).take length := by
  have hstart : offset % defaultChunkSize < defaultChunkSize := Nat.mod_lt _ (by decide)
  simp only [trimmed, Option.bind_eq_bind, Option.bind_eq_some_iff]
  generalize offset % defaultChunkSize = start at hstart ⊢
  by_cases hfits : start + length ≤ u64Max
  · have hword : word overflowChecks (start + length) = some (start + length) := if_pos hfits
    rw [hword]
    simp only [Option.some.injEq, exists_eq_left', hfits, true_and]
    unfold slice
    by_cases hstop : start + length ≤ data.length
    · have horder : start ≤ start + length ∧ start + length ≤ data.length :=
        ⟨Nat.le_add_right _ _, hstop⟩
      rw [if_pos hstop, if_pos horder, List.drop_take, Nat.add_sub_cancel_left, Option.some.injEq]
      constructor
      · rintro rfl
        exact ⟨by omega, rfl⟩
      · rintro ⟨-, rfl⟩
        rfl
    · rw [if_neg hstop]
      by_cases hle : start ≤ data.length
      · have hrest : (data.drop start).length ≤ length := by
          rw [List.length_drop]
          omega
        rw [if_pos ⟨hle, le_rfl⟩, List.take_length, List.take_of_length_le hrest,
          Option.some.injEq, eq_comm]
        exact ⟨fun h ↦ ⟨hle, h⟩, fun h ↦ h.2⟩
      · rw [if_neg fun h ↦ hle h.1]
        constructor
        · rintro ⟨⟩
        · rintro ⟨h, -⟩
          exact absurd h hle
  · simp only [hfits, false_and, iff_false]
    rintro ⟨stop, hword, hrange⟩
    unfold word at hword
    rw [if_neg hfits] at hword
    split_ifs at hword
    cases hword
    -- The wrapped end lies before the start, so either slice is out of order.
    have hbefore : (start + length) % (u64Max + 1) < start := by
      have hsmall : defaultChunkSize ≤ u64Max := by decide
      rw [Nat.mod_eq_sub_mod (by omega), Nat.mod_eq_of_lt (by omega)]
      omega
    unfold slice at hrange
    split_ifs at hrange
    · omega
    · omega

/-- Chunks that all came with their hash carry bytes together. -/
theorem exists_carried {chunks : List ChunkWithProof}
    (h : ∀ chunk ∈ chunks, ∃ chunkData, chunk.Carries codec chunkData) :
    ∃ pieces, List.Forall₂ (ChunkWithProof.Carries codec) chunks pieces := by
  induction chunks with
  | nil => exact ⟨[], .nil⟩
  | cons chunk rest ih =>
    obtain ⟨piece, hpiece⟩ := h chunk List.mem_cons_self
    obtain ⟨pieces, hpieces⟩ := ih fun later hlater ↦ h later (List.mem_cons_of_mem _ hlater)
    exact ⟨piece :: pieces, .cons hpiece hpieces⟩

/-- An answer is refused exactly if it delivers nothing. -/
theorem ReadAnswer.refused_iff {answer : ReadAnswer} :
    answer.Refused codec ↔ ∀ data, ¬ answer.Delivers codec data := by
  constructor
  · rintro hrefused data ⟨status, chunks, hanswer, hsuccess, pieces, hpieces, -⟩
    obtain ⟨chunk, hchunk, hnone⟩ := hrefused status chunks hanswer hsuccess
    obtain ⟨i, hi, rfl⟩ := List.getElem_of_mem hchunk
    exact hnone _ (hpieces.get hi (hpieces.length_eq ▸ hi))
  · intro hnothing status chunks hanswer hsuccess
    by_contra! hall
    obtain ⟨pieces, hpieces⟩ := exists_carried hall
    exact hnothing _ ⟨status, chunks, hanswer, hsuccess, pieces, hpieces, rfl⟩

theorem defaultChunkSize_pos : 0 < defaultChunkSize := by
  decide

/-- The range of the data under a root is found in the chunks that cover it. -/
theorem range_of_chunks {content : Bytes} {offset length count : ℕ}
    (hend : offset % defaultChunkSize + length ≤ defaultChunkSize * count ∨
      content.length ≤ defaultChunkSize * (offset / defaultChunkSize + count)) :
    (((content.drop (defaultChunkSize * (offset / defaultChunkSize))).take
        (defaultChunkSize * count)).drop (offset % defaultChunkSize)).take length =
      (content.drop offset).take length := by
  have hsplit := Nat.div_add_mod offset defaultChunkSize
  rw [List.drop_take, List.drop_drop, hsplit, List.take_take]
  rcases hend with hlong | hshort
  · rw [Nat.min_eq_left (by omega)]
  · rw [Nat.mul_add] at hshort
    have hrest : (content.drop offset).length ≤ defaultChunkSize * count - offset % defaultChunkSize := by
      rw [List.length_drop]
      omega
    rcases Nat.le_total length (defaultChunkSize * count - offset % defaultChunkSize) with hle | hle
    · rw [Nat.min_eq_left hle]
    · rw [Nat.min_eq_right hle, List.take_of_length_le hrest, List.take_of_length_le (hrest.trans hle)]

/-- An answer delivers one sequence of bytes only. -/
theorem ReadAnswer.Delivers.unique {answer : ReadAnswer} {data data' : Bytes}
    (h : answer.Delivers codec data) (h' : answer.Delivers codec data') : data = data' := by
  rw [← readAnswer_eq_ok] at h h'
  rw [h] at h'
  exact Except.ok.inj h'

/-- What an answer that serves a range delivers. -/
theorem ReadAnswer.Serves.delivers {answer : ReadAnswer} {dataRoot : H256} {offset length : ℕ}
    (h : answer.Serves codec dataRoot offset length) :
    ∃ content count, HasChunkTree codec dataRoot content ∧
      answer.Delivers codec ((content.drop (defaultChunkSize * (offset / defaultChunkSize))).take
        (defaultChunkSize * count)) ∧
      (offset % defaultChunkSize + length ≤ defaultChunkSize * count ∨
        content.length ≤ defaultChunkSize * (offset / defaultChunkSize + count)) ∧
      (offset ≤ content.length ∨ offset % defaultChunkSize = 0) := by
  obtain ⟨status, chunks, content, count, hanswer, hsuccess, htree, hpieces, hend, hstart, -⟩ := h
  refine ⟨content, count, htree, ⟨status, chunks, hanswer, hsuccess, _, hpieces, ?_⟩, hend, hstart⟩
  rw [take_drop_chunksOf defaultChunkSize_pos, flatten_chunksOf defaultChunkSize_pos]

namespace StorageUserClient

variable {client : StorageUserClient} {overflowChecks : Bool} {provider : ReadRequest → ReadAnswer}
  {bucketId : ℕ} {dataRoot : H256}

theorem getProviderUrl_eq_ok {providerUrl : String} :
    client.getProviderUrl = .ok providerUrl ↔ client.providerUrls.head? = some providerUrl :=
  require_eq_ok _ _ _

/-- The first provider refuses a request for a range, or serves the range. -/
def Answered (codec : Codec) (client : StorageUserClient) (provider : ReadRequest → ReadAnswer)
    (bucketId : ℕ) (dataRoot : H256) (offset length : ℕ) : Prop :=
  ∀ providerUrl, client.providerUrls.head? = some providerUrl →
    (provider ⟨providerUrl, bucketId, dataRoot, offset, length⟩).Refused codec ∨
      (provider ⟨providerUrl, bucketId, dataRoot, offset, length⟩).Serves codec dataRoot offset length

/-- The place of a chunk fits a word, and the first provider answers the request for the chunk with no
chunk, refuses it or serves it; or the place does not fit and the build checks for that. -/
def SpotAnswered (codec : Codec) (client : StorageUserClient) (overflowChecks : Bool)
    (provider : ReadRequest → ReadAnswer) (bucketId : ℕ) (dataRoot : H256) (chunkIndex : ℕ) : Prop :=
  if defaultChunkSize * chunkIndex ≤ u64Max then
    (∀ providerUrl, client.providerUrls.head? = some providerUrl →
      ∃ status, provider ⟨providerUrl, bucketId, dataRoot, defaultChunkSize * chunkIndex,
        defaultChunkSize⟩ = .answered status (.ok [])) ∨
      client.Answered codec provider bucketId dataRoot (defaultChunkSize * chunkIndex) defaultChunkSize
  else overflowChecks = true

/-- A passed spot check means that the provider returned the chunk at an index of the tree. -/
def SpotBound (codec : Codec) (client : StorageUserClient) (overflowChecks : Bool)
    (provider : ReadRequest → ReadAnswer) (bucketId : ℕ) (dataRoot : H256) (chunkIndex : ℕ) : Prop :=
  client.spotCheck codec overflowChecks provider bucketId dataRoot chunkIndex = .returns (.ok true) →
    ∃ providerUrl offset data, client.providerUrls.head? = some providerUrl ∧
      word overflowChecks (defaultChunkSize * chunkIndex) = some offset ∧
        (provider ⟨providerUrl, bucketId, dataRoot, offset, defaultChunkSize⟩).Delivers codec data ∧
          ∃ content, HasChunkTree codec dataRoot content ∧
            (chunksOf defaultChunkSize content)[chunkIndex]? = some (data.take defaultChunkSize)

/-- A plain download cuts the range out of what the answer delivers. -/
theorem download_of_delivers (hplain : client.decrypt = none) {offset length : ℕ} {providerUrl : String}
    (hurl : client.providerUrls.head? = some providerUrl) {data : Bytes}
    (hdelivers : (provider ⟨providerUrl, bucketId, dataRoot, offset, length⟩).Delivers codec data) :
    client.download codec overflowChecks provider bucketId dataRoot offset length =
      match trimmed overflowChecks data offset length with
      | none => .panics
      | some range => .returns (.ok range) := by
  rw [← getProviderUrl_eq_ok] at hurl
  rw [← readAnswer_eq_ok] at hdelivers
  simp only [download, hurl, hdelivers, hplain]

/-- A download whose answer delivers nothing is bound to every root. -/
theorem download_bound_of_refused {offset length : ℕ}
    (hrefused : ∀ providerUrl, client.providerUrls.head? = some providerUrl →
      (provider ⟨providerUrl, bucketId, dataRoot, offset, length⟩).Refused codec) :
    BoundTo codec dataRoot offset length
      (client.download codec overflowChecks provider bucketId dataRoot offset length) := by
  unfold download
  cases hurl : client.getProviderUrl with
  | error error => exact ⟨nofun, nofun⟩
  | ok providerUrl =>
    simp only
    cases hread : readAnswer codec (provider ⟨providerUrl, bucketId, dataRoot, offset, length⟩) with
    | error error => exact ⟨nofun, nofun⟩
    | ok data =>
      have hnothing := ReadAnswer.refused_iff.mp (hrefused providerUrl (getProviderUrl_eq_ok.mp hurl))
      exact (hnothing data (readAnswer_eq_ok.mp hread)).elim

/-- A download is bound to its root if its request is refused or served. -/
theorem download_bound_of_answered (hplain : client.decrypt = none) {offset length : ℕ}
    (hlength : length ≤ u64Max)
    (hanswered : client.Answered codec provider bucketId dataRoot offset length) :
    BoundTo codec dataRoot offset length
      (client.download codec overflowChecks provider bucketId dataRoot offset length) := by
  cases hurl : client.providerUrls.head? with
  | none =>
    refine download_bound_of_refused fun providerUrl hsome ↦ ?_
    rw [hurl] at hsome
    cases hsome
  | some providerUrl =>
    rcases hanswered providerUrl hurl with hrefused | hserves
    · refine download_bound_of_refused fun other hother ↦ ?_
      rw [hurl, Option.some.injEq] at hother
      rwa [← hother]
    · obtain ⟨content, count, htree, hdelivers, hend, hstart⟩ := hserves.delivers
      have hfits : offset % defaultChunkSize + length ≤ u64Max := by
        obtain ⟨_, _, _, _, _, _, _, _, _, _, hfits⟩ := hserves
        exact hfits
      have hinside : offset % defaultChunkSize ≤
          ((content.drop (defaultChunkSize * (offset / defaultChunkSize))).take
            (defaultChunkSize * count)).length := by
        have hsplit := Nat.div_add_mod offset defaultChunkSize
        rw [Nat.mul_add] at hend
        rw [List.length_take, List.length_drop]
        omega
      rw [download_of_delivers hplain hurl hdelivers,
        (trimmed_eq_some hlength).mpr ⟨hfits, hinside, rfl⟩]
      refine ⟨nofun, fun range hrange ↦ ⟨content, htree, ?_⟩⟩
      rw [← range_of_chunks hend]
      cases hrange
      rfl

/-- On chunks from one to another, an answer cut as the data is serves what it is bound to. -/
theorem answered_of_download_bound (hplain : client.decrypt = none) {first count : ℕ}
    (hlength : defaultChunkSize * count ≤ u64Max)
    (hcut : ∀ providerUrl, client.providerUrls.head? = some providerUrl →
      (provider ⟨providerUrl, bucketId, dataRoot, defaultChunkSize * first,
        defaultChunkSize * count⟩).CutInto codec count)
    (hbound : BoundTo codec dataRoot (defaultChunkSize * first) (defaultChunkSize * count)
      (client.download codec overflowChecks provider bucketId dataRoot (defaultChunkSize * first)
        (defaultChunkSize * count))) :
    client.Answered codec provider bucketId dataRoot (defaultChunkSize * first)
      (defaultChunkSize * count) := by
  intro providerUrl hurl
  rw [or_iff_not_imp_left, ReadAnswer.refused_iff]
  intro hsome
  push Not at hsome
  obtain ⟨data, hdelivers⟩ := hsome
  rw [download_of_delivers hplain hurl hdelivers,
    (trimmed_eq_some hlength).mpr ⟨by simpa using hlength, by simp, rfl⟩] at hbound
  obtain ⟨content, htree, hrange⟩ := hbound.2 _ rfl
  obtain ⟨status, chunks, hanswer, hsuccess, pieces, hpieces, rfl⟩ := hdelivers
  obtain ⟨hcount, hpieces'⟩ := hcut providerUrl hurl status chunks pieces hanswer hpieces
  -- the answer has no more than was asked for, so that nothing of it is cut off
  have hshort : pieces.flatten.length ≤ defaultChunkSize * count :=
    length_le_of_length_chunksOf defaultChunkSize_pos (by rwa [hpieces'])
  rw [Nat.mul_mod_right, List.drop_zero, List.take_of_length_le hshort] at hrange
  refine ⟨status, chunks, content, count, hanswer, hsuccess, htree, ?_, .inl ?_, .inr ?_, ?_⟩
  · rwa [Nat.mul_div_cancel_left _ defaultChunkSize_pos, take_drop_chunksOf defaultChunkSize_pos,
      ← hrange, hpieces']
  · rw [Nat.mul_mod_right, Nat.zero_add]
  · exact Nat.mul_mod_right _ _
  · rwa [Nat.mul_mod_right, Nat.zero_add]

/-- A plain download returns a range exactly if its request delivers data that has the range. -/
theorem download_eq_ok (hplain : client.decrypt = none) {offset length : ℕ} {range : Bytes} :
    client.download codec overflowChecks provider bucketId dataRoot offset length =
        .returns (.ok range) ↔
      ∃ providerUrl data, client.providerUrls.head? = some providerUrl ∧
        (provider ⟨providerUrl, bucketId, dataRoot, offset, length⟩).Delivers codec data ∧
          trimmed overflowChecks data offset length = some range := by
  unfold download
  simp only [← getProviderUrl_eq_ok, ← readAnswer_eq_ok]
  cases client.getProviderUrl with
  | error error => simp
  | ok providerUrl =>
    simp only [Except.ok.injEq, exists_and_left, exists_eq_left']
    cases readAnswer codec (provider ⟨providerUrl, bucketId, dataRoot, offset, length⟩) with
    | error error => simp
    | ok data =>
      simp only [Except.ok.injEq, exists_eq_left', hplain]
      cases trimmed overflowChecks data offset length with
      | none => simp
      | some range' => simp

/-- The offset of a spot check is at the start of a chunk, wrapped or not. -/
theorem word_mod_chunkSize {chunkIndex offset : ℕ}
    (hword : word overflowChecks (defaultChunkSize * chunkIndex) = some offset) :
    offset % defaultChunkSize = 0 := by
  have hmultiple : (u64Max + 1) % defaultChunkSize = 0 := by decide
  unfold word at hword
  split_ifs at hword
  · cases hword
    exact Nat.mul_mod_right _ _
  · cases hword
    rw [Nat.mod_mod_of_dvd _ (Nat.dvd_of_mod_eq_zero hmultiple)]
    exact Nat.mul_mod_right _ _

/-- From the start of a chunk on, any data has a range of the size of a chunk. -/
theorem trimmed_chunk {data : Bytes} {offset : ℕ} (haligned : offset % defaultChunkSize = 0) :
    trimmed overflowChecks data offset defaultChunkSize = some (data.take defaultChunkSize) := by
  refine (trimmed_eq_some (by decide)).2 ?_
  rw [haligned]
  exact ⟨by decide, Nat.zero_le _, rfl⟩

/-- A spot check passes exactly if its request is answered with any bytes that match their hashes. -/
theorem spotCheck_eq_true (hplain : client.decrypt = none) {chunkIndex : ℕ} :
    client.spotCheck codec overflowChecks provider bucketId dataRoot chunkIndex =
        .returns (.ok true) ↔
      ∃ providerUrl offset data, client.providerUrls.head? = some providerUrl ∧
        word overflowChecks (defaultChunkSize * chunkIndex) = some offset ∧
          (provider ⟨providerUrl, bucketId, dataRoot, offset, defaultChunkSize⟩).Delivers codec data ∧
            data ≠ [] := by
  have hsize : defaultChunkSize ≠ 0 := by decide
  have hpasses : client.spotCheck codec overflowChecks provider bucketId dataRoot chunkIndex =
        .returns (.ok true) ↔
      ∃ offset range, word overflowChecks (defaultChunkSize * chunkIndex) = some offset ∧
        client.download codec overflowChecks provider bucketId dataRoot offset defaultChunkSize =
          .returns (.ok range) ∧ range ≠ [] := by
    unfold spotCheck
    generalize defaultChunkSize = size
    cases word overflowChecks (size * chunkIndex) with
    | none => simp
    | some offset =>
      cases hurl : client.getProviderUrl with
      | error error => simp [download, hurl]
      | ok providerUrl =>
        simp only [Option.some.injEq, exists_and_left, exists_eq_left']
        cases client.download codec overflowChecks provider bucketId dataRoot offset size with
        | panics => simp
        | returns result =>
          cases result with
          | error error => simp
          | ok range => simp
  rw [hpasses]
  constructor
  · rintro ⟨offset, range, hword, hdownload, hne⟩
    obtain ⟨providerUrl, data, hurl, hdelivers, hrange⟩ := (download_eq_ok hplain).1 hdownload
    rw [trimmed_chunk (word_mod_chunkSize hword)] at hrange
    cases hrange
    refine ⟨providerUrl, offset, data, hurl, hword, hdelivers, fun hempty ↦ hne ?_⟩
    rw [hempty, List.take_nil]
  · rintro ⟨providerUrl, offset, data, hurl, hword, hdelivers, hne⟩
    refine ⟨offset, _, hword, (download_eq_ok hplain).2 ⟨providerUrl, data, hurl, hdelivers,
      trimmed_chunk (word_mod_chunkSize hword)⟩, fun hempty ↦ ?_⟩
    rw [List.take_eq_nil_iff, or_iff_right hsize] at hempty
    exact hne hempty

/-- A passed spot check means something if its request is answered with no chunk, refused or served. -/
theorem spot_bound_of_answered (hplain : client.decrypt = none) {chunkIndex : ℕ}
    (hanswered : client.SpotAnswered codec overflowChecks provider bucketId dataRoot chunkIndex) :
    client.SpotBound codec overflowChecks provider bucketId dataRoot chunkIndex := by
  intro hpassed
  obtain ⟨providerUrl, offset, data, hurl, hword, hdelivers, hne⟩ := (spotCheck_eq_true hplain).mp hpassed
  refine ⟨providerUrl, offset, data, hurl, hword, hdelivers, ?_⟩
  unfold SpotAnswered at hanswered
  unfold word at hword
  split_ifs at hanswered hword
  · cases hword
    rcases hanswered with hempty | hserved
    · obtain ⟨status, hanswer⟩ := hempty providerUrl hurl
      obtain ⟨_, _, hanswer', -, pieces, hpieces, rfl⟩ := hdelivers
      rw [hanswer] at hanswer'
      cases hanswer'
      cases hpieces
      exact (hne rfl).elim
    · rcases hserved providerUrl hurl with hrefused | hserves
      · exact (ReadAnswer.refused_iff.mp hrefused data hdelivers).elim
      · obtain ⟨content, count, htree, hdelivers', -⟩ := hserves.delivers
        have hdata := hdelivers.unique hdelivers'
        rw [Nat.mul_div_cancel_left _ defaultChunkSize_pos] at hdata
        refine ⟨content, htree, ?_⟩
        rw [hdata] at hne ⊢
        rw [← List.head?_drop, drop_chunksOf defaultChunkSize_pos]
        have hcount : 0 < count := by
          by_contra hzero
          exact hne (by simp [Nat.eq_zero_of_not_pos hzero])
        have hrest : content.drop (defaultChunkSize * chunkIndex) ≠ [] := fun hnil ↦
          hne (by rw [hnil, List.take_nil])
        rw [chunksOf_of_ne_nil defaultChunkSize_pos hrest, List.head?_cons, List.take_take,
          Nat.min_eq_left (Nat.le_mul_of_pos_right _ hcount)]
/-- A provider that answers with at most one chunk is asked for a chunk, and a passed spot check means
something: it has no chunk, refuses the request or serves it. -/
theorem answered_of_spot_bound (hplain : client.decrypt = none) {chunkIndex : ℕ}
    (hfits : defaultChunkSize * chunkIndex ≤ u64Max)
    (hcut : ∀ providerUrl, client.providerUrls.head? = some providerUrl →
      (provider ⟨providerUrl, bucketId, dataRoot, defaultChunkSize * chunkIndex,
        defaultChunkSize⟩).CutInto codec 1)
    (hbound : client.SpotBound codec overflowChecks provider bucketId dataRoot chunkIndex) :
    client.SpotAnswered codec overflowChecks provider bucketId dataRoot chunkIndex := by
  unfold SpotAnswered
  rw [if_pos hfits]
  cases hurl : client.providerUrls.head? with
  | none => exact .inl fun _ hsome ↦ by cases hsome
  | some providerUrl =>
    by_cases hrefused : (provider ⟨providerUrl, bucketId, dataRoot, defaultChunkSize * chunkIndex,
        defaultChunkSize⟩).Refused codec
    · right
      intro other hother
      rw [hurl, Option.some.injEq] at hother
      rw [← hother]
      exact .inl hrefused
    · rw [ReadAnswer.refused_iff] at hrefused
      push Not at hrefused
      obtain ⟨data, hdelivers⟩ := hrefused
      obtain ⟨status, chunks, hanswer, hsuccess, pieces, hpieces, hdata⟩ := id hdelivers
      obtain ⟨hcount, hpieces'⟩ := hcut providerUrl hurl status chunks pieces hanswer hpieces
      rw [hdata] at hpieces'
      by_cases hne : data = []
      · left
        intro other hother
        rw [Option.some.injEq] at hother
        rw [hne, chunksOf_nil] at hpieces'
        rw [← hpieces', List.forall₂_nil_right_iff] at hpieces
        rw [← hother, hanswer, hpieces]
        exact ⟨status, rfl⟩
      · right
        have hword : word overflowChecks (defaultChunkSize * chunkIndex) =
            some (defaultChunkSize * chunkIndex) := if_pos hfits
        obtain ⟨other, offset, data', hother, hword', hdelivers', content, htree, hchunk⟩ :=
          hbound ((spotCheck_eq_true hplain).mpr
            ⟨providerUrl, _, data, hurl, hword, hdelivers, hne⟩)
        rw [hurl, Option.some.injEq] at hother
        rw [hword, Option.some.injEq] at hword'
        subst hother hword'
        have hsame := hdelivers.unique hdelivers'
        subst hsame
        -- the one chunk of the answer is not cut
        have hshort : data.length ≤ defaultChunkSize * 1 :=
          length_le_of_length_chunksOf defaultChunkSize_pos (by rwa [hpieces'])
        rw [Nat.mul_one] at hshort
        rw [List.take_of_length_le hshort] at hchunk
        rw [chunksOf_of_length_le defaultChunkSize_pos hne hshort] at hpieces'
        intro other hother
        rw [hurl, Option.some.injEq] at hother
        subst hother
        refine .inr ⟨status, chunks, content, 1, hanswer, hsuccess, htree, ?_, .inl ?_, .inr ?_, ?_⟩
        · rwa [Nat.mul_div_cancel_left _ defaultChunkSize_pos, List.take_one, List.head?_drop, hchunk,
            Option.toList_some, hpieces']
        · rw [Nat.mul_mod_right, Nat.zero_add, Nat.mul_one]
        · exact Nat.mul_mod_right _ _
        · rw [Nat.mul_mod_right, Nat.zero_add]
          decide

variable (codec client overflowChecks provider bucketId dataRoot) in
/-- **Results are bound to the root only by the provider.** Downloads and spot checks are bound to their
root if the provider refuses their requests or serves them; on whole chunks and answers that are cut as the
data is, only then. -/
theorem downloads_bound_of_served (hplain : client.decrypt = none) :
    (∀ offset length, length ≤ u64Max →
      client.Answered codec provider bucketId dataRoot offset length →
        BoundTo codec dataRoot offset length
          (client.download codec overflowChecks provider bucketId dataRoot offset length)) ∧
    (∀ totalSize, totalSize ≤ u64Max → client.Answered codec provider bucketId dataRoot 0 totalSize →
      BoundTo codec dataRoot 0 totalSize
        (client.downloadFull codec overflowChecks provider bucketId dataRoot totalSize)) ∧
    (∀ chunkIndex, client.SpotAnswered codec overflowChecks provider bucketId dataRoot chunkIndex →
      client.SpotBound codec overflowChecks provider bucketId dataRoot chunkIndex) ∧
    (∀ first count, defaultChunkSize * count ≤ u64Max →
      (∀ providerUrl, client.providerUrls.head? = some providerUrl →
        (provider ⟨providerUrl, bucketId, dataRoot, defaultChunkSize * first,
          defaultChunkSize * count⟩).CutInto codec count) →
      BoundTo codec dataRoot (defaultChunkSize * first) (defaultChunkSize * count)
        (client.download codec overflowChecks provider bucketId dataRoot (defaultChunkSize * first)
          (defaultChunkSize * count)) →
      client.Answered codec provider bucketId dataRoot (defaultChunkSize * first)
        (defaultChunkSize * count)) ∧
    ∀ chunkIndex, defaultChunkSize * chunkIndex ≤ u64Max →
      (∀ providerUrl, client.providerUrls.head? = some providerUrl →
        (provider ⟨providerUrl, bucketId, dataRoot, defaultChunkSize * chunkIndex,
          defaultChunkSize⟩).CutInto codec 1) →
      client.SpotBound codec overflowChecks provider bucketId dataRoot chunkIndex →
        client.SpotAnswered codec overflowChecks provider bucketId dataRoot chunkIndex := by
  refine ⟨fun offset length ↦ download_bound_of_answered hplain,
    fun totalSize ↦ download_bound_of_answered hplain, fun chunkIndex ↦ spot_bound_of_answered hplain,
    fun first count ↦ answered_of_download_bound hplain,
    fun chunkIndex ↦ answered_of_spot_bound hplain⟩

end StorageUserClient

end Download

/-! ### A provider with other bytes -/

section Substituted

open Pallet.Mock

/-- The hash of the chunk of byte 7, in hex. -/
def sevenHash : String := "0x30bf49766fab57e5cbe948b333c49b742767ee733162e217908d6bca53bb2d36"

/-- The codec on the texts of that chunk. -/
def sevenCodec : Codec where
  blake2256 := blake2256
  decodeBase64 text := if text = "Bw==" then .ok [7] else .error "Invalid padding"
  parseHash text :=
    if text = sevenHash then .ok (hashLeaf blake2256 [7]) else .error "Invalid character"

/-- A provider that answers everything with the chunk of byte 7. -/
def sevenProvider (_ : ReadRequest) : ReadAnswer := .answered 200 (.ok [⟨sevenHash, "Bw==", []⟩])

def plainClient : StorageUserClient := ⟨["http://localhost:3000"], none⟩

/-- The root of the chunk of a byte. -/
def rootOf (byte : UInt8) : H256 := merkleRoot blake2256 [hashLeaf blake2256 [byte]]

theorem chunksOf_byte (byte : UInt8) : chunksOf defaultChunkSize [byte] = [[byte]] :=
  chunksOf_of_length_le defaultChunkSize_pos (List.cons_ne_nil _ _) defaultChunkSize_pos

theorem hasChunkTree_rootOf (byte : UInt8) : HasChunkTree sevenCodec (rootOf byte) [byte] := by
  refine ⟨List.cons_ne_nil _ _, ?_⟩
  rw [chunksOf_byte]
  rfl

theorem seven_readAnswer (request : ReadRequest) :
    readAnswer sevenCodec (sevenProvider request) = .ok [7] := by
  refine readAnswer_eq_ok.2 ⟨200, _, rfl, rfl, [[7]], ?_, rfl⟩
  exact .cons ⟨rfl, rfl⟩ .nil

theorem seven_delivers {request : ReadRequest} {data : Bytes}
    (h : (sevenProvider request).Delivers sevenCodec data) : data = [7] := by
  rw [← readAnswer_eq_ok, seven_readAnswer] at h
  cases h
  rfl

/-- What the client takes from the provider of byte 7, whatever the root. -/
theorem seven_download (dataRoot : H256) (offset length : ℕ) :
    plainClient.download sevenCodec false sevenProvider 0 dataRoot offset length =
      match trimmed false [7] offset length with
      | none => .panics
      | some range => .returns (.ok range) := by
  unfold StorageUserClient.download
  have hurl : plainClient.getProviderUrl = .ok "http://localhost:3000" := rfl
  rw [hurl]
  simp only [seven_readAnswer]
  rfl

/-- The provider of byte 7 serves the root of that chunk. -/
theorem seven_serves {length : ℕ} (hlength : length ≤ defaultChunkSize) :
    plainClient.Answered sevenCodec sevenProvider 0 (rootOf 7) 0 length := by
  refine fun providerUrl _ ↦ .inr ⟨200, _, [7], 1, rfl, rfl, hasChunkTree_rootOf 7, ?_, .inl ?_,
    .inl (Nat.zero_le _), ?_⟩
  · rw [chunksOf_byte]
    exact .cons ⟨rfl, rfl⟩ .nil
  · rwa [Nat.zero_mod, Nat.zero_add, Nat.mul_one]
  · rw [Nat.zero_mod, Nat.zero_add]
    exact hlength.trans (by decide)

theorem seven_spotAnswered :
    plainClient.SpotAnswered sevenCodec false sevenProvider 0 (rootOf 7) 0 := by
  unfold StorageUserClient.SpotAnswered
  rw [Nat.mul_zero, if_pos (Nat.zero_le _)]
  exact .inr (seven_serves le_rfl)

theorem seven_cutInto (request : ReadRequest) : (sevenProvider request).CutInto sevenCodec 1 := by
  intro status chunks pieces hanswer hpieces
  cases hanswer
  have hseven := @seven_delivers request pieces.flatten ⟨200, _, rfl, rfl, pieces, hpieces, rfl⟩
  have hone : pieces.length = 1 := hpieces.length_eq.symm
  obtain ⟨piece, rfl⟩ := List.length_eq_one_iff.mp hone
  rw [hseven, chunksOf_byte]
  rw [List.flatten_singleton] at hseven
  rw [hseven]
  exact ⟨le_rfl, rfl⟩

theorem downloads_bound_of_served_seven :
    (BoundTo sevenCodec (rootOf 7) 0 1
        (plainClient.download sevenCodec false sevenProvider 0 (rootOf 7) 0 1) ∧
      BoundTo sevenCodec (rootOf 7) 0 1
        (plainClient.downloadFull sevenCodec false sevenProvider 0 (rootOf 7) 1) ∧
      plainClient.SpotBound sevenCodec false sevenProvider 0 (rootOf 7) 0) ∧
    plainClient.Answered sevenCodec sevenProvider 0 (rootOf 7) (defaultChunkSize * 0)
      (defaultChunkSize * 1) ∧
    plainClient.SpotAnswered sevenCodec false sevenProvider 0 (rootOf 7) 0 := by
  have h := StorageUserClient.downloads_bound_of_served sevenCodec plainClient false sevenProvider 0
    (rootOf 7) rfl
  have hone : plainClient.Answered sevenCodec sevenProvider 0 (rootOf 7) 0 1 :=
    seven_serves defaultChunkSize_pos
  have hchunk := h.2.2.1 0 seven_spotAnswered
  refine ⟨⟨h.1 0 1 (by decide) hone, h.2.1 1 (by decide) hone, hchunk⟩, ?_, ?_⟩
  · exact h.2.2.2.1 0 1 (by decide) (fun _ _ ↦ seven_cutInto _)
      (h.1 0 _ (by decide) (seven_serves le_rfl))
  · exact h.2.2.2.2 0 (by decide) (fun _ _ ↦ seven_cutInto _) hchunk

/-- Under the root of byte 8 the client takes byte 7, its spot check passes, and it panics on a range
past what it was given. -/
theorem download_substituted :
    HasChunkTree sevenCodec (rootOf 8) [8] ∧
      plainClient.download sevenCodec false sevenProvider 0 (rootOf 8) 0 1 = .returns (.ok [7]) ∧
      plainClient.spotCheck sevenCodec false sevenProvider 0 (rootOf 8) 0 = .returns (.ok true) ∧
      ¬ BoundTo sevenCodec (rootOf 8) 2 1
        (plainClient.download sevenCodec false sevenProvider 0 (rootOf 8) 2 1) := by
  refine ⟨hasChunkTree_rootOf 8, seven_download _ _ _, ?_, ?_⟩
  · refine (StorageUserClient.spotCheck_eq_true rfl).2
      ⟨_, 0, [7], rfl, rfl, ?_, List.cons_ne_nil _ _⟩
    exact readAnswer_eq_ok.1 (seven_readAnswer _)
  · rw [seven_download]
    exact fun hbound ↦ hbound.1 rfl

end Substituted

end Web3Storage.Client
