import Web3Storage.Client.Base
import Web3Storage.Formats.Format
import Web3Storage.Foundations.Utf8
import Web3Storage.Pallet.Providers

/-!
# How a client finds the providers of a bucket

A client reads the primary providers of a bucket from the chain and makes the network address of each a
URL. The parts of an address say its protocol, host, transport and port, and the part after `http-path`
is percent-decoded. The decoder goes through that part byte by byte, but cuts the digits behind a percent
sign out of it as a text, which panics where the cut ends within a character. `SplitsPath` is this
condition on an address. `parseMultiaddrToHttp_eq_panics` says that nothing else panics,
`percentDecode_percentEncode` that what was encoded is decoded.

The pallet keeps an address as it comes. `discovery_lists_iff` says when a client sees the providers of a
bucket, and `discovery_panics_of_update` that one of them can keep the others from it.
-/

set_option autoImplicit false
set_option relaxedAutoImplicit false

namespace Web3Storage.Client

open Foundations Primitives
open Formats (slash text)
open Pallet (Bucket State updateProviderMultiaddr updateProviderMultiaddr_ok)

/-! ### Numbers in texts -/

/-- The value of a digit: letters of either case go on after nine. -/
def toDigit (radix : ℕ) (byte : UInt8) : Option ℕ :=
  let value :=
    if 0x30 ≤ byte.toNat ∧ byte.toNat ≤ 0x39 then some (byte.toNat - 0x30)
    else if 0x41 ≤ byte.toNat ∧ byte.toNat ≤ 0x5A then some (byte.toNat - 0x41 + 10)
    else if 0x61 ≤ byte.toNat ∧ byte.toNat ≤ 0x7A then some (byte.toNat - 0x61 + 10)
    else none
  value.filter (· < radix)

/-- A number and the digits after it. -/
def parseDigits (radix largest : ℕ) : ℕ → Bytes → Option ℕ
  | value, [] => some value
  | value, byte :: rest => do
    let shifted ← checkedMul largest value radix
    let digit ← toDigit radix byte
    let value ← checkedAdd largest shifted digit
    parseDigits radix largest value rest

/-- A number from its digits, which may have a plus sign before them. -/
def fromStrRadix (radix largest : ℕ) : Bytes → Option ℕ
  | [] => none
  | first :: rest =>
    if first = 0x2B then if rest = [] then none else parseDigits radix largest 0 rest
    else parseDigits radix largest 0 (first :: rest)

/-! ### Percent signs -/

/-- `%`. -/
def percent : UInt8 := 0x25

/-- Decode a text from a place on, unless a slice that is not there is cut out of it. -/
def percentDecodeLoop (s : Bytes) (i : ℕ) (out : Bytes) : Option Bytes :=
  if h : i < s.length then
    let byte := s[i]
    if byte = percent ∧ i + 2 < s.length then
      match strSlice s (i + 1) (i + 3) with
      | none => none
      | some digits =>
        match fromStrRadix 16 255 digits with
        | some b => percentDecodeLoop s (i + 3) (out ++ [UInt8.ofNat b])
        | none => percentDecodeLoop s (i + 1) (out ++ [byte])
    else percentDecodeLoop s (i + 1) (out ++ [byte])
  else some out
termination_by s.length - i

/-- Decode a text, unless that panics. -/
def percentDecode (s : Bytes) : Option String := (percentDecodeLoop s 0 []).map fromUtf8Lossy

/-! ### Addresses -/

/-- A part of a text, as a text. -/
def str (part : Bytes) : String := fromUtf8Lossy part

/-- What an address says. Its path is as it is written. -/
structure Address where
  host : String
  port : ℕ
  tls : Bool
  path : Option Bytes

def displayUtf8Error : ℕ × Option ℕ → String
  | (validUpTo, some errorLen) =>
    s!"invalid utf-8 sequence of {errorLen} bytes from index {validUpTo}"
  | (validUpTo, none) => s!"incomplete utf-8 byte sequence from index {validUpTo}"

/-- The parts of an address between its slashes. -/
def parts (multiaddr : Bytes) : List Bytes := (multiaddr.splitOn slash).filter (· ≠ [])

/-- The protocols whose hosts are written as they are. -/
def plainProtocols : List Bytes := [text "ip4", text "dns4", text "dns6", text "dns"]

/-- The host of an address, by its first two parts. -/
def readHost (proto host : Bytes) : Except ClientError String :=
  if proto ∈ plainProtocols then .ok (str host)
  else if proto = text "ip6" then
    let host := str host
    .ok s!"[{host}]"
  else
    let other := str proto
    .error (.chain s!"Unsupported multiaddr protocol: {other}")

/-- The part after `http-path`. -/
def readPath (rest : List Bytes) : Except ClientError (Option Bytes) :=
  match rest.findIdx? (· = text "http-path") with
  | none => .ok none
  | some idx => do
    let raw ← require rest[idx + 1]? (.chain "Missing value for http-path in multiaddr")
    return some raw

/-- Read an address up to its path. -/
def readAddress (multiaddrBytes : Bytes) : Except ClientError Address :=
  match utf8Error 0 none multiaddrBytes with
  | some e =>
    let e := displayUtf8Error e
    .error (.chain s!"Invalid multiaddr encoding: {e}")
  | none =>
    match parts multiaddrBytes with
    | proto :: host :: transport :: port :: rest => do
      let host ← readHost proto host
      let transportStr := str transport
      ensure (transport = text "tcp")
        (.chain s!"Unsupported multiaddr transport: {transportStr}")
      let portStr := str port
      let port ← require (fromStrRadix 10 u16Max port)
        (.chain s!"Invalid multiaddr port: {portStr}")
      let path ← readPath rest
      return {
        host := host
        port := port
        tls := rest.any (· ∈ [text "tls", text "https", text "wss"])
        path := path }
    | _ =>
      let multiaddrStr := str multiaddrBytes
      .error (.chain s!"Invalid multiaddr format: {multiaddrStr}")

/-- The URL of an address with its path decoded. -/
def Address.url (address : Address) (path : String) : String :=
  let scheme := if address.tls then "https" else "http"
  let defaultPort := if address.tls then 443 else 80
  let port := address.port
  let portSuffix := if port = defaultPort then "" else s!":{port}"
  let host := address.host
  s!"{scheme}://{host}{portSuffix}{path}"

def trimStartSlashes (s : String) : String := String.ofList (s.toList.dropWhile (· = '/'))

def parseMultiaddrToHttp (multiaddrBytes : Bytes) : Outcome String :=
  match readAddress multiaddrBytes with
  | .error error => .returns (.error error)
  | .ok address =>
    match address.path with
    | none => .returns (.ok (address.url ""))
    | some raw =>
      match percentDecode raw with
      | none => .panics
      | some decoded => .returns (.ok (address.url ("/" ++ trimStartSlashes decoded)))

/-! ### Discovery -/

inductive ProviderStatus where
  | healthy
  | degraded (lastError : String)
  | unreachable (since : ℕ)
  | unknown

variable (AccountId : Type)

/-- What a client knows of a provider. -/
structure ProviderInfo where
  accountId : AccountId
  endpoint : String
  publicKey : Bytes
  lastSeen : Option ℕ
  status : ProviderStatus

/-- What a client reads from the chain at a block: a bucket, whether providers can be asked for, and the
records of those it can read. -/
structure ChainReads where
  fetchBucket : ℕ → Except ClientError (Option (Bucket AccountId))
  providersEntry : Except String Unit
  tryFetch : AccountId → Option Pallet.ProviderInfo

variable {AccountId}

/-- A provider of which only the account is known. -/
def ProviderInfo.listed (accountId : AccountId) : ProviderInfo AccountId :=
  ⟨accountId, "", [], none, .unknown⟩

/-- One provider of a bucket, unless its record makes the client panic. -/
def discoverProvider (chain : ChainReads AccountId) (accountId : AccountId) :
    Option (ProviderInfo AccountId) :=
  match chain.tryFetch accountId with
  | none => some (.listed accountId)
  | some registration =>
    match parseMultiaddrToHttp registration.multiaddr with
    | .panics => none
    | .returns (.ok endpoint) => some
      { ProviderInfo.listed accountId with
        endpoint := endpoint
        publicKey := registration.publicKey }
    | .returns (.error _) => some (.listed accountId)

/-- Go through the accounts of providers, behind the providers so far. -/
def discoverProviders (chain : ChainReads AccountId) (providers : List (ProviderInfo AccountId)) :
    List AccountId → Option (List (ProviderInfo AccountId))
  | [] => some providers
  | accountId :: rest =>
    match discoverProvider chain accountId with
    | none => none
    | some info => discoverProviders chain (providers ++ [info]) rest

/-- The primary providers of a bucket. -/
def primaryAccounts (chain : ChainReads AccountId) (bucketId : ℕ) :
    Except ClientError (List AccountId) := do
  let bucket ← chain.fetchBucket bucketId
  let bucket ← require bucket (.chain s!"Bucket {bucketId} not found")
  let providerAccounts := bucket.primaryProviders
  ensure (!providerAccounts.isEmpty) (.chain s!"No primary providers found for bucket {bucketId}")
  chain.providersEntry.mapError fun e ↦ .chain s!"Failed to prepare provider query: {e}"
  return providerAccounts

/-- Find the providers of a bucket on the chain. -/
def discoverProvidersFromChain (atCurrentBlock : Except ClientError (ChainReads AccountId))
    (bucketId : ℕ) : Outcome (List (ProviderInfo AccountId)) :=
  match (do
    let chain ← atCurrentBlock
    let providerAccounts ← primaryAccounts chain bucketId
    return (chain, providerAccounts)) with
  | .error error => .returns (.error error)
  | .ok (chain, providerAccounts) =>
    match discoverProviders chain [] providerAccounts with
    | none => .panics
    | some providers => .returns (.ok providers)

/-! ### Where decoding panics -/

/-- A percent sign is a byte before the middle of a character: the third byte after it continues one. -/
def SplitsAt (s : Bytes) (i : ℕ) : Prop :=
  s[i]? = some percent ∧ ∃ next, s[i + 3]? = some next ∧ isContinuation next = true

/-- No percent sign is read as a digit. -/
theorem percent_not_mem_of_parseDigits {radix largest value result : ℕ} {digits : Bytes}
    (h : parseDigits radix largest value digits = some result) : percent ∉ digits := by
  induction digits generalizing value with
  | nil => exact List.not_mem_nil
  | cons byte digits ih =>
    simp only [parseDigits, Option.bind_eq_bind, Option.bind_eq_some_iff] at h
    obtain ⟨shifted, -, digit, hdigit, value, -, hrest⟩ := h
    refine List.not_mem_cons_of_ne_of_not_mem ?_ (ih hrest)
    rintro rfl
    cases hdigit

theorem percent_not_mem_of_fromStrRadix {radix largest result : ℕ} {digits : Bytes}
    (h : fromStrRadix radix largest digits = some result) : percent ∉ digits := by
  cases digits with
  | nil => exact List.not_mem_nil
  | cons first rest =>
    rw [fromStrRadix] at h
    by_cases hplus : first = 0x2B
    · rw [if_pos hplus] at h
      by_cases hrest : rest = []
      · rw [if_pos hrest] at h
        cases h
      · rw [if_neg hrest] at h
        refine List.not_mem_cons_of_ne_of_not_mem ?_ (percent_not_mem_of_parseDigits h)
        rw [hplus]
        decide
    · rw [if_neg hplus] at h
      exact percent_not_mem_of_parseDigits h

theorem exists_splitsAt_succ {s : Bytes} {i : ℕ} (h : ¬SplitsAt s i) :
    (∃ j, i + 1 ≤ j ∧ SplitsAt s j) ↔ ∃ j, i ≤ j ∧ SplitsAt s j := by
  constructor
  · rintro ⟨j, hj, hsplits⟩
    exact ⟨j, by omega, hsplits⟩
  · rintro ⟨j, hj, hsplits⟩
    refine ⟨j, Nat.lt_of_le_of_ne hj ?_, hsplits⟩
    rintro rfl
    exact h hsplits

/-- Decoding from a place on panics exactly when a percent sign there is before the middle of a character.
None is passed over: what is read as a number has no percent sign. -/
theorem percentDecodeLoop_eq_none {s : Bytes} (hs : AsciiWhole s) (i : ℕ) (out : Bytes) :
    percentDecodeLoop s i out = none ↔ ∃ j, i ≤ j ∧ SplitsAt s j := by
  fun_induction percentDecodeLoop s i out with
  | case1 i out h byte hpercent hslice =>
    have hbyte : s[i]? = some percent := by
      rw [List.getElem?_eq_getElem h, ← hpercent.1]
    have hnext := (strSlice_eq_none hs hbyte (by decide) hpercent.2).1 hslice
    exact iff_of_true rfl ⟨i, le_rfl, hbyte, hnext⟩
  | case2 i out h byte hpercent digits hslice b hb ih =>
    have hbyte : s[i]? = some percent := by
      rw [List.getElem?_eq_getElem h, ← hpercent.1]
    have hhere : ¬SplitsAt s i := by
      rintro ⟨-, hnext⟩
      rw [(strSlice_eq_none hs hbyte (by decide) hpercent.2).2 hnext] at hslice
      cases hslice
    have hdigits {j : ℕ} (hj : i + 1 ≤ j) (hj' : j < i + 3) : ¬SplitsAt s j := by
      rintro ⟨hsign, -⟩
      exact percent_not_mem_of_fromStrRadix hb (mem_strSlice hslice hj hj' hsign)
    rw [ih, exists_splitsAt_succ (hdigits (by omega) (by omega)),
      exists_splitsAt_succ (hdigits (by omega) (by omega)), exists_splitsAt_succ hhere]
  | case3 i out h byte hpercent digits hslice hb ih =>
    have hbyte : s[i]? = some percent := by
      rw [List.getElem?_eq_getElem h, ← hpercent.1]
    rw [ih, exists_splitsAt_succ]
    rintro ⟨-, hnext⟩
    rw [(strSlice_eq_none hs hbyte (by decide) hpercent.2).2 hnext] at hslice
    cases hslice
  | case4 i out h byte hpercent ih =>
    rw [ih, exists_splitsAt_succ]
    rintro ⟨hbyte, next, hnext, -⟩
    rw [List.getElem?_eq_getElem h] at hbyte
    have hlength := (List.getElem?_eq_some_iff.1 hnext).1
    exact hpercent ⟨Option.some.inj hbyte, by omega⟩
  | case5 i out h =>
    refine iff_of_false (by simp) ?_
    rintro ⟨j, hj, hbyte, -⟩
    have hlength := (List.getElem?_eq_some_iff.1 hbyte).1
    omega

theorem percentDecode_eq_none {s : Bytes} (hs : AsciiWhole s) :
    percentDecode s = none ↔ ∃ i, SplitsAt s i := by
  unfold percentDecode
  rw [Option.map_eq_none_iff, percentDecodeLoop_eq_none hs]
  simp

/-! ### Decoding what was encoded -/

def hexDigit (upper : Bool) (value : ℕ) : UInt8 :=
  UInt8.ofNat (if value < 10 then 0x30 + value else if upper then 0x37 + value else 0x57 + value)

def escape (upper : Bool) (byte : UInt8) : Bytes :=
  [percent, hexDigit upper (byte.toNat / 16), hexDigit upper (byte.toNat % 16)]

/-- The percent-encoding of characters, of which some may be kept. The percent sign never is. -/
def percentEncode (kept : Char → Bool) (upper : Bool) (chars : List Char) : Bytes :=
  chars.flatMap fun c ↦
    if kept c ∧ c ≠ '%' then String.utf8EncodeChar c
    else (String.utf8EncodeChar c).flatMap (escape upper)

theorem toDigit_hexDigit (upper : Bool) {value : ℕ} (h : value < 16) :
    toDigit 16 (hexDigit upper value) = some value := by
  have hall : ∀ upper, ∀ value < 16, toDigit 16 (hexDigit upper value) = some value := by decide
  exact hall upper value h

theorem isContinuation_hexDigit (upper : Bool) {value : ℕ} (h : value < 16) :
    isContinuation (hexDigit upper value) = false := by
  have hall : ∀ upper, ∀ value < 16, isContinuation (hexDigit upper value) = false := by decide
  exact hall upper value h

theorem parseDigits_cons {radix largest value digit : ℕ} {byte : UInt8} (rest : Bytes)
    (hdigit : toDigit radix byte = some digit) (hfits : value * radix + digit ≤ largest) :
    parseDigits radix largest value (byte :: rest) =
      parseDigits radix largest (value * radix + digit) rest := by
  rw [parseDigits, checkedMul, if_pos (by omega), hdigit]
  change (checkedAdd largest (value * radix) digit).bind _ = _
  rw [checkedAdd, if_pos hfits]
  rfl

/-- The digits of a byte are read as the byte. -/
theorem fromStrRadix_hexDigits (upper : Bool) (byte : UInt8) : fromStrRadix 16 255
    [hexDigit upper (byte.toNat / 16), hexDigit upper (byte.toNat % 16)] = some byte.toNat := by
  have hbyte : byte.toNat < 256 := byte.toNat_lt
  have hhigh := toDigit_hexDigit upper (show byte.toNat / 16 < 16 by omega)
  have hlow := toDigit_hexDigit upper (show byte.toNat % 16 < 16 by omega)
  have hplus : hexDigit upper (byte.toNat / 16) ≠ 0x2B := by
    intro heq
    rw [heq] at hhigh
    cases hhigh
  rw [fromStrRadix, if_neg hplus, parseDigits_cons _ hhigh (by omega),
    parseDigits_cons _ hlow (by omega), parseDigits]
  congr 1
  omega

theorem percentDecodeLoop_digits {s digits : Bytes} {i b : ℕ} (out : Bytes)
    (hsign : s[i]? = some percent) (hlength : i + 2 < s.length)
    (hslice : strSlice s (i + 1) (i + 3) = some digits) (hb : fromStrRadix 16 255 digits = some b) :
    percentDecodeLoop s i out = percentDecodeLoop s (i + 3) (out ++ [UInt8.ofNat b]) := by
  obtain ⟨hi, hget⟩ := List.getElem?_eq_some_iff.1 hsign
  rw [percentDecodeLoop, dif_pos hi]
  dsimp only
  rw [if_pos ⟨hget, hlength⟩, hslice]
  dsimp only
  rw [hb]

theorem percentDecodeLoop_other {s : Bytes} {i : ℕ} {byte : UInt8} (out : Bytes)
    (hbyte : s[i]? = some byte) (hother : byte ≠ percent) :
    percentDecodeLoop s i out = percentDecodeLoop s (i + 1) (out ++ [byte]) := by
  obtain ⟨hi, hget⟩ := List.getElem?_eq_some_iff.1 hbyte
  rw [percentDecodeLoop, dif_pos hi]
  dsimp only
  rw [hget, if_neg fun h ↦ hother h.1]

theorem percentDecodeLoop_escape {rest : Bytes} (upper : Bool) (byte : UInt8) (before out : Bytes)
    (hrest : StartsChar rest) :
    percentDecodeLoop (before ++ (escape upper byte ++ rest)) before.length out =
      percentDecodeLoop (before ++ (escape upper byte ++ rest)) (before.length + 3)
        (out ++ [byte]) := by
  let digits := [hexDigit upper (byte.toNat / 16), hexDigit upper (byte.toNat % 16)]
  have hbyte : byte.toNat < 256 := byte.toNat_lt
  have hs : before ++ (escape upper byte ++ rest) = (before ++ [percent]) ++ (digits ++ rest) := by
    simp [escape, digits]
  have hslice : strSlice (before ++ (escape upper byte ++ rest)) (before.length + 1)
      (before.length + 3) = some digits := by
    have hstart : StartsChar (digits ++ rest) :=
      startsChar_cons _ (isContinuation_hexDigit upper (by omega))
    have hcut := strSlice_append (before ++ [percent]) hstart hrest
    rw [← hs] at hcut
    simpa [digits] using hcut
  have hlength : before.length + 2 < (before ++ (escape upper byte ++ rest)).length := by
    simp [escape]
  have hsign : (before ++ (escape upper byte ++ rest))[before.length]? = some percent := by
    rw [List.getElem?_append_right le_rfl, Nat.sub_self]
    rfl
  rw [percentDecodeLoop_digits out hsign hlength hslice (fromStrRadix_hexDigits upper byte),
    UInt8.ofNat_toNat]

theorem percentDecodeLoop_escapes {rest : Bytes} (upper : Bool) (bytes before out : Bytes)
    (hrest : StartsChar rest) :
    percentDecodeLoop (before ++ (bytes.flatMap (escape upper) ++ rest)) before.length out =
      percentDecodeLoop (before ++ (bytes.flatMap (escape upper) ++ rest))
        (before ++ bytes.flatMap (escape upper)).length (out ++ bytes) := by
  induction bytes generalizing before out with
  | nil => simp
  | cons byte bytes ih =>
    have hnext : StartsChar (bytes.flatMap (escape upper) ++ rest) := by
      cases bytes with
      | nil => exact hrest
      | cons byte' bytes => exact startsChar_cons _ (by decide)
    have hstep := percentDecodeLoop_escape upper byte before out hnext
    have hmore := ih (before ++ escape upper byte) (out ++ [byte])
    rw [List.flatMap_cons, List.append_assoc, hstep]
    simp only [List.append_assoc, List.length_append] at hmore ⊢
    exact hmore

theorem percentDecodeLoop_kept (bytes before rest out : Bytes) (hbytes : percent ∉ bytes) :
    percentDecodeLoop (before ++ (bytes ++ rest)) before.length out =
      percentDecodeLoop (before ++ (bytes ++ rest)) (before ++ bytes).length (out ++ bytes) := by
  induction bytes generalizing before out with
  | nil => simp
  | cons byte bytes ih =>
    have hmore := ih (before ++ [byte]) (out ++ [byte]) fun hmem ↦ hbytes (List.mem_cons_of_mem _ hmem)
    have hbyte : (before ++ (byte :: bytes ++ rest))[before.length]? = some byte := by
      rw [List.getElem?_append_right le_rfl, Nat.sub_self]
      rfl
    have hother : byte ≠ percent := fun heq ↦ hbytes (heq ▸ List.mem_cons_self)
    rw [percentDecodeLoop_other out hbyte hother]
    simp only [List.append_assoc, List.length_append, List.cons_append, List.nil_append] at hmore ⊢
    exact hmore

theorem percent_not_mem_encodeChar {c : Char} (h : c ≠ '%') :
    percent ∉ String.utf8EncodeChar c := by
  obtain ⟨byte, hc, -, rfl⟩ | ⟨lead, pending, more, hc, hlead, hmore⟩ := utf8EncodeChar_cases c
  · rw [hc, List.mem_singleton]
    rintro rfl
    exact h rfl
  · have hfirst := readLead_cases (congrArg Prod.fst hlead)
    have hrest := le_of_completes (lower_of_readLead (congrArg Prod.fst hlead)) hmore
    have hpercent : percent.toNat = 0x25 := rfl
    rw [hc]
    refine List.not_mem_cons_of_ne_of_not_mem ?_ fun hmem ↦ ?_
    · rintro rfl
      omega
    · exact absurd (hrest percent hmem) (by omega)

theorem percentEncode_cons (kept : Char → Bool) (upper : Bool) (c : Char) (chars : List Char) :
    percentEncode kept upper (c :: chars) =
      (if kept c ∧ c ≠ '%' then String.utf8EncodeChar c
        else (String.utf8EncodeChar c).flatMap (escape upper)) ++ percentEncode kept upper chars :=
  List.flatMap_cons

theorem startsChar_percentEncode (kept : Char → Bool) (upper : Bool) (chars : List Char) :
    StartsChar (percentEncode kept upper chars) := by
  cases chars with
  | nil =>
    intro byte hbyte
    cases hbyte
  | cons c chars =>
    rw [percentEncode_cons]
    by_cases hkept : kept c ∧ c ≠ '%'
    · rw [if_pos hkept]
      exact startsChar_encodeChar c _
    · obtain ⟨lead, more, hc, -⟩ := utf8EncodeChar_shape c
      rw [if_neg hkept, hc]
      exact startsChar_cons _ (by decide)

theorem percentDecodeLoop_percentEncode (kept : Char → Bool) (upper : Bool) (chars : List Char)
    (before out : Bytes) :
    percentDecodeLoop (before ++ percentEncode kept upper chars) before.length out =
      some (out ++ utf8Encode chars) := by
  induction chars generalizing before out with
  | nil =>
    rw [percentDecodeLoop, dif_neg (by simp [percentEncode])]
    simp [utf8Encode]
  | cons c chars ih =>
    have hout : out ++ utf8Encode (c :: chars) =
        (out ++ String.utf8EncodeChar c) ++ utf8Encode chars := by
      rw [utf8Encode, List.flatMap_cons, List.append_assoc]
      rfl
    rw [percentEncode_cons, hout]
    by_cases hkept : kept c ∧ c ≠ '%'
    · rw [if_pos hkept, percentDecodeLoop_kept _ _ _ _ (percent_not_mem_encodeChar hkept.2),
        ← List.append_assoc, ih]
    · rw [if_neg hkept, percentDecodeLoop_escapes upper _ _ _ (startsChar_percentEncode _ _ _),
        ← List.append_assoc, ih]

/-- Decoding gives back what was encoded. -/
theorem percentDecode_percentEncode (kept : Char → Bool) (upper : Bool) (chars : List Char) :
    percentDecode (percentEncode kept upper chars) = some (String.ofList chars) := by
  have hloop := percentDecodeLoop_percentEncode kept upper chars [] []
  rw [List.nil_append, List.nil_append] at hloop
  unfold percentDecode
  rw [← List.length_nil, hloop, Option.map_some, fromUtf8Lossy, lossyChars_utf8Encode]

/-! ### Which addresses panic -/

/-- Bytes are an address that passes every check up to its path, and a percent sign of the path is before
the middle of a character. -/
def SplitsPath (multiaddr : Bytes) : Prop :=
  isUtf8 multiaddr = true ∧ ∃ proto host port before raw after,
    parts multiaddr = proto :: host :: text "tcp" :: port ::
      (before ++ text "http-path" :: raw :: after) ∧
    (proto ∈ plainProtocols ∨ proto = text "ip6") ∧ (fromStrRadix 10 u16Max port).isSome = true ∧
    text "http-path" ∉ before ∧ ∃ i, SplitsAt raw i

/-- An address of a hosted provider whose path is a percent sign before a character of three bytes. -/
def splitAddress : Bytes := text "/dns4/host/tcp/443/tls/http/http-path/%€"

theorem splitsPath_splitAddress : SplitsPath splitAddress := by
  have hparts : parts splitAddress = text "dns4" :: text "host" :: text "tcp" :: text "443" ::
      ([text "tls", text "http"] ++ text "http-path" :: text "%€" :: []) := by
    decide +kernel
  exact ⟨by decide +kernel, _, _, _, _, _, _, hparts, Or.inl (by decide +kernel),
    by decide +kernel, by decide +kernel, 0, by decide +kernel, 0xAC, by decide +kernel, rfl⟩

theorem isInfix_intercalate {part : Bytes} {all : List Bytes} (sep : Bytes) (h : part ∈ all) :
    part <:+: List.intercalate sep all := by
  induction all with
  | nil => cases h
  | cons first all ih =>
    cases all with
    | nil => rw [List.mem_singleton.1 h, List.intercalate_singleton]
    | cons second all =>
      rw [List.intercalate_cons_cons]
      obtain rfl | hrest := List.mem_cons.1 h
      · rw [List.append_assoc]
        exact List.infix_append_left
      · exact (ih hrest).trans List.infix_append_right

theorem asciiWhole_of_mem_parts {multiaddr part : Bytes} (h : isUtf8 multiaddr = true)
    (hpart : part ∈ parts multiaddr) : AsciiWhole part := by
  have hinfix := isInfix_intercalate [slash] (List.mem_of_mem_filter hpart)
  rw [List.intercalate_splitOn] at hinfix
  exact List.IsChain.infix (asciiWhole_of_isUtf8 h) hinfix

theorem exists_readHost (proto host : Bytes) :
    (∃ result, readHost proto host = .ok result) ↔ proto ∈ plainProtocols ∨ proto = text "ip6" := by
  unfold readHost
  by_cases hplain : proto ∈ plainProtocols
  · rw [if_pos hplain]
    exact iff_of_true ⟨_, rfl⟩ (Or.inl hplain)
  · rw [if_neg hplain]
    by_cases hsix : proto = text "ip6"
    · rw [if_pos hsix]
      exact iff_of_true ⟨_, rfl⟩ (Or.inr hsix)
    · rw [if_neg hsix]
      simp [hplain, hsix]

/-- The path is the part after the first `http-path`. -/
theorem readPath_eq_some (rest : List Bytes) (raw : Bytes) :
    readPath rest = .ok (some raw) ↔ ∃ before after,
      rest = before ++ text "http-path" :: raw :: after ∧ text "http-path" ∉ before := by
  constructor
  · intro h
    unfold readPath at h
    cases hfind : rest.findIdx? (· = text "http-path") with
    | none =>
      rw [hfind] at h
      cases h
    | some idx =>
      rw [hfind] at h
      simp only [bind_eq_ok, require_eq_ok, pure_eq_ok, Option.some.injEq] at h
      obtain ⟨value, hraw, rfl⟩ := h
      obtain ⟨hidx, hhere, hbefore⟩ := List.findIdx?_eq_some_iff_getElem.1 hfind
      obtain ⟨hnext, hraw⟩ := List.getElem?_eq_some_iff.1 hraw
      refine ⟨rest.take idx, rest.drop (idx + 2), ?_, ?_⟩
      · rw [← of_decide_eq_true hhere, ← hraw, ← List.drop_eq_getElem_cons hnext,
          ← List.drop_eq_getElem_cons hidx, List.take_append_drop]
      · intro hmem
        obtain ⟨j, hj, hget⟩ := List.getElem_of_mem hmem
        rw [List.getElem_take] at hget
        rw [List.length_take] at hj
        exact hbefore j (by omega) (decide_eq_true hget)
  · rintro ⟨before, after, rfl, hbefore⟩
    have hfind : (before ++ text "http-path" :: raw :: after).findIdx? (· = text "http-path") =
        some before.length := by
      have hnone : before.findIdx? (· = text "http-path") = none := by
        rw [List.findIdx?_eq_none_iff]
        intro part hpart
        exact decide_eq_false fun heq ↦ hbefore (heq ▸ hpart)
      rw [List.findIdx?_append, hnone, List.findIdx?_cons, if_pos (decide_eq_true rfl)]
      simp
    unfold readPath
    rw [hfind]
    dsimp only
    rw [List.getElem?_append_right (by omega), Nat.add_sub_cancel_left]
    rfl

theorem readAddress_path (multiaddr raw : Bytes) :
    (∃ address, readAddress multiaddr = .ok address ∧ address.path = some raw) ↔
      isUtf8 multiaddr = true ∧ ∃ proto host port before after,
        parts multiaddr = proto :: host :: text "tcp" :: port ::
          (before ++ text "http-path" :: raw :: after) ∧
        (proto ∈ plainProtocols ∨ proto = text "ip6") ∧
        (fromStrRadix 10 u16Max port).isSome = true ∧ text "http-path" ∉ before := by
  unfold readAddress isUtf8
  cases utf8Error 0 none multiaddr with
  | some e => simp
  | none =>
    dsimp only
    split
    · case h_1 proto host transport port rest hparts =>
      simp only [bind_eq_ok, ensure_eq_ok, require_eq_ok, pure_eq_ok, decide_eq_true_eq]
      constructor
      · rintro ⟨address, ⟨hostStr, hhost, -, htcp, portNumber, hport, path, hrest, rfl⟩, hpath⟩
        dsimp only at hpath
        rw [hpath, readPath_eq_some] at hrest
        obtain ⟨before, after, rfl, hbefore⟩ := hrest
        exact ⟨rfl, proto, host, port, before, after, by rw [hparts, htcp],
          (exists_readHost proto host).1 ⟨hostStr, hhost⟩, by rw [hport]; rfl, hbefore⟩
      · rintro ⟨-, proto', host', port', before, after, hparts', hproto, hport, hbefore⟩
        rw [hparts'] at hparts
        cases hparts
        obtain ⟨hostStr, hhost⟩ := (exists_readHost proto host).2 hproto
        obtain ⟨portNumber, hport⟩ := Option.isSome_iff_exists.1 hport
        exact ⟨_, ⟨hostStr, hhost, (), rfl, portNumber, hport, some raw,
          (readPath_eq_some _ raw).2 ⟨before, after, rfl, hbefore⟩, rfl⟩, rfl⟩
    · case h_2 hshort =>
      refine iff_of_false (by simp) ?_
      rintro ⟨-, proto, host, port, before, after, hparts, -⟩
      exact hshort _ _ _ _ _ hparts

theorem parseMultiaddrToHttp_panics (multiaddr : Bytes) :
    parseMultiaddrToHttp multiaddr = .panics ↔ ∃ raw,
      (∃ address, readAddress multiaddr = .ok address ∧ address.path = some raw) ∧
        percentDecode raw = none := by
  unfold parseMultiaddrToHttp
  cases hread : readAddress multiaddr with
  | error error => simp
  | ok address =>
    cases hpath : address.path with
    | none => simp [hpath]
    | some raw =>
      cases hdecode : percentDecode raw with
      | none => simp [hpath, hdecode]
      | some decoded => simp [hpath, hdecode]

/-- Parsing an address panics exactly when a percent sign of its path is before the middle of a
character. -/
theorem parseMultiaddrToHttp_eq_panics (multiaddr : Bytes) :
    parseMultiaddrToHttp multiaddr = .panics ↔ SplitsPath multiaddr := by
  rw [parseMultiaddrToHttp_panics]
  constructor
  · rintro ⟨raw, hpath, hdecode⟩
    obtain ⟨htext, proto, host, port, before, after, hparts, hchecks⟩ :=
      (readAddress_path multiaddr raw).1 hpath
    have hwhole : AsciiWhole raw := asciiWhole_of_mem_parts htext (by rw [hparts]; simp)
    exact ⟨htext, proto, host, port, before, raw, after, hparts, hchecks.1, hchecks.2.1,
      hchecks.2.2, (percentDecode_eq_none hwhole).1 hdecode⟩
  · rintro ⟨htext, proto, host, port, before, raw, after, hparts, hproto, hport, hbefore, hsplits⟩
    have hwhole : AsciiWhole raw := asciiWhole_of_mem_parts htext (by rw [hparts]; simp)
    exact ⟨raw, (readAddress_path multiaddr raw).2
      ⟨htext, proto, host, port, before, after, hparts, hproto, hport, hbefore⟩,
      (percentDecode_eq_none hwhole).2 hsplits⟩

/-! ### What discovery lists -/

variable {chain : ChainReads AccountId}

/-- A provider makes the client panic exactly when its address does. -/
theorem discoverProvider_eq_none (accountId : AccountId) :
    discoverProvider chain accountId = none ↔ ∃ registration,
      chain.tryFetch accountId = some registration ∧ SplitsPath registration.multiaddr := by
  unfold discoverProvider
  cases hfetch : chain.tryFetch accountId with
  | none => simp
  | some registration =>
    have hpanics := parseMultiaddrToHttp_eq_panics registration.multiaddr
    cases hparse : parseMultiaddrToHttp registration.multiaddr with
    | panics => simp [hparse, hpanics.1 hparse]
    | returns result =>
      have hsafe : ¬SplitsPath registration.multiaddr := by
        rw [← hpanics, hparse]
        simp
      cases result with
      | ok endpoint => simp [hparse, hsafe]
      | error error => simp [hparse, hsafe]

/-- A provider that is listed is listed under its account, with nothing known of its health. -/
theorem listed_of_discoverProvider {accountId : AccountId} {info : ProviderInfo AccountId}
    (h : discoverProvider chain accountId = some info) :
    info.accountId = accountId ∧ info.status = .unknown := by
  unfold discoverProvider at h
  cases hfetch : chain.tryFetch accountId with
  | none =>
    rw [hfetch] at h
    cases h
    exact ⟨rfl, rfl⟩
  | some registration =>
    rw [hfetch] at h
    dsimp only at h
    cases hparse : parseMultiaddrToHttp registration.multiaddr with
    | panics =>
      rw [hparse] at h
      cases h
    | returns result =>
      rw [hparse] at h
      cases result with
      | ok endpoint =>
        cases h
        exact ⟨rfl, rfl⟩
      | error error =>
        cases h
        exact ⟨rfl, rfl⟩

theorem discoverProviders_eq_none (chain : ChainReads AccountId)
    (providers : List (ProviderInfo AccountId)) (accounts : List AccountId) :
    discoverProviders chain providers accounts = none ↔
      ∃ accountId ∈ accounts, discoverProvider chain accountId = none := by
  induction accounts generalizing providers with
  | nil => simp [discoverProviders]
  | cons accountId rest ih =>
    rw [discoverProviders]
    cases hfirst : discoverProvider chain accountId with
    | none => simp [hfirst]
    | some info => simp [ih, hfirst]

theorem accounts_of_discoverProviders {providers result : List (ProviderInfo AccountId)}
    {accounts : List AccountId} (h : discoverProviders chain providers accounts = some result) :
    result.map ProviderInfo.accountId = providers.map ProviderInfo.accountId ++ accounts := by
  induction accounts generalizing providers with
  | nil =>
    cases h
    rw [List.append_nil]
  | cons accountId rest ih =>
    rw [discoverProviders] at h
    cases hfirst : discoverProvider chain accountId with
    | none =>
      rw [hfirst] at h
      cases h
    | some info =>
      rw [hfirst] at h
      rw [ih h, List.map_append, List.map_singleton, (listed_of_discoverProvider hfirst).1,
        List.append_assoc]
      rfl

theorem discovery_eq {accounts : List AccountId} {bucketId : ℕ}
    (haccounts : primaryAccounts chain bucketId = .ok accounts) :
    discoverProvidersFromChain (.ok chain) bucketId =
      match discoverProviders chain [] accounts with
      | none => .panics
      | some providers => .returns (.ok providers) := by
  unfold discoverProvidersFromChain
  rw [ok_bind, haccounts, ok_bind]
  rfl

/-- Discovery panics exactly when a record that it reads has a path that splits a character. -/
theorem discovery_panics_iff {accounts : List AccountId} {bucketId : ℕ}
    (haccounts : primaryAccounts chain bucketId = .ok accounts) :
    discoverProvidersFromChain (.ok chain) bucketId = .panics ↔
      ∃ accountId ∈ accounts, ∃ registration, chain.tryFetch accountId = some registration ∧
        SplitsPath registration.multiaddr := by
  rw [discovery_eq haccounts]
  simp only [← discoverProvider_eq_none, ← discoverProviders_eq_none chain []]
  cases discoverProviders chain [] accounts with
  | none => exact iff_of_true rfl rfl
  | some providers => exact iff_of_false nofun nofun

/-- Discovery lists every primary provider of a bucket in order exactly when no record it reads has a
path that splits a character, and panics exactly when one has. -/
theorem discovery_lists_iff {accounts : List AccountId} {bucketId : ℕ}
    (haccounts : primaryAccounts chain bucketId = .ok accounts) :
    ((∃ providers, discoverProvidersFromChain (.ok chain) bucketId = .returns (.ok providers) ∧
        providers.map ProviderInfo.accountId = accounts) ↔
      ∀ accountId ∈ accounts, ∀ registration, chain.tryFetch accountId = some registration →
        ¬SplitsPath registration.multiaddr) ∧
    (discoverProvidersFromChain (.ok chain) bucketId = .panics ↔
      ∃ accountId ∈ accounts, ∃ registration, chain.tryFetch accountId = some registration ∧
        SplitsPath registration.multiaddr) := by
  have hpanics := discovery_panics_iff haccounts
  refine ⟨⟨?_, fun hsafe ↦ ?_⟩, hpanics⟩
  · rintro ⟨providers, hlisted, -⟩ accountId hmem registration hfetch hsplits
    rw [hpanics.2 ⟨accountId, hmem, registration, hfetch, hsplits⟩] at hlisted
    cases hlisted
  · rw [discovery_eq haccounts] at hpanics ⊢
    cases hproviders : discoverProviders chain [] accounts with
    | none =>
      rw [hproviders] at hpanics
      obtain ⟨accountId, hmem, registration, hfetch, hsplits⟩ := hpanics.1 rfl
      exact absurd hsplits (hsafe accountId hmem registration hfetch)
    | some providers => exact ⟨providers, rfl, accounts_of_discoverProviders hproviders⟩

/-- A record with an address. -/
def recordAt (multiaddr : Bytes) : Pallet.ProviderInfo :=
  ⟨multiaddr, [], 0, 0, .default, .new 0, none, 0⟩

def localAddress : Bytes := text "/ip4/127.0.0.1/tcp/3333"

/-- A bucket with the primary providers 2 and 3 and their records. -/
def pairOfRecords (first second : Bytes) : ChainReads ℕ where
  fetchBucket _ := .ok (some ⟨[], .publicRead, none, 1, [2, 3], none, fun _ ↦ (0, .default), 0, 1, 0⟩)
  providersEntry := .ok ()
  tryFetch accountId := if accountId = 2 then some (recordAt first) else
    if accountId = 3 then some (recordAt second) else none

theorem not_splitsPath_localAddress : ¬SplitsPath localAddress := by
  rintro ⟨-, proto, host, port, before, raw, after, hparts, -⟩
  have hlength : (parts localAddress).length = 4 := by decide +kernel
  rw [hparts] at hlength
  simp at hlength

/-- Two providers are listed, and neither of them is when the address of the second splits a character. -/
theorem discovery_lists_iff_two :
    (∃ providers, discoverProvidersFromChain (.ok (pairOfRecords localAddress localAddress)) 0 =
        .returns (.ok providers) ∧ providers.map ProviderInfo.accountId = [2, 3]) ∧
      discoverProvidersFromChain (.ok (pairOfRecords localAddress splitAddress)) 0 = .panics := by
  have haccounts (first second : Bytes) : primaryAccounts (pairOfRecords first second) 0 = .ok [2, 3] := rfl
  refine ⟨(discovery_lists_iff (haccounts _ _)).1.2 ?_, (discovery_lists_iff (haccounts _ _)).2.2
    ⟨3, by decide, recordAt splitAddress, rfl, splitsPath_splitAddress⟩⟩
  intro accountId hmem registration hfetch
  obtain rfl : recordAt localAddress = registration := by
    fin_cases hmem
    · exact Option.some.inj hfetch
    · exact Option.some.inj hfetch
  exact not_splitsPath_localAddress

section Chain

variable [DecidableEq AccountId]

/-- A client that reads the storage of the pallet. -/
def chainReads (s : State AccountId) : ChainReads AccountId where
  fetchBucket bucketId := .ok (s.buckets.lookup bucketId)
  providersEntry := .ok ()
  tryFetch := s.providers.lookup

/-- A primary provider that changes its address to one whose path splits a character makes discovery
panic, whoever asks for the bucket. -/
theorem discovery_panics_of_update {s s' : State AccountId} {who : AccountId} {multiaddr : Bytes}
    {bucketId : ℕ} {bucket : Bucket AccountId}
    (h : updateProviderMultiaddr who multiaddr s = .ok s') (hsplits : SplitsPath multiaddr)
    (hbucket : s.buckets.lookup bucketId = some bucket) (hwho : who ∈ bucket.primaryProviders) :
    discoverProvidersFromChain (.ok (chainReads s')) bucketId = .panics := by
  obtain ⟨provider, -, hs'⟩ := updateProviderMultiaddr_ok h
  have hfetch : (chainReads s').tryFetch who = some { provider with multiaddr := multiaddr } := by
    change s'.providers.lookup who = _
    rw [hs', FiniteMap.lookup_insert_eq, if_pos rfl]
  have hread : (chainReads s').fetchBucket bucketId = .ok (some bucket) := by
    change Except.ok (s'.buckets.lookup bucketId) = _
    rw [hs', hbucket]
  have haccounts : primaryAccounts (chainReads s') bucketId = .ok bucket.primaryProviders := by
    have hsome : bucket.primaryProviders.isEmpty = false :=
      List.isEmpty_eq_false_iff_exists_mem.2 ⟨who, hwho⟩
    unfold primaryAccounts
    rw [hread, ok_bind, require_some, ok_bind]
    dsimp only
    rw [hsome]
    rfl
  exact (discovery_panics_iff haccounts).2 ⟨who, hwho, _, hfetch, hsplits⟩

end Chain

/-- Parsing an address returns, with a URL or an error, for all bytes but those whose path splits a
character. Decoding returns every text from its percent-encoding. -/
theorem multiaddr_parsing_safe (multiaddr : Bytes) :
    ((∃ result, parseMultiaddrToHttp multiaddr = .returns result) ↔ ¬SplitsPath multiaddr) ∧
      ∀ kept upper chars,
        percentDecode (percentEncode kept upper chars) = some (String.ofList chars) := by
  refine ⟨?_, percentDecode_percentEncode⟩
  rw [← parseMultiaddrToHttp_eq_panics]
  cases parseMultiaddrToHttp multiaddr with
  | panics => simp
  | returns result => simp

/-- The slice behind the percent sign ends within the character. -/
theorem splitAddress_panics : parseMultiaddrToHttp splitAddress = .panics :=
  (parseMultiaddrToHttp_eq_panics splitAddress).2 splitsPath_splitAddress

end Web3Storage.Client
