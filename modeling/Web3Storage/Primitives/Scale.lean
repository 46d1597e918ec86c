import Web3Storage.Foundations.Codec
import Web3Storage.Primitives.Types

/-!
# SCALE

The codecs of the fixed-width and compact numbers, and of lists with a bound behind a compact length. A
compact number has one encoding: the shortest mode that holds it.
-/

set_option autoImplicit false
set_option relaxedAutoImplicit false

namespace Web3Storage.Primitives

open Foundations

/-- A number in a field of `width` bytes. -/
abbrev Word (width : ℕ) := { n : ℕ // n < 256 ^ width }

/-- A number cut to its field. -/
def Word.ofNat (width n : ℕ) : Word width := ⟨n % 256 ^ width, Nat.mod_lt _ (by positivity)⟩

/-- A list of at most `bound` values. -/
abbrev BoundedVec (α : Type) (bound : ℕ) := { values : List α // values.length ≤ bound }

namespace BoundedVec

variable {α : Type} {bound : ℕ}

/-- A list within the bound. -/
def tryFrom (values : List α) : Option (BoundedVec α bound) :=
  if hfits : values.length ≤ bound then some ⟨values, hfits⟩ else none

theorem tryFrom_eq_some {values : List α} {bounded : BoundedVec α bound} :
    tryFrom values = some bounded ↔ values = bounded.1 := by
  unfold tryFrom
  split_ifs with hfits
  · rw [Option.some.injEq, Subtype.ext_iff]
  · simp only [false_iff]
    rintro rfl
    exact hfits bounded.2

theorem tryFrom_eq_none {values : List α} :
    (tryFrom values : Option (BoundedVec α bound)) = none ↔ bound < values.length := by
  unfold tryFrom
  split_ifs with hfits
  · simp only [false_iff]
    omega
  · simp only [true_iff]
    omega

variable (values : BoundedVec α bound)

def set (pos : ℕ) (value : α) : BoundedVec α bound :=
  ⟨values.1.set pos value, List.length_set.trans_le values.2⟩

/-- Insert a value, unless the list is full. -/
def tryInsert (pos : ℕ) (value : α) : Option (BoundedVec α bound) :=
  if hroom : values.1.length < bound then
    some ⟨values.1.insertIdx pos value, List.length_insertIdx_le_succ.trans hroom⟩
  else none

def remove (pos : ℕ) : BoundedVec α bound :=
  ⟨values.1.eraseIdx pos, (List.length_eraseIdx_le _ _).trans values.2⟩

end BoundedVec

namespace Scale

/-- The number of some little-endian bytes. -/
def ofLittleEndian (bytes : Bytes) : ℕ := bytes.foldr (fun byte rest ↦ byte.toNat + 256 * rest) 0

theorem ofLittleEndian_lt (bytes : Bytes) : ofLittleEndian bytes < 256 ^ bytes.length := by
  induction bytes with
  | nil => exact Nat.one_pos
  | cons byte rest ih =>
    have hbyte := byte.toNat_lt
    change byte.toNat + 256 * ofLittleEndian rest < _
    rw [List.length_cons, pow_succ]
    omega

theorem littleEndian_ofLittleEndian (bytes : Bytes) :
    littleEndian bytes.length (ofLittleEndian bytes) = bytes := by
  induction bytes with
  | nil => rfl
  | cons byte rest ih =>
    have hbyte := byte.toNat_lt
    change littleEndian (rest.length + 1) (byte.toNat + 256 * ofLittleEndian rest) = _
    have hhigh : (byte.toNat + 256 * ofLittleEndian rest) / 256 = ofLittleEndian rest := by omega
    rw [littleEndian_succ, hhigh, ih]
    have hlow : UInt8.ofNat (byte.toNat + 256 * ofLittleEndian rest) = byte := by
      refine UInt8.toNat_inj.1 ?_
      rw [UInt8.toNat_ofNat']
      omega
    rw [hlow]

theorem ofLittleEndian_littleEndian {width n : ℕ} (h : n < 256 ^ width) :
    ofLittleEndian (littleEndian width n) = n := by
  refine littleEndian_inj ?_ h ?_
  · have hlt := ofLittleEndian_lt (littleEndian width n)
    rw [length_littleEndian] at hlt
    exact hlt
  · have hsame := littleEndian_ofLittleEndian (littleEndian width n)
    rw [length_littleEndian] at hsame
    exact hsame

/-- A number of a fixed width, its lowest byte first. -/
def uint (width : ℕ) : Codec (Word width) :=
  (Codec.fixed width).map
    { toFun := fun bytes ↦ ⟨ofLittleEndian bytes.1, by
        have hlt := ofLittleEndian_lt bytes.1
        rw [bytes.2] at hlt
        exact hlt⟩
      invFun := fun n ↦ ⟨littleEndian width n.1, length_littleEndian _ _⟩
      left_inv := fun bytes ↦ by
        obtain ⟨bytes, rfl⟩ := bytes
        exact Subtype.ext (littleEndian_ofLittleEndian bytes)
      right_inv := fun n ↦ Subtype.ext (ofLittleEndian_littleEndian n.2) }

@[simp]
theorem encode_uint {width : ℕ} (n : Word width) : (uint width).encode n = littleEndian width n.1 := rfl

/-- A hash is its 32 bytes. -/
def h256 : Codec H256 :=
  (Codec.fixed 32).map
    { toFun := fun bytes ↦ ⟨bytes.1, bytes.2⟩
      invFun := fun hash ↦ ⟨hash.bytes, hash.length_bytes⟩
      left_inv := fun _ ↦ rfl
      right_inv := fun _ ↦ rfl }

/-! ### Compact numbers -/

def encodeCompact (n : ℕ) : Bytes :=
  if n < 2 ^ 6 then littleEndian 1 (4 * n)
  else if n < 2 ^ 14 then littleEndian 2 (4 * n + 1)
  else if n < 2 ^ 30 then littleEndian 4 (4 * n + 2)
  else 3 :: littleEndian 4 n

/-- Read a compact number. One in a longer mode than it needs is refused. -/
def decodeCompact (bytes : Bytes) : Option (Word 4 × Bytes) :=
  match bytes with
  | [] => none
  | first :: rest =>
    match first.toNat % 4 with
    | 0 => some (Word.ofNat 4 (first.toNat / 4), rest)
    | 1 => ((uint 2).decode bytes).bind fun found ↦
        if 2 ^ 6 ≤ found.1.1 / 4 then some (Word.ofNat 4 (found.1.1 / 4), found.2) else none
    | 2 => ((uint 4).decode bytes).bind fun found ↦
        if 2 ^ 14 ≤ found.1.1 / 4 then some (Word.ofNat 4 (found.1.1 / 4), found.2) else none
    | _ =>
      if first.toNat / 4 = 0 then
        ((uint 4).decode rest).bind fun found ↦
          if 2 ^ 30 ≤ found.1.1 then some found else none
      else none

private theorem littleEndian_append_cons (width n : ℕ) (rest : Bytes) :
    ∃ first more, littleEndian (width + 1) n ++ rest = first :: more ∧ first.toNat = n % 256 := by
  refine ⟨UInt8.ofNat n, littleEndian width (n / 256) ++ rest, ?_, UInt8.toNat_ofNat'⟩
  rw [littleEndian_succ, List.cons_append]

theorem decode_uint_append {width n : ℕ} (hn : n < 256 ^ width) (rest : Bytes) :
    (uint width).decode (littleEndian width n ++ rest) = some (⟨n, hn⟩, rest) :=
  (uint width).decode_encode ⟨n, hn⟩ rest

private theorem decode_uint_cons {width : ℕ} {first : UInt8} {more : Bytes} {word : Word (width + 1)}
    {rest : Bytes} (h : (uint (width + 1)).decode (first :: more) = some (word, rest)) :
    first :: more = littleEndian (width + 1) word.1 ++ rest ∧ first.toNat = word.1 % 256 := by
  have hbytes : first :: more = littleEndian (width + 1) word.1 ++ rest :=
    (uint (width + 1)).decode_eq_some.1 h
  obtain ⟨first', more', hcons, hfirst⟩ := littleEndian_append_cons width word.1 rest
  rw [← hbytes] at hcons
  cases hcons
  exact ⟨hbytes, hfirst⟩

theorem ofNat_of_lt {width n : ℕ} (h : n < 256 ^ width) : Word.ofNat width n = ⟨n, h⟩ :=
  Subtype.ext (Nat.mod_eq_of_lt h)

theorem decodeCompact_encodeCompact {n : ℕ} (hn : n < 256 ^ 4) (rest : Bytes) :
    decodeCompact (encodeCompact n ++ rest) = some (⟨n, hn⟩, rest) := by
  unfold encodeCompact
  split_ifs with hone htwo hfour
  · have hbytes : littleEndian 1 (4 * n) ++ rest = UInt8.ofNat (4 * n) :: rest := by
      rw [littleEndian_succ]
      rfl
    have hfirst : (UInt8.ofNat (4 * n)).toNat = 4 * n := by
      rw [UInt8.toNat_ofNat']
      omega
    have hmode : 4 * n % 4 = 0 := by omega
    have hvalue : 4 * n / 4 = n := by omega
    rw [hbytes]
    simp only [decodeCompact, hfirst, hmode, hvalue, ofNat_of_lt hn]
  · have hread := @decode_uint_append 2 (4 * n + 1) (by omega) rest
    obtain ⟨first, more, hbytes, hfirst⟩ := littleEndian_append_cons 1 (4 * n + 1) rest
    have hmode : (4 * n + 1) % 256 % 4 = 1 := by omega
    have hvalue : (4 * n + 1) / 4 = n := by omega
    rw [hbytes] at hread ⊢
    simp only [decodeCompact, hfirst, hmode, hread, Option.bind_some, hvalue, ofNat_of_lt hn]
    exact if_pos (by omega)
  · have hread := @decode_uint_append 4 (4 * n + 2) (by omega) rest
    obtain ⟨first, more, hbytes, hfirst⟩ := littleEndian_append_cons 3 (4 * n + 2) rest
    have hmode : (4 * n + 2) % 256 % 4 = 2 := by omega
    have hvalue : (4 * n + 2) / 4 = n := by omega
    rw [hbytes] at hread ⊢
    simp only [decodeCompact, hfirst, hmode, hread, Option.bind_some, hvalue, ofNat_of_lt hn]
    exact if_pos (by omega)
  · have hfirst : (3 : UInt8).toNat % 4 = 3 := rfl
    have hrest : (3 : UInt8).toNat / 4 = 0 := rfl
    rw [List.cons_append]
    simp only [decodeCompact, hfirst, hrest, if_true, decode_uint_append hn, Option.bind_some]
    exact if_pos (by omega)

theorem encodeCompact_decodeCompact {bytes : Bytes} {n : Word 4} {rest : Bytes}
    (h : decodeCompact bytes = some (n, rest)) : encodeCompact n.1 ++ rest = bytes := by
  unfold decodeCompact at h
  cases bytes with
  | nil => cases h
  | cons first more =>
    have hfirst := first.toNat_lt
    simp only at h
    split at h
    · rename_i hmode
      cases h
      have hvalue : (Word.ofNat 4 (first.toNat / 4)).1 = first.toNat / 4 :=
        Nat.mod_eq_of_lt (by omega)
      have hback : 4 * (first.toNat / 4) = first.toNat := by omega
      rw [hvalue, encodeCompact, if_pos (by omega), hback, littleEndian_succ, UInt8.ofNat_toNat]
      rfl
    · rename_i hmode
      obtain ⟨⟨word, rest'⟩, hword, hlong⟩ := Option.bind_eq_some_iff.1 h
      split_ifs at hlong with hshort
      cases hlong
      obtain ⟨hbytes, hlow⟩ := decode_uint_cons hword
      obtain ⟨word, hword⟩ := word
      simp only at hshort hlow hbytes ⊢
      have hvalue : (Word.ofNat 4 (word / 4)).1 = word / 4 := Nat.mod_eq_of_lt (by omega)
      have hback : 4 * (word / 4) + 1 = word := by omega
      rw [hvalue, encodeCompact, if_neg (by omega), if_pos (by omega), hback, hbytes]
    · rename_i hmode
      obtain ⟨⟨word, rest'⟩, hword, hlong⟩ := Option.bind_eq_some_iff.1 h
      split_ifs at hlong with hshort
      cases hlong
      obtain ⟨hbytes, hlow⟩ := decode_uint_cons hword
      obtain ⟨word, hword⟩ := word
      simp only at hshort hlow hbytes ⊢
      have hvalue : (Word.ofNat 4 (word / 4)).1 = word / 4 := Nat.mod_eq_of_lt (by omega)
      have hback : 4 * (word / 4) + 2 = word := by omega
      rw [hvalue, encodeCompact, if_neg (by omega), if_neg (by omega), if_pos (by omega), hback,
        hbytes]
    · rename_i hzero hone htwo
      split_ifs at h with hpre
      obtain ⟨⟨word, rest'⟩, hword, hlong⟩ := Option.bind_eq_some_iff.1 h
      split_ifs at hlong with hshort
      cases hlong
      have hbytes : more = littleEndian 4 n.1 ++ rest := (uint 4).decode_eq_some.1 hword
      have hthree : first = 3 := by
        refine UInt8.toNat_inj.1 ?_
        change first.toNat = 3
        have hnot : first.toNat % 4 ≠ 0 ∧ first.toNat % 4 ≠ 1 ∧ first.toNat % 4 ≠ 2 :=
          ⟨hzero, hone, htwo⟩
        omega
      have hlarge : 2 ^ 30 ≤ n.1 := hshort
      change encodeCompact n.1 ++ rest = first :: more
      rw [encodeCompact, if_neg (by omega), if_neg (by omega), if_neg (by omega), hthree, hbytes,
        List.cons_append]

/-- A number of at most `bound` in its compact form. -/
def compact (bound : ℕ) (hbound : bound < 256 ^ 4) : Codec { n : ℕ // n ≤ bound } :=
  Codec.refine
    { encode := fun n : Word 4 ↦ encodeCompact n.1
      decode := decodeCompact
      decode_encode := fun n rest ↦ decodeCompact_encodeCompact n.2 rest
      encode_decode := encodeCompact_decodeCompact }
    (fun raw ↦ if h : raw.1 ≤ bound then some ⟨raw.1, h⟩ else none)
    (fun n ↦ ⟨n.1, Nat.lt_of_le_of_lt n.2 hbound⟩)
    (fun n ↦ dif_pos n.2)
    (fun {raw n} h ↦ by
      split_ifs at h with hle
      cases h
      rfl)

/-- A list of at most `bound` values behind its length. -/
def vec {α : Type} (bound : ℕ) (codec : Codec α) (hbound : bound < 256 ^ 4 := by decide) :
    Codec (BoundedVec α bound) :=
  Codec.list (compact bound hbound) codec

/-- One byte. -/
def u8 : Codec UInt8 :=
  (uint 1).map
    { toFun := fun n ↦ UInt8.ofNat n.1
      invFun := fun byte ↦ ⟨byte.toNat, byte.toNat_lt⟩
      left_inv := fun n ↦ Subtype.ext (UInt8.toNat_ofNat'.trans (Nat.mod_eq_of_lt n.2))
      right_inv := fun _ ↦ UInt8.ofNat_toNat }

/-! ### Largest encodings -/

/-- The largest encoding of a list of at most `bound` values of at most `item` bytes. -/
def vecMaxEncodedLen (bound item : ℕ) : ℕ := (encodeCompact bound).length + bound * item

theorem atMost_uint (width : ℕ) : (uint width).AtMost width := (Codec.atMost_fixed width).map _

theorem atMost_h256 : h256.AtMost 32 := (Codec.atMost_fixed 32).map _

theorem atMost_u8 : u8.AtMost 1 := (atMost_uint 1).map _

/-- A larger number has no shorter compact form. -/
theorem length_encodeCompact_le {n bound : ℕ} (h : n ≤ bound) :
    (encodeCompact n).length ≤ (encodeCompact bound).length := by
  unfold encodeCompact
  split_ifs
  all_goals
    simp only [List.length_cons, length_littleEndian]
    omega

theorem atMost_vec {α : Type} {bound item : ℕ} {codec : Codec α} {hbound : bound < 256 ^ 4}
    (h : codec.AtMost item) : (vec bound codec hbound).AtMost (vecMaxEncodedLen bound item) := by
  have hcount : (compact bound hbound).AtMost (encodeCompact bound).length :=
    fun n ↦ length_encodeCompact_le n.2
  exact hcount.list h

end Scale

end Web3Storage.Primitives
