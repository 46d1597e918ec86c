import Mathlib

/-!
# Codecs

A codec reads a value off the front of some bytes. It reads back what it wrote whatever follows, and it
reads nothing but what it would write, so that no two readings of one byte string differ.
-/

set_option autoImplicit false
set_option relaxedAutoImplicit false

namespace Web3Storage.Foundations

/-- An encoding that is read off the front of any bytes, and the only one that is read so. -/
structure Codec (α : Type) where
  encode : α → List UInt8
  decode : List UInt8 → Option (α × List UInt8)
  decode_encode : ∀ value rest, decode (encode value ++ rest) = some (value, rest)
  encode_decode : ∀ {bytes value rest}, decode bytes = some (value, rest) →
    encode value ++ rest = bytes

namespace Codec

variable {α β γ : Type}

/-- A value and what follows it are read back from their bytes. -/
theorem decode_eq_some (codec : Codec α) {bytes : List UInt8} {value : α} {rest : List UInt8} :
    codec.decode bytes = some (value, rest) ↔ bytes = codec.encode value ++ rest := by
  constructor
  · exact fun h ↦ (codec.encode_decode h).symm
  · rintro rfl
    exact codec.decode_encode value rest

/-- Two values with the same bytes in front are the same, and so is what follows. -/
theorem encode_append_inj (codec : Codec α) {value value' : α} {rest rest' : List UInt8}
    (h : codec.encode value ++ rest = codec.encode value' ++ rest') : value = value' ∧ rest = rest' := by
  have hread := codec.decode_encode value rest
  rw [h, codec.decode_encode] at hread
  cases hread
  exact ⟨rfl, rfl⟩

theorem encode_inj (codec : Codec α) {value value' : α} (h : codec.encode value = codec.encode value') :
    value = value' := by
  have happend : codec.encode value ++ [] = codec.encode value' ++ [] := by rw [h]
  exact (codec.encode_append_inj happend).1

/-- Read a value that fills the bytes. -/
def decodeAll (codec : Codec α) (bytes : List UInt8) : Option α :=
  match codec.decode bytes with
  | some (value, []) => some value
  | _ => none

theorem decodeAll_eq_some (codec : Codec α) {bytes : List UInt8} {value : α} :
    codec.decodeAll bytes = some value ↔ bytes = codec.encode value := by
  unfold decodeAll
  constructor
  · intro h
    split at h
    · rename_i other hread
      cases h
      rw [decode_eq_some, List.append_nil] at hread
      exact hread
    · cases h
  · intro h
    have hread : codec.decode bytes = some (value, []) := by
      rw [decode_eq_some, List.append_nil]
      exact h
    rw [hread]

/-- Read values of another type, some of which have no reading. -/
def refine (codec : Codec α) (read : α → Option β) (write : β → α)
    (read_write : ∀ value, read (write value) = some value)
    (write_read : ∀ {raw value}, read raw = some value → write value = raw) : Codec β where
  encode value := codec.encode (write value)
  decode bytes := (codec.decode bytes).bind fun found ↦ (read found.1).map (·, found.2)
  decode_encode value rest := by
    rw [codec.decode_encode, Option.bind_some, read_write]
    rfl
  encode_decode {bytes value rest} h := by
    obtain ⟨⟨raw, rest'⟩, hraw, hread⟩ := Option.bind_eq_some_iff.1 h
    obtain ⟨value', hvalue, hsame⟩ := Option.map_eq_some_iff.1 hread
    cases hsame
    rw [write_read hvalue]
    exact codec.encode_decode hraw

/-- Read values of an equivalent type. -/
def map (codec : Codec α) (equiv : α ≃ β) : Codec β :=
  codec.refine (fun raw ↦ some (equiv raw)) equiv.symm
    (fun value ↦ by rw [Equiv.apply_symm_apply])
    (fun {raw value} h ↦ by rw [← Option.some.inj h, Equiv.symm_apply_apply])

/-- Read two values one after the other. -/
def pair (first : Codec α) (second : Codec β) : Codec (α × β) where
  encode values := first.encode values.1 ++ second.encode values.2
  decode bytes := (first.decode bytes).bind fun found ↦
    (second.decode found.2).map fun next ↦ ((found.1, next.1), next.2)
  decode_encode values rest := by
    rw [List.append_assoc, first.decode_encode, Option.bind_some, second.decode_encode]
    rfl
  encode_decode {bytes values rest} h := by
    obtain ⟨⟨left, middle⟩, hleft, hnext⟩ := Option.bind_eq_some_iff.1 h
    obtain ⟨⟨right, rest'⟩, hright, hsame⟩ := Option.map_eq_some_iff.1 hnext
    cases hsame
    simp only at hright ⊢
    rw [List.append_assoc, second.encode_decode hright, first.encode_decode hleft]

/-- Bytes of a fixed number. -/
def fixed (width : ℕ) : Codec { bytes : List UInt8 // bytes.length = width } where
  encode value := value.1
  decode bytes :=
    if h : width ≤ bytes.length then
      some (⟨bytes.take width, List.length_take_of_le h⟩, bytes.drop width)
    else none
  decode_encode value rest := by
    obtain ⟨value, rfl⟩ := value
    have hle : value.length ≤ (value ++ rest).length := by simp
    rw [dif_pos hle]
    simp
  encode_decode {bytes value rest} h := by
    split_ifs at h with hle
    cases h
    exact List.take_append_drop _ _

/-- Read some number of values one after the other. -/
def decodeMany (codec : Codec α) : ℕ → List UInt8 → Option (List α × List UInt8)
  | 0, bytes => some ([], bytes)
  | count + 1, bytes =>
    (codec.decode bytes).bind fun found ↦
      (codec.decodeMany count found.2).map fun next ↦ (found.1 :: next.1, next.2)

theorem decodeMany_eq_some (codec : Codec α) {count : ℕ} {bytes : List UInt8} {values : List α}
    {rest : List UInt8} : codec.decodeMany count bytes = some (values, rest) ↔
      values.length = count ∧ bytes = values.flatMap codec.encode ++ rest := by
  induction count generalizing bytes values with
  | zero =>
    simp only [decodeMany, Option.some.injEq, Prod.mk.injEq]
    constructor
    · rintro ⟨rfl, rfl⟩
      exact ⟨rfl, rfl⟩
    · rintro ⟨hlength, rfl⟩
      rw [List.eq_nil_of_length_eq_zero hlength]
      exact ⟨rfl, rfl⟩
  | succ count ih =>
    simp only [decodeMany, Option.bind_eq_some_iff, Option.map_eq_some_iff]
    constructor
    · rintro ⟨⟨value, middle⟩, hvalue, ⟨more, rest'⟩, hmore, hsame⟩
      cases hsame
      obtain ⟨hlength, hmiddle⟩ := ih.1 hmore
      refine ⟨by rw [List.length_cons, hlength], ?_⟩
      rw [List.flatMap_cons, List.append_assoc, ← hmiddle]
      exact codec.decode_eq_some.1 hvalue
    · rintro ⟨hlength, rfl⟩
      obtain ⟨value, more, rfl⟩ := List.exists_of_length_succ values hlength
      rw [List.flatMap_cons, List.append_assoc]
      refine ⟨(value, more.flatMap codec.encode ++ rest), codec.decode_encode _ _, (more, rest),
        ih.2 ⟨Nat.succ.inj hlength, rfl⟩, rfl⟩

/-- A list behind its length. -/
def list {bound : ℕ} (count : Codec { n : ℕ // n ≤ bound }) (codec : Codec α) :
    Codec { values : List α // values.length ≤ bound } where
  encode values := count.encode ⟨values.1.length, values.2⟩ ++ values.1.flatMap codec.encode
  decode bytes := (count.decode bytes).bind fun length ↦
    match h : codec.decodeMany length.1.1 length.2 with
    | none => none
    | some found => some (⟨found.1, by
        rw [(codec.decodeMany_eq_some.1 h).1]
        exact length.1.2⟩, found.2)
  decode_encode values rest := by
    rw [List.append_assoc, count.decode_encode, Option.bind_some]
    have hmany : codec.decodeMany values.1.length (values.1.flatMap codec.encode ++ rest) =
        some (values.1, rest) := codec.decodeMany_eq_some.2 ⟨rfl, rfl⟩
    simp only
    split
    · rename_i hnone
      rw [hmany] at hnone
      cases hnone
    · rename_i found hfound
      rw [hmany] at hfound
      cases hfound
      rfl
  encode_decode {bytes values rest} h := by
    obtain ⟨⟨length, middle⟩, hlength, hvalues⟩ := Option.bind_eq_some_iff.1 h
    simp only at hvalues
    split at hvalues
    · cases hvalues
    · rename_i found hfound
      cases hvalues
      obtain ⟨hcount, hmiddle⟩ := codec.decodeMany_eq_some.1 hfound
      have hsame : (⟨found.1.length, by rw [hcount]; exact length.2⟩ : { n : ℕ // n ≤ bound }) =
          length := Subtype.ext hcount
      rw [List.append_assoc]
      change count.encode ⟨found.1.length, _⟩ ++ (found.1.flatMap codec.encode ++ found.2) = bytes
      rw [hsame, count.decode_eq_some.1 hlength]
      exact congrArg _ hmiddle.symm

/-! ### Lengths -/

/-- No value takes more than a number of bytes. -/
def AtMost (codec : Codec α) (length : ℕ) : Prop := ∀ value, (codec.encode value).length ≤ length

theorem AtMost.refine {codec : Codec α} {length : ℕ} (h : codec.AtMost length) (read : α → Option β)
    (write : β → α) (read_write : ∀ value, read (write value) = some value)
    (write_read : ∀ {raw value}, read raw = some value → write value = raw) :
    (codec.refine read write read_write write_read).AtMost length :=
  fun value ↦ h (write value)

theorem AtMost.map {codec : Codec α} {length : ℕ} (h : codec.AtMost length) (equiv : α ≃ β) :
    (codec.map equiv).AtMost length :=
  fun value ↦ h (equiv.symm value)

theorem AtMost.pair {first : Codec α} {second : Codec β} {length length' : ℕ}
    (h : first.AtMost length) (h' : second.AtMost length') :
    (first.pair second).AtMost (length + length') := by
  intro values
  change (first.encode values.1 ++ second.encode values.2).length ≤ _
  rw [List.length_append]
  exact Nat.add_le_add (h values.1) (h' values.2)

theorem atMost_fixed (width : ℕ) : (fixed width).AtMost width :=
  fun value ↦ value.2.le

theorem AtMost.list {bound length size : ℕ} {count : Codec { n : ℕ // n ≤ bound }} {codec : Codec α}
    (hcount : count.AtMost length) (h : codec.AtMost size) :
    (list count codec).AtMost (length + bound * size) := by
  intro values
  have hitems (items : List α) : (items.flatMap codec.encode).length ≤ items.length * size := by
    induction items with
    | nil => exact Nat.zero_le _
    | cons item rest ih =>
      have hitem := h item
      rw [List.flatMap_cons, List.length_append, List.length_cons, Nat.succ_mul]
      omega
  change (count.encode ⟨values.1.length, values.2⟩ ++ values.1.flatMap codec.encode).length ≤ _
  rw [List.length_append]
  exact Nat.add_le_add (hcount _) ((hitems values.1).trans (Nat.mul_le_mul_right _ values.2))

end Codec

end Web3Storage.Foundations
