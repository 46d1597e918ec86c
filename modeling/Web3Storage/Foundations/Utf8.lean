import Mathlib

/-!
# Texts as bytes

A text is the UTF-8 encoding of its characters. Bytes are read one at a time: a first byte is a
character or begins one, and says how many bytes go on and in which range the next one is. What cannot
be read is replaced (`fromUtf8Lossy`) or reported with its place (`utf8Error`). Both readers read the
encoding of characters as these characters (`lossyChars_utf8Encode`, `isUtf8_iff`).

A byte that is not the first of its character continues it. A range of bytes may only be cut out of a
text where no character goes on (`strSlice`), and none does after a byte below 0x80
(`asciiWhole_of_isUtf8`).
-/

set_option autoImplicit false
set_option relaxedAutoImplicit false

namespace Web3Storage.Foundations

/-! ### Reading bytes -/

/-- A character that has begun: how many bytes it still needs, its bits so far and the range of its
next byte. -/
structure PendingChar where
  needed : ℕ
  codePoint : ℕ
  lower : ℕ
  upper : ℕ

/-- The character that stands for an ill-formed sequence. -/
def replacementChar : Char := Char.ofNat 0xFFFD

/-- Read the first byte of a character. -/
def readLead (byte : ℕ) : Option PendingChar × List Char :=
  if byte ≤ 0x7F then (none, [Char.ofNat byte])
  else if 0xC2 ≤ byte ∧ byte ≤ 0xDF then (some ⟨1, byte % 0x20, 0x80, 0xBF⟩, [])
  else if 0xE0 ≤ byte ∧ byte ≤ 0xEF then
    -- no overlong forms after 0xE0, no surrogates after 0xED
    (some ⟨2, byte % 0x10, if byte = 0xE0 then 0xA0 else 0x80,
      if byte = 0xED then 0x9F else 0xBF⟩, [])
  else if 0xF0 ≤ byte ∧ byte ≤ 0xF4 then
    (some ⟨3, byte % 0x08, if byte = 0xF0 then 0x90 else 0x80,
      if byte = 0xF4 then 0x8F else 0xBF⟩, [])
  else (none, [replacementChar])

/-- Read a byte after a character has begun. A byte out of range ends the character as ill-formed and
begins the next one. -/
def readNext (pending : PendingChar) (byte : ℕ) : Option PendingChar × List Char :=
  if pending.lower ≤ byte ∧ byte ≤ pending.upper then
    if pending.needed = 1 then (none, [Char.ofNat (pending.codePoint * 0x40 + byte % 0x40)])
    else (some ⟨pending.needed - 1, pending.codePoint * 0x40 + byte % 0x40, 0x80, 0xBF⟩, [])
  else
    let (next, chars) := readLead byte
    (next, replacementChar :: chars)

/-- The characters of a byte string, with one replacement character for each ill-formed sequence. -/
def lossyChars : Option PendingChar → List UInt8 → List Char
  | none, [] => []
  | some _, [] => [replacementChar]
  | none, byte :: rest =>
    let (next, chars) := readLead byte.toNat
    chars ++ lossyChars next rest
  | some pending, byte :: rest =>
    let (next, chars) := readNext pending byte.toNat
    chars ++ lossyChars next rest

def fromUtf8Lossy (bytes : List UInt8) : String := String.ofList (lossyChars none bytes)

/-- The first ill-formed sequence of a byte string, if there is one: where it begins, and how many bytes
it has unless the byte string ends within it. A character that has begun comes with its bytes so far. -/
def utf8Error (validUpTo : ℕ) : Option (PendingChar × ℕ) → List UInt8 → Option (ℕ × Option ℕ)
  | none, [] => none
  | some _, [] => some (validUpTo, none)
  | none, byte :: rest =>
    if byte.toNat ≤ 0x7F then utf8Error (validUpTo + 1) none rest
    else
      match (readLead byte.toNat).1 with
      | none => some (validUpTo, some 1)
      | some pending => utf8Error validUpTo (some (pending, 1)) rest
  | some (pending, seen), byte :: rest =>
    if pending.lower ≤ byte.toNat ∧ byte.toNat ≤ pending.upper then
      match (readNext pending byte.toNat).1 with
      | none => utf8Error (validUpTo + (seen + 1)) none rest
      | some next => utf8Error validUpTo (some (next, seen + 1)) rest
    else some (validUpTo, some seen)

def isUtf8 (bytes : List UInt8) : Bool := (utf8Error 0 none bytes).isNone

/-! ### Places in a text -/

/-- The bytes of some characters. -/
def utf8Encode (chars : List Char) : List UInt8 := chars.flatMap String.utf8EncodeChar

/-- A byte within a character. -/
def isContinuation (byte : UInt8) : Bool := 0x80 ≤ byte && byte < 0xC0

/-- No character goes on at a place. -/
def isCharBoundary (bytes : List UInt8) (index : ℕ) : Bool :=
  if index = 0 then true
  else
    match bytes[index]? with
    | none => index = bytes.length
    | some byte => !isContinuation byte

/-- The part of a text between two places, unless they are out of order or range or cut a character. -/
def strSlice (bytes : List UInt8) (start stop : ℕ) : Option (List UInt8) :=
  if start ≤ stop ∧ isCharBoundary bytes start ∧ isCharBoundary bytes stop then
    some ((bytes.take stop).drop start)
  else none

/-! ### Characters and their bytes -/

/-- The bytes that go on from a character that has begun to its end. -/
def Completes (c : Char) : PendingChar → List UInt8 → Prop
  | _, [] => False
  | pending, byte :: more => pending.lower ≤ byte.toNat ∧ byte.toNat ≤ pending.upper ∧
      match (readNext pending byte.toNat).1 with
      | none => more = [] ∧ Char.ofNat (pending.codePoint * 0x40 + byte.toNat % 0x40) = c
      | some next => Completes c next more

theorem isContinuation_iff (byte : UInt8) :
    isContinuation byte = true ↔ 0x80 ≤ byte.toNat ∧ byte.toNat < 0xC0 := by
  unfold isContinuation
  rw [Bool.and_eq_true, decide_eq_true_iff, decide_eq_true_iff, UInt8.le_iff_toNat_le,
    UInt8.lt_iff_toNat_lt]
  rfl

/-- A byte in its range ends the character if it is the last one needed. -/
theorem readNext_of_range {pending : PendingChar} {byte : ℕ} (h : pending.lower ≤ byte)
    (h' : byte ≤ pending.upper) : readNext pending byte =
      if pending.needed = 1 then (none, [Char.ofNat (pending.codePoint * 0x40 + byte % 0x40)])
      else (some ⟨pending.needed - 1, pending.codePoint * 0x40 + byte % 0x40, 0x80, 0xBF⟩, []) :=
  if_pos ⟨h, h'⟩

/-- The last byte of a character completes it. -/
theorem completes_last {c : Char} {pending : PendingChar} {more : List UInt8}
    (hneeded : pending.needed = 1) : Completes c pending more ↔ ∃ byte, more = [byte] ∧
      (pending.lower ≤ byte.toNat ∧ byte.toNat ≤ pending.upper) ∧
      Char.ofNat (pending.codePoint * 0x40 + byte.toNat % 0x40) = c := by
  cases more with
  | nil => simp [Completes]
  | cons byte more =>
    unfold Completes
    constructor
    · intro h
      rw [readNext_of_range h.1 h.2.1, if_pos hneeded] at h
      obtain ⟨hlower, hupper, rfl, hchar⟩ := h
      exact ⟨byte, rfl, ⟨hlower, hupper⟩, hchar⟩
    · intro h
      obtain ⟨byte', hbytes, hrange, hchar⟩ := h
      cases hbytes
      rw [readNext_of_range hrange.1 hrange.2, if_pos hneeded]
      exact ⟨hrange.1, hrange.2, rfl, hchar⟩

/-- A byte before the last leaves the others to complete the character. -/
theorem completes_cons {c : Char} {pending : PendingChar} {more : List UInt8}
    (hneeded : pending.needed ≠ 1) : Completes c pending more ↔ ∃ byte rest, more = byte :: rest ∧
      (pending.lower ≤ byte.toNat ∧ byte.toNat ≤ pending.upper) ∧
      Completes c
        ⟨pending.needed - 1, pending.codePoint * 0x40 + byte.toNat % 0x40, 0x80, 0xBF⟩ rest := by
  cases more with
  | nil => simp [Completes]
  | cons byte more =>
    rw [Completes]
    constructor
    · intro h
      rw [readNext_of_range h.1 h.2.1, if_neg hneeded] at h
      exact ⟨byte, more, rfl, ⟨h.1, h.2.1⟩, h.2.2⟩
    · intro h
      obtain ⟨byte', rest, hbytes, hrange, hrest⟩ := h
      cases hbytes
      rw [readNext_of_range hrange.1 hrange.2, if_neg hneeded]
      exact ⟨hrange.1, hrange.2, hrest⟩

theorem readLead_two {byte : ℕ} (h : 0xC2 ≤ byte ∧ byte ≤ 0xDF) :
    readLead byte = (some ⟨1, byte % 0x20, 0x80, 0xBF⟩, []) := by
  unfold readLead
  rw [if_neg (by omega), if_pos h]

theorem readLead_three {byte : ℕ} (h : 0xE0 ≤ byte ∧ byte ≤ 0xEF) :
    readLead byte = (some ⟨2, byte % 0x10, if byte = 0xE0 then 0xA0 else 0x80,
      if byte = 0xED then 0x9F else 0xBF⟩, []) := by
  unfold readLead
  rw [if_neg (by omega), if_neg (by omega), if_pos h]

theorem readLead_four {byte : ℕ} (h : 0xF0 ≤ byte ∧ byte ≤ 0xF4) :
    readLead byte = (some ⟨3, byte % 0x08, if byte = 0xF0 then 0x90 else 0x80,
      if byte = 0xF4 then 0x8F else 0xBF⟩, []) := by
  unfold readLead
  rw [if_neg (by omega), if_neg (by omega), if_neg (by omega), if_pos h]

theorem toNat_ofNat_of_lt {n : ℕ} (h : n < 256) : (UInt8.ofNat n).toNat = n := by
  rw [UInt8.toNat_ofNat']
  omega

/-- A character is one byte, or a byte that begins it and bytes that complete it. -/
theorem utf8EncodeChar_cases (c : Char) :
    (∃ byte, String.utf8EncodeChar c = [byte] ∧ byte.toNat ≤ 0x7F ∧ Char.ofNat byte.toNat = c) ∨
      ∃ lead pending more, String.utf8EncodeChar c = lead :: more ∧
        readLead lead.toNat = (some pending, []) ∧ Completes c pending more := by
  have hvalid : c.val.toNat < 0xD800 ∨ 0xDFFF < c.val.toNat ∧ c.val.toNat < 0x110000 := c.valid
  have hchar : Char.ofNat c.val.toNat = c := Char.ofNat_toNat c
  unfold String.utf8EncodeChar
  dsimp only
  generalize c.val.toNat = v at hvalid hchar
  by_cases hone : v ≤ 0x7F
  · rw [if_pos hone]
    refine Or.inl ⟨_, rfl, ?_⟩
    rw [toNat_ofNat_of_lt (by omega)]
    exact ⟨hone, hchar⟩
  rw [if_neg hone]
  right
  have hlast : (UInt8.ofNat (v % 64 + 128)).toNat = v % 64 + 128 := toNat_ofNat_of_lt (by omega)
  have hthird : (UInt8.ofNat (v / 64 % 64 + 128)).toNat = v / 64 % 64 + 128 :=
    toNat_ofNat_of_lt (by omega)
  have hsecond : (UInt8.ofNat (v / 4096 % 64 + 128)).toNat = v / 4096 % 64 + 128 :=
    toNat_ofNat_of_lt (by omega)
  by_cases htwo : v ≤ 0x7FF
  · rw [if_pos htwo]
    have hlead : (UInt8.ofNat (v / 64 % 32 + 192)).toNat = v / 64 % 32 + 192 :=
      toNat_ofNat_of_lt (by omega)
    refine ⟨_, _, _, rfl, readLead_two ?_, (completes_last rfl).2 ⟨_, rfl, ?_, ?_⟩⟩
    · omega
    · dsimp only
      omega
    · dsimp only
      rw [hlead, hlast, ← hchar]
      congr 1
      omega
  rw [if_neg htwo]
  by_cases hthree : v ≤ 0xFFFF
  · rw [if_pos hthree]
    have hlead : (UInt8.ofNat (v / 4096 % 16 + 224)).toNat = v / 4096 % 16 + 224 :=
      toNat_ofNat_of_lt (by omega)
    refine ⟨_, _, _, rfl, readLead_three ?_, (completes_cons (by simp)).2
      ⟨_, _, rfl, ?_, (completes_last rfl).2 ⟨_, rfl, ?_, ?_⟩⟩⟩
    · omega
    · dsimp only
      split_ifs <;> omega
    · dsimp only
      omega
    · dsimp only
      rw [hlead, hthird, hlast, ← hchar]
      congr 1
      omega
  rw [if_neg hthree]
  have hlead : (UInt8.ofNat (v / 262144 % 8 + 240)).toNat = v / 262144 % 8 + 240 :=
    toNat_ofNat_of_lt (by omega)
  refine ⟨_, _, _, rfl, readLead_four ?_, (completes_cons (by simp)).2 ⟨_, _, rfl, ?_,
    (completes_cons (by simp)).2 ⟨_, _, rfl, ?_, (completes_last rfl).2 ⟨_, rfl, ?_, ?_⟩⟩⟩⟩
  · omega
  · dsimp only
    split_ifs <;> omega
  · dsimp only
    omega
  · dsimp only
    omega
  · dsimp only
    rw [hlead, hsecond, hthird, hlast, ← hchar]
    congr 1
    omega

theorem readLead_cases {byte : ℕ} {pending : PendingChar} (h : (readLead byte).1 = some pending) :
    0xC2 ≤ byte ∧ byte ≤ 0xDF ∨ 0xE0 ≤ byte ∧ byte ≤ 0xEF ∨ 0xF0 ≤ byte ∧ byte ≤ 0xF4 := by
  by_contra hnone
  unfold readLead at h
  by_cases hone : byte ≤ 0x7F
  · rw [if_pos hone] at h
    cases h
  · rw [if_neg hone, if_neg (by omega), if_neg (by omega), if_neg (by omega)] at h
    cases h

theorem val_ofNat {v : ℕ} (h : v < 0xD800 ∨ 0xDFFF < v ∧ v < 0x110000) :
    (Char.ofNat v).val.toNat = v := by
  unfold Char.ofNat
  rw [dif_pos h]
  rfl

/-- Bytes that complete what a byte begins are a character with it. -/
theorem utf8EncodeChar_of_completes {c : Char} {lead : UInt8} {pending : PendingChar}
    {more : List UInt8} (hlead : (readLead lead.toNat).1 = some pending)
    (hmore : Completes c pending more) : String.utf8EncodeChar c = lead :: more := by
  obtain htwo | hthree | hfour := readLead_cases hlead
  · rw [readLead_two htwo] at hlead
    obtain rfl := Option.some.inj hlead
    obtain ⟨last, rfl, hlast, rfl⟩ := (completes_last rfl).1 hmore
    dsimp only at hlast
    unfold String.utf8EncodeChar
    rw [val_ofNat (by dsimp only; omega)]
    dsimp only
    rw [if_neg (by omega), if_pos (by omega), List.cons.injEq, List.cons.injEq, ← UInt8.toNat_inj,
      ← UInt8.toNat_inj, toNat_ofNat_of_lt (by omega), toNat_ofNat_of_lt (by omega)]
    refine ⟨?_, ?_, rfl⟩
    · omega
    · omega
  · rw [readLead_three hthree] at hlead
    obtain rfl := Option.some.inj hlead
    obtain ⟨second, rest, rfl, hsecond, hrest⟩ := (completes_cons (by simp)).1 hmore
    obtain ⟨last, rfl, hlast, rfl⟩ := (completes_last rfl).1 hrest
    dsimp only at hsecond hlast
    have hlower : 0x80 ≤ second.toNat ∧ second.toNat ≤ 0xBF ∧
        (lead.toNat = 0xE0 → 0xA0 ≤ second.toNat) ∧ (lead.toNat = 0xED → second.toNat ≤ 0x9F) := by
      split_ifs at hsecond <;> omega
    clear hsecond
    unfold String.utf8EncodeChar
    rw [val_ofNat (by dsimp only; omega)]
    dsimp only
    rw [if_neg (by omega), if_neg (by omega), if_pos (by omega)]
    simp only [List.cons.injEq, ← UInt8.toNat_inj]
    rw [toNat_ofNat_of_lt (by omega), toNat_ofNat_of_lt (by omega), toNat_ofNat_of_lt (by omega)]
    refine ⟨?_, ?_, ?_, trivial⟩
    · omega
    · omega
    · omega
  · rw [readLead_four hfour] at hlead
    obtain rfl := Option.some.inj hlead
    obtain ⟨second, rest, rfl, hsecond, hrest⟩ := (completes_cons (by simp)).1 hmore
    obtain ⟨third, rest, rfl, hthird, hrest⟩ := (completes_cons (by simp)).1 hrest
    obtain ⟨last, rfl, hlast, rfl⟩ := (completes_last rfl).1 hrest
    dsimp only at hsecond hthird hlast
    have hlower : 0x80 ≤ second.toNat ∧ second.toNat ≤ 0xBF ∧
        (lead.toNat = 0xF0 → 0x90 ≤ second.toNat) ∧ (lead.toNat = 0xF4 → second.toNat ≤ 0x8F) := by
      split_ifs at hsecond <;> omega
    clear hsecond
    unfold String.utf8EncodeChar
    rw [val_ofNat (by dsimp only; omega)]
    dsimp only
    rw [if_neg (by omega), if_neg (by omega), if_neg (by omega)]
    simp only [List.cons.injEq, ← UInt8.toNat_inj]
    rw [toNat_ofNat_of_lt (by omega), toNat_ofNat_of_lt (by omega), toNat_ofNat_of_lt (by omega),
      toNat_ofNat_of_lt (by omega)]
    refine ⟨?_, ?_, ?_, ?_, trivial⟩
    · omega
    · omega
    · omega
    · omega

/-! ### Both readers read texts -/

theorem lossyChars_of_completes {c : Char} {pending : PendingChar} {more : List UInt8}
    (rest : List UInt8) (h : Completes c pending more) :
    lossyChars (some pending) (more ++ rest) = c :: lossyChars none rest := by
  induction more generalizing pending with
  | nil => exact h.elim
  | cons byte more ih =>
    rw [List.cons_append, lossyChars]
    by_cases hneeded : pending.needed = 1
    · obtain ⟨byte', hbytes, hrange, rfl⟩ := (completes_last hneeded).1 h
      cases hbytes
      rw [readNext_of_range hrange.1 hrange.2, if_pos hneeded]
      rfl
    · obtain ⟨byte', more', hbytes, hrange, hmore⟩ := (completes_cons hneeded).1 h
      cases hbytes
      rw [readNext_of_range hrange.1 hrange.2, if_neg hneeded]
      exact ih hmore

theorem lossyChars_encodeChar (c : Char) (rest : List UInt8) :
    lossyChars none (String.utf8EncodeChar c ++ rest) = c :: lossyChars none rest := by
  obtain ⟨byte, hc, hone, rfl⟩ | ⟨lead, pending, more, hc, hlead, hmore⟩ := utf8EncodeChar_cases c
  · rw [hc, List.singleton_append, lossyChars, readLead, if_pos hone]
    rfl
  · rw [hc, List.cons_append, lossyChars, hlead]
    exact lossyChars_of_completes rest hmore

/-- The encoding of characters is read as these characters. -/
theorem lossyChars_utf8Encode (chars : List Char) : lossyChars none (utf8Encode chars) = chars := by
  induction chars with
  | nil => rfl
  | cons c chars ih =>
    unfold utf8Encode at ih ⊢
    rw [List.flatMap_cons, lossyChars_encodeChar, ih]

theorem utf8Error_of_completes {c : Char} {pending : PendingChar} {more : List UInt8} (start seen : ℕ)
    (rest : List UInt8) (h : Completes c pending more) :
    utf8Error start (some (pending, seen)) (more ++ rest) =
      utf8Error (start + (seen + more.length)) none rest := by
  induction more generalizing pending seen with
  | nil => exact h.elim
  | cons byte more ih =>
    rw [List.cons_append, utf8Error]
    by_cases hneeded : pending.needed = 1
    · obtain ⟨byte', hbytes, hrange, rfl⟩ := (completes_last hneeded).1 h
      cases hbytes
      rw [if_pos hrange, readNext_of_range hrange.1 hrange.2, if_pos hneeded]
      rfl
    · obtain ⟨byte', more', hbytes, hrange, hmore⟩ := (completes_cons hneeded).1 h
      cases hbytes
      rw [if_pos hrange, readNext_of_range hrange.1 hrange.2, if_neg hneeded]
      change utf8Error start (some (_, seen + 1)) (more ++ rest) = _
      rw [ih (seen + 1) hmore, List.length_cons, Nat.add_right_comm seen]
      rfl

theorem utf8Error_encodeChar (c : Char) (start : ℕ) (rest : List UInt8) :
    utf8Error start none (String.utf8EncodeChar c ++ rest) =
      utf8Error (start + (String.utf8EncodeChar c).length) none rest := by
  obtain ⟨byte, hc, hone, rfl⟩ | ⟨lead, pending, more, hc, hlead, hmore⟩ := utf8EncodeChar_cases c
  · rw [hc, List.singleton_append, utf8Error, if_pos hone]
    rfl
  · have hnotOne : ¬lead.toNat ≤ 0x7F := by
      have hrange := readLead_cases (congrArg Prod.fst hlead)
      omega
    rw [hc, List.cons_append, utf8Error, if_neg hnotOne, hlead]
    change utf8Error start (some (pending, 1)) (more ++ rest) = _
    rw [utf8Error_of_completes start 1 rest hmore, List.length_cons, Nat.add_comm 1]

/-- Bytes without an ill-formed sequence complete a character that has begun. -/
theorem exists_completes {pending : PendingChar} {start seen : ℕ} {bytes : List UInt8}
    (h : utf8Error start (some (pending, seen)) bytes = none) :
    ∃ c more rest start', bytes = more ++ rest ∧ Completes c pending more ∧
      utf8Error start' none rest = none := by
  induction bytes generalizing pending seen with
  | nil => cases h
  | cons byte rest ih =>
    rw [utf8Error] at h
    by_cases hrange : pending.lower ≤ byte.toNat ∧ byte.toNat ≤ pending.upper
    · rw [if_pos hrange, readNext_of_range hrange.1 hrange.2] at h
      by_cases hneeded : pending.needed = 1
      · rw [if_pos hneeded] at h
        exact ⟨_, [byte], rest, _, rfl, (completes_last hneeded).2 ⟨byte, rfl, hrange, rfl⟩, h⟩
      · rw [if_neg hneeded] at h
        obtain ⟨c, more, rest, start', rfl, hmore, hrest⟩ := ih h
        exact ⟨c, byte :: more, rest, start', rfl,
          (completes_cons hneeded).2 ⟨byte, more, rfl, hrange, hmore⟩, hrest⟩
    · rw [if_neg hrange] at h
      cases h

/-- Bytes without an ill-formed sequence begin with a character. -/
theorem exists_encodeChar {start : ℕ} {bytes : List UInt8} (h : utf8Error start none bytes = none) :
    bytes = [] ∨ ∃ c rest start', bytes = String.utf8EncodeChar c ++ rest ∧
      utf8Error start' none rest = none := by
  cases bytes with
  | nil => exact Or.inl rfl
  | cons lead bytes =>
    right
    rw [utf8Error] at h
    by_cases hone : lead.toNat ≤ 0x7F
    · rw [if_pos hone] at h
      refine ⟨Char.ofNat lead.toNat, bytes, _, ?_, h⟩
      unfold String.utf8EncodeChar
      rw [val_ofNat (by omega)]
      dsimp only
      rw [if_pos hone, UInt8.ofNat_toNat]
      rfl
    · rw [if_neg hone] at h
      cases hlead : (readLead lead.toNat).1 with
      | none =>
        rw [hlead] at h
        cases h
      | some pending =>
        rw [hlead] at h
        obtain ⟨c, more, rest, start', rfl, hmore, hrest⟩ := exists_completes h
        refine ⟨c, rest, start', ?_, hrest⟩
        rw [utf8EncodeChar_of_completes hlead hmore, List.cons_append]

/-- Bytes without an ill-formed sequence are the encoding of some characters. -/
theorem exists_utf8Encode {start : ℕ} {bytes : List UInt8} (h : utf8Error start none bytes = none) :
    ∃ chars, bytes = utf8Encode chars := by
  induction hlength : bytes.length using Nat.strong_induction_on generalizing bytes start with
  | _ n ih =>
    obtain rfl | ⟨c, rest, start', rfl, hrest⟩ := exists_encodeChar h
    · exact ⟨[], rfl⟩
    · have hshorter : rest.length < n := by
        have hpos : 0 < (String.utf8EncodeChar c).length :=
          List.length_pos_iff.2 (String.utf8EncodeChar_ne_nil)
        rw [← hlength, List.length_append]
        omega
      obtain ⟨chars, rfl⟩ := ih _ hshorter hrest rfl
      exact ⟨c :: chars, rfl⟩

theorem utf8Error_utf8Encode (chars : List Char) (start : ℕ) :
    utf8Error start none (utf8Encode chars) = none := by
  induction chars generalizing start with
  | nil => rfl
  | cons c chars ih =>
    unfold utf8Encode at ih ⊢
    rw [List.flatMap_cons, utf8Error_encodeChar, ih]

/-- Bytes are a text exactly when they are the encoding of some characters. -/
theorem isUtf8_iff (bytes : List UInt8) :
    isUtf8 bytes = true ↔ ∃ chars, bytes = utf8Encode chars := by
  unfold isUtf8
  rw [Option.isNone_iff_eq_none]
  constructor
  · exact exists_utf8Encode
  · rintro ⟨chars, rfl⟩
    exact utf8Error_utf8Encode chars 0

/-- Byte arrays are checked for the same. -/
theorem validateUTF8_eq (bytes : List UInt8) :
    ByteArray.validateUTF8 ⟨bytes.toArray⟩ = isUtf8 bytes := by
  rw [Bool.eq_iff_iff, isUtf8_iff, ByteArray.validateUTF8_eq_true_iff]
  unfold utf8Encode
  constructor
  · rintro ⟨chars, hchars⟩
    refine ⟨chars, ?_⟩
    rw [List.utf8Encode, ByteArray.ext_iff, List.data_toByteArray] at hchars
    exact congrArg Array.toList hchars
  · rintro ⟨chars, rfl⟩
    refine ⟨chars, ?_⟩
    rw [List.utf8Encode, ByteArray.ext_iff, List.data_toByteArray]

/-! ### Where characters begin -/

theorem le_of_completes {c : Char} {pending : PendingChar} {more : List UInt8}
    (hlower : 0x80 ≤ pending.lower) (h : Completes c pending more) :
    ∀ byte ∈ more, 0x80 ≤ byte.toNat := by
  induction more generalizing pending with
  | nil => exact h.elim
  | cons byte more ih =>
    rw [List.forall_mem_cons]
    by_cases hneeded : pending.needed = 1
    · obtain ⟨byte', hbytes, hrange, rfl⟩ := (completes_last hneeded).1 h
      cases hbytes
      exact ⟨hlower.trans hrange.1, by simp⟩
    · obtain ⟨byte', more', hbytes, hrange, hmore⟩ := (completes_cons hneeded).1 h
      cases hbytes
      exact ⟨hlower.trans hrange.1, ih le_rfl hmore⟩

theorem lower_of_readLead {byte : ℕ} {pending : PendingChar} (h : (readLead byte).1 = some pending) :
    0x80 ≤ pending.lower := by
  obtain htwo | hthree | hfour := readLead_cases h
  · rw [readLead_two htwo] at h
    obtain rfl := Option.some.inj h
    rfl
  · rw [readLead_three hthree] at h
    obtain rfl := Option.some.inj h
    dsimp only
    split_ifs <;> omega
  · rw [readLead_four hfour] at h
    obtain rfl := Option.some.inj h
    dsimp only
    split_ifs <;> omega

/-- The first byte of a character continues none. It is the only one if it is below 0x80, and the others
are not. -/
theorem utf8EncodeChar_shape (c : Char) : ∃ lead more, String.utf8EncodeChar c = lead :: more ∧
    isContinuation lead = false ∧ (lead.toNat ≤ 0x7F → more = []) ∧
    ∀ byte ∈ more, 0x80 ≤ byte.toNat := by
  obtain ⟨byte, hc, hone, -⟩ | ⟨lead, pending, more, hc, hlead, hmore⟩ := utf8EncodeChar_cases c
  · refine ⟨byte, [], hc, ?_, fun _ ↦ rfl, by simp⟩
    rw [Bool.eq_false_iff, ne_eq, isContinuation_iff]
    omega
  · have hrange := readLead_cases (congrArg Prod.fst hlead)
    refine ⟨lead, more, hc, ?_, fun hone ↦ by omega, ?_⟩
    · rw [Bool.eq_false_iff, ne_eq, isContinuation_iff]
      omega
    · exact le_of_completes (lower_of_readLead (congrArg Prod.fst hlead)) hmore

/-- No byte continues a character after a byte below 0x80. -/
def AsciiWhole (bytes : List UInt8) : Prop :=
  bytes.IsChain fun first second ↦ first.toNat ≤ 0x7F → isContinuation second = false

theorem asciiWhole_utf8Encode (chars : List Char) : AsciiWhole (utf8Encode chars) := by
  induction chars with
  | nil => exact List.IsChain.nil
  | cons c chars ih =>
    unfold AsciiWhole utf8Encode at ih ⊢
    rw [List.flatMap_cons, List.isChain_append]
    refine ⟨?_, ih, fun last _ first hfirst _ ↦ ?_⟩
    · obtain ⟨lead, more, hc, -, hone, hmore⟩ := utf8EncodeChar_shape c
      rw [hc]
      by_cases hlead : lead.toNat ≤ 0x7F
      · rw [hone hlead]
        exact List.isChain_singleton _
      · refine List.Pairwise.isChain (List.pairwise_of_forall_mem_list ?_)
        intro first hfirst second _ hle
        obtain rfl | hfirst := List.mem_cons.1 hfirst
        · exact absurd hle hlead
        · exact absurd (hmore first hfirst) (by omega)
    · cases chars with
      | nil => cases hfirst
      | cons c' chars =>
        obtain ⟨lead, more, hc, hlead, -⟩ := utf8EncodeChar_shape c'
        rw [List.flatMap_cons, hc] at hfirst
        cases hfirst
        exact hlead

theorem asciiWhole_of_isUtf8 {bytes : List UInt8} (h : isUtf8 bytes = true) : AsciiWhole bytes := by
  obtain ⟨chars, rfl⟩ := (isUtf8_iff bytes).1 h
  exact asciiWhole_utf8Encode chars

theorem isCharBoundary_succ {bytes : List UInt8} {index : ℕ} {byte : UInt8} (h : AsciiWhole bytes)
    (hbyte : bytes[index]? = some byte) (hone : byte.toNat ≤ 0x7F) :
    isCharBoundary bytes (index + 1) = true := by
  unfold isCharBoundary
  rw [if_neg (by omega)]
  obtain ⟨hindex, hget⟩ := List.getElem?_eq_some_iff.1 hbyte
  by_cases hlast : index + 1 < bytes.length
  · have hnext := List.isChain_iff_getElem.1 h index hlast
    rw [hget] at hnext
    rw [List.getElem?_eq_getElem hlast]
    dsimp only
    rw [hnext hone]
    rfl
  · rw [List.getElem?_eq_none (by omega)]
    dsimp only
    rw [decide_eq_true_iff]
    omega

theorem isCharBoundary_eq_false {bytes : List UInt8} {index : ℕ} (hpos : index ≠ 0)
    (hindex : index ≤ bytes.length) : isCharBoundary bytes index = false ↔
      ∃ byte, bytes[index]? = some byte ∧ isContinuation byte = true := by
  unfold isCharBoundary
  rw [if_neg hpos]
  by_cases hlast : index < bytes.length
  · rw [List.getElem?_eq_getElem hlast]
    simp
  · rw [List.getElem?_eq_none (by omega)]
    have hend : index = bytes.length := by omega
    simp [hend]

/-- The two bytes after a byte below 0x80 can be cut out unless the next one continues a character. -/
theorem strSlice_eq_none {bytes : List UInt8} {index : ℕ} {byte : UInt8} (h : AsciiWhole bytes)
    (hbyte : bytes[index]? = some byte) (hone : byte.toNat ≤ 0x7F) (hindex : index + 2 < bytes.length) :
    strSlice bytes (index + 1) (index + 3) = none ↔
      ∃ next, bytes[index + 3]? = some next ∧ isContinuation next = true := by
  rw [← isCharBoundary_eq_false (by omega) (by omega)]
  unfold strSlice
  rw [isCharBoundary_succ h hbyte hone]
  simp

theorem mem_strSlice {bytes part : List UInt8} {start stop index : ℕ} {byte : UInt8}
    (h : strSlice bytes start stop = some part) (hstart : start ≤ index) (hstop : index < stop)
    (hbyte : bytes[index]? = some byte) : byte ∈ part := by
  unfold strSlice at h
  split_ifs at h with hcut
  obtain rfl := Option.some.inj h
  refine List.mem_of_getElem? (i := index - start) ?_
  rw [List.getElem?_drop, Nat.add_sub_cancel' hstart, List.getElem?_take_of_lt hstop, hbyte]

/-! ### Cutting a text where characters begin -/

/-- The bytes do not go on with a character. -/
def StartsChar (bytes : List UInt8) : Prop := ∀ byte ∈ bytes.head?, isContinuation byte = false

theorem startsChar_cons {byte : UInt8} (bytes : List UInt8) (h : isContinuation byte = false) :
    StartsChar (byte :: bytes) := by
  intro first hfirst
  cases hfirst
  exact h

theorem startsChar_encodeChar (c : Char) (rest : List UInt8) :
    StartsChar (String.utf8EncodeChar c ++ rest) := by
  obtain ⟨lead, more, hc, hlead, -⟩ := utf8EncodeChar_shape c
  rw [hc]
  exact startsChar_cons _ hlead

theorem isCharBoundary_append {bytes : List UInt8} (before : List UInt8) (h : StartsChar bytes) :
    isCharBoundary (before ++ bytes) before.length = true := by
  unfold isCharBoundary
  by_cases hbefore : before.length = 0
  · rw [if_pos hbefore]
  · rw [if_neg hbefore, List.getElem?_append_right le_rfl, Nat.sub_self, ← List.head?_eq_getElem?]
    cases bytes with
    | nil => simp
    | cons first rest =>
      change (!isContinuation first) = true
      rw [h first rfl]
      rfl

theorem strSlice_append {part rest : List UInt8} (before : List UInt8)
    (hpart : StartsChar (part ++ rest)) (hrest : StartsChar rest) :
    strSlice (before ++ (part ++ rest)) before.length (before ++ part).length = some part := by
  have hstop : isCharBoundary (before ++ (part ++ rest)) (before ++ part).length = true := by
    rw [← List.append_assoc]
    exact isCharBoundary_append _ hrest
  have hle : before.length ≤ (before ++ part).length := by
    rw [List.length_append]
    omega
  unfold strSlice
  rw [if_pos ⟨hle, isCharBoundary_append before hpart, hstop⟩, ← List.append_assoc,
    List.take_left, List.drop_left]

end Web3Storage.Foundations
