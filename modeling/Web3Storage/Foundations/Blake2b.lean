import Mathlib

/-!
# BLAKE2b with a 32-byte digest

The unkeyed hash function BLAKE2b-256 on lists of bytes. Words are natural numbers below `2 ^ 64`.
The functions are structurally recursive, so closed digests evaluate in the kernel. They do so faster
with the words of a round by name than by place, which is the same digest (`digest_eq`).
-/

set_option autoImplicit false
set_option relaxedAutoImplicit false

namespace Web3Storage.Foundations.Blake2b

/-- The modulus of a word. -/
def wordModulus : ℕ := 2 ^ 64

/-- Rotate a word to the right. -/
def rotateRight (word count : ℕ) : ℕ :=
  Nat.lor (Nat.shiftRight word count) (Nat.shiftLeft word (64 - count) % wordModulus)

/-- The initial chaining value. -/
def iv : List ℕ :=
  [0x6a09e667f3bcc908, 0xbb67ae8584caa73b, 0x3c6ef372fe94f82b, 0xa54ff53a5f1d36f1,
    0x510e527fade682d1, 0x9b05688c2b3e6c1f, 0x1f83d9abfb41bd6b, 0x5be0cd19137e2179]

/-- The order in which each of ten rounds reads the message words. -/
def schedule : List (List ℕ) :=
  [[0, 1, 2, 3, 4, 5, 6, 7, 8, 9, 10, 11, 12, 13, 14, 15],
    [14, 10, 4, 8, 9, 15, 13, 6, 1, 12, 0, 2, 11, 7, 5, 3],
    [11, 8, 12, 0, 5, 2, 15, 13, 10, 14, 3, 6, 7, 1, 9, 4],
    [7, 9, 3, 1, 13, 12, 11, 14, 2, 6, 5, 10, 4, 0, 15, 8],
    [9, 0, 5, 7, 2, 4, 10, 15, 14, 1, 11, 12, 6, 8, 3, 13],
    [2, 12, 6, 10, 0, 11, 8, 3, 4, 13, 7, 5, 15, 14, 1, 9],
    [12, 5, 1, 15, 14, 13, 4, 10, 0, 7, 6, 3, 9, 2, 8, 11],
    [13, 11, 7, 14, 12, 1, 3, 9, 5, 0, 15, 4, 8, 6, 2, 10],
    [6, 15, 14, 9, 11, 3, 0, 8, 12, 2, 13, 7, 1, 4, 10, 5],
    [10, 2, 8, 4, 7, 6, 1, 5, 15, 11, 9, 14, 3, 12, 13, 0]]

/-- The four places of the working vector that each mixing of a round touches. -/
def lanes : List (ℕ × ℕ × ℕ × ℕ) :=
  [(0, 4, 8, 12), (1, 5, 9, 13), (2, 6, 10, 14), (3, 7, 11, 15),
    (0, 5, 10, 15), (1, 6, 11, 12), (2, 7, 8, 13), (3, 4, 9, 14)]

/-- Mix two message words into four places of the working vector. -/
def mix (v : List ℕ) (lane : ℕ × ℕ × ℕ × ℕ) (x y : ℕ) : List ℕ :=
  let (ia, ib, ic, id) := lane
  let a := (v.getD ia 0 + v.getD ib 0 + x) % wordModulus
  let d := rotateRight (Nat.xor (v.getD id 0) a) 32
  let c := (v.getD ic 0 + d) % wordModulus
  let b := rotateRight (Nat.xor (v.getD ib 0) c) 24
  let a := (a + b + y) % wordModulus
  let d := rotateRight (Nat.xor d a) 16
  let c := (c + d) % wordModulus
  let b := rotateRight (Nat.xor b c) 63
  (((v.set ia a).set ib b).set ic c).set id d

/-- One round: eight mixings of the message words in the order of the round. -/
def round (message : List ℕ) : List (ℕ × ℕ × ℕ × ℕ) → List ℕ → List ℕ → List ℕ
  | lane :: rest, x :: y :: order, v =>
    round message rest order (mix v lane (message.getD x 0) (message.getD y 0))
  | _, _, v => v

/-- Compress one block into the chaining value, with the number of bytes hashed up to its end. -/
def compress (h block : List ℕ) (count : ℕ) (last : Bool) : List ℕ :=
  let tail := (iv.set 4 (Nat.xor (iv.getD 4 0) (count % wordModulus))).set 5
    (Nat.xor (iv.getD 5 0) (count / wordModulus))
  let tail := if last then tail.set 6 (wordModulus - 1 - tail.getD 6 0) else tail
  let v := (schedule ++ schedule.take 2).foldl (fun v order ↦ round block lanes order v) (h ++ tail)
  (h.zip ((v.take 8).zip (v.drop 8))).map fun (old, low, high) ↦ Nat.xor old (Nat.xor low high)

/-- The number with the given little-endian bytes. -/
def fromLittleEndian : List UInt8 → ℕ
  | [] => 0
  | byte :: rest => byte.toNat + 256 * fromLittleEndian rest

/-- The first words of a byte string, eight bytes each, missing bytes read as zero. -/
def words : ℕ → List UInt8 → List ℕ
  | 0, _ => []
  | count + 1, bytes => fromLittleEndian (bytes.take 8) :: words count (bytes.drop 8)

/-- Hash the blocks of a byte string; the last one is padded. -/
def absorb (hashed : ℕ) : ℕ → List UInt8 → List ℕ → List ℕ
  | 0, _, h => h
  | 1, bytes, h => compress h (words 16 bytes) (hashed + bytes.length) true
  | blocks + 2, bytes, h =>
    absorb (hashed + 128) (blocks + 1) (bytes.drop 128)
      (compress h (words 16 (bytes.take 128)) (hashed + 128) false)

/-- The chaining value before the first block. -/
def start : List ℕ :=
  -- a digest of 32 bytes, no key, no tree
  iv.set 0 (Nat.xor (iv.getD 0 0) 0x01010020)

/-- The digest of a byte string. -/
def digest (bytes : List UInt8) : List UInt8 :=
  let h := absorb 0 (max 1 ((bytes.length + 127) / 128)) bytes start
  (List.range 32).map fun place ↦ UInt8.ofNat (h.getD (place / 8) 0 / 256 ^ (place % 8))

@[simp] theorem length_digest (bytes : List UInt8) : (digest bytes).length = 32 := by
  simp [digest]

/-- The digest of the three bytes of `abc`. -/
example : (digest [0x61, 0x62, 0x63]).take 4 = [0xbd, 0xdd, 0x81, 0x3c] := by
  decide +kernel

/-! ### Evaluation -/

/-- Mix two message words into four words, and go on with these. -/
def mixWords (a b c d x y : ℕ) (next : ℕ → ℕ → ℕ → ℕ → List ℕ) : List ℕ :=
  let a' := (a + b + x) % wordModulus
  let d' := rotateRight (Nat.xor d a') 32
  let c' := (c + d') % wordModulus
  let b' := rotateRight (Nat.xor b c') 24
  let a'' := (a' + b' + y) % wordModulus
  let d'' := rotateRight (Nat.xor d' a'') 16
  let c'' := (c' + d'') % wordModulus
  let b'' := rotateRight (Nat.xor b' c'') 63
  next a'' b'' c'' d''

/-- One round on the message words in the order of the round. -/
def roundWords : List ℕ → List ℕ → List ℕ
  | [m0, m1, m2, m3, m4, m5, m6, m7, m8, m9, m10, m11, m12, m13, m14, m15],
    [v0, v1, v2, v3, v4, v5, v6, v7, v8, v9, v10, v11, v12, v13, v14, v15] =>
    mixWords v0 v4 v8 v12 m0 m1 fun v0 v4 v8 v12 ↦
    mixWords v1 v5 v9 v13 m2 m3 fun v1 v5 v9 v13 ↦
    mixWords v2 v6 v10 v14 m4 m5 fun v2 v6 v10 v14 ↦
    mixWords v3 v7 v11 v15 m6 m7 fun v3 v7 v11 v15 ↦
    mixWords v0 v5 v10 v15 m8 m9 fun v0 v5 v10 v15 ↦
    mixWords v1 v6 v11 v12 m10 m11 fun v1 v6 v11 v12 ↦
    mixWords v2 v7 v8 v13 m12 m13 fun v2 v7 v8 v13 ↦
    mixWords v3 v4 v9 v14 m14 m15 fun v3 v4 v9 v14 ↦
    [v0, v1, v2, v3, v4, v5, v6, v7, v8, v9, v10, v11, v12, v13, v14, v15]
  | _, v => v

def compressWords (h block : List ℕ) (count : ℕ) (last : Bool) : List ℕ :=
  let tail := (iv.set 4 (Nat.xor (iv.getD 4 0) (count % wordModulus))).set 5
    (Nat.xor (iv.getD 5 0) (count / wordModulus))
  let tail := if last then tail.set 6 (wordModulus - 1 - tail.getD 6 0) else tail
  let v := (schedule ++ schedule.take 2).foldl
    (fun v order ↦ roundWords (order.map fun place ↦ block.getD place 0) v) (h ++ tail)
  (h.zip ((v.take 8).zip (v.drop 8))).map fun (old, low, high) ↦ Nat.xor old (Nat.xor low high)

def absorbWords (hashed : ℕ) : ℕ → List UInt8 → List ℕ → List ℕ
  | 0, _, h => h
  | 1, bytes, h => compressWords h (words 16 bytes) (hashed + bytes.length) true
  | blocks + 2, bytes, h =>
    absorbWords (hashed + 128) (blocks + 1) (bytes.drop 128)
      (compressWords h (words 16 (bytes.take 128)) (hashed + 128) false)

def digestWords (bytes : List UInt8) : List UInt8 :=
  let h := absorbWords 0 (max 1 ((bytes.length + 127) / 128)) bytes start
  (List.range 32).map fun place ↦ UInt8.ofNat (h.getD (place / 8) 0 / 256 ^ (place % 8))

theorem eq_of_length {l : List ℕ} (h : l.length = 16) :
    l = [l.getD 0 0, l.getD 1 0, l.getD 2 0, l.getD 3 0, l.getD 4 0, l.getD 5 0, l.getD 6 0,
      l.getD 7 0, l.getD 8 0, l.getD 9 0, l.getD 10 0, l.getD 11 0, l.getD 12 0, l.getD 13 0,
      l.getD 14 0, l.getD 15 0] := by
  refine List.ext_getElem h fun i hi _ ↦ ?_
  rw [h] at hi
  interval_cases i
  all_goals simp [List.getD_eq_getElem?_getD, h]

theorem length_mix (v : List ℕ) (lane : ℕ × ℕ × ℕ × ℕ) (x y : ℕ) :
    (mix v lane x y).length = v.length := by
  simp [mix]

theorem length_round (message : List ℕ) (lanes : List (ℕ × ℕ × ℕ × ℕ)) (order v : List ℕ) :
    (round message lanes order v).length = v.length := by
  fun_induction round message lanes order v with
  | case1 lane rest x y order v ih => rw [ih, length_mix]
  | case2 => rfl

/-- A round by name is a round by place. -/
theorem round_eq (message : List ℕ) {order v : List ℕ} (horder : order.length = 16)
    (hv : v.length = 16) : round message lanes order v =
      roundWords (order.map fun place ↦ message.getD place 0) v := by
  rw [eq_of_length horder, eq_of_length hv]
  simp only [round, lanes, mix, roundWords, mixWords, List.map_cons, List.map_nil,
    List.getD_cons_succ, List.getD_cons_zero, List.set_cons_succ, List.set_cons_zero]

theorem rounds_eq (message : List ℕ) {orders : List (List ℕ)} {v : List ℕ}
    (horders : ∀ order ∈ orders, order.length = 16) (hv : v.length = 16) :
    orders.foldl (fun v order ↦ round message lanes order v) v = orders.foldl
      (fun v order ↦ roundWords (order.map fun place ↦ message.getD place 0) v) v := by
  induction orders generalizing v with
  | nil => rfl
  | cons order orders ih =>
    rw [List.forall_mem_cons] at horders
    rw [List.foldl_cons, List.foldl_cons, ← round_eq message horders.1 hv]
    exact ih horders.2 ((length_round message lanes order v).trans hv)

theorem compress_eq {h : List ℕ} (hlength : h.length = 8) (block : List ℕ) (count : ℕ)
    (last : Bool) : compress h block count last = compressWords h block count last := by
  unfold compress compressWords
  dsimp only
  rw [rounds_eq block (by decide)]
  cases last <;> simp [hlength, iv]

theorem length_compress {h : List ℕ} (hlength : h.length = 8) (block : List ℕ) (count : ℕ)
    (last : Bool) : (compress h block count last).length = 8 := by
  have hrounds (orders : List (List ℕ)) (v : List ℕ) :
      (orders.foldl (fun v order ↦ round block lanes order v) v).length = v.length := by
    induction orders generalizing v with
    | nil => rfl
    | cons order orders ih => rw [List.foldl_cons, ih, length_round]
  unfold compress
  dsimp only
  rw [List.length_map, List.length_zip, List.length_zip, List.length_take, List.length_drop, hrounds]
  cases last <;> simp [hlength, iv]

theorem absorb_eq (hashed blocks : ℕ) (bytes : List UInt8) {h : List ℕ} (hlength : h.length = 8) :
    absorb hashed blocks bytes h = absorbWords hashed blocks bytes h := by
  fun_induction absorb hashed blocks bytes h with
  | case1 => rfl
  | case2 hashed bytes h =>
    rw [absorbWords, compress_eq hlength]
  | case3 hashed blocks bytes h ih =>
    rw [absorbWords, ← compress_eq hlength]
    exact ih (length_compress hlength _ _ _)

/-- Digests evaluated by name are the digests. -/
theorem digest_eq (bytes : List UInt8) : digest bytes = digestWords bytes := by
  unfold digest digestWords
  rw [absorb_eq]
  rfl

end Web3Storage.Foundations.Blake2b
