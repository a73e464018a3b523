import Mathlib

/-! The secure hash SHA-256 as FIPS 180-4 defines it, over bytes, and the big-endian numbers it
reads and writes. -/

namespace BigEndian

/-- The last `k` bytes of `n`, the most significant first. -/
def encode : ℕ → ℕ → List UInt8
  | 0, _ => []
  | k + 1, n => encode k (n / 256) ++ [UInt8.ofNat n]

def decode (bytes : List UInt8) : ℕ := bytes.foldl (fun n b => n * 256 + b.toNat) 0

theorem length_encode (k n : ℕ) : (encode k n).length = k := by
  induction k generalizing n with
  | zero => rfl
  | succ k ih => rw [encode, List.length_append, ih, List.length_singleton]

theorem encode_add (j k n : ℕ) : encode (j + k) n = encode j (n / 256 ^ k) ++ encode k n := by
  induction k generalizing n with
  | zero => rw [pow_zero, Nat.div_one, Nat.add_zero, encode, List.append_nil]
  | succ k ih =>
    have hdiv : n / 256 / 256 ^ k = n / 256 ^ (k + 1) := by
      rw [Nat.div_div_eq_div_mul, pow_succ']
    rw [← Nat.add_assoc, encode, ih, hdiv, List.append_assoc]
    rfl

/-- Only the last `k` bytes count. -/
theorem encode_mod (k n : ℕ) : encode k (n % 256 ^ k) = encode k n := by
  induction k generalizing n with
  | zero => rfl
  | succ k ih =>
    have hdiv : n % 256 ^ (k + 1) / 256 = n / 256 % 256 ^ k := by
      rw [pow_succ']
      exact Nat.mod_mul_right_div_self n 256 (256 ^ k)
    have hlast : UInt8.ofNat (n % 256 ^ (k + 1)) = UInt8.ofNat n := by
      apply UInt8.toNat_inj.mp
      rw [UInt8.toNat_ofNat', UInt8.toNat_ofNat']
      exact Nat.mod_mod_of_dvd n (Dvd.intro_left (256 ^ k) rfl)
    rw [encode, encode, hdiv, ih, hlast]

end BigEndian

namespace Sha2

abbrev Word := BitVec 32

/-! ### Functions and constants -/

def ch (x y z : Word) : Word := (x &&& y) ^^^ (~~~x &&& z)

def maj (x y z : Word) : Word := (x &&& y) ^^^ (x &&& z) ^^^ (y &&& z)

/-- `Σ₀`. -/
def upperSigma0 (x : Word) : Word := x.rotateRight 2 ^^^ x.rotateRight 13 ^^^ x.rotateRight 22

/-- `Σ₁`. -/
def upperSigma1 (x : Word) : Word := x.rotateRight 6 ^^^ x.rotateRight 11 ^^^ x.rotateRight 25

/-- `σ₀`. -/
def lowerSigma0 (x : Word) : Word := x.rotateRight 7 ^^^ x.rotateRight 18 ^^^ x >>> 3

/-- `σ₁`. -/
def lowerSigma1 (x : Word) : Word := x.rotateRight 17 ^^^ x.rotateRight 19 ^^^ x >>> 10

/-- The first 32 bits of the fractional parts of the cube roots of the first 64 primes. -/
def constants : List Word := [
  0x428a2f98, 0x71374491, 0xb5c0fbcf, 0xe9b5dba5, 0x3956c25b, 0x59f111f1, 0x923f82a4, 0xab1c5ed5,
  0xd807aa98, 0x12835b01, 0x243185be, 0x550c7dc3, 0x72be5d74, 0x80deb1fe, 0x9bdc06a7, 0xc19bf174,
  0xe49b69c1, 0xefbe4786, 0x0fc19dc6, 0x240ca1cc, 0x2de92c6f, 0x4a7484aa, 0x5cb0a9dc, 0x76f988da,
  0x983e5152, 0xa831c66d, 0xb00327c8, 0xbf597fc7, 0xc6e00bf3, 0xd5a79147, 0x06ca6351, 0x14292967,
  0x27b70a85, 0x2e1b2138, 0x4d2c6dfc, 0x53380d13, 0x650a7354, 0x766a0abb, 0x81c2c92e, 0x92722c85,
  0xa2bfe8a1, 0xa81a664b, 0xc24b8b70, 0xc76c51a3, 0xd192e819, 0xd6990624, 0xf40e3585, 0x106aa070,
  0x19a4c116, 0x1e376c08, 0x2748774c, 0x34b0bcb5, 0x391c0cb3, 0x4ed8aa4a, 0x5b9cca4f, 0x682e6ff3,
  0x748f82ee, 0x78a5636f, 0x84c87814, 0x8cc70208, 0x90befffa, 0xa4506ceb, 0xbef9a3f7, 0xc67178f2]

/-- The eight words of a hash value, and the working variables of a round. -/
structure Hash where
  a : Word
  b : Word
  c : Word
  d : Word
  e : Word
  f : Word
  g : Word
  h : Word
  deriving DecidableEq

namespace Hash

/-- Those of the square roots of the first eight primes. -/
def initial : Hash :=
  ⟨0x6a09e667, 0xbb67ae85, 0x3c6ef372, 0xa54ff53a, 0x510e527f, 0x9b05688c, 0x1f83d9ab, 0x5be0cd19⟩

def words (s : Hash) : List Word := [s.a, s.b, s.c, s.d, s.e, s.f, s.g, s.h]

def add (s t : Hash) : Hash :=
  ⟨s.a + t.a, s.b + t.b, s.c + t.c, s.d + t.d, s.e + t.e, s.f + t.f, s.g + t.g, s.h + t.h⟩

/-- A round, for its constant and the word of the schedule. -/
def round (s : Hash) (k w : Word) : Hash :=
  let t1 := s.h + upperSigma1 s.e + ch s.e s.f s.g + k + w
  let t2 := upperSigma0 s.a + maj s.a s.b s.c
  ⟨t1 + t2, s.a, s.b, s.c, s.d + t1, s.e, s.f, s.g⟩

end Hash

/-! ### The computation -/

/-- How many zero bytes follow the byte after the message. -/
def zeros (length : ℕ) : ℕ := (119 - length % 64) % 64

def pad (message : List UInt8) : List UInt8 :=
  message ++ 0x80 :: List.replicate (zeros message.length) 0 ++
    BigEndian.encode 8 (8 * message.length)

/-- Word `t` of block `i`. -/
def blockWord (bytes : List UInt8) (i t : ℕ) : Word :=
  BitVec.ofNat 32 (BigEndian.decode ((bytes.drop (64 * i + 4 * t)).take 4))

/-- The message schedule `W₀, W₁, …` of a block. -/
def schedule (M : ℕ → Word) (t : ℕ) : Word :=
  if t < 16 then M t
  else lowerSigma1 (schedule M (t - 2)) + schedule M (t - 7) + lowerSigma0 (schedule M (t - 15)) +
    schedule M (t - 16)

/-- The hash value after a block. -/
def compress (s : Hash) (M : ℕ → Word) : Hash :=
  s.add ((List.range 64).foldl (fun v t => v.round (constants.getD t 0) (schedule M t)) s)

def hash (bytes : List UInt8) : Hash :=
  (List.range (bytes.length / 64)).foldl (fun s i => compress s (blockWord bytes i)) .initial

def digest (message : List UInt8) : List UInt8 :=
  (hash (pad message)).words.flatMap (fun w => BigEndian.encode 4 w.toNat)

/-! ### Their shape -/

theorem schedule_lt {M : ℕ → Word} {t : ℕ} (h : t < 16) : schedule M t = M t := by
  rw [schedule, if_pos h]

theorem schedule_ge {M : ℕ → Word} {t : ℕ} (h : 16 ≤ t) : schedule M t =
    lowerSigma1 (schedule M (t - 2)) + schedule M (t - 7) + lowerSigma0 (schedule M (t - 15)) +
      schedule M (t - 16) := by
  rw [schedule, if_neg (by omega)]

/-! ### Lengths -/

/-- With its padding a message fills the blocks that hold nine bytes more. -/
theorem length_pad (message : List UInt8) :
    (pad message).length = 64 * ((message.length + 72) / 64) := by
  unfold pad zeros
  rw [List.length_append, List.length_append, List.length_cons, List.length_replicate,
    BigEndian.length_encode]
  omega

/-! ### Evaluation

A block is hashed with the sixteen words of the schedule that the next round needs. -/

/-- The sixteen words from the next one on. -/
def slide (w : List Word) : List Word :=
  w.tail ++ [lowerSigma1 (w.getD 14 0) + w.getD 9 0 + lowerSigma0 (w.getD 1 0) + w.getD 0 0]

/-- The rounds of some constants, from the words `w` on. -/
def rounds (s : Hash) (w : List Word) : List Word → Hash
  | [] => s
  | k :: ks => rounds (s.round k (w.getD 0 0)) (slide w) ks

theorem slide_schedule (M : ℕ → Word) (t : ℕ) :
    slide ((List.range' t 16).map (schedule M)) = (List.range' (t + 1) 16).map (schedule M) := by
  have hnext := @schedule_ge M (t + 16) (Nat.le_add_left 16 t)
  simp only [Nat.add_sub_cancel, Nat.reduceSubDiff] at hnext
  simp [slide, List.range', hnext]

theorem rounds_eq (M : ℕ → Word) (n t : ℕ) (s : Hash) :
    rounds s ((List.range' t 16).map (schedule M))
      ((List.range' t n).map (fun t => constants.getD t 0)) =
    (List.range' t n).foldl (fun v t => v.round (constants.getD t 0) (schedule M t)) s := by
  induction n generalizing t s with
  | zero => rfl
  | succ n ih =>
    have hhead : ((List.range' t 16).map (schedule M)).getD 0 0 = schedule M t := rfl
    have hconstants : (List.range' t (n + 1)).map (fun t => constants.getD t 0) =
        constants.getD t 0 :: (List.range' (t + 1) n).map (fun t => constants.getD t 0) := rfl
    rw [hconstants, rounds, slide_schedule, hhead, ih]
    rfl

theorem compress_eq (s : Hash) (M : ℕ → Word) :
    compress s M = s.add (rounds s ((List.range 16).map M) constants) := by
  have hfirst : (List.range 16).map M = (List.range' 0 16).map (schedule M) := by
    rw [List.range_eq_range']
    refine List.map_congr_left (fun t ht => (schedule_lt ?_).symm)
    have := List.mem_range'_1.mp ht
    omega
  have hconstants : constants = (List.range' 0 64).map (fun t => constants.getD t 0) := by
    decide +kernel
  have hrounds := rounds_eq M 64 0 s
  rw [← hconstants, ← hfirst, ← List.range_eq_range'] at hrounds
  rw [compress, hrounds]

/-- The words of whole groups of four bytes. -/
def wordsOf : List UInt8 → List Word
  | a :: b :: c :: d :: bytes => BitVec.ofNat 32 (BigEndian.decode [a, b, c, d]) :: wordsOf bytes
  | _ => []

theorem length_wordsOf (bytes : List UInt8) : (wordsOf bytes).length = bytes.length / 4 := by
  fun_induction wordsOf bytes with
  | case1 a b c d bytes ih =>
    simp only [List.length_cons, ih]
    omega
  | case2 bytes hshort =>
    -- fewer than four bytes are left
    have hlt : bytes.length < 4 := by
      match bytes, hshort with
      | [], _ | [_], _ | [_, _], _ | [_, _, _], _ => simp
      | a :: b :: c :: d :: bytes, hshort => exact absurd rfl (hshort a b c d bytes)
    rw [Nat.div_eq_of_lt hlt, List.length_nil]

theorem getElem_wordsOf (bytes : List UInt8) (j : ℕ) (h : j < (wordsOf bytes).length) :
    (wordsOf bytes)[j] = BitVec.ofNat 32 (BigEndian.decode ((bytes.drop (4 * j)).take 4)) := by
  fun_induction wordsOf bytes generalizing j with
  | case1 a b c d bytes ih =>
    cases j with
    | zero => rfl
    | succ j =>
      have hdrop : (a :: b :: c :: d :: bytes).drop (4 * (j + 1)) = bytes.drop (4 * j) := rfl
      rw [List.getElem_cons_succ, ih, hdrop]
  | case2 => exact absurd h (Nat.not_lt_zero j)

/-- The words of a block lie side by side. -/
theorem block_wordsOf {bytes : List UInt8} {i : ℕ} (h : 64 * (i + 1) ≤ bytes.length) :
    ((wordsOf bytes).drop (16 * i)).take 16 = (List.range 16).map (blockWord bytes i) := by
  have hlength := length_wordsOf bytes
  apply List.ext_getElem
  · rw [List.length_take, List.length_drop, List.length_map, List.length_range]
    omega
  · intro t ht _
    rw [List.getElem_take, List.getElem_drop, getElem_wordsOf, List.getElem_map,
      List.getElem_range, blockWord, Nat.mul_add, ← Nat.mul_assoc]

/-- `digest`, in time linear in the message. -/
def fastDigest (message : List UInt8) : List UInt8 :=
  let words := wordsOf (pad message)
  ((List.range (words.length / 16)).foldl (fun (s : Hash) i =>
    s.add (rounds s ((words.drop (16 * i)).take 16) constants)) .initial).words.flatMap
      (fun w => BigEndian.encode 4 w.toNat)

theorem digest_eq (message : List UInt8) : digest message = fastDigest message := by
  have hpad := length_pad message
  have hblocks : (wordsOf (pad message)).length / 16 = (pad message).length / 64 := by
    rw [length_wordsOf]
    omega
  have hfold : hash (pad message) = (List.range ((pad message).length / 64)).foldl (fun s i =>
      s.add (rounds s (((wordsOf (pad message)).drop (16 * i)).take 16) constants)) .initial := by
    refine List.foldl_ext _ _ _ (fun s i hi => ?_)
    have hi := List.mem_range.mp hi
    rw [compress_eq, block_wordsOf (by omega)]
  rw [digest, hfold, ← hblocks]
  rfl

example : (fastDigest [97, 98, 99]).take 8 = [0xba, 0x78, 0x16, 0xbf, 0x8f, 0x01, 0xcf, 0xea] := by
  decide +kernel

end Sha2
