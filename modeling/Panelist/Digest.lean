import Panelist.Platform
import Panelist.Service
import Panelist.TypedArrays

/-! `web/src/sim/sha256.ts`: the port's hash is SHA-256 on every text it can hold, so the port and
the service decide alike which serves prefer a golden task and write the same checksums. -/
namespace Panelist.Port.Sha256
open Script

/-! ### The source -/

def K : List ℤ := [
  0x428a2f98, 0x71374491, 0xb5c0fbcf, 0xe9b5dba5, 0x3956c25b, 0x59f111f1, 0x923f82a4, 0xab1c5ed5,
  0xd807aa98, 0x12835b01, 0x243185be, 0x550c7dc3, 0x72be5d74, 0x80deb1fe, 0x9bdc06a7, 0xc19bf174,
  0xe49b69c1, 0xefbe4786, 0x0fc19dc6, 0x240ca1cc, 0x2de92c6f, 0x4a7484aa, 0x5cb0a9dc, 0x76f988da,
  0x983e5152, 0xa831c66d, 0xb00327c8, 0xbf597fc7, 0xc6e00bf3, 0xd5a79147, 0x06ca6351, 0x14292967,
  0x27b70a85, 0x2e1b2138, 0x4d2c6dfc, 0x53380d13, 0x650a7354, 0x766a0abb, 0x81c2c92e, 0x92722c85,
  0xa2bfe8a1, 0xa81a664b, 0xc24b8b70, 0xc76c51a3, 0xd192e819, 0xd6990624, 0xf40e3585, 0x106aa070,
  0x19a4c116, 0x1e376c08, 0x2748774c, 0x34b0bcb5, 0x391c0cb3, 0x4ed8aa4a, 0x5b9cca4f, 0x682e6ff3,
  0x748f82ee, 0x78a5636f, 0x84c87814, 0x8cc70208, 0x90befffa, 0xa4506ceb, 0xbef9a3f7, 0xc67178f2]

def rotr (x : ℤ) (n : ℕ) : ℤ := bitOr (shiftRightZero x n) (shiftLeft x (32 - n))

/-- The array `h`, and the variables of the rounds. -/
structure Vars where
  a : ℤ
  b : ℤ
  c : ℤ
  d : ℤ
  e : ℤ
  f : ℤ
  g : ℤ
  hh : ℤ

def start : Vars :=
  ⟨0x6a09e667, 0xbb67ae85, 0x3c6ef372, 0xa54ff53a, 0x510e527f, 0x9b05688c, 0x1f83d9ab, 0x5be0cd19⟩

/-- `w[i] = view.getUint32(off + i * 4)`. -/
def load (view : List UInt8) (off : ℕ) (w : List ℤ) (i : ℕ) : Except Thrown (List ℤ) := do
  let word ← getUint32 view ((off + i * 4 : ℕ) : ℤ)
  pure (w.set i word)

/-- `w[i]` for `i` from 16 on. -/
def expand (w : List ℤ) (i : ℕ) : List ℤ :=
  let w15 := w.getD (i - 15) 0
  let w2 := w.getD (i - 2) 0
  let s0 := bitXor (bitXor (rotr w15 7) (rotr w15 18)) (shiftRightZero w15 3)
  let s1 := bitXor (bitXor (rotr w2 17) (rotr w2 19)) (shiftRightZero w2 10)
  w.set i (shiftRightZero (w.getD (i - 16) 0 + s0 + w.getD (i - 7) 0 + s1) 0)

def round (w : List ℤ) (v : Vars) (i : ℕ) : Vars :=
  let S1 := bitXor (bitXor (rotr v.e 6) (rotr v.e 11)) (rotr v.e 25)
  let ch := bitXor (bitAnd v.e v.f) (bitAnd (bitNot v.e) v.g)
  let t1 := shiftRightZero (v.hh + S1 + ch + K.getD i 0 + w.getD i 0) 0
  let S0 := bitXor (bitXor (rotr v.a 2) (rotr v.a 13)) (rotr v.a 22)
  let maj := bitXor (bitXor (bitAnd v.a v.b) (bitAnd v.a v.c)) (bitAnd v.b v.c)
  let t2 := shiftRightZero (S0 + maj) 0
  { hh := v.g
    g := v.f
    f := v.e
    e := shiftRightZero (v.d + t1) 0
    d := v.c
    c := v.b
    b := v.a
    a := shiftRightZero (t1 + t2) 0 }

def Vars.add (h v : Vars) : Vars :=
  { a := shiftRightZero (h.a + v.a) 0
    b := shiftRightZero (h.b + v.b) 0
    c := shiftRightZero (h.c + v.c) 0
    d := shiftRightZero (h.d + v.d) 0
    e := shiftRightZero (h.e + v.e) 0
    f := shiftRightZero (h.f + v.f) 0
    g := shiftRightZero (h.g + v.g) 0
    hh := shiftRightZero (h.hh + v.hh) 0 }

def Vars.toList (h : Vars) : List ℤ := [h.a, h.b, h.c, h.d, h.e, h.f, h.g, h.hh]

/-- The loop's body for the block at `off`. The array `w` is the same one for all blocks. -/
def block (view : List UInt8) (s : Vars × List ℤ) (off : ℕ) : Except Thrown (Vars × List ℤ) := do
  let w ← (List.range 16).foldlM (load view off) s.2
  let w := (List.range' 16 48).foldl expand w
  let v := (List.range 64).foldl (round w) s.1
  pure (s.1.add v, w)

/-- `padded`, with the length in bits at its end. -/
def paddedBytes (data : List UInt8) : Except Thrown (List UInt8) := do
  let bitLen : ℤ := data.length * 8
  let padded ← newUint8Array (shiftLeft (shiftRight (data.length + 9 + 63) 6) 6)
  let padded ← setBytes padded data
  let padded := padded.set data.length 0x80
  let padded ← setUint32 padded (padded.length - 8) (bitLen / 0x100000000)
  setUint32 padded (padded.length - 4) (shiftRightZero bitLen 0)

/-- `ov.setUint32(i * 4, h[i])`. -/
def store (h : List ℤ) (out : List UInt8) (i : ℕ) : Except Thrown (List UInt8) :=
  setUint32 out ((i * 4 : ℕ) : ℤ) (h.getD i 0)

/-- `out`. -/
def output (h : Vars) : Except Thrown (List UInt8) := do
  let out ← newUint8Array 32
  (List.range 8).foldlM (store h.toList) out

end Sha256

open Script Sha256 Transaction

def sha256Bytes (data : List UInt8) : Except Thrown (List UInt8) := do
  let padded ← paddedBytes data
  let offsets := (List.range ((padded.length + 63) / 64)).map (fun k => 64 * k)
  let s ← offsets.foldlM (block padded) (start, List.replicate 64 0)
  output s.1

example : (sha256Bytes "abc".toUTF8.data.toList).toOption = some [
    0xba, 0x78, 0x16, 0xbf, 0x8f, 0x01, 0xcf, 0xea, 0x41, 0x41, 0x40, 0xde, 0x5d, 0xae, 0x22, 0x23,
    0xb0, 0x03, 0x61, 0xa3, 0x96, 0x17, 0x7a, 0x9c, 0xb4, 0x10, 0xff, 0x61, 0xf2, 0x00, 0x15,
    0xad] := by
  decide +kernel

namespace Sha256

/-! ### Rounds and blocks -/

/-- The words behind the variables. -/
def Vars.hash (v : Vars) : Sha2.Hash :=
  ⟨bits v.a, bits v.b, bits v.c, bits v.d, bits v.e, bits v.f, bits v.g, bits v.hh⟩

section Rounds

theorem bits_rotr (x : ℤ) {n : ℕ} (h : 0 < n) (h' : n < 32) :
    bits (rotr x n) = (bits x).rotateRight n := by
  have hleft : (32 - n) % 32 = 32 - n := Nat.mod_eq_of_lt (by omega)
  rw [rotr, bits_bitOr, bits_shiftRightZero, bits_shiftLeft, hleft, Nat.mod_eq_of_lt h',
    BitVec.rotateRight, BitVec.rotateRightAux, Nat.mod_eq_of_lt h']

theorem bits_K (t : ℕ) : bits (K.getD t 0) = Sha2.constants.getD t 0 := by
  have hK : K.map bits = Sha2.constants := by decide
  have hzero : bits 0 = 0 := by decide
  rw [← hK, ← hzero, List.getD_map]

theorem hash_start : start.hash = Sha2.Hash.initial := by decide

theorem hash_add (h v : Vars) : (h.add v).hash = h.hash.add v.hash := by
  simp [Vars.hash, Vars.add, Sha2.Hash.add]

theorem hash_round (w : List ℤ) (v : Vars) (i : ℕ) : (round w v i).hash =
    v.hash.round (Sha2.constants.getD i 0) (bits (w.getD i 0)) := by
  rw [← bits_K]
  simp only [Vars.hash, round, Sha2.Hash.round, Sha2.upperSigma0, Sha2.upperSigma1, Sha2.ch,
    Sha2.maj, bits_unsigned, bits_add, bits_bitXor, bits_bitAnd, bits_bitNot]
  rw [bits_rotr _ (by decide) (by decide), bits_rotr _ (by decide) (by decide),
    bits_rotr _ (by decide) (by decide), bits_rotr _ (by decide) (by decide),
    bits_rotr _ (by decide) (by decide), bits_rotr _ (by decide) (by decide)]

/-- The first `n` entries hold the schedule of the block. -/
structure Filled (M : ℕ → Sha2.Word) (n : ℕ) (w : List ℤ) : Prop where
  length : w.length = 64
  words : ∀ t < n, bits (w.getD t 0) = Sha2.schedule M t

theorem getD_set (w : List ℤ) {i : ℕ} (x : ℤ) (h : i < w.length) (t : ℕ) :
    (w.set i x).getD t 0 = if i = t then x else w.getD t 0 := by
  rw [List.getD_eq_getElem?_getD, List.getElem?_set, if_pos h]
  split_ifs
  · rfl
  · rw [List.getD_eq_getElem?_getD]

/-- A step writes the next entry and leaves those before it. -/
theorem Filled.set {M : ℕ → Sha2.Word} {n : ℕ} {w : List ℤ} (h : Filled M n w) (hn : n < 64)
    {x : ℤ} (hx : bits x = Sha2.schedule M n) : Filled M (n + 1) (w.set n x) := by
  refine ⟨by rw [List.length_set, h.length], fun t ht => ?_⟩
  rw [getD_set w x (by rw [h.length]; exact hn)]
  split_ifs with heq
  · rw [hx, heq]
  · exact h.words t (by omega)

theorem Filled.expand {M : ℕ → Sha2.Word} {n : ℕ} {w : List ℤ} (h : Filled M n w) (hlow : 16 ≤ n)
    (hn : n < 64) : Filled M (n + 1) (expand w n) := by
  apply h.set hn
  rw [Sha2.schedule_ge hlow, ← h.words (n - 2) (by omega), ← h.words (n - 7) (by omega),
    ← h.words (n - 15) (by omega), ← h.words (n - 16) (by omega)]
  simp only [bits_add, bits_bitXor, bits_shiftRightZero, Sha2.lowerSigma0, Sha2.lowerSigma1]
  rw [bits_rotr _ (by decide) (by decide), bits_rotr _ (by decide) (by decide),
    bits_rotr _ (by decide) (by decide), bits_rotr _ (by decide) (by decide)]
  ac_rfl

theorem Filled.expanded {M : ℕ → Sha2.Word} {w : List ℤ} (h : Filled M 16 w) {n : ℕ}
    (hn : n ≤ 48) : Filled M (16 + n) ((List.range' 16 n).foldl Sha256.expand w) := by
  induction n with
  | zero => exact h
  | succ n ih =>
    rw [List.range'_concat, List.foldl_append, Nat.one_mul]
    exact (ih (by omega)).expand (by omega) (by omega)

theorem rounds_hash {M : ℕ → Sha2.Word} {w : List ℤ} (h : Filled M 64 w) (v : Vars) {n : ℕ}
    (hn : n ≤ 64) : ((List.range n).foldl (round w) v).hash =
      (List.range n).foldl (fun s t => s.round (Sha2.constants.getD t 0) (Sha2.schedule M t))
        v.hash := by
  induction n with
  | zero => rfl
  | succ n ih =>
    rw [List.range_succ, List.foldl_append, List.foldl_append, ← ih (by omega)]
    show (round w _ n).hash = _
    rw [hash_round, h.words n (by omega)]
    rfl

variable {view : List UInt8} {k : ℕ}

/-- The words of a block fill the first sixteen entries. -/
theorem loaded {w : List ℤ} (hw : w.length = 64) (hview : 64 * k + 64 ≤ view.length) {n : ℕ}
    (hn : n ≤ 16) : ∃ w', (List.range n).foldlM (load view (64 * k)) w = .ok w' ∧
      Filled (Sha2.blockWord view k) n w' := by
  induction n with
  | zero => exact ⟨w, rfl, hw, fun t ht => absurd ht (by omega)⟩
  | succ n ih =>
    obtain ⟨w', hfold, hfilled⟩ := ih (by omega)
    let word : ℤ := BigEndian.decode ((view.drop (64 * k + n * 4)).take 4)
    have hload : load view (64 * k) w' n = .ok (w'.set n word) := by
      rw [load, getUint32_ok (by omega)]
      rfl
    refine ⟨w'.set n word, ?_, hfilled.set (by omega) ?_⟩
    · rw [List.range_succ, List.foldlM_append, hfold]
      show (List.foldlM (load view (64 * k)) w' [n]) = _
      rw [List.foldlM_cons, hload]
      rfl
    · rw [Sha2.schedule_lt (by omega), Sha2.blockWord, Nat.mul_comm 4 n]
      exact bits_natCast _

theorem block_ok (s : Vars × List ℤ) (hw : s.2.length = 64) (hview : 64 * k + 64 ≤ view.length) :
    ∃ s', block view s (64 * k) = .ok s' ∧ s'.2.length = 64 ∧
      s'.1.hash = Sha2.compress s.1.hash (Sha2.blockWord view k) := by
  obtain ⟨w, hload, hfilled⟩ := loaded hw hview le_rfl
  have hexpanded : Filled (Sha2.blockWord view k) 64 ((List.range' 16 48).foldl expand w) :=
    hfilled.expanded le_rfl
  unfold block
  rw [hload]
  show ∃ s', Except.ok _ = Except.ok s' ∧ _
  generalize (List.range' 16 48).foldl expand w = w' at hexpanded
  refine ⟨_, rfl, hexpanded.length, ?_⟩
  rw [hash_add, rounds_hash hexpanded s.1 le_rfl, Sha2.compress]

theorem blocks_ok {n : ℕ} (hview : 64 * n ≤ view.length) :
    ∃ s, ((List.range n).map (fun k => 64 * k)).foldlM (block view) (start, List.replicate 64 0) =
        .ok s ∧ s.2.length = 64 ∧
      s.1.hash = (List.range n).foldl (fun h k => Sha2.compress h (Sha2.blockWord view k))
        .initial := by
  induction n with
  | zero => exact ⟨_, rfl, List.length_replicate, hash_start⟩
  | succ n ih =>
    obtain ⟨s, hfold, hw, hhash⟩ := ih (by omega)
    obtain ⟨s', hblock, hw', hhash'⟩ := @block_ok view n s hw (by omega)
    refine ⟨s', ?_, hw', ?_⟩
    · rw [List.range_succ, List.map_append, List.foldlM_append, hfold]
      show (List.foldlM (block view) s [64 * n]) = _
      rw [List.foldlM_cons, hblock]
      rfl
    · rw [List.range_succ, List.foldl_append, ← hhash, hhash']
      rfl

end Rounds

/-! ### Padding and output -/

section Padding

/-- The padded length in 32 bits: right below `2 ^ 31`, else negative or shorter than the data. -/
theorem length_padded (n : ℕ) :
    (n + 72 < 2147483648 → shiftLeft (shiftRight (n + 9 + 63) 6) 6 = (64 * ((n + 72) / 64) : ℕ)) ∧
    (¬ n + 72 < 2147483648 → shiftLeft (shiftRight (n + 9 + 63) 6) 6 < n) := by
  have hsplit := Int.bmod_eq_self_sub_mul_bdiv ((n : ℤ) + 9 + 63) 4294967296
  have hlow := Int.le_bmod (x := (n : ℤ) + 9 + 63) (m := 4294967296) (by decide)
  have hhigh := Int.bmod_lt (x := (n : ℤ) + 9 + 63) (m := 4294967296) (by decide)
  rw [shiftLeft_shiftRight]
  constructor
  · intro h
    omega
  · intro h
    omega

theorem set_length (data rest : List UInt8) (x y : UInt8) :
    (data ++ x :: rest).set data.length y = data ++ y :: rest := by
  rw [List.set_append_right _ _ le_rfl, Nat.sub_self, List.set_cons_zero]

/-- The two words at the end are the length in bits. -/
theorem encode_bitLen (n : ℕ) : BigEndian.encode 4 (bits ((n : ℤ) * 8 / 0x100000000)).toNat ++
    BigEndian.encode 4 (bits (shiftRightZero ((n : ℤ) * 8) 0)).toNat =
      BigEndian.encode 8 (8 * n) := by
  have hhigh : (bits ((n : ℤ) * 8 / 0x100000000)).toNat = 8 * n / 256 ^ 4 % 256 ^ 4 := by
    have hcast : (n : ℤ) * 8 / 0x100000000 = ((8 * n / 256 ^ 4 : ℕ) : ℤ) := by omega
    rw [hcast, bits_natCast]
    exact BitVec.toNat_ofNat _ _
  have hlow : (bits (shiftRightZero ((n : ℤ) * 8) 0)).toNat = 8 * n % 256 ^ 4 := by
    have hcast : (n : ℤ) * 8 = ((8 * n : ℕ) : ℤ) := by omega
    rw [bits_unsigned, hcast, bits_natCast]
    exact BitVec.toNat_ofNat _ _
  rw [hhigh, hlow, BigEndian.encode_mod, BigEndian.encode_mod]
  exact (BigEndian.encode_add 4 4 (8 * n)).symm

/-- Behind the data a byte, the zeros and two words are left. -/
theorem padded_room (n : ℕ) :
    64 * ((n + 72) / 64) = n + (1 + (Sha2.zeros n + (4 + 4))) := by
  unfold Sha2.zeros
  omega

theorem paddedBytes_eq (data : List UInt8) : paddedBytes data =
    if data.length + 72 < 2147483648 then .ok (Sha2.pad data) else .error .rangeError := by
  obtain ⟨hshort, hlong⟩ := length_padded data.length
  unfold paddedBytes
  split_ifs with h
  · have hroom := padded_room data.length
    let front := data ++ 0x80 :: List.replicate (Sha2.zeros data.length) 0
    let high : ℤ := data.length * 8 / 0x100000000
    let low : ℤ := shiftRightZero (data.length * 8) 0
    have hfront : front.length = 64 * ((data.length + 72) / 64) - 8 := by
      rw [List.length_append, List.length_cons, List.length_replicate]
      omega
    have hset : setBytes (List.replicate (64 * ((data.length + 72) / 64)) 0) data =
        .ok (data ++ 0 :: (List.replicate (Sha2.zeros data.length) 0 ++
          (List.replicate 4 0 ++ List.replicate 4 0))) := by
      rw [setBytes, if_pos (by rw [List.length_replicate]; omega), List.drop_replicate,
        ← List.replicate_add, ← List.replicate_add, ← List.replicate_succ]
      congr 3
      omega
    -- the end mark, right after the message
    have hmark : (data ++ 0 :: (List.replicate (Sha2.zeros data.length) 0 ++
        (List.replicate 4 0 ++ List.replicate 4 0))).set data.length 0x80 =
          front ++ List.replicate 4 0 ++ List.replicate 4 0 := by
      rw [set_length]
      simp only [front, List.append_assoc, List.cons_append]
    -- the length in bits, as two words of 32
    have hhigh : setUint32 (front ++ List.replicate 4 0 ++ List.replicate 4 0)
        ((front ++ List.replicate 4 0 ++ List.replicate 4 (0 : UInt8)).length - 8) high =
          .ok (front ++ BigEndian.encode 4 (bits high).toNat ++ List.replicate 4 0) := by
      rw [← setUint32_append high (List.length_replicate (n := 4) (a := (0 : UInt8)))]
      congr 1
      simp only [List.length_append, List.length_replicate]
      omega
    have hlow : setUint32 (front ++ BigEndian.encode 4 (bits high).toNat ++ List.replicate 4 0)
        ((front ++ BigEndian.encode 4 (bits high).toNat ++ List.replicate 4 (0 : UInt8)).length - 4)
          low = .ok (front ++ BigEndian.encode 4 (bits high).toNat ++
            BigEndian.encode 4 (bits low).toNat) := by
      have happend := @setUint32_append (front ++ BigEndian.encode 4 (bits high).toNat)
        (List.replicate 4 0) [] low List.length_replicate
      rw [List.append_nil, List.append_nil] at happend
      rw [← happend]
      congr 1
      simp only [List.length_append, List.length_replicate]
      omega
    have hpad : front ++ BigEndian.encode 4 (bits high).toNat ++
        BigEndian.encode 4 (bits low).toNat = Sha2.pad data := by
      rw [List.append_assoc, encode_bitLen]
      rfl
    rw [hshort h, newUint8Array, if_pos (by omega), Int.toNat_natCast, ← hpad, ← hlow]
    show (setBytes _ data >>= _) = _
    rw [hset]
    show (setUint32 _ _ high >>= _) = _
    rw [hmark, hhigh]
    rfl
  · have hlong := hlong h
    -- the shifts wrap: the size comes out negative, or smaller than the message
    by_cases hneg : 0 ≤ shiftLeft (shiftRight ((data.length : ℤ) + 9 + 63) 6) 6
    · have hset : setBytes (List.replicate
          (shiftLeft (shiftRight ((data.length : ℤ) + 9 + 63) 6) 6).toNat 0) data =
            .error .rangeError := by
        rw [setBytes, if_neg]
        rw [List.length_replicate]
        omega
      rw [newUint8Array, if_pos hneg]
      show (setBytes _ data >>= _) = _
      rw [hset]
      rfl
    · rw [newUint8Array, if_neg hneg]
      rfl

/-- The words are written one behind the other. -/
theorem stored {h : List ℤ} (hl : h.length = 8) {n : ℕ} (hn : n ≤ 8) :
    (List.range n).foldlM (store h) (List.replicate 32 0) =
      .ok ((h.take n).flatMap (fun x => BigEndian.encode 4 (bits x).toNat) ++
        List.replicate (32 - 4 * n) 0) := by
  induction n with
  | zero => rfl
  | succ n ih =>
    let front := (h.take n).flatMap (fun x => BigEndian.encode 4 (bits x).toNat)
    have hfront : front.length = n * 4 := by
      simp only [front, List.length_flatMap, BigEndian.length_encode, List.map_const',
        List.sum_replicate, smul_eq_mul, List.length_take]
      rw [min_eq_left (by omega)]
    have htake : h.take (n + 1) = h.take n ++ [h.getD n 0] := by
      rw [List.take_add_one, List.getD_eq_getElem?_getD, List.getElem?_eq_getElem (by omega)]
      rfl
    have hrest : List.replicate (32 - 4 * n) (0 : UInt8) =
        List.replicate 4 0 ++ List.replicate (32 - 4 * (n + 1)) 0 := by
      rw [← List.replicate_add]
      congr 1
      omega
    -- the next word goes where the zeros begin
    have hstore : store h (front ++ List.replicate 4 0 ++ List.replicate (32 - 4 * (n + 1)) 0) n =
        .ok (front ++ BigEndian.encode 4 (bits (h.getD n 0)).toNat ++
          List.replicate (32 - 4 * (n + 1)) 0) := by
      rw [← setUint32_append _ (List.length_replicate (n := 4) (a := (0 : UInt8))), store, hfront]
    rw [List.range_succ, List.foldlM_append, ih (by omega), hrest, ← List.append_assoc]
    show List.foldlM (store h) _ [n] = _
    rw [List.foldlM_cons, hstore, htake, List.flatMap_append, List.flatMap_singleton]
    rfl

theorem output_eq (h : Vars) :
    output h = .ok (h.hash.words.flatMap (fun w => BigEndian.encode 4 w.toNat)) := by
  have hwords : h.toList.map bits = h.hash.words := rfl
  have hall : h.toList.take 8 = h.toList := List.take_of_length_le le_rfl
  have hstored := stored (h := h.toList) rfl le_rfl
  rw [hall, Nat.sub_self, List.replicate_zero, List.append_nil] at hstored
  have hnew : newUint8Array 32 = .ok (List.replicate 32 0) := rfl
  rw [output, hnew, ok_bind, hstored, ← hwords, List.flatMap_map]

end Padding

end Sha256

/-- The port's hash is SHA-256, up to the length where the size of the padded array no longer
fits into 32 bits; there the call throws. -/
theorem sha256Bytes_eq (data : List UInt8) : sha256Bytes data =
    if data.length + 72 < 2147483648 then .ok (Sha2.digest data) else .error .rangeError := by
  unfold sha256Bytes
  rw [paddedBytes_eq]
  split_ifs with h
  · have hlength := Sha2.length_pad data
    -- the padded length is a whole number of blocks
    have hblocks : ((Sha2.pad data).length + 63) / 64 = (Sha2.pad data).length / 64 := by omega
    obtain ⟨⟨v, w⟩, hfold, -, hhash⟩ := @blocks_ok (Sha2.pad data)
      ((Sha2.pad data).length / 64) (by omega)
    rw [ok_bind, hblocks]
    dsimp only
    rw [hfold, ok_bind, output_eq, Sha2.digest, Sha2.hash, ← hhash]
  · rfl

/-! ### The service's digests -/

/-- `sha256Hex`. -/
def sha256Hex (text : String) : Except Thrown String := do
  let bytes ← sha256Bytes text.toUTF8.data.toList
  pure (String.ofList (bytes.flatMap (fun b => (Nat.toDigits 16 b.toNat).leftpad 2 '0')))

/-- The host hashes by `sha256Hex`, and the service by `hashlib.sha256`. -/
structure Hashing (host : Host) (env : Env) : Prop where
  port : ∀ text hex, sha256Hex text = .ok hex → host.sha256Hex text = hex
  service : ∀ bytes : ByteArray, env.sha256 bytes = Sha2.digest bytes.data.toList

/-- What the choice of golden work depends on. -/
structure SameAttention (settings : Settings) (env : Env) : Prop where
  fraction : settings.attentionFraction = env.settings.attentionFraction
  key : settings.attentionKey = env.settings.attentionKey

/-- A text whose padded bytes fit into 32 bits. -/
def Short (text : String) : Prop := text.toUTF8.size + 72 < 2147483648

section Agreement
variable {host : Host} {env : Env}

theorem sha256Hex_eq {text : String} (h : Short text) :
    sha256Hex text = .ok (hexDigest (Sha2.digest text.toUTF8.data.toList)) := by
  have hshort : text.toUTF8.data.toList.length + 72 < 2147483648 := h
  rw [sha256Hex, sha256Bytes_eq, if_pos hshort]
  rfl

theorem hashes_agree (h : Hashing host env) {text : String} (hshort : Short text) :
    host.sha256Hex text = hexDigest (env.sha256 text.toUTF8) := by
  rw [h.port text _ (sha256Hex_eq hshort), h.service]

/-- A byte is written as two hexadecimal digits. -/
theorem hex_byte (b : UInt8) : ∃ c d, (Nat.toDigits 16 b.toNat).leftpad 2 '0' = [c, d] ∧
    16 * leadingHex.digit c + leadingHex.digit d = b.toNat := by
  have hall : ∀ n < 256, ((Nat.toDigits 16 n).leftpad 2 '0').length = 2 ∧
      ((Nat.toDigits 16 n).leftpad 2 '0').foldl (fun n c => 16 * n + leadingHex.digit c) 0 = n := by
    decide +kernel
  obtain ⟨hlength, hfold⟩ := hall b.toNat b.toNat_lt
  obtain ⟨c, d, hcd⟩ := List.length_eq_two.mp hlength
  refine ⟨c, d, hcd, ?_⟩
  rw [hcd] at hfold
  simpa using hfold

/-- Eight digits are four bytes. -/
theorem take_hex (bytes : List UInt8) (k : ℕ) :
    (bytes.flatMap (fun b => (Nat.toDigits 16 b.toNat).leftpad 2 '0')).take (2 * k) =
      (bytes.take k).flatMap (fun b => (Nat.toDigits 16 b.toNat).leftpad 2 '0') := by
  induction bytes generalizing k with
  | nil => simp
  | cons b bytes ih =>
    obtain ⟨c, d, hcd, -⟩ := hex_byte b
    cases k with
    | zero => rfl
    | succ k =>
      rw [List.flatMap_cons, List.take_succ_cons, List.flatMap_cons, hcd, Nat.mul_succ]
      exact congrArg (fun l => c :: d :: l) (ih k)

theorem foldl_hex (bytes : List UInt8) (n : ℕ) :
    (bytes.flatMap (fun b => (Nat.toDigits 16 b.toNat).leftpad 2 '0')).foldl
      (fun n c => 16 * n + leadingHex.digit c) n =
        bytes.foldl (fun n b => n * 256 + b.toNat) n := by
  induction bytes generalizing n with
  | nil => rfl
  | cons b bytes ih =>
    obtain ⟨c, d, hcd, hdigits⟩ := hex_byte b
    have hn : 16 * (16 * n + leadingHex.digit c) + leadingHex.digit d = n * 256 + b.toNat := by
      omega
    rw [List.flatMap_cons, List.foldl_append, hcd, List.foldl_cons, List.foldl_cons,
      List.foldl_nil, hn, ih, List.foldl_cons]

/-- `parseInt(digest.slice(0, 8), 16)` is `int.from_bytes(digest[:4], "big")`. -/
theorem leadingHex_hexDigest (bytes : List UInt8) :
    leadingHex (hexDigest bytes) = bigEndian (bytes.take 4) := by
  rw [leadingHex, hexDigest, String.toList_ofList, take_hex bytes 4, foldl_hex]
  rfl

/-- The port and the service agree on every digest of a text, hence on every checksum, and on
which serves of which experts prefer a golden task. -/
theorem port_hashes_as_service {settings : Settings} (h : Hashing host env)
    (hsame : SameAttention settings env) :
    (∀ text, Short text → host.sha256Hex text = hexDigest (env.sha256 text.toUTF8)) ∧
    ∀ (expertId : Uuid) (serveIndex : ℕ),
      Short s!"{settings.attentionKey}:{expertId.str}:{serveIndex}" →
      prefersAttentionCheck host settings expertId.str serveIndex =
        Panelist.prefersAttentionCheck env expertId serveIndex := by
  refine ⟨fun text => hashes_agree h, fun expertId serveIndex hshort => ?_⟩
  unfold prefersAttentionCheck Panelist.prefersAttentionCheck
  dsimp only
  rw [hashes_agree h hshort, leadingHex_hexDigest, hsame.fraction, hsame.key]

end Agreement

def hashingHost : Host where
  sha256Hex text := (sha256Hex text).toOption.getD ""
  uuid n := toString n
  numberText _ := []

def hashingEnv : Env := { Scenario.env 0 with sha256 := fun bytes => Sha2.digest bytes.data.toList }

/-- The defaults of the service's settings. -/
def attentionDefaults : Settings where
  leaseSeconds := 900
  attentionFraction := hashingEnv.settings.attentionFraction
  attentionKey := hashingEnv.settings.attentionKey
  attentionWindow := 10
  attentionMinChecks := 3
  attentionThreshold := 7 / 10
  attentionTolerance := 1

theorem port_hashes_as_service_default :
    hashingHost.sha256Hex "abc" = hexDigest (hashingEnv.sha256 "abc".toUTF8) ∧
    prefersAttentionCheck hashingHost attentionDefaults (3 : Uuid).str 7 =
      Panelist.prefersAttentionCheck hashingEnv 3 7 := by
  have hhashing : Hashing hashingHost hashingEnv := by
    refine ⟨fun text hex h => ?_, fun _ => rfl⟩
    simp only [hashingHost, h]
    rfl
  obtain ⟨htexts, hserves⟩ :=
    @port_hashes_as_service hashingHost hashingEnv attentionDefaults hhashing ⟨rfl, rfl⟩
  exact ⟨htexts "abc" (by unfold Short; decide), hserves 3 7 (by unfold Short; decide +kernel)⟩

end Panelist.Port
