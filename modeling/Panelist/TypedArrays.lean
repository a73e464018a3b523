import Panelist.Sha256

/-! A script's operators on the 32 low bits of whole numbers, and its arrays of bytes. The numbers
stay below `2 ^ 53`, where sums of a script's numbers are exact. -/
namespace Script

/-! ### 32-bit operators -/

/-- The bits that an operator sees of a number. -/
def bits (x : ℤ) : BitVec 32 := BitVec.ofInt 32 x

/-- `x & y`. The result is signed. -/
def bitAnd (x y : ℤ) : ℤ := (bits x &&& bits y).toInt

/-- `x | y`. -/
def bitOr (x y : ℤ) : ℤ := (bits x ||| bits y).toInt

/-- `x ^ y`. -/
def bitXor (x y : ℤ) : ℤ := (bits x ^^^ bits y).toInt

/-- `~x`. -/
def bitNot (x : ℤ) : ℤ := (~~~bits x).toInt

/-- `x << n`. -/
def shiftLeft (x : ℤ) (n : ℕ) : ℤ := (bits x <<< (n % 32)).toInt

/-- `x >> n`, which keeps the sign. -/
def shiftRight (x : ℤ) (n : ℕ) : ℤ := ((bits x).sshiftRight (n % 32)).toInt

/-- `x >>> n`. The result is unsigned. -/
def shiftRightZero (x : ℤ) (n : ℕ) : ℤ := (bits x >>> (n % 32)).toNat

section Bits
variable (x y : ℤ)

@[simp] theorem bits_add : bits (x + y) = bits x + bits y := BitVec.ofInt_add x y

@[simp] theorem bits_bitAnd : bits (bitAnd x y) = bits x &&& bits y := BitVec.ofInt_toInt

@[simp] theorem bits_bitOr : bits (bitOr x y) = bits x ||| bits y := BitVec.ofInt_toInt

@[simp] theorem bits_bitXor : bits (bitXor x y) = bits x ^^^ bits y := BitVec.ofInt_toInt

@[simp] theorem bits_bitNot : bits (bitNot x) = ~~~bits x := BitVec.ofInt_toInt

@[simp] theorem bits_shiftLeft (n : ℕ) : bits (shiftLeft x n) = bits x <<< (n % 32) :=
  BitVec.ofInt_toInt

theorem bits_natCast (n : ℕ) : bits n = BitVec.ofNat 32 n := BitVec.ofInt_natCast 32 n

@[simp] theorem bits_shiftRightZero (n : ℕ) : bits (shiftRightZero x n) = bits x >>> (n % 32) := by
  rw [shiftRightZero, bits_natCast, BitVec.ofNat_toNat, BitVec.setWidth_eq]

/-- `x >>> 0` changes no bit. -/
@[simp] theorem bits_unsigned : bits (shiftRightZero x 0) = bits x := by simp

theorem toInt_bits : (bits x).toInt = x.bmod 4294967296 := BitVec.toInt_ofInt x

/-- Rounding down to a multiple of 64 in 32 bits. -/
theorem shiftLeft_shiftRight : shiftLeft (shiftRight x 6) 6 = 64 * (x.bmod 4294967296 / 64) := by
  have hright : shiftRight x 6 = x.bmod 4294967296 / 64 := by
    rw [shiftRight, BitVec.toInt_sshiftRight, toInt_bits]
    exact Int.shiftRight_eq_div_pow _ 6
  have hleft (y : ℤ) : bits y <<< (6 % 32) = bits (64 * y) := by
    rw [BitVec.shiftLeft_eq_mul_twoPow, bits, bits, BitVec.ofInt_mul, BitVec.mul_comm]
    rfl
  rw [hright, shiftLeft, hleft, toInt_bits]
  -- the multiple is in range, as the number itself is
  apply Int.bmod_eq_of_le
  · have hlow := Int.le_bmod (x := x) (m := 4294967296) (by decide)
    omega
  · have hhigh := Int.bmod_lt (x := x) (m := 4294967296) (by decide)
    omega

end Bits

/-! ### Arrays of bytes -/

inductive Thrown where
  | rangeError
  deriving DecidableEq

/-- `new Uint8Array(length)`. -/
def newUint8Array (length : ℤ) : Except Thrown (List UInt8) :=
  if 0 ≤ length then .ok (List.replicate length.toNat 0) else .error .rangeError

/-- `array.set(source)`. -/
def setBytes (array source : List UInt8) : Except Thrown (List UInt8) :=
  if source.length ≤ array.length then .ok (source ++ array.drop source.length)
  else .error .rangeError

/-- `DataView.setUint32`. -/
def setUint32 (array : List UInt8) (offset value : ℤ) : Except Thrown (List UInt8) :=
  if 0 ≤ offset ∧ offset + 4 ≤ array.length then
    .ok (array.take offset.toNat ++ BigEndian.encode 4 (bits value).toNat ++
      array.drop (offset.toNat + 4))
  else .error .rangeError

/-- `DataView.getUint32`. -/
def getUint32 (array : List UInt8) (offset : ℤ) : Except Thrown ℤ :=
  if 0 ≤ offset ∧ offset + 4 ≤ array.length then
    .ok (BigEndian.decode ((array.drop offset.toNat).take 4))
  else .error .rangeError

theorem setUint32_append {front old back : List UInt8} (value : ℤ) (h : old.length = 4) :
    setUint32 (front ++ old ++ back) front.length value =
      .ok (front ++ BigEndian.encode 4 (bits value).toNat ++ back) := by
  have hin : (0 : ℤ) ≤ front.length ∧
      (front.length : ℤ) + 4 ≤ ((front ++ old ++ back).length : ℤ) := by
    simp only [List.length_append, h]
    omega
  have htake : (front ++ old ++ back).take front.length = front := by
    rw [List.append_assoc, List.take_left]
  have hdrop : (front ++ old ++ back).drop (front.length + 4) = back := by
    rw [← h, ← List.length_append, List.drop_left]
  rw [setUint32, if_pos hin, Int.toNat_natCast, htake, hdrop]

theorem getUint32_ok {array : List UInt8} {offset : ℕ} (h : offset + 4 ≤ array.length) :
    getUint32 array offset = .ok (BigEndian.decode ((array.drop offset).take 4)) := by
  rw [getUint32, if_pos ⟨by omega, by omega⟩, Int.toNat_natCast]

end Script
