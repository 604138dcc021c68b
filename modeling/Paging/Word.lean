/-!
# Machine words

Page numbers, addresses and table entries are 64-bit words whose arithmetic wraps. This module
holds the two conventions that the rest of the library relies on:

* a shift by the word width or more leaves no bits (`shiftLeft`, `shiftRight`), unlike the
  shift of `UInt64`, which takes its count modulo 64;
* alignment of a word to a multiple of another (`alignUp`, `alignDown`, `isAligned`), at any
  width, computed in the wrapping arithmetic of that width. Alignment to zero divides by zero,
  which the checked forms report as an `ArithFault`.

Main statements: `toNat_shiftLeft`, `toNat_shiftRight`, their bit-vector forms
`toBitVec_shiftLeft` and `toBitVec_shiftRight`, and `toNat_alignDown`.
-/

namespace Paging

/-! ## Shifts without a count modulus -/

namespace Word

/-- Shifts `x` left by `n` bits; the bits pushed past bit 63 are lost, so any `n ≥ 64` gives
zero. -/
def shiftLeft (x : UInt64) (n : Nat) : UInt64 :=
  if n < 64 then x <<< n.toUInt64 else 0

/-- Shifts `x` right by `n` bits; any `n ≥ 64` gives zero. -/
def shiftRight (x : UInt64) (n : Nat) : UInt64 :=
  if n < 64 then x >>> n.toUInt64 else 0

/-- The word `2 ^ n`, which is zero once `n` reaches the word width. -/
def pow2 (n : Nat) : UInt64 :=
  shiftLeft 1 n

/-- The word whose low `n` bits are set: `2 ^ n - 1` in wrapping arithmetic, so all bits once
`n ≥ 64`. -/
def lowMask (n : Nat) : UInt64 :=
  pow2 n - 1

private theorem toNat_mod_64 {n : Nat} (h : n < 64) : n.toUInt64.toNat % 64 = n := by
  rw [Nat.toUInt64_eq, UInt64.toNat_ofNat', Nat.mod_eq_of_lt (show n < 2 ^ 64 by omega),
    Nat.mod_eq_of_lt h]

/-- The shift is the shift of the number: division by `2 ^ n`. -/
theorem toNat_shiftRight (x : UInt64) (n : Nat) : (shiftRight x n).toNat = x.toNat >>> n := by
  unfold shiftRight
  split
  · rename_i h
    rw [UInt64.toNat_shiftRight, toNat_mod_64 h]
  · rename_i h
    have hx : x.toNat < 2 ^ n :=
      Nat.lt_of_lt_of_le (UInt64.toNat_lt x) (Nat.pow_le_pow_right (by omega) (by omega))
    rw [Nat.shiftRight_eq_div_pow, Nat.div_eq_of_lt hx]
    rfl

/-- The shift is the shift of the number, cut to the word: the bits from bit 64 up are lost. -/
theorem toNat_shiftLeft (x : UInt64) (n : Nat) :
    (shiftLeft x n).toNat = (x.toNat <<< n) % UInt64.size := by
  unfold shiftLeft
  split
  · rename_i h
    rw [UInt64.toNat_shiftLeft, toNat_mod_64 h]
  · rename_i h
    have hd : 2 ^ 64 ∣ x.toNat * 2 ^ n :=
      Nat.dvd_mul_left_of_dvd (Nat.pow_dvd_pow 2 (by omega)) _
    rw [Nat.shiftLeft_eq, show UInt64.size = 2 ^ 64 from rfl, Nat.mod_eq_zero_of_dvd hd]
    rfl

/-- A shift by a count of bits is the shift of the bit vector, which leaves no bits once the
count reaches the width. -/
theorem toBitVec_shiftLeft (x : UInt64) (n : Nat) :
    (shiftLeft x n).toBitVec = x.toBitVec <<< n := by
  unfold shiftLeft
  split
  · rename_i h
    rw [UInt64.toBitVec_shiftLeft, BitVec.shiftLeft_eq']
    congr 1
    rw [BitVec.toNat_umod]
    simp [Nat.mod_eq_of_lt h]
  · apply BitVec.eq_of_getLsbD_eq
    intro i hi
    simp [BitVec.getLsbD_shiftLeft]
    omega

theorem toBitVec_shiftRight (x : UInt64) (n : Nat) :
    (shiftRight x n).toBitVec = x.toBitVec >>> n := by
  unfold shiftRight
  split
  · rename_i h
    rw [UInt64.toBitVec_shiftRight, BitVec.ushiftRight_eq']
    congr 1
    rw [BitVec.toNat_umod]
    simp [Nat.mod_eq_of_lt h]
  · apply BitVec.eq_of_getLsbD_eq
    intro i hi
    simp only [UInt64.toBitVec_zero, BitVec.getLsbD_zero, BitVec.getLsbD_ushiftRight]
    exact (BitVec.getLsbD_of_ge x.toBitVec _ (by omega)).symm

end Word

/-! ## Alignment at any width -/

/-- Arithmetic that the processor refuses to carry out. -/
inductive ArithFault where
  /-- A division or remainder whose divisor is zero. -/
  | divideByZero
  deriving DecidableEq, Repr

/-- The report of a refused operation, as the run-time system words it. -/
def ArithFault.message : ArithFault → String
  | .divideByZero => "runtime error: integer divide by zero"

/-- Rounds `v` up to a multiple of `a` as `a * ((v + a - 1) / a)` in `w`-bit arithmetic. The
sum wraps near the top of the range, and the result is then a small multiple (often zero). -/
def alignUp {w : Nat} (v a : BitVec w) : BitVec w :=
  a * ((v + a - 1) / a)

/-- Rounds `v` down to a multiple of `a`; it never wraps. -/
def alignDown {w : Nat} (v a : BitVec w) : BitVec w :=
  a * (v / a)

/-- Whether `v` is a multiple of `a`. -/
def isAligned {w : Nat} (v a : BitVec w) : Bool :=
  v % a == 0

/-- Refuses an alignment of zero, which would divide by zero. -/
def checkAlignment {w : Nat} (a : BitVec w) : Except ArithFault Unit :=
  if a = 0 then .error .divideByZero else .ok ()

/-- Carries out an alignment to `a` whose answer is `r`: each of the three operations divides by
`a` or takes a remainder by it, so an alignment of zero faults before any answer. -/
def alignedBy {α : Type} {w : Nat} (a : BitVec w) (r : α) : Except ArithFault α := do
  checkAlignment a
  pure r

/-- `alignUp` as the processor runs it. -/
def checkedAlignUp {w : Nat} (v a : BitVec w) : Except ArithFault (BitVec w) :=
  alignedBy a (alignUp v a)

/-- `alignDown` as the processor runs it. -/
def checkedAlignDown {w : Nat} (v a : BitVec w) : Except ArithFault (BitVec w) :=
  alignedBy a (alignDown v a)

/-- `isAligned` as the processor runs it. -/
def checkedIsAligned {w : Nat} (v a : BitVec w) : Except ArithFault Bool :=
  alignedBy a (isAligned v a)

theorem alignedBy_eq {α : Type} {w : Nat} (a : BitVec w) (r : α) :
    alignedBy a r = if a = 0 then .error .divideByZero else .ok r := by
  unfold alignedBy checkAlignment
  split <;> rfl

theorem toNat_alignDown {w : Nat} (v a : BitVec w) :
    (alignDown v a).toNat = a.toNat * (v.toNat / a.toNat) := by
  unfold alignDown
  rw [BitVec.toNat_mul, BitVec.toNat_udiv]
  apply Nat.mod_eq_of_lt
  exact Nat.lt_of_le_of_lt (Nat.mul_div_le v.toNat a.toNat) v.isLt

/-! ## Alignment of 64-bit words -/

namespace Word

/-- `alignUp` on 64-bit words. -/
def alignUp (v a : UInt64) : UInt64 :=
  UInt64.ofBitVec (Paging.alignUp v.toBitVec a.toBitVec)

/-- `alignDown` on 64-bit words. -/
def alignDown (v a : UInt64) : UInt64 :=
  UInt64.ofBitVec (Paging.alignDown v.toBitVec a.toBitVec)

/-- `isAligned` on 64-bit words. -/
def isAligned (v a : UInt64) : Bool :=
  Paging.isAligned v.toBitVec a.toBitVec

end Word

end Paging
