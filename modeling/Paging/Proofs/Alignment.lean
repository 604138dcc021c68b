import Mathlib
import Paging.Word
/-!
# Alignment at the top of a word

`alignDown v a` and `alignUp v a` round a `w`-bit word to a multiple of `a`, and `isAligned v a`
tests for one; each divides by `a` or takes a remainder by it, so an alignment of zero faults
(`checkedAlignDown`, `checkedAlignUp`, `checkedIsAligned`).

In exact integers the roundings are `a * (v / a)` and `a * ((v + a - 1) / a)`: the greatest
multiple at or below `v` (`isGreatest_alignDown`) and the least at or above it
(`isLeast_alignUp`). In the word, rounding up first forms `v + a - 1`, which wraps near the top
of the width; the rounding is then zero (`alignUp_eq_zero_of_le`). For an alignment that divides
`2 ^ w`, such as a power of two, that happens just when no multiple at or above `v` is left below
`2 ^ w` (`alignUp_of_dvd_size`). For other alignments it can drop a multiple that fits: rounding
255 up to a multiple of 3 in a byte gives zero (`alignUp_wraps_before_multiple`).

Main statement: `alignments_exact`, the three operations at every width, with the fault at zero.
-/

namespace Paging

/-! ## Rounding to a block -/

section Rounding

variable {b x m : Nat}

theorem alignUp_bounds (hb : 0 < b) :
    x ≤ b * ((x + b - 1) / b) ∧ b * ((x + b - 1) / b) < x + b := by
  have h1 := Nat.lt_mul_div_succ (x + b - 1) hb
  have h2 := Nat.mul_div_le (x + b - 1) b
  rw [Nat.mul_add, Nat.mul_one] at h1
  constructor <;> omega

/-- Rounding up reaches no further than any multiple of the block at or above the value. -/
theorem alignUp_le_of_dvd (hb : 0 < b) (hm : b ∣ m) (hx : x ≤ m) :
    b * ((x + b - 1) / b) ≤ m := by
  obtain ⟨j, rfl⟩ := hm
  apply Nat.mul_le_mul_left
  rw [← Nat.lt_succ_iff, Nat.div_lt_iff_lt_mul hb, Nat.succ_mul]
  have : x ≤ j * b := by rw [Nat.mul_comm]; exact hx
  omega

theorem alignDown_bounds (hb : 0 < b) : b * (x / b) ≤ x ∧ x < b * (x / b) + b := by
  have h1 := Nat.lt_mul_div_succ x hb
  rw [Nat.mul_add, Nat.mul_one] at h1
  exact ⟨Nat.mul_div_le x b, h1⟩

/-- Rounding down reaches no lower than any multiple of the block at or below the value. -/
theorem le_alignDown_of_dvd (hb : 0 < b) (hm : b ∣ m) (hx : m ≤ x) : m ≤ b * (x / b) := by
  obtain ⟨j, rfl⟩ := hm
  apply Nat.mul_le_mul_left
  rw [Nat.le_div_iff_mul_le hb, Nat.mul_comm]
  exact hx

end Rounding

/-! ## Alignment in `w`-bit words -/

section Width

variable {w : Nat} {v a : BitVec w}

theorem toNat_pos_of_ne_zero (ha : a ≠ 0) : 0 < a.toNat :=
  Nat.pos_of_ne_zero fun h => ha (BitVec.eq_of_toNat_eq (by simp [h]))

/-- The sum `v + a - 1` that `alignUp` divides, as it wraps at the width. -/
theorem toNat_add_sub_one (ha : a ≠ 0) : (v + a - 1).toNat = (v.toNat + a.toNat - 1) % 2 ^ w := by
  have hpos := toNat_pos_of_ne_zero ha
  -- a word of no bits is zero, so the width is at least one and `1` is one
  have hw : 0 < w := by
    rcases Nat.eq_zero_or_pos w with rfl | hw
    · exact absurd BitVec.of_length_zero ha
    · exact hw
  have hone : (1 : BitVec w).toNat = 1 := by
    rw [BitVec.ofNat_eq_ofNat, BitVec.toNat_ofNat, Nat.one_mod_two_pow hw]
  rw [add_sub_assoc, BitVec.toNat_add, BitVec.toNat_sub_of_le (BitVec.le_def.2 (by omega)), hone,
    ← Nat.add_sub_assoc hpos]

theorem toNat_alignUp_of_lt (ha : a ≠ 0) (h : v.toNat + a.toNat - 1 < 2 ^ w) :
    (alignUp v a).toNat = a.toNat * ((v.toNat + a.toNat - 1) / a.toNat) := by
  have hpos := toNat_pos_of_ne_zero ha
  have hup := (alignUp_bounds (x := v.toNat) hpos).2
  rw [alignUp, BitVec.toNat_mul, BitVec.toNat_udiv, toNat_add_sub_one ha, Nat.mod_eq_of_lt h]
  exact Nat.mod_eq_of_lt (by omega)

/-- Once `v + a - 1` passes the width, what is left of it is below `a` and the rounding is zero. -/
theorem alignUp_eq_zero_of_le (ha : a ≠ 0) (h : 2 ^ w ≤ v.toNat + a.toNat - 1) :
    alignUp v a = 0 := by
  have hv := v.isLt
  have hwrap : (v.toNat + a.toNat - 1) % 2 ^ w < a.toNat := by
    rw [Nat.mod_eq_sub_mod h, Nat.mod_eq_of_lt (by omega)]
    omega
  apply BitVec.eq_of_toNat_eq
  rw [alignUp, BitVec.toNat_mul, BitVec.toNat_udiv, toNat_add_sub_one ha, Nat.div_eq_of_lt hwrap]
  simp

theorem isGreatest_alignDown (ha : a ≠ 0) :
    IsGreatest {m | a.toNat ∣ m ∧ m ≤ v.toNat} (alignDown v a).toNat := by
  have hpos := toNat_pos_of_ne_zero ha
  rw [toNat_alignDown]
  exact ⟨⟨Nat.dvd_mul_right _ _, (alignDown_bounds hpos).1⟩,
    fun m hm => le_alignDown_of_dvd hpos hm.1 hm.2⟩

theorem isLeast_alignUp (ha : a ≠ 0) (h : v.toNat + a.toNat - 1 < 2 ^ w) :
    IsLeast {m | a.toNat ∣ m ∧ v.toNat ≤ m} (alignUp v a).toNat := by
  have hpos := toNat_pos_of_ne_zero ha
  rw [toNat_alignUp_of_lt ha h]
  exact ⟨⟨Nat.dvd_mul_right _ _, (alignUp_bounds hpos).1⟩,
    fun m hm => alignUp_le_of_dvd hpos hm.1 hm.2⟩

/-- A word is aligned just when rounding it down leaves it where it is. -/
theorem isAligned_iff (ha : a ≠ 0) : isAligned v a = true ↔ alignDown v a = v := by
  have hpos := toNat_pos_of_ne_zero ha
  have hdm := Nat.div_add_mod v.toNat a.toNat
  rw [isAligned, beq_iff_eq, BitVec.toNat_eq, BitVec.toNat_eq, BitVec.toNat_umod, toNat_alignDown,
    BitVec.ofNat_eq_ofNat, BitVec.toNat_ofNat, Nat.zero_mod]
  omega

/-- For an alignment that divides `2 ^ w`, rounding up wraps only where no multiple at or above `v`
is left below `2 ^ w`: the last one, `2 ^ w - a`, lies below `v`. -/
theorem size_le_of_wraps (hdvd : a.toNat ∣ 2 ^ w) (h : 2 ^ w ≤ v.toNat + a.toNat - 1) {m : Nat}
    (hm : a.toNat ∣ m) (hvm : v.toNat ≤ m) : 2 ^ w ≤ m := by
  have ha := a.isLt
  obtain ⟨j, hj⟩ := hdvd
  obtain ⟨k, rfl⟩ := hm
  have hlt : a.toNat * (j - 1) < a.toNat * k := by
    rw [Nat.mul_sub_one]
    omega
  have hjk : j ≤ k := by
    have := Nat.lt_of_mul_lt_mul_left hlt
    omega
  calc 2 ^ w = a.toNat * j := hj
    _ ≤ a.toNat * k := Nat.mul_le_mul_left _ hjk

/-- For an alignment that divides `2 ^ w`, such as a power of two, rounding up gives the least
multiple at or above `v` when one lies below `2 ^ w`, and zero when none does. -/
theorem alignUp_of_dvd_size (ha : a ≠ 0) (hdvd : a.toNat ∣ 2 ^ w) :
    ((∃ m, a.toNat ∣ m ∧ v.toNat ≤ m ∧ m < 2 ^ w) →
        IsLeast {m | a.toNat ∣ m ∧ v.toNat ≤ m} (alignUp v a).toNat) ∧
      ((¬∃ m, a.toNat ∣ m ∧ v.toNat ≤ m ∧ m < 2 ^ w) → alignUp v a = 0) := by
  by_cases hwrap : v.toNat + a.toNat - 1 < 2 ^ w
  · -- the rounding fits, and is itself a multiple below `2 ^ w`
    have hleast := isLeast_alignUp ha hwrap
    refine ⟨fun _ => hleast, fun hnone => absurd ?_ hnone⟩
    exact ⟨_, hleast.1.1, hleast.1.2, (alignUp v a).isLt⟩
  · -- the rounding wraps, and every multiple at or above `v` reaches `2 ^ w`
    have hle : 2 ^ w ≤ v.toNat + a.toNat - 1 := Nat.le_of_not_lt hwrap
    refine ⟨fun ⟨m, hm, hvm, hlt⟩ => ?_, fun _ => alignUp_eq_zero_of_le ha hle⟩
    exact absurd (size_le_of_wraps hdvd hle hm hvm) (Nat.not_le_of_lt hlt)

@[simp] theorem alignedBy_zero {α : Type} (r : α) :
    alignedBy (0 : BitVec w) r = .error .divideByZero := by
  rw [alignedBy_eq, if_pos rfl]

theorem alignedBy_of_ne_zero {α : Type} (ha : a ≠ 0) (r : α) : alignedBy a r = .ok r := by
  rw [alignedBy_eq, if_neg ha]

/-- The three alignments in `w`-bit words. An alignment of zero faults. Otherwise rounding down
gives the greatest multiple of `a` at or below `v`; rounding up gives the least multiple at or
above `v` while `v + a - 1` fits the width, and zero once it wraps, so that for an alignment
dividing `2 ^ w` it gives the least multiple when one lies below `2 ^ w` and zero when none does;
and a word is aligned just when rounding it down keeps it. -/
theorem alignments_exact (v a : BitVec w) :
    (a = 0 → checkedAlignDown v a = .error .divideByZero ∧
      checkedAlignUp v a = .error .divideByZero ∧ checkedIsAligned v a = .error .divideByZero) ∧
    (a ≠ 0 →
      (∃ d, checkedAlignDown v a = .ok d ∧ IsGreatest {m | a.toNat ∣ m ∧ m ≤ v.toNat} d.toNat) ∧
      (∃ u, checkedAlignUp v a = .ok u ∧
        (v.toNat + a.toNat - 1 < 2 ^ w → IsLeast {m | a.toNat ∣ m ∧ v.toNat ≤ m} u.toNat) ∧
        (2 ^ w ≤ v.toNat + a.toNat - 1 → u = 0) ∧
        (a.toNat ∣ 2 ^ w →
          ((∃ m, a.toNat ∣ m ∧ v.toNat ≤ m ∧ m < 2 ^ w) →
            IsLeast {m | a.toNat ∣ m ∧ v.toNat ≤ m} u.toNat) ∧
          ((¬∃ m, a.toNat ∣ m ∧ v.toNat ≤ m ∧ m < 2 ^ w) → u = 0))) ∧
      (∃ b, checkedIsAligned v a = .ok b ∧ (b = true ↔ checkedAlignDown v a = .ok v))) := by
  refine ⟨?zero, fun ha => ⟨?down, ?up, ?aligned⟩⟩
  case zero =>
    rintro rfl
    exact ⟨alignedBy_zero _, alignedBy_zero _, alignedBy_zero _⟩
  case down => exact ⟨_, alignedBy_of_ne_zero ha _, isGreatest_alignDown ha⟩
  case up =>
    exact ⟨_, alignedBy_of_ne_zero ha _, isLeast_alignUp ha, alignUp_eq_zero_of_le ha,
      alignUp_of_dvd_size ha⟩
  case aligned =>
    refine ⟨_, alignedBy_of_ne_zero ha _, ?_⟩
    rw [checkedAlignDown, alignedBy_of_ne_zero ha, Except.ok.injEq]
    exact isAligned_iff ha

/-- Rounding 255 up to a multiple of 3 in a byte: 255 is itself the least multiple at or above it
and fits the byte, yet `255 + 3 - 1` wraps and the rounding gives zero. -/
theorem alignUp_wraps_before_multiple :
    IsLeast {m : Nat | 3 ∣ m ∧ 255 ≤ m} 255 ∧ 255 < 2 ^ 8 ∧
      checkedAlignUp (255 : BitVec 8) 3 = .ok 0 :=
  ⟨⟨⟨by norm_num, le_refl _⟩, fun _ hm => hm.2⟩, by norm_num, rfl⟩

end Width

end Paging
