import Paging.Command.Plan
import Paging.Proofs.Alignment
import Paging.Proofs.FrameAccounts
import Paging.Proofs.SoundMode
/-!
# What the host reserves

`Plan.reserve` asks the host to map the bytes of `frames + align - 1` frames, passing the length
as the host's signed integer, and starts the reservation at the first multiple of `align` among
the frames mapped (`Plan.reserve_eq_ok`). Over a host whose `mmap` does what every host does
(`Plan.Host.Lawful`, which `Plan.defaultHost` satisfies), a granted reservation lies within the
mapping when the bytes asked for do not wrap the word (`Plan.reserve_within_mapping`): the host
refuses a length that is not positive, so the length it mapped was the bytes asked for; the
reservation starts at the least multiple of `align` at or above the first frame mapped, and ends
`frames` frames later within the frames mapped.
-/

namespace Paging

namespace Word

/-- The sum `v + a - 1` that rounding up forms, on words, as it wraps. -/
theorem toNat_add_sub_one {v a : UInt64} (ha : a ≠ 0) :
    (v + a - 1).toNat = (v.toNat + a.toNat - 1) % 2 ^ 64 :=
  Paging.toNat_add_sub_one (v := v.toBitVec) (a := a.toBitVec)
    fun h => ha (UInt64.toBitVec_inj.1 h)

end Word

namespace Plan

/-- A word read as the host's signed integer: itself below `2 ^ 63`, and negative from there. -/
theorem toInt_toInt64 (x : UInt64) :
    x.toInt64.toInt = if x.toNat < 2 ^ 63 then (x.toNat : Int) else x.toNat - 2 ^ 64 := by
  have hx : ({ toUInt64 := x } : Int64).toBitVec.toNat = x.toNat := rfl
  simp only [UInt64.toInt64, Int64.toInt, BitVec.toInt, hx]
  split_ifs <;> omega

/-- The host the command runs on maps as every host does. -/
theorem defaultHost_lawful : defaultHost.Lawful where
  refuses_nonpositive length h := by
    simp only [defaultHost]
    rw [if_neg (by omega)]
  frame_aligned length addr h := by
    simp only [defaultHost] at h
    split at h
    · cases h
      rfl
    · cases h
  fits length addr h := by
    simp only [defaultHost] at h
    split at h
    · cases h
      rename_i hlen
      show 0x80000000 + length.toNat ≤ UInt64.size
      simp only [UInt64.size]
      omega
    · cases h

/-- A granted reservation: `frames` is not zero, `align` is not zero, and the host mapped the bytes
of `frames + align - 1` frames at `addr`, the reservation starting at the first multiple of
`align` from the frame of `addr`. -/
theorem reserve_eq_ok {host : Host} {frames align : UInt64} {start stop : PhysPage}
    (h : reserve host frames align = .ok (start, stop)) :
    frames ≠ 0 ∧ align ≠ 0 ∧ ∃ addr,
      host.mmap (Word.shiftLeft (frames + align - 1) 12).toInt64.toInt = some addr ∧
      start = Word.alignUp (Mode.sv39.ppnOf addr) align ∧ stop = start + frames := by
  unfold reserve at h
  split at h
  · cases h
  rename_i hf
  split at h
  · cases h
  rename_i ha
  dsimp only at h
  split at h
  · cases h
  rename_i addr hmap
  injection h with h
  injection h with hstart hstop
  exact ⟨hf, fun h0 => ha (by simp [h0]), addr, hmap, hstart.symm, by rw [← hstop, hstart]⟩

/-- Over a lawful host, a granted reservation lies within the run of memory that the host mapped,
when the bytes asked for do not wrap the word: the host was asked for the bytes of
`frames + align - 1` frames, the reservation starts at the least multiple of `align` at or above
the first frame mapped, and its `frames` frames end within the frames mapped. -/
theorem reserve_within_mapping {host : Host} (hl : host.Lawful) {frames align : UInt64}
    {start stop : PhysPage} (h : reserve host frames align = .ok (start, stop))
    (hwrap : (frames.toNat + align.toNat - 1) * 4096 < 2 ^ 64) :
    ∃ addr, host.mmap ((frames.toNat + align.toNat - 1) * 4096 : Nat) = some addr ∧
      IsLeast {p | align.toNat ∣ p ∧ addr.toNat / 4096 ≤ p} start.toNat ∧
      stop.toNat = start.toNat + frames.toNat ∧
      stop.toNat ≤ (addr.toNat + (frames.toNat + align.toNat - 1) * 4096) / 4096 := by
  obtain ⟨-, ha, addr, hmap, hstart, hstop⟩ := reserve_eq_ok h
  have hA : 0 < align.toNat := Nat.pos_of_ne_zero fun h0 => ha (UInt64.toNat_inj.1 h0)
  have hN : (frames + align - 1).toNat = frames.toNat + align.toNat - 1 := by
    rw [Word.toNat_add_sub_one ha, Nat.mod_eq_of_lt (by omega)]
  have hsize : (Word.shiftLeft (frames + align - 1) 12).toNat =
      (frames.toNat + align.toNat - 1) * 4096 := by
    rw [Word.toNat_shiftLeft, hN, Nat.shiftLeft_eq, Nat.mod_eq_of_lt (by simp [UInt64.size]; omega)]
  -- the host maps only a positive length, so the word's signed reading was its value
  have hlen : (Word.shiftLeft (frames + align - 1) 12).toInt64.toInt =
      ((frames.toNat + align.toNat - 1) * 4096 : Nat) := by
    rw [toInt_toInt64] at hmap ⊢
    split_ifs at hmap ⊢ with hlt
    · rw [hsize]
    · rw [hl.refuses_nonpositive _ (by omega)] at hmap
      cases hmap
  rw [hlen] at hmap
  have hfit := hl.fits _ _ hmap
  rw [Int.toNat_natCast] at hfit
  simp only [UInt64.size] at hfit
  -- the reservation starts at the first multiple of `align` from the first frame mapped
  have hbase := Mode.toNat_ppnOf_sv39 addr
  have hup : start.toNat = align.toNat * (((Mode.sv39.ppnOf addr).toNat + align.toNat - 1) /
      align.toNat) := by
    rw [hstart, FrameAllocator.toNat_alignUp, Word.toNat_add_sub_one ha,
      Nat.mod_eq_of_lt (by omega)]
  have hb := (alignUp_bounds (x := (Mode.sv39.ppnOf addr).toNat) hA).2
  have hstop' : stop.toNat = start.toNat + frames.toNat := by
    rw [hstop, UInt64.toNat_add, Nat.mod_eq_of_lt (by omega)]
  refine ⟨addr, hmap, ?_, hstop', by omega⟩
  rw [hup, ← hbase]
  exact ⟨⟨Nat.dvd_mul_right _ _, (alignUp_bounds hA).1⟩,
    fun p hp => alignUp_le_of_dvd hA hp.1 hp.2⟩

end Plan

end Paging
