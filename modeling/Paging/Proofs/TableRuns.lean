import Paging.Proofs.TableTree
import Paging.Proofs.SegmentPlan
import Paging.Proofs.TableIndex
/-!
# Runs of blocks in one table

A segment of a plan is mapped piece by piece. Each piece is a run of whole blocks of the
segment's level inside one table of that level (`Mode.Piece`): it ends at the segment's end or
at the next block of the level above, whichever comes first (`Piece.of_below_top`,
`Piece.of_top`).

The run's indices in its table start at the index of its first page, one per block
(`Piece.indexRange_eq`), and the page built from the `k`-th index is the `k`-th block of the run
(`Piece.withIndex_eq`). The entry at that index covers just the pages of that block
(`Piece.block_slot_iff`), which rests on reading a page's digits from a level up as its block and
its index (`Sound.block_slot_iff`).
-/

namespace Paging

namespace Mode

variable {M : Mode}

/-- A page lies at an index of the node of a block just when the entry at that index covers the
block of the page one level down. -/
theorem Sound.block_slot_iff (hM : M.Sound) {w : VirtPage}
    (hw : w.toNat < 2 ^ M.tableShift M.topLevel) {L : Level} (hL : L.toNat ≤ M.topLevel.toNat)
    (B : Nat) {i : UInt64} (hi : i.toNat < 2 ^ M.indexWidth L) :
    M.blockOf w L = B ∧ M.slotIndex w L = i ↔
      w.toNat / 2 ^ M.levelShift L = B * 2 ^ M.indexWidth L + i.toNat := by
  have hd := hM.div_levelShift w hL
  rw [Nat.mod_eq_of_lt hw] at hd
  rw [hd]
  have hpos : 0 < 2 ^ M.indexWidth L := by positivity
  -- a block and an index below the width are read back from the digits
  have hread : ∀ b j, j < 2 ^ M.indexWidth L →
      (b * 2 ^ M.indexWidth L + j) / 2 ^ M.indexWidth L = b ∧
        (b * 2 ^ M.indexWidth L + j) % 2 ^ M.indexWidth L = j := fun b j hj =>
    ⟨by rw [Nat.add_comm, Nat.add_mul_div_right _ _ hpos, Nat.div_eq_of_lt hj, Nat.zero_add],
      by rw [Nat.add_comm, Nat.add_mul_mod_self_right, Nat.mod_eq_of_lt hj]⟩
  constructor
  · rintro ⟨rfl, rfl⟩
    rfl
  · intro h
    have h1 := hread (M.blockOf w L) _ (hM.slotIndex_lt w hL)
    have h2 := hread B _ hi
    rw [h] at h1
    exact ⟨h1.1.symm.trans h2.1, UInt64.toNat_inj.1 (h1.2.symm.trans h2.2)⟩

/-- A run of whole blocks of level `L` inside one table of that level. -/
structure Piece (M : Mode) (L : Level) (start stop : VirtPage) : Prop where
  level_le : L.toNat ≤ M.topLevel.toNat
  lt : start.toNat < stop.toNat
  stop_le : stop.toNat ≤ 2 ^ M.tableShift M.topLevel
  start_dvd : 2 ^ M.levelShift L ∣ start.toNat
  stop_dvd : 2 ^ M.levelShift L ∣ stop.toNat
  same_table : (stop.toNat - 1) / 2 ^ M.tableShift L = start.toNat / 2 ^ M.tableShift L

namespace Piece

variable {L : Level} {start stop : VirtPage}

/-- The number of blocks in the run. -/
theorem count_mul (h : M.Piece L start stop) :
    (stop.toNat / 2 ^ M.levelShift L - start.toNat / 2 ^ M.levelShift L) * 2 ^ M.levelShift L =
      stop.toNat - start.toNat := by
  obtain ⟨a, ha⟩ := h.start_dvd
  obtain ⟨b, hb⟩ := h.stop_dvd
  have hpos : 0 < 2 ^ M.levelShift L := by positivity
  rw [ha, hb, Nat.mul_div_cancel_left _ hpos, Nat.mul_div_cancel_left _ hpos, Nat.mul_comm,
    Nat.mul_sub]

/-- The digits of the last page of the run, from the level up, are those of the first page
and one less than the block count more. -/
theorem div_last (h : M.Piece L start stop) :
    (stop.toNat - 1) / 2 ^ M.levelShift L = stop.toNat / 2 ^ M.levelShift L - 1 ∧
      start.toNat / 2 ^ M.levelShift L < stop.toNat / 2 ^ M.levelShift L := by
  obtain ⟨a, ha⟩ := h.start_dvd
  obtain ⟨b, hb⟩ := h.stop_dvd
  have hpos : 0 < 2 ^ M.levelShift L := by positivity
  have hlt := h.lt
  rw [ha, hb] at hlt ⊢
  have hab : a < b := Nat.lt_of_mul_lt_mul_left hlt
  rw [Nat.mul_div_cancel_left _ hpos, Nat.mul_div_cancel_left _ hpos]
  refine ⟨?_, hab⟩
  obtain ⟨d, rfl⟩ : ∃ d, b = d + 1 := ⟨b - 1, by omega⟩
  rw [Nat.mul_succ, show 2 ^ M.levelShift L * d + 2 ^ M.levelShift L - 1 =
    (2 ^ M.levelShift L - 1) + 2 ^ M.levelShift L * d by omega, Nat.add_mul_div_left _ _ hpos,
    Nat.div_eq_of_lt (by omega)]
  omega

/-- The indices of the run in its table: from the index of its first page, one per block. -/
theorem indexRange_eq (hM : M.Sound) (h : M.Piece L start stop) :
    ∃ last, M.indexRange start stop L = .ok (M.slotIndex start L, last) ∧
      M.slotIndex start L < last ∧ last.toNat ≤ 2 ^ M.indexWidth L ∧
      (last - M.slotIndex start L).toNat =
        stop.toNat / 2 ^ M.levelShift L - start.toNat / 2 ^ M.levelShift L := by
  have hL := h.level_le
  have hw := hM.indexWidth_lt hL
  have hlt := h.lt
  have hstop1 : (stop - 1).toNat = stop.toNat - 1 := Word.toNat_pred (by omega)
  -- the digits of both ends, from the level up
  have hfit : ∀ v : VirtPage, v.toNat < 2 ^ M.tableShift M.topLevel →
      v.toNat / 2 ^ M.levelShift L =
        v.toNat / 2 ^ M.tableShift L * 2 ^ M.indexWidth L + (M.slotIndex v L).toNat := by
    intro v hv
    have := hM.div_levelShift v hL
    rwa [Nat.mod_eq_of_lt hv, blockOf, Nat.mod_eq_of_lt hv] at this
  have hs := hfit start (by have := h.stop_le; omega)
  have he := hfit (stop - 1) (by rw [hstop1]; have := h.stop_le; omega)
  rw [hstop1, h.same_table] at he
  obtain ⟨hdl, hdlt⟩ := h.div_last
  have hie := hM.slotIndex_lt (stop - 1) hL
  have hpow : 2 ^ M.indexWidth L < 2 ^ 64 := Nat.pow_lt_pow_right (by norm_num) (by omega)
  have hlast : (M.slotIndex (stop - 1) L + 1).toNat = (M.slotIndex (stop - 1) L).toNat + 1 := by
    rw [UInt64.toNat_add, UInt64.toNat_one, Nat.mod_eq_of_lt (by omega)]
  refine ⟨M.slotIndex (stop - 1) L + 1, ?_, ?_, ?_, ?_⟩
  · -- the last page shares the table of the first
    exact (hM.indexFits hL).indexRange_of_same_table (UInt64.lt_iff_toNat_lt.2 hlt) h.same_table
  · rw [UInt64.lt_iff_toNat_lt, hlast]
    omega
  · rw [hlast]
    omega
  · rw [UInt64.toNat_sub_of_le _ _ (UInt64.le_iff_toNat_le.2 (by rw [hlast]; omega)), hlast]
    omega

/-- The page built from the `k`-th index of the run is the `k`-th block of the run. -/
theorem withIndex_eq (hM : M.Sound) (h : M.Piece L start stop) {k : Nat}
    (hk : k < stop.toNat / 2 ^ M.levelShift L - start.toNat / 2 ^ M.levelShift L) :
    (M.slotIndex start L + k.toUInt64).toNat = (M.slotIndex start L).toNat + k ∧
      (M.slotIndex start L).toNat + k < 2 ^ M.indexWidth L ∧
      ∃ page, M.withIndex start L (M.slotIndex start L + k.toUInt64) = .ok page ∧
        page.toNat = start.toNat + k * 2 ^ M.levelShift L := by
  have hL := h.level_le
  have hts := hM.tableShift_add_lt hL
  have hw : M.levelShift L + M.indexWidth L < 64 := by
    simp only [tableShift] at hts
    omega
  obtain ⟨last, -, hlt, hlast, hcount⟩ := h.indexRange_eq hM
  rw [UInt64.toNat_sub_of_le _ _ (UInt64.le_of_lt hlt)] at hcount
  have hk' : (M.slotIndex start L).toNat + k < 2 ^ M.indexWidth L := by omega
  have hpow : 2 ^ M.indexWidth L < 2 ^ 64 := Nat.pow_lt_pow_right (by norm_num) (by omega)
  have hidx : (M.slotIndex start L + k.toUInt64).toNat = (M.slotIndex start L).toNat + k :=
    FrameAllocator.toNat_add_toUInt64 (by simp only [UInt64.size]; omega)
  refine ⟨hidx, hk', _, hM.withIndex_eq start hL _, ?_⟩
  rw [Word.toNat_or_shiftLeft _ _ (Nat.le_add_right _ _) hw
    (by rw [hidx, Nat.add_sub_cancel_left]; exact hk'), hidx,
    show M.levelShift L + M.indexWidth L = M.tableShift L from rfl]
  -- the first page is the start of its table and its index there
  set B := start.toNat / 2 ^ M.tableShift L with hB
  have hfit : start.toNat / 2 ^ M.levelShift L =
      B * 2 ^ M.indexWidth L + (M.slotIndex start L).toNat := by
    have hv : start.toNat < 2 ^ M.tableShift M.topLevel := by
      have := h.stop_le
      have := h.lt
      omega
    have := hM.div_levelShift start hL
    rwa [Nat.mod_eq_of_lt hv, blockOf, Nat.mod_eq_of_lt hv] at this
  obtain ⟨a, ha⟩ := h.start_dvd
  rw [ha, Nat.mul_div_cancel_left _ (by positivity)] at hfit
  rw [show M.tableShift L = M.levelShift L + M.indexWidth L from rfl, pow_add, ha, hfit]
  ring

/-- The entry at the `k`-th index of the run covers just the pages of the `k`-th block. -/
theorem block_slot_iff (hM : M.Sound) (h : M.Piece L start stop) {k : Nat}
    (hk : (M.slotIndex start L).toNat + k < 2 ^ M.indexWidth L)
    (hidx : (M.slotIndex start L + k.toUInt64).toNat = (M.slotIndex start L).toNat + k)
    {w : VirtPage} (hw : w.toNat < 2 ^ M.tableShift M.topLevel) :
    M.blockOf w L = M.blockOf start L ∧ M.slotIndex w L = M.slotIndex start L + k.toUInt64 ↔
      start.toNat + k * 2 ^ M.levelShift L ≤ w.toNat ∧
        w.toNat < start.toNat + (k + 1) * 2 ^ M.levelShift L := by
  have hL := h.level_le
  have hpos : 0 < 2 ^ M.levelShift L := by positivity
  have hv : start.toNat < 2 ^ M.tableShift M.topLevel := by
    have := h.stop_le
    have := h.lt
    omega
  have hd := hM.div_levelShift start hL
  rw [Nat.mod_eq_of_lt hv] at hd
  rw [hM.block_slot_iff hw hL _ (by rw [hidx]; exact hk), hidx]
  obtain ⟨a, ha⟩ := h.start_dvd
  rw [ha, Nat.mul_div_cancel_left _ hpos] at hd
  -- the pages of the `k`-th block are those whose digits from the level up are `a + k`
  have e1 : start.toNat + k * 2 ^ M.levelShift L = (a + k) * 2 ^ M.levelShift L := by
    rw [ha]
    ring
  have e2 : start.toNat + (k + 1) * 2 ^ M.levelShift L = (a + k + 1) * 2 ^ M.levelShift L := by
    rw [ha]
    ring
  rw [e1, e2, ← Nat.le_div_iff_mul_le hpos, ← Nat.div_lt_iff_lt_mul hpos]
  omega

/-- Every page of the `k`-th block of the run rounds down to the block's first page. -/
theorem alignDown_eq (hM : M.Sound) (h : M.Piece L start stop) {k : Nat} {w page : VirtPage}
    (hw : start.toNat + k * 2 ^ M.levelShift L ≤ w.toNat ∧
      w.toNat < start.toNat + (k + 1) * 2 ^ M.levelShift L)
    (hpage : page.toNat = start.toNat + k * 2 ^ M.levelShift L) :
    Word.alignDown w (Word.pow2 (M.levelShift L)) = page := by
  have hpos : 0 < 2 ^ M.levelShift L := by positivity
  obtain ⟨a, ha⟩ := h.start_dvd
  -- the digits of `w` from the level up are those of the block
  have hdiv : w.toNat / 2 ^ M.levelShift L = a + k := by
    have e1 : (a + k) * 2 ^ M.levelShift L = 2 ^ M.levelShift L * a + k * 2 ^ M.levelShift L := by
      ring
    have e2 : (a + k + 1) * 2 ^ M.levelShift L =
        2 ^ M.levelShift L * a + (k + 1) * 2 ^ M.levelShift L := by
      ring
    rw [ha] at hw
    exact Nat.div_eq_of_lt_le (by omega) (by omega)
  have hls := hM.levelShift_add_lt h.level_le
  rw [← UInt64.toNat_inj, Word.toNat_alignDown_pow2 _ (by omega), hdiv, hpage, ha]
  ring

/-- A segment that reaches the root is one run: the root is the only table of its level. -/
theorem of_top (seg : Segment) (hs : M.Blocked seg) (htop : seg.level = M.topLevel)
    (hstop : seg.stop.toNat ≤ 2 ^ M.tableShift M.topLevel) (hdvd : 2 ^ M.levelShift seg.level ∣ start.toNat)
    (hlt : start.toNat < seg.stop.toNat) : M.Piece seg.level start seg.stop where
  level_le := htop ▸ le_rfl
  lt := hlt
  stop_le := hstop
  start_dvd := hdvd
  stop_dvd := hs.2.2
  same_table := by
    rw [htop, Nat.div_eq_of_lt (by omega), Nat.div_eq_of_lt (by omega)]

/-- Below the root, a piece of a segment ends at the segment's end or at the next block of the
level above, whichever comes first. -/
theorem of_below_top (seg : Segment) (hs : M.Blocked seg)
    (hL : seg.level.toNat < M.topLevel.toNat) (hstop : seg.stop.toNat ≤ 2 ^ M.tableShift M.topLevel)
    (hdvd : 2 ^ M.levelShift seg.level ∣ start.toNat) (hlt : start.toNat < seg.stop.toNat)
    {next : VirtPage} (hnext : next.toNat = 2 ^ M.tableShift seg.level *
      (start.toNat / 2 ^ M.tableShift seg.level) + 2 ^ M.tableShift seg.level) :
    M.Piece seg.level start (if next < seg.stop then next else seg.stop) := by
  have hpos : 0 < 2 ^ M.tableShift seg.level := by positivity
  have hls : 2 ^ M.levelShift seg.level ∣ 2 ^ M.tableShift seg.level :=
    Nat.pow_dvd_pow 2 (Nat.le_add_right _ _)
  obtain ⟨hd1, hd2⟩ := alignDown_bounds (x := start.toNat) hpos
  -- the page before the next block lies in the table of the start
  have hlast : (next.toNat - 1) / 2 ^ M.tableShift seg.level =
      start.toNat / 2 ^ M.tableShift seg.level := by
    rw [hnext, Nat.add_sub_assoc Nat.one_le_two_pow, Nat.add_comm, Nat.add_mul_div_left _ _ hpos,
      Nat.div_eq_of_lt (by omega), Nat.zero_add]
  split
  · rename_i hn
    rw [UInt64.lt_iff_toNat_lt] at hn
    exact ⟨hL.le, by omega, by omega, hdvd,
      by rw [hnext]; exact Nat.dvd_add (hls.trans (Dvd.intro _ rfl)) hls, hlast⟩
  · rename_i hn
    rw [UInt64.lt_iff_toNat_lt, Nat.not_lt] at hn
    refine ⟨hL.le, hlt, hstop, hdvd, hs.2.2, le_antisymm ?_ ?_⟩
    · rw [← hlast]
      exact Nat.div_le_div_right (by omega)
    · exact Nat.div_le_div_right (by omega)

end Piece

/-- The page that starts the block of level `L` after the one of `v`: `v` rounded down to the
block, plus a block. -/
theorem Sound.nextPageByLevel_eq_alignDown (hM : M.Sound) {L : Level}
    (hL : L.toNat ≤ M.topLevel.toNat) (v : VirtPage) :
    M.nextPageByLevel v L =
      .ok (Word.alignDown v (Word.pow2 (M.levelShift L)) + Word.pow2 (M.levelShift L)) := by
  simp [nextPageByLevel, hM.layout_eq hL, bind, Except.bind, pure, Except.pure]

/-- The next block of the level above a page below the root. -/
theorem Sound.nextPageByLevel_eq (hM : M.Sound) {L : Level} (hL : L.toNat < M.topLevel.toNat)
    (v : VirtPage) (hv : v.toNat < 2 ^ M.tableShift M.topLevel) :
    ∃ next, M.nextPageByLevel v (L + 1) = .ok next ∧
      next.toNat = 2 ^ M.tableShift L * (v.toNat / 2 ^ M.tableShift L) + 2 ^ M.tableShift L := by
  have hsucc : (L + 1).toNat = L.toNat + 1 := by
    rw [UInt8.toNat_add, UInt8.toNat_one]
    have := M.topLevel.toNat_lt
    omega
  have hup : M.levelShift (L + 1) = M.tableShift L := by
    have := tableShift_sub_one (M := M) (L := L + 1) (by omega) (by omega)
    rw [add_sub_cancel_right] at this
    exact this.symm
  have hts := hM.tableShift_add_lt (Nat.le_refl _)
  have h3 := hM.three_le_frameShift
  have hle := tableShift_le (M := M) hL.le
  have hlt : 2 ^ M.tableShift M.topLevel < 2 ^ 63 := Nat.pow_lt_pow_right (by norm_num) (by omega)
  have hpow : 2 ^ M.tableShift L ≤ 2 ^ M.tableShift M.topLevel :=
    Nat.pow_le_pow_right (by norm_num) hle
  obtain ⟨hd1, -⟩ := alignDown_bounds (x := v.toNat) (b := 2 ^ M.tableShift L) (by positivity)
  refine ⟨_, hM.nextPageByLevel_eq_alignDown (by omega) v, ?_⟩
  rw [hup, UInt64.toNat_add, Word.toNat_alignDown_pow2 _ (by omega), Word.toNat_pow2 (by omega),
    Nat.mod_eq_of_lt (by omega)]

end Mode

end Paging
