import Paging.Proofs.SegmentPlan
/-!
# Indices of pages in tables

A table of level `L` is indexed by one digit of a page number: the `indexWidth L` bits that sit
above the `levelShift L` bits of the level's block (the root has a width of its own). The bits
above the digit, from `tableShift L` up, say which table of the level holds the page. At a level
whose digit and the bits below it fit in a word (`Mode.IndexFits`), none of the index functions
stops the hart, and in numbers:

* `indexOf v L` is the digit of `v` (`IndexFits.toNat_slotIndex`), below the table's entry count;
* `withIndex v L i` keeps the bits of `v` above its table, puts `i` in the digit and clears the
  bits below (`IndexFits.toNat_withIndex`): it is the first page of block `i` of the table that
  holds `v`. It reads back `i` (`IndexFits.indexOf_withIndex`), and at the page's own index it
  rounds the page down to its block (`IndexFits.withIndex_slotIndex`);
* `indexRange start stop L` gives the indices whose blocks, in the table that holds `start`,
  meet the pages `[start, stop)` (`IndexFits.indexRange_spec`).

Main statement: `Mode.table_index_geometry`.
-/

namespace Paging

namespace Word

/-- Clearing the low bits of a word rounds it down to their block. -/
theorem toNat_and_not_lowMask (x : UInt64) {n : Nat} (hn : n < 64) :
    (x &&& ~~~lowMask n).toNat = 2 ^ n * (x.toNat / 2 ^ n) := by
  have hx := x.toNat_lt
  rw [UInt64.toNat_and, UInt64.toNat_not, toNat_lowMask hn]
  apply Nat.eq_of_testBit_eq
  intro i
  -- the complement of the mask is the mask of the high bits
  have hmask : UInt64.size - 1 - (2 ^ n - 1) = (2 ^ (64 - n) - 1) * 2 ^ n := by
    rw [Nat.sub_mul, ← Nat.pow_add, Nat.sub_add_cancel hn.le, Nat.one_mul]
    have : 2 ^ n ≤ 2 ^ 64 := Nat.pow_le_pow_right (by norm_num) hn.le
    have : 1 ≤ 2 ^ n := Nat.one_le_two_pow
    have : UInt64.size = 2 ^ 64 := rfl
    omega
  rw [hmask, Nat.testBit_and, Nat.testBit_mul_two_pow, Nat.testBit_two_pow_sub_one,
    Nat.mul_comm, Nat.testBit_mul_two_pow, ← Nat.shiftRight_eq_div_pow, Nat.testBit_shiftRight]
  by_cases hi : n ≤ i
  · by_cases h64 : i < 64
    · simp [hi, Nat.add_sub_cancel' hi]
      omega
    · have : x.toNat.testBit i = false := Nat.testBit_lt_two_pow
        (Nat.lt_of_lt_of_le hx (Nat.pow_le_pow_right (by norm_num) (by omega)))
      simp [hi, Nat.add_sub_cancel' hi, this]
  · simp [hi]

/-- A word with its low `w` bits replaced by an index shifted into place. -/
theorem toNat_or_shiftLeft (x idx : UInt64) {s w : Nat} (hs : s ≤ w) (hw : w < 64)
    (hidx : idx.toNat < 2 ^ (w - s)) :
    ((x &&& ~~~lowMask w) ||| shiftLeft idx s).toNat =
      2 ^ w * (x.toNat / 2 ^ w) + idx.toNat * 2 ^ s := by
  have hlt : idx.toNat * 2 ^ s < 2 ^ w := by
    calc idx.toNat * 2 ^ s < 2 ^ (w - s) * 2 ^ s := Nat.mul_lt_mul_of_pos_right hidx (by positivity)
      _ = 2 ^ w := by rw [← Nat.pow_add, Nat.sub_add_cancel hs]
  have hsh : (shiftLeft idx s).toNat = idx.toNat * 2 ^ s := by
    rw [toNat_shiftLeft, Nat.shiftLeft_eq]
    have : 2 ^ w ≤ 2 ^ 64 := Nat.pow_le_pow_right (by norm_num) hw.le
    exact Nat.mod_eq_of_lt (by simp only [UInt64.size]; omega)
  rw [UInt64.toNat_or, toNat_and_not_lowMask x hw, hsh, Nat.two_pow_add_eq_or_of_lt hlt]

/-- The word before a positive word. -/
theorem toNat_pred {x : UInt64} (hx : 0 < x.toNat) : (x - 1).toNat = x.toNat - 1 := by
  rw [UInt64.toNat_sub_of_le _ _ (UInt64.le_iff_toNat_le.2 (by rwa [UInt64.toNat_one])),
    UInt64.toNat_one]

end Word

namespace Mode

variable {M : Mode} {L : Level}

/-- A table of the level spans `2 ^ indexWidth L` blocks of the level. -/
theorem pow_tableShift : 2 ^ M.tableShift L = 2 ^ M.levelShift L * 2 ^ M.indexWidth L :=
  pow_add 2 _ _

/-- A page number read in blocks of the level: the table that holds it, then its digit. -/
theorem div_levelShift_split (x : Nat) :
    x / 2 ^ M.levelShift L =
      2 ^ M.indexWidth L * (x / 2 ^ M.tableShift L) + x / 2 ^ M.levelShift L % 2 ^ M.indexWidth L := by
  have hdiv : x / 2 ^ M.levelShift L / 2 ^ M.indexWidth L = x / 2 ^ M.tableShift L := by
    rw [Nat.div_div_eq_div_mul, ← pow_tableShift]
  rw [← hdiv, Nat.div_add_mod]

/-- The first page of block `i` of the level-`L` table that holds `v`, as a number. -/
def tableBlock (M : Mode) (v : VirtPage) (L : Level) (i : Nat) : Nat :=
  2 ^ M.levelShift L * (2 ^ M.indexWidth L * (v.toNat / 2 ^ M.tableShift L) + i)

theorem tableBlock_mod (v : VirtPage) (i : Nat) : M.tableBlock v L i % 2 ^ M.levelShift L = 0 :=
  Nat.mul_mod_right _ _

/-- A block of the table that holds `v` lies in that table, at its own digit. -/
theorem tableBlock_digits (v : VirtPage) {i : Nat} (hi : i < 2 ^ M.indexWidth L) :
    M.tableBlock v L i / 2 ^ M.tableShift L = v.toNat / 2 ^ M.tableShift L ∧
      M.tableBlock v L i / 2 ^ M.levelShift L % 2 ^ M.indexWidth L = i := by
  have hB : 0 < 2 ^ M.levelShift L := by positivity
  have hI : 0 < 2 ^ M.indexWidth L := by positivity
  have hblocks : M.tableBlock v L i / 2 ^ M.levelShift L =
      2 ^ M.indexWidth L * (v.toNat / 2 ^ M.tableShift L) + i :=
    Nat.mul_div_cancel_left _ hB
  constructor
  · calc M.tableBlock v L i / 2 ^ M.tableShift L
        = M.tableBlock v L i / 2 ^ M.levelShift L / 2 ^ M.indexWidth L := by
          rw [Nat.div_div_eq_div_mul, ← pow_tableShift]
      _ = v.toNat / 2 ^ M.tableShift L := by
          rw [hblocks, Nat.mul_add_div hI, Nat.div_eq_of_lt hi, Nat.add_zero]
  · rw [hblocks, Nat.mul_add_mod, Nat.mod_eq_of_lt hi]

/-- A page on a block of the level, in the table that holds `v`, is the block at its digit. -/
theorem eq_tableBlock (v : VirtPage) {b : Nat} (hb : b % 2 ^ M.levelShift L = 0)
    (ht : b / 2 ^ M.tableShift L = v.toNat / 2 ^ M.tableShift L) :
    b = M.tableBlock v L (b / 2 ^ M.levelShift L % 2 ^ M.indexWidth L) := by
  have hsplit := div_levelShift_split (M := M) (L := L) b
  rw [ht] at hsplit
  rw [tableBlock, ← hsplit]
  exact (Nat.mul_div_cancel' (Nat.dvd_of_mod_eq_zero hb)).symm

/-- A block of `B` pages from `B * K` meets the pages `[s, e)` just when the page `s` lies in
the block or before it, the block starts before `e`, and the pages are not empty. -/
theorem block_meets_iff {B K s e : Nat} (hB : 0 < B) :
    (∃ p, B * K ≤ p ∧ p < B * K + B ∧ s ≤ p ∧ p < e) ↔ s / B ≤ K ∧ B * K < e ∧ s < e := by
  have hend : B * K + B = (K + 1) * B := by ring
  constructor
  · rintro ⟨p, h1, h2, h3, h4⟩
    refine ⟨Nat.le_of_lt_succ ((Nat.div_lt_iff_lt_mul hB).2 ?_), by omega, by omega⟩
    rw [← hend]
    omega
  · rintro ⟨h1, h2, h3⟩
    have hs : s < B * K + B := by
      rw [hend]
      exact (Nat.div_lt_iff_lt_mul hB).1 (Nat.lt_succ_of_le h1)
    exact ⟨max (B * K) s, le_max_left _ _, max_lt (by omega) hs, le_max_right _ _, max_lt h2 h3⟩

/-- Block `i` of the table that holds `start` meets the pages `[start, stop)` just when `i` is
at or after the digit of `start`, the block starts before `stop`, and the pages are not empty. -/
theorem tableBlock_meets_iff (start stop : VirtPage) (i : Nat) :
    (∃ p, M.tableBlock start L i ≤ p ∧ p < M.tableBlock start L i + 2 ^ M.levelShift L ∧
        start.toNat ≤ p ∧ p < stop.toNat) ↔
      start.toNat / 2 ^ M.levelShift L % 2 ^ M.indexWidth L ≤ i ∧
        M.tableBlock start L i < stop.toNat ∧ start.toNat < stop.toNat := by
  have hsplit := div_levelShift_split (M := M) (L := L) start.toNat
  rw [tableBlock, block_meets_iff (by positivity)]
  omega

/-- Every block of the table that holds `v` starts before any page of a later table. -/
theorem tableBlock_lt_of_later (v : VirtPage) {i x : Nat} (hi : i < 2 ^ M.indexWidth L)
    (hlater : v.toNat / 2 ^ M.tableShift L < x / 2 ^ M.tableShift L) :
    M.tableBlock v L i < x := by
  -- the table that holds `v` ends where the next one starts, at or below `x`
  have hend : 2 ^ M.tableShift L * (v.toNat / 2 ^ M.tableShift L + 1) ≤ x := by
    rw [Nat.mul_comm]
    exact (Nat.le_div_iff_mul_le (by positivity)).1 hlater
  have hin : M.tableBlock v L i < 2 ^ M.tableShift L * (v.toNat / 2 ^ M.tableShift L + 1) := by
    rw [tableBlock, pow_tableShift, Nat.mul_assoc]
    apply Nat.mul_lt_mul_of_pos_left _ (by positivity)
    rw [Nat.mul_succ]
    omega
  omega

/-- In the table that holds `v`, a block starts at or before the page `x` just when its index is
at most the digit of `x`. -/
theorem tableBlock_le_iff (v : VirtPage) {i x : Nat}
    (hsame : x / 2 ^ M.tableShift L = v.toNat / 2 ^ M.tableShift L) :
    M.tableBlock v L i ≤ x ↔ i ≤ x / 2 ^ M.levelShift L % 2 ^ M.indexWidth L := by
  have hsplit := div_levelShift_split (M := M) (L := L) x
  rw [hsame] at hsplit
  rw [tableBlock, Nat.mul_comm, ← Nat.le_div_iff_mul_le (by positivity)]
  omega

namespace IndexFits

theorem toNat_entries (h : M.IndexFits L) :
    (Word.pow2 (M.indexWidth L)).toNat = 2 ^ M.indexWidth L :=
  Word.toNat_pow2 h.indexWidth_lt

theorem slotIndex_lt (h : M.IndexFits L) (v : VirtPage) :
    M.slotIndex v L < Word.pow2 (M.indexWidth L) := by
  rw [UInt64.lt_iff_toNat_lt, h.toNat_slotIndex, h.toNat_entries]
  exact Nat.mod_lt _ (by positivity)

/-- The page built from an index below the entry count: block `idx` of the table that holds
`v`, counted in blocks of the level. -/
theorem toNat_withIndex (h : M.IndexFits L) (v : VirtPage) {idx : UInt64}
    (hidx : idx.toNat < 2 ^ M.indexWidth L) :
    ((v &&& ~~~Word.lowMask (M.tableShift L)) ||| Word.shiftLeft idx (M.levelShift L)).toNat =
      M.tableBlock v L idx.toNat := by
  have hle : M.levelShift L ≤ M.tableShift L := Nat.le_add_right _ _
  have hwidth : M.tableShift L - M.levelShift L = M.indexWidth L := Nat.add_sub_cancel_left _ _
  rw [Word.toNat_or_shiftLeft _ _ hle h.tableShift_lt (by rwa [hwidth]), tableBlock, pow_tableShift]
  ring

/-- The page built from an index below the entry count keeps the bits of `v` above its table and
reads back the index. -/
theorem indexOf_withIndex (h : M.IndexFits L) (v : VirtPage) {idx : UInt64}
    (hidx : idx < Word.pow2 (M.indexWidth L)) :
    ∃ page, M.withIndex v L idx = .ok page ∧ M.indexOf page L = .ok idx ∧
      page.toNat / 2 ^ M.tableShift L = v.toNat / 2 ^ M.tableShift L := by
  have hi : idx.toNat < 2 ^ M.indexWidth L := by
    rwa [UInt64.lt_iff_toNat_lt, h.toNat_entries] at hidx
  have hpage := h.toNat_withIndex v hi
  obtain ⟨htable, hdigit⟩ := tableBlock_digits (M := M) (L := L) v hi
  refine ⟨_, h.withIndex_eq v idx, ?_, by rw [hpage, htable]⟩
  rw [h.indexOf_eq, Except.ok.injEq, ← UInt64.toNat_inj, h.toNat_slotIndex, hpage, hdigit]

/-- At the page's own index, the page built is the page rounded down to its block. -/
theorem withIndex_slotIndex (h : M.IndexFits L) (v : VirtPage) :
    M.withIndex v L (M.slotIndex v L) = .ok (Word.alignDown v (Word.pow2 (M.levelShift L))) := by
  have hls : M.levelShift L < 64 := Nat.lt_of_le_of_lt (Nat.le_add_right _ _) h.tableShift_lt
  have hi : (M.slotIndex v L).toNat < 2 ^ M.indexWidth L := by
    rw [h.toNat_slotIndex]
    exact Nat.mod_lt _ (by positivity)
  rw [h.withIndex_eq, Except.ok.injEq, ← UInt64.toNat_inj, h.toNat_withIndex v hi,
    Word.toNat_alignDown_pow2 v hls, tableBlock, h.toNat_slotIndex, ← div_levelShift_split]

/-! ### The indices of a run of pages -/

/-- Whether the last page of a run shares the table of its first, read on words or on numbers. -/
theorem shiftRight_last_eq_iff {start stop : VirtPage} (hlt : start < stop) (n : Nat) :
    Word.shiftRight (stop - 1) n = Word.shiftRight start n ↔
      (stop.toNat - 1) / 2 ^ n = start.toNat / 2 ^ n := by
  have hpos : 0 < stop.toNat := by
    have := UInt64.lt_iff_toNat_lt.1 hlt
    omega
  rw [← UInt64.toNat_inj, Word.toNat_shiftRight, Word.toNat_shiftRight, Nat.shiftRight_eq_div_pow,
    Nat.shiftRight_eq_div_pow, Word.toNat_pred hpos]

theorem indexRange_of_le (h : M.IndexFits L) {start stop : VirtPage} (hss : stop ≤ start) :
    M.indexRange start stop L = .ok (M.slotIndex start L, M.slotIndex start L) := by
  simp only [indexRange, h.indexOf_eq, bind, Except.bind, pure, Except.pure]
  rw [if_pos hss]

theorem indexRange_of_next_table (h : M.IndexFits L) {start stop : VirtPage} (hlt : start < stop)
    (hnext : (stop.toNat - 1) / 2 ^ M.tableShift L ≠ start.toNat / 2 ^ M.tableShift L) :
    M.indexRange start stop L = .ok (M.slotIndex start L, Word.pow2 (M.indexWidth L)) := by
  simp only [indexRange, h.indexOf_eq, h.indexBits_eq, h.tableEntries_eq, bind, Except.bind, pure,
    Except.pure]
  rw [if_neg (UInt64.not_le.2 hlt), if_pos]
  exact fun heq => hnext ((shiftRight_last_eq_iff hlt _).1 heq)

theorem indexRange_of_same_table (h : M.IndexFits L) {start stop : VirtPage} (hlt : start < stop)
    (hsame : (stop.toNat - 1) / 2 ^ M.tableShift L = start.toNat / 2 ^ M.tableShift L) :
    M.indexRange start stop L =
      .ok (M.slotIndex start L, M.slotIndex (stop - 1) L + 1) := by
  simp only [indexRange, h.indexOf_eq, h.indexBits_eq, bind, Except.bind, pure, Except.pure]
  rw [if_neg (UInt64.not_le.2 hlt), if_neg]
  exact not_not.2 ((shiftRight_last_eq_iff hlt _).2 hsame)

/-- The indices of `indexRange start stop L` run from the digit of `start` to the end of its
table or one past the digit of the last page, and are just those whose blocks meet the pages
`[start, stop)`. -/
theorem indexRange_spec (h : M.IndexFits L) (start stop : VirtPage) :
    ∃ first last, M.indexRange start stop L = .ok (first, last) ∧ first ≤ last ∧
      last ≤ Word.pow2 (M.indexWidth L) ∧
      ∀ i : UInt64, i.toNat < 2 ^ M.indexWidth L →
        (first ≤ i ∧ i < last ↔
          ∃ p, M.tableBlock start L i.toNat ≤ p ∧
            p < M.tableBlock start L i.toNat + 2 ^ M.levelShift L ∧
            start.toNat ≤ p ∧ p < stop.toNat) := by
  have hf := h.toNat_slotIndex start
  have hfirst := h.slotIndex_lt start
  have hE := h.toNat_entries
  by_cases hss : stop ≤ start
  · -- no pages: no index
    have hempty : ¬start.toNat < stop.toNat := by
      rw [UInt64.le_iff_toNat_le] at hss
      omega
    refine ⟨_, _, h.indexRange_of_le hss, UInt64.le_refl _, UInt64.le_of_lt hfirst, fun i _ => ?_⟩
    rw [tableBlock_meets_iff, UInt64.le_iff_toNat_le, UInt64.lt_iff_toNat_lt]
    omega
  have hlt : start < stop := UInt64.not_le.1 hss
  have hlt' := UInt64.lt_iff_toNat_lt.1 hlt
  have hbelow : start.toNat / 2 ^ M.tableShift L ≤ (stop.toNat - 1) / 2 ^ M.tableShift L :=
    Nat.div_le_div_right (by omega)
  by_cases hsame : (stop.toNat - 1) / 2 ^ M.tableShift L = start.toNat / 2 ^ M.tableShift L
  · -- the last page lies in the same table: the indices run to one past its digit
    have hj := h.toNat_slotIndex (stop - 1)
    have hjlt := h.slotIndex_lt (stop - 1)
    rw [UInt64.lt_iff_toNat_lt, hE] at hjlt
    rw [Word.toNat_pred (by omega)] at hj
    have hlast : (M.slotIndex (stop - 1) L + 1).toNat = (M.slotIndex (stop - 1) L).toNat + 1 := by
      have : 2 ^ M.indexWidth L < 2 ^ 64 := Nat.pow_lt_pow_right (by norm_num) h.indexWidth_lt
      have hsize : UInt64.size = 2 ^ 64 := rfl
      rw [UInt64.toNat_add, UInt64.toNat_one, Nat.mod_eq_of_lt (by omega)]
    -- both ends read in blocks of the one table: the digit of `start` is at most the last's
    have hds := div_levelShift_split (M := M) (L := L) start.toNat
    have hde := div_levelShift_split (M := M) (L := L) (stop.toNat - 1)
    rw [hsame] at hde
    have hblocks : start.toNat / 2 ^ M.levelShift L ≤ (stop.toNat - 1) / 2 ^ M.levelShift L :=
      Nat.div_le_div_right (by omega)
    refine ⟨_, _, h.indexRange_of_same_table hlt hsame, ?_, ?_, fun i hi => ?_⟩
    · rw [UInt64.le_iff_toNat_le, hlast, hf, hj]
      omega
    · rw [UInt64.le_iff_toNat_le, hlast, hE]
      omega
    · have hbefore := tableBlock_le_iff (i := i.toNat) start hsame
      rw [tableBlock_meets_iff, UInt64.le_iff_toNat_le, UInt64.lt_iff_toNat_lt, hlast, hf, hj]
      omega
  · -- the pages run on into a later table: the indices run to the end of the table
    refine ⟨_, _, h.indexRange_of_next_table hlt hsame, UInt64.le_of_lt hfirst, UInt64.le_refl _,
      fun i hi => ?_⟩
    have hbefore := tableBlock_lt_of_later start hi (by omega : start.toNat / 2 ^ M.tableShift L <
      (stop.toNat - 1) / 2 ^ M.tableShift L)
    rw [tableBlock_meets_iff, UInt64.le_iff_toNat_le, UInt64.lt_iff_toNat_lt, hf, hE]
    omega

/-- The pages that `withIndex` builds from the indices of `indexRange start stop L` are just the
first pages of the level's blocks, in the table that holds `start`, that meet `[start, stop)`. -/
theorem withIndex_indexRange (h : M.IndexFits L) (start stop : VirtPage) :
    ∃ first last, M.indexRange start stop L = .ok (first, last) ∧ first ≤ last ∧
      last ≤ Word.pow2 (M.indexWidth L) ∧
      ∀ b : VirtPage, (∃ i, first ≤ i ∧ i < last ∧ M.withIndex start L i = .ok b) ↔
        b.toNat % 2 ^ M.levelShift L = 0 ∧
          b.toNat / 2 ^ M.tableShift L = start.toNat / 2 ^ M.tableShift L ∧
          ∃ p, b.toNat ≤ p ∧ p < b.toNat + 2 ^ M.levelShift L ∧
            start.toNat ≤ p ∧ p < stop.toNat := by
  obtain ⟨first, last, hrange, hfl, hle, hmeets⟩ := h.indexRange_spec start stop
  refine ⟨first, last, hrange, hfl, hle, fun b => ⟨?_, ?_⟩⟩
  · rintro ⟨i, h1, h2, hb⟩
    have hi : i.toNat < 2 ^ M.indexWidth L := by
      have := UInt64.lt_of_lt_of_le h2 hle
      rwa [UInt64.lt_iff_toNat_lt, h.toNat_entries] at this
    rw [h.withIndex_eq, Except.ok.injEq] at hb
    subst hb
    rw [h.toNat_withIndex start hi]
    exact ⟨tableBlock_mod start _, (tableBlock_digits start hi).1, (hmeets i hi).1 ⟨h1, h2⟩⟩
  · rintro ⟨hb, htable, hmeet⟩
    -- the block's index is its digit, which names it in the table of `start`
    have hdigit : b.toNat / 2 ^ M.levelShift L % 2 ^ M.indexWidth L < 2 ^ M.indexWidth L :=
      Nat.mod_lt _ (by positivity)
    have hidx : (b.toNat / 2 ^ M.levelShift L % 2 ^ M.indexWidth L).toUInt64.toNat =
        b.toNat / 2 ^ M.levelShift L % 2 ^ M.indexWidth L :=
      UInt64.toNat_ofNat_of_lt'
        (Nat.lt_of_lt_of_le hdigit (Nat.pow_le_pow_right (by norm_num) h.indexWidth_lt.le))
    have heq := eq_tableBlock start hb htable
    have hi : (b.toNat / 2 ^ M.levelShift L % 2 ^ M.indexWidth L).toUInt64.toNat <
        2 ^ M.indexWidth L := by rwa [hidx]
    obtain ⟨h1, h2⟩ := (hmeets _ hi).2 (by rw [hidx, ← heq]; exact hmeet)
    refine ⟨_, h1, h2, ?_⟩
    rw [h.withIndex_eq, Except.ok.injEq, ← UInt64.toNat_inj, h.toNat_withIndex start hi, hidx,
      ← heq]

end IndexFits

/-- The geometry of the tables of a level whose index fits in a word. The index of a page is
below the table's entry count; the page built from an index below it keeps the bits above the
table and reads the index back; at the page's own index it is the page rounded down to its
block; and the indices that `indexRange` gives for `[start, stop)` build just the first pages
of the blocks, in the table that holds `start`, that meet those pages. -/
theorem table_index_geometry (h : M.IndexFits L) (vpn start stop : VirtPage) :
    ∃ entries, M.tableEntries L = .ok entries ∧
      (∃ i, M.indexOf vpn L = .ok i ∧ i < entries ∧
        M.withIndex vpn L i = .ok (Word.alignDown vpn (Word.pow2 (M.levelShift L)))) ∧
      (∀ idx, idx < entries → ∃ page, M.withIndex vpn L idx = .ok page ∧
        M.indexOf page L = .ok idx ∧
        page.toNat / 2 ^ M.tableShift L = vpn.toNat / 2 ^ M.tableShift L) ∧
      ∃ first last, M.indexRange start stop L = .ok (first, last) ∧ first ≤ last ∧
        last ≤ entries ∧
        ∀ b : VirtPage, (∃ i, first ≤ i ∧ i < last ∧ M.withIndex start L i = .ok b) ↔
          b.toNat % 2 ^ M.levelShift L = 0 ∧
            b.toNat / 2 ^ M.tableShift L = start.toNat / 2 ^ M.tableShift L ∧
            ∃ p, b.toNat ≤ p ∧ p < b.toNat + 2 ^ M.levelShift L ∧
              start.toNat ≤ p ∧ p < stop.toNat :=
  ⟨_, h.tableEntries_eq,
    ⟨_, h.indexOf_eq vpn, h.slotIndex_lt vpn, h.withIndex_slotIndex vpn⟩,
    fun _ hidx => h.indexOf_withIndex vpn hidx,
    h.withIndex_indexRange start stop⟩

/-- The widened root of `sv39x4`: 2048 entries of blocks of `2 ^ 18` pages. The pages from the
last block of the first root table into the next table take one index, the last. -/
theorem table_index_geometry_sv39x4_root :
    sv39x4.IndexFits 2 ∧
    ∃ entries, sv39x4.tableEntries 2 = .ok entries ∧
      (∃ i, sv39x4.indexOf 0x12345678 2 = .ok i ∧ i < entries ∧
        sv39x4.withIndex 0x12345678 2 i =
          .ok (Word.alignDown 0x12345678 (Word.pow2 (sv39x4.levelShift 2)))) ∧
      (∀ idx, idx < entries → ∃ page, sv39x4.withIndex 0x12345678 2 idx = .ok page ∧
        sv39x4.indexOf page 2 = .ok idx ∧
        page.toNat / 2 ^ sv39x4.tableShift 2 = (0x12345678 : VirtPage).toNat / 2 ^ sv39x4.tableShift 2) ∧
      ∃ first last, sv39x4.indexRange 0x1ffc0000 0x20040000 2 = .ok (first, last) ∧
        first ≤ last ∧ last ≤ entries ∧
        ∀ b : VirtPage, (∃ i, first ≤ i ∧ i < last ∧ sv39x4.withIndex 0x1ffc0000 2 i = .ok b) ↔
          b.toNat % 2 ^ sv39x4.levelShift 2 = 0 ∧
            b.toNat / 2 ^ sv39x4.tableShift 2 =
              (0x1ffc0000 : VirtPage).toNat / 2 ^ sv39x4.tableShift 2 ∧
            ∃ p, b.toNat ≤ p ∧ p < b.toNat + 2 ^ sv39x4.levelShift 2 ∧
              (0x1ffc0000 : VirtPage).toNat ≤ p ∧ p < (0x20040000 : VirtPage).toNat :=
  have h : sv39x4.IndexFits 2 := sound_sv39x4.indexFits (by decide)
  ⟨h, table_index_geometry h 0x12345678 0x1ffc0000 0x20040000⟩

end Mode

end Paging
