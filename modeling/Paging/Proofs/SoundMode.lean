import Mathlib
import Paging.Segment
/-!
# Sound modes in numbers

A mode is sound when it has a level, names frames with at most 44 bits, translates page numbers
whose bits and the frame offset fit in a word, and has frames of at least eight bytes and at
most `2 ^ 20`, so that the table frames an entry can name have addresses that do not wrap.
`sv39` and `sv39x4` are sound (`sound_sv39`, `sound_sv39x4`).

For the levels of a sound mode, from the leaves up to the root, none of the geometry stops the
hart, and each function is a number:

* the walks over levels are lists that count down (`LevelRange.toList_falling`,
  `levelsUntil_eq`, `levelsBefore_eq`, `levelsFrom_eq`);
* a table of level `L` has `2 ^ indexWidth L` entries in `2 ^ (indexWidth L + 3 - frameShift)`
  frames (`tableEntries_eq`, `tableFrames_eq`);
* the index of a page is its digit at the level (`indexOf_eq`, `toNat_slotIndex`).

The index functions need less than a sound mode: a level whose index and the block bits below it
fit in a word (`IndexFits`), which every level of a sound mode is (`Sound.indexFits`).
-/

namespace Paging

/-! ## Words as numbers -/

namespace Word

theorem toNat_pow2 {n : Nat} (h : n < 64) : (pow2 n).toNat = 2 ^ n := by
  rw [pow2, toNat_shiftLeft, Nat.shiftLeft_eq, UInt64.toNat_one, one_mul]
  exact Nat.mod_eq_of_lt (Nat.pow_lt_pow_right (by norm_num) h)

theorem toNat_lowMask {n : Nat} (h : n < 64) : (lowMask n).toNat = 2 ^ n - 1 := by
  rw [lowMask, UInt64.toNat_sub_of_le _ _ (UInt64.le_iff_toNat_le.2 ?_), toNat_pow2 h,
    UInt64.toNat_one]
  rw [toNat_pow2 h, UInt64.toNat_one]
  exact Nat.one_le_two_pow

theorem toNat_and_lowMask (x : UInt64) {n : Nat} (h : n < 64) :
    (x &&& lowMask n).toNat = x.toNat % 2 ^ n := by
  rw [UInt64.toNat_and, toNat_lowMask h, Nat.and_two_pow_sub_one_eq_mod]

end Word

/-! ## Walks over levels -/

namespace Level

/-- The level below a level above the leaves. -/
theorem toNat_sub_one {L : Level} (h : 0 < L.toNat) : (L - 1).toNat = L.toNat - 1 :=
  UInt8.toNat_sub_of_le _ _ (UInt8.le_iff_toNat_le.2 (by simp; omega))

/-- The `k` levels from `L` down: `L, L - 1, …, L - (k - 1)`. -/
def downFrom (L : Level) : Nat → List Level
  | 0 => []
  | k + 1 => L :: downFrom (L - 1) k

@[simp] theorem downFrom_zero (L : Level) : downFrom L 0 = [] := rfl

@[simp] theorem downFrom_succ (L : Level) (k : Nat) :
    downFrom L (k + 1) = L :: downFrom (L - 1) k :=
  rfl

/-- Every level of a falling walk from `T` lies at or below `T`. -/
theorem le_of_mem_downFrom (k : Nat) :
    ∀ {T L : Level}, k ≤ T.toNat + 1 → L ∈ downFrom T k → L.toNat ≤ T.toNat := by
  induction k with
  | zero => simp
  | succ k ih =>
    intro T L hk hL
    rcases List.mem_cons.1 hL with rfl | hL
    · exact Nat.le_refl _
    · cases k with
      | zero => simp at hL
      | succ k =>
        have hsub : (T - 1).toNat = T.toNat - 1 := toNat_sub_one (by omega)
        have := ih (by omega) hL
        omega

/-- A falling walk through every level from `T` ends at the leaves. -/
theorem leaf_mem_downFrom (k : Nat) : ∀ (T : Level), T.toNat = k → leaf ∈ downFrom T (k + 1) := by
  induction k with
  | zero =>
    intro T hT
    rw [downFrom_succ, show T = leaf from UInt8.toNat_inj.1 hT]
    exact List.mem_cons_self
  | succ k ih =>
    intro T hT
    have hsub : (T - 1).toNat = k := by
      rw [toNat_sub_one (by omega)]
      omega
    exact List.mem_cons_of_mem _ (ih (T - 1) hsub)

/-- The levels of a falling walk from `T` that stays at or above the leaves: the `k` levels up
to `T`. -/
theorem mem_downFrom (k : Nat) :
    ∀ {T L : Level}, k ≤ T.toNat + 1 →
      (L ∈ downFrom T k ↔ T.toNat + 1 ≤ L.toNat + k ∧ L.toNat ≤ T.toNat) := by
  induction k with
  | zero => intro T L _; simp
  | succ k ih =>
    intro T L hk
    rw [downFrom_succ, List.mem_cons]
    have hLT : L = T ↔ L.toNat = T.toNat := ⟨congrArg _, UInt8.toNat_inj.1⟩
    cases k with
    | zero => simp only [downFrom_zero, List.not_mem_nil, or_false, hLT]; omega
    | succ k =>
      have hsub : (T - 1).toNat = T.toNat - 1 := toNat_sub_one (by omega)
      rw [ih (by omega), hsub, hLT]
      omega

/-- A falling walk from `T` that stays at or above the leaves falls strictly. -/
theorem pairwise_downFrom (k : Nat) :
    ∀ {T : Level}, k ≤ T.toNat + 1 → (downFrom T k).Pairwise (fun a b => b.toNat < a.toNat) := by
  induction k with
  | zero => intro T _; simp
  | succ k ih =>
    intro T hk
    rw [downFrom_succ, List.pairwise_cons]
    cases k with
    | zero => simp
    | succ k =>
      have hsub : (T - 1).toNat = T.toNat - 1 := toNat_sub_one (by omega)
      refine ⟨fun L hL => ?_, ih (by omega)⟩
      have := le_of_mem_downFrom (k + 1) (by omega) hL
      omega

end Level

namespace LevelRange

theorem toList_of_next_none {r : LevelRange} (h : r.next = none) : r.toList = [] := by
  rw [toList]
  split <;> simp_all

/-- A falling walk lists its levels from the top down, as many as its size. -/
theorem toList_falling : ∀ (n : Nat) (r : LevelRange), r.rising = false → r.size = n →
    r.toList = Level.downFrom r.high n := by
  intro n
  induction n with
  | zero =>
    intro r _ hs
    have hle := UInt8.le_iff_toNat_le.1 r.ordered
    have heq : r.low = r.high :=
      UInt8.toNat_inj.1 (by simp only [size] at hs; split at hs <;> omega)
    have hc : r.closed = false := by
      simp only [size] at hs
      split at hs
      · omega
      · simp_all
    exact toList_of_next_none (by simp [next, heq, hc])
  | succ n ih =>
    intro r hr hs
    have hle := UInt8.le_iff_toNat_le.1 r.ordered
    by_cases heq : r.low = r.high
    · -- the last level, walked because the walk is closed
      have hlow : r.low.toNat = r.high.toNat := congrArg UInt8.toNat heq
      have hc : r.closed = true := by
        simp only [size] at hs
        split at hs
        · assumption
        · omega
      have hn : n = 0 := by simp only [size, hc, if_true] at hs; omega
      have hnext : r.next = some (r.low, { r with closed := false }) := by simp [next, heq, hc]
      rw [toList_next hnext, toList_of_next_none (by simp [next, heq]), hn, heq]
      rfl
    · have hnext : r.next = some (r.high, ⟨r.low, r.high - 1, r.rising, r.closed,
          le_pred_of_ne r.ordered heq⟩) := by simp [next, heq, hr]
      have hlt : r.low.toNat < r.high.toNat := by
        have : r.low.toNat ≠ r.high.toNat := fun e => heq (UInt8.toNat_inj.1 e)
        omega
      rw [toList_next hnext, ih ⟨r.low, r.high - 1, r.rising, r.closed,
        le_pred_of_ne r.ordered heq⟩ hr]
      · rfl
      · simp only [size] at hs ⊢
        rw [Level.toNat_sub_one (by omega)]
        cases hc : r.closed <;> simp only [hc] at hs ⊢ <;> omega

end LevelRange

/-! ## Sound modes -/

namespace Mode

/-- Every level of the mode has a block whose bytes fit in a word: the mode has a level, and the
page-number bits below its root and the frame offset fit in a word. Asking for the block of a level
of such a mode never stops the hart. -/
structure BlocksFit (M : Mode) : Prop where
  levels_pos : 0 < M.levels.toNat
  blockBits_lt : M.topLevel.toNat * M.entriesShift + M.frameShift < 64

/-- A mode whose geometry never overflows a word: it has a level, its entries name its frames,
the page-number bits of its root and below and the frame offset fit in a word, and its frames
are at least one entry and at most `2 ^ 20` bytes long. -/
structure Sound (M : Mode) : Prop where
  levels_pos : 0 < M.levels.toNat
  ppnBits_le : M.ppnBits ≤ 44
  vpnBits_lt : M.topLevel.toNat * M.entriesShift + M.rootIndexBits + M.frameShift < 64
  three_le_frameShift : 3 ≤ M.frameShift
  frameShift_le : M.frameShift ≤ 20

theorem sound_sv39 : sv39.Sound :=
  ⟨by decide, by decide, by decide, by decide, by decide⟩

theorem sound_sv39x4 : sv39x4.Sound :=
  ⟨by decide, by decide, by decide, by decide, by decide⟩

theorem toNat_ppnOf_sv39 (x : UInt64) : (Mode.sv39.ppnOf x).toNat = x.toNat / 4096 := by
  show (Word.shiftRight x 12).toNat = _
  rw [Word.shiftRight, if_pos (by decide), UInt64.toNat_shiftRight, Nat.shiftRight_eq_div_pow]
  rfl

/-- The page-number bits that index a table of the level. -/
def indexWidth (M : Mode) (L : Level) : Nat :=
  if L = M.topLevel then M.rootIndexBits else M.entriesShift

/-- The position of the bits above a table of the level: the page numbers that share them share
the table. -/
def tableShift (M : Mode) (L : Level) : Nat :=
  M.levelShift L + M.indexWidth L

variable {M : Mode}

/-- A sound mode has a block at every level. -/
theorem Sound.blocksFit (hM : M.Sound) : M.BlocksFit :=
  ⟨hM.levels_pos, by have := hM.vpnBits_lt; omega⟩

theorem BlocksFit.toNat_topLevel (hM : M.BlocksFit) : M.topLevel.toNat = M.levels.toNat - 1 := by
  rw [topLevel, Level.toNat_sub_one hM.levels_pos]

/-- The levels of the mode are those up to the root. -/
theorem BlocksFit.lt_levels_iff (hM : M.BlocksFit) {L : Level} :
    L < M.levels ↔ L.toNat ≤ M.topLevel.toNat := by
  rw [UInt8.lt_iff_toNat_lt, hM.toNat_topLevel]
  have := hM.levels_pos
  omega

theorem BlocksFit.checkLevel_eq (hM : M.BlocksFit) {L : Level} (hL : L.toNat ≤ M.topLevel.toNat) :
    M.checkLevel L = .ok () := by
  simp [checkLevel, hM.lt_levels_iff.2 hL]

/-- The block of every level, with the frame offset, fits in a word. -/
theorem BlocksFit.levelShift_add_lt (hM : M.BlocksFit) {L : Level}
    (hL : L.toNat ≤ M.topLevel.toNat) : M.levelShift L + M.frameShift < 64 := by
  have := Nat.mul_le_mul_right M.entriesShift hL
  have := hM.blockBits_lt
  simp only [levelShift]
  omega

theorem BlocksFit.layout_eq (hM : M.BlocksFit) {L : Level} (hL : L.toNat ≤ M.topLevel.toNat) :
    M.layout L = .ok ⟨Word.pow2 (M.levelShift L)⟩ := by
  have := hM.levelShift_add_lt hL
  simp only [layout, hM.checkLevel_eq hL, bind, Except.bind, pure, Except.pure]
  rw [if_neg (by omega)]

theorem Sound.toNat_topLevel (hM : M.Sound) : M.topLevel.toNat = M.levels.toNat - 1 :=
  hM.blocksFit.toNat_topLevel

theorem Sound.lt_levels_iff (hM : M.Sound) {L : Level} :
    L < M.levels ↔ L.toNat ≤ M.topLevel.toNat :=
  hM.blocksFit.lt_levels_iff

theorem Sound.checkLevel_eq (hM : M.Sound) {L : Level} (hL : L.toNat ≤ M.topLevel.toNat) :
    M.checkLevel L = .ok () :=
  hM.blocksFit.checkLevel_eq hL

/-- At every level the index bits, the bits below them and the frame offset fit in a word. -/
theorem Sound.tableShift_add_lt (hM : M.Sound) {L : Level} (hL : L.toNat ≤ M.topLevel.toNat) :
    M.tableShift L + M.frameShift < 64 := by
  have h := hM.vpnBits_lt
  simp only [tableShift, levelShift, indexWidth]
  split
  · rename_i htop
    subst htop
    omega
  · rename_i htop
    have hlt : L.toNat < M.topLevel.toNat := by
      have : L.toNat ≠ M.topLevel.toNat := fun e => htop (UInt8.toNat_inj.1 e)
      omega
    have : (L.toNat + 1) * M.entriesShift ≤ M.topLevel.toNat * M.entriesShift :=
      Nat.mul_le_mul_right _ hlt
    rw [Nat.add_mul, one_mul] at this
    omega

theorem Sound.levelShift_add_lt (hM : M.Sound) {L : Level} (hL : L.toNat ≤ M.topLevel.toNat) :
    M.levelShift L + M.frameShift < 64 :=
  hM.blocksFit.levelShift_add_lt hL

theorem Sound.layout_eq (hM : M.Sound) {L : Level} (hL : L.toNat ≤ M.topLevel.toNat) :
    M.layout L = .ok ⟨Word.pow2 (M.levelShift L)⟩ :=
  hM.blocksFit.layout_eq hL

/-! ## Levels whose index fits in a word -/

/-- A level of the mode whose table index and the block bits below it fit in a word. -/
structure IndexFits (M : Mode) (L : Level) : Prop where
  level_lt : L < M.levels
  tableShift_lt : M.tableShift L < 64

/-- Every level of a sound mode has its index fit in a word. -/
theorem Sound.indexFits (hM : M.Sound) {L : Level} (hL : L.toNat ≤ M.topLevel.toNat) :
    M.IndexFits L :=
  ⟨hM.lt_levels_iff.2 hL, by have := hM.tableShift_add_lt hL; omega⟩

namespace IndexFits

variable {L : Level}

theorem indexWidth_lt (h : M.IndexFits L) : M.indexWidth L < 64 := by
  have := h.tableShift_lt
  simp only [tableShift] at this
  omega

theorem checkLevel_eq (h : M.IndexFits L) : M.checkLevel L = .ok () := by
  simp [checkLevel, h.level_lt]

theorem indexBits_eq (h : M.IndexFits L) : M.indexBits L = .ok (M.indexWidth L) := by
  simp [indexBits, h.checkLevel_eq, indexWidth, bind, Except.bind, pure, Except.pure]

theorem tableEntries_eq (h : M.IndexFits L) :
    M.tableEntries L = .ok (Word.pow2 (M.indexWidth L)) := by
  simp [tableEntries, h.indexBits_eq, bind, Except.bind, pure, Except.pure]

end IndexFits

theorem Sound.indexBits_eq (hM : M.Sound) {L : Level} (hL : L.toNat ≤ M.topLevel.toNat) :
    M.indexBits L = .ok (M.indexWidth L) :=
  (hM.indexFits hL).indexBits_eq

theorem Sound.tableEntries_eq (hM : M.Sound) {L : Level} (hL : L.toNat ≤ M.topLevel.toNat) :
    M.tableEntries L = .ok (Word.pow2 (M.indexWidth L)) :=
  (hM.indexFits hL).tableEntries_eq

theorem Sound.indexWidth_lt (hM : M.Sound) {L : Level} (hL : L.toNat ≤ M.topLevel.toNat) :
    M.indexWidth L + M.frameShift < 64 := by
  have := hM.tableShift_add_lt hL
  simp only [tableShift] at this
  omega

/-- The entries of a table of the level fill `2 ^ indexWidth L * 8` bytes. -/
theorem Sound.toNat_tableBytes (hM : M.Sound) {L : Level} (hL : L.toNat ≤ M.topLevel.toNat) :
    (Word.pow2 (M.indexWidth L) * entryBytes).toNat = 2 ^ M.indexWidth L * 8 := by
  have hw := hM.indexWidth_lt hL
  have h3 := hM.three_le_frameShift
  rw [UInt64.toNat_mul, Word.toNat_pow2 (by omega), show entryBytes.toNat = 2 ^ 3 from rfl,
    ← pow_add, Nat.mod_eq_of_lt (Nat.pow_lt_pow_right (by norm_num) (by omega)), pow_add]
  rfl

/-- A table of the level takes `2 ^ (indexWidth L + 3 - frameShift)` frames: as many as its
entries fill, and at least one. -/
theorem Sound.tableFrames_eq (hM : M.Sound) {L : Level} (hL : L.toNat ≤ M.topLevel.toNat) :
    ∃ tf, M.tableFrames L = .ok tf ∧ tf.toNat = 2 ^ (M.indexWidth L + 3 - M.frameShift) := by
  have hw := hM.indexWidth_lt hL
  have h3 := hM.three_le_frameShift
  simp only [tableFrames, hM.tableEntries_eq hL, bind, Except.bind, pure, Except.pure]
  refine ⟨_, rfl, ?_⟩
  have hbytes : (Word.pow2 (M.indexWidth L) * entryBytes).toNat = 2 ^ (M.indexWidth L + 3) := by
    rw [hM.toNat_tableBytes hL, pow_add]
    rfl
  have hshift : (Word.shiftRight (Word.pow2 (M.indexWidth L) * entryBytes) M.frameShift).toNat =
      2 ^ (M.indexWidth L + 3) / 2 ^ M.frameShift := by
    rw [Word.toNat_shiftRight, hbytes, Nat.shiftRight_eq_div_pow]
  by_cases hle : M.frameShift ≤ M.indexWidth L + 3
  · -- the entries fill whole frames
    rw [Nat.pow_div hle (by norm_num)] at hshift
    rw [if_neg]
    · exact hshift
    · intro h0
      rw [h0, UInt64.toNat_zero] at hshift
      exact absurd hshift.symm (by positivity)
  · -- the entries fit in part of one frame
    rw [Nat.div_eq_of_lt (Nat.pow_lt_pow_right (by norm_num) (by omega))] at hshift
    rw [if_pos (UInt64.toNat_inj.1 (by rw [hshift]; rfl)), Nat.sub_eq_zero_of_le (by omega)]
    rfl

/-- The index of the entry that covers the page in a table of the level. -/
def slotIndex (M : Mode) (v : VirtPage) (L : Level) : UInt64 :=
  Word.shiftRight v (M.levelShift L) &&& Word.lowMask (M.indexWidth L)

namespace IndexFits

variable {L : Level}

theorem indexOf_eq (h : M.IndexFits L) (v : VirtPage) : M.indexOf v L = .ok (M.slotIndex v L) := by
  simp [indexOf, slotIndex, h.indexBits_eq, bind, Except.bind, pure, Except.pure]

/-- The index of a page in a table is its digit at the level. -/
theorem toNat_slotIndex (h : M.IndexFits L) (v : VirtPage) :
    (M.slotIndex v L).toNat = v.toNat / 2 ^ M.levelShift L % 2 ^ M.indexWidth L := by
  rw [slotIndex, Word.toNat_and_lowMask _ h.indexWidth_lt, Word.toNat_shiftRight,
    Nat.shiftRight_eq_div_pow]

theorem withIndex_eq (h : M.IndexFits L) (v : VirtPage) (idx : UInt64) :
    M.withIndex v L idx =
      .ok ((v &&& ~~~Word.lowMask (M.tableShift L)) ||| Word.shiftLeft idx (M.levelShift L)) := by
  simp [withIndex, h.indexBits_eq, tableShift, bind, Except.bind, pure, Except.pure]

end IndexFits

theorem Sound.indexOf_eq (hM : M.Sound) (v : VirtPage) {L : Level}
    (hL : L.toNat ≤ M.topLevel.toNat) : M.indexOf v L = .ok (M.slotIndex v L) :=
  (hM.indexFits hL).indexOf_eq v

theorem Sound.toNat_slotIndex (hM : M.Sound) (v : VirtPage) {L : Level}
    (hL : L.toNat ≤ M.topLevel.toNat) :
    (M.slotIndex v L).toNat = v.toNat / 2 ^ M.levelShift L % 2 ^ M.indexWidth L :=
  (hM.indexFits hL).toNat_slotIndex v

theorem Sound.slotIndex_lt (hM : M.Sound) (v : VirtPage) {L : Level}
    (hL : L.toNat ≤ M.topLevel.toNat) : (M.slotIndex v L).toNat < 2 ^ M.indexWidth L := by
  rw [hM.toNat_slotIndex v hL]
  exact Nat.mod_lt _ (by positivity)

theorem Sound.withIndex_eq (hM : M.Sound) (v : VirtPage) {L : Level}
    (hL : L.toNat ≤ M.topLevel.toNat) (idx : UInt64) :
    M.withIndex v L idx = .ok ((v &&& ~~~Word.lowMask (M.levelShift L + M.indexWidth L)) |||
      Word.shiftLeft idx (M.levelShift L)) :=
  (hM.indexFits hL).withIndex_eq v idx

/-- A falling walk between two levels in order. -/
theorem down_eq {first last : Level} (h : last ≤ first) (closed : Bool) :
    ∃ r, LevelRange.down first last closed = .ok r ∧
      r.toList = Level.downFrom first (first.toNat - last.toNat + if closed then 1 else 0) := by
  refine ⟨⟨last, first, false, closed, h⟩,
    by simp [LevelRange.down, LevelRange.ofBounds, h], ?_⟩
  exact LevelRange.toList_falling _ _ rfl rfl

/-- A lookup walks every level from the root down to `L`. -/
theorem BlocksFit.levelsUntil_eq (hM : M.BlocksFit) {L : Level} (hL : L.toNat ≤ M.topLevel.toNat) :
    ∃ r, M.levelsUntil L = .ok r ∧
      r.toList = Level.downFrom M.topLevel (M.topLevel.toNat - L.toNat + 1) := by
  obtain ⟨r, hr, hl⟩ := down_eq (UInt8.le_iff_toNat_le.2 hL) true
  exact ⟨r, by simp [levelsUntil, hM.checkLevel_eq hL, hr, bind, Except.bind], hl⟩

theorem Sound.levelsUntil_eq (hM : M.Sound) {L : Level} (hL : L.toNat ≤ M.topLevel.toNat) :
    ∃ r, M.levelsUntil L = .ok r ∧
      r.toList = Level.downFrom M.topLevel (M.topLevel.toNat - L.toNat + 1) :=
  hM.blocksFit.levelsUntil_eq hL

/-- Reaching an entry of level `L` walks the tables from the root down to just above `L`. -/
theorem Sound.levelsBefore_eq (hM : M.Sound) {L : Level} (hL : L.toNat ≤ M.topLevel.toNat) :
    ∃ r, M.levelsBefore L = .ok r ∧
      r.toList = Level.downFrom M.topLevel (M.topLevel.toNat - L.toNat) := by
  obtain ⟨r, hr, hl⟩ := down_eq (UInt8.le_iff_toNat_le.2 hL) false
  exact ⟨r, by simp [levelsBefore, hM.checkLevel_eq hL, hr, bind, Except.bind],
    by simpa using hl⟩

/-- The levels from `L` down to the leaves. -/
theorem BlocksFit.levelsFrom_eq (hM : M.BlocksFit) {L : Level} (hL : L.toNat ≤ M.topLevel.toNat) :
    ∃ r, M.levelsFrom L = .ok r ∧ r.toList = Level.downFrom L (L.toNat + 1) := by
  obtain ⟨r, hr, hl⟩ :=
    down_eq (show Level.leaf ≤ L from UInt8.le_iff_toNat_le.2 (Nat.zero_le L.toNat)) true
  exact ⟨r, by simpa [levelsFrom, hM.checkLevel_eq hL, bind, Except.bind] using hr,
    by simpa [Level.leaf] using hl⟩

theorem Sound.levelsFrom_eq (hM : M.Sound) {L : Level} (hL : L.toNat ≤ M.topLevel.toNat) :
    ∃ r, M.levelsFrom L = .ok r ∧ r.toList = Level.downFrom L (L.toNat + 1) :=
  hM.blocksFit.levelsFrom_eq hL

end Mode

end Paging
