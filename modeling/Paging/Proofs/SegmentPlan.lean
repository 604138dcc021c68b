import Paging.Proofs.SoundMode
import Paging.Proofs.FrameAccounts
import Paging.Proofs.Alignment
/-!
# The plan of a mapping

`Mode.segments` cuts a request of `n` pages from `vpn` into segments of blocks. The plan rests on
the aligned bounds of the request at each level: `alignUp vpn` and `alignDown (vpn + n)` to the
level's block. At the largest level that fits the request these bounds enclose the middle of the
request, and every lower level adds the runs between its own bounds and those of the level above.
Since the bounds of a level lie between the request's ends and the bounds of the level above, the
runs add up to the request, one run beside the other.

`Mode.Plan` says what a plan does (`Sound.segments_plan`): its segments lie at levels of the mode,
are not empty, start and stop on blocks of their level, as does the offset between pages and
frames, lie apart from each other, and hold just the pages of the request.

A request has a plan once `checkRange` accepts it, which it does just when its pages and frames
stay below the limits of the mode, counted in exact integers (`Mode.checkRange_eq`).
-/

namespace Paging

namespace Word

theorem toNat_alignDown_pow2 (v : UInt64) {k : Nat} (hk : k < 64) :
    (alignDown v (pow2 k)).toNat = 2 ^ k * (v.toNat / 2 ^ k) := by
  simp only [alignDown, Paging.alignDown, UInt64.toNat_ofBitVec, BitVec.toNat_mul,
    BitVec.toNat_udiv, UInt64.toNat_toBitVec, toNat_pow2 hk]
  exact Nat.mod_eq_of_lt (Nat.lt_of_le_of_lt (Nat.mul_div_le _ _) (UInt64.toNat_lt v))

/-- A difference of words is a multiple of a block just when the words agree modulo the block. -/
theorem sub_mod_pow2_eq_zero (v p : UInt64) {k : Nat} (hk : k ≤ 64) :
    (v - p).toNat % 2 ^ k = 0 ↔ v.toNat % 2 ^ k = p.toNat % 2 ^ k := by
  have hd : 2 ^ k ∣ 2 ^ 64 := Nat.pow_dvd_pow 2 hk
  have hp : p.toNat ≤ 2 ^ 64 := p.toNat_lt.le
  rw [UInt64.toNat_sub, Nat.mod_mod_of_dvd _ (by simpa using hd), ← Nat.dvd_iff_mod_eq_zero,
    eq_comm, ← Nat.ModEq, Nat.modEq_iff_dvd, ← Int.natCast_dvd_natCast]
  have hdz : ((2 ^ k : ℕ) : ℤ) ∣ ((2 ^ 64 : ℕ) : ℤ) := Int.natCast_dvd_natCast.2 hd
  -- in the integers the wrap is a multiple of the word size, which the block divides
  have hsum : (((2 ^ 64 - p.toNat + v.toNat : ℕ)) : ℤ) =
      (v.toNat - p.toNat : ℤ) + ((2 ^ 64 : ℕ) : ℤ) := by
    rw [Nat.cast_add, Nat.cast_sub hp]
    ring
  rw [hsum, dvd_add_left hdz]

theorem toNat_alignUp_pow2 (v : UInt64) {k : Nat} (hk : k < 64)
    (hv : v.toNat + 2 ^ k < 2 ^ 64) :
    (alignUp v (pow2 k)).toNat = 2 ^ k * ((v.toNat + 2 ^ k - 1) / 2 ^ k) := by
  have hpos : 0 < 2 ^ k := by positivity
  rw [FrameAllocator.toNat_alignUp, toNat_pow2 hk, UInt64.toNat_sub_of_le, UInt64.toNat_add,
    toNat_pow2 hk, UInt64.toNat_one, Nat.mod_eq_of_lt (by omega)]
  rw [UInt64.le_iff_toNat_le, UInt64.toNat_one, UInt64.toNat_add, toNat_pow2 hk,
    Nat.mod_eq_of_lt (by omega)]
  omega

/-- The `n` words from `v` run past `lim` just when they do in exact integers: the wrapping
difference `lim - n` is only looked at when `n ≤ lim`, where it does not wrap. -/
theorem runsPast_eq (v n lim : UInt64) :
    (decide (n > lim) || decide (v > lim - n)) = decide (lim.toNat < v.toNat + n.toNat) := by
  rw [Bool.eq_iff_iff]
  simp only [Bool.or_eq_true, decide_eq_true_eq, gt_iff_lt, UInt64.lt_iff_toNat_lt]
  by_cases h : n.toNat ≤ lim.toNat
  · rw [UInt64.toNat_sub_of_le _ _ (UInt64.le_iff_toNat_le.2 h)]
    omega
  · omega

end Word

/-! ## Segments -/

namespace Segment

/-- The segment holds the page `v`. -/
def Holds (s : Segment) (v : Nat) : Prop :=
  s.start.toNat ≤ v ∧ v < s.stop.toNat

/-- Two segments share no page. -/
def Apart (s t : Segment) : Prop :=
  s.stop.toNat ≤ t.start.toNat ∨ t.stop.toNat ≤ s.start.toNat

/-- Segments that are not empty and share no page lie apart. -/
theorem apart_of_forall {s t : Segment} (hs : s.start.toNat < s.stop.toNat)
    (ht : t.start.toNat < t.stop.toNat) (h : ∀ v, s.Holds v → ¬ t.Holds v) : s.Apart t := by
  by_contra hne
  simp only [Apart, not_or, Nat.not_le] at hne
  -- the later of the two starts lies in both
  rcases Nat.le_total s.start.toNat t.start.toNat with hle | hle
  · exact h t.start.toNat ⟨hle, hne.1⟩ ⟨le_refl _, ht⟩
  · exact h s.start.toNat ⟨le_refl _, hs⟩ ⟨hle, hne.2⟩

/-- Lists of segments that lie apart within each list and share no page lie apart. -/
theorem pairwise_append {xs ys : List Segment} (hx : xs.Pairwise Apart) (hy : ys.Pairwise Apart)
    (hxs : ∀ s ∈ xs, s.start.toNat < s.stop.toNat) (hys : ∀ t ∈ ys, t.start.toNat < t.stop.toNat)
    (h : ∀ v, (∃ s ∈ xs, s.Holds v) → ¬ ∃ t ∈ ys, t.Holds v) : (xs ++ ys).Pairwise Apart :=
  List.pairwise_append.2 ⟨hx, hy, fun s hs t ht =>
    apart_of_forall (hxs s hs) (hys t ht) fun v hsv htv => h v ⟨s, hs, hsv⟩ ⟨t, ht, htv⟩⟩

/-- Of segments that lie apart, one at most holds a page. -/
theorem eq_of_holds {segs : List Segment} (h : segs.Pairwise Apart) {s t : Segment} (hs : s ∈ segs)
    (ht : t ∈ segs) {v : Nat} (hsv : s.Holds v) (htv : t.Holds v) : s = t := by
  by_contra hne
  have : Std.Symm Apart := ⟨fun _ _ h => h.symm⟩
  unfold Holds at hsv htv
  rcases h.forall hs ht hne with h | h <;> omega

/-- The segment of the pages from `a` up to `b` at the level, when there are any. -/
def between (L : Level) (a b : VirtPage) : List Segment :=
  if a ≠ b then [⟨L, a, b⟩] else []

theorem mem_between {L : Level} {a b : VirtPage} {s : Segment} :
    s ∈ between L a b ↔ a ≠ b ∧ s = ⟨L, a, b⟩ := by
  unfold between
  split <;> simp [*]

theorem exists_holds_between (L : Level) (a b : VirtPage) (v : Nat) :
    (∃ s ∈ between L a b, s.Holds v) ↔ a.toNat ≤ v ∧ v < b.toNat := by
  unfold between
  split
  · simp [Holds]
  · rename_i hne
    have : a.toNat = b.toNat := by rw [not_not.1 hne]
    simp only [List.not_mem_nil, false_and, exists_false, false_iff]
    omega

theorem pairwise_between (L : Level) (a b : VirtPage) : (between L a b).Pairwise Apart := by
  unfold between
  split <;> simp

/-- In a plan, `s` comes before `t`: at a higher level, or at the same level over lower pages. -/
def Before (s t : Segment) : Prop :=
  t.level.toNat < s.level.toNat ∨ (t.level = s.level ∧ s.stop.toNat ≤ t.start.toNat)

theorem pairwise_between_before (L : Level) (a b : VirtPage) :
    (between L a b).Pairwise Before := by
  unfold between
  split <;> simp

theorem countP_between_le (L : Level) (a b : VirtPage) (p : Segment → Bool) :
    (between L a b).countP p ≤ 1 := by
  unfold between
  split
  · simp only [List.countP_cons, List.countP_nil]
    split <;> omega
  · simp

/-- The run of one level holds no segment of another. -/
theorem countP_between_other {L L' : Level} (h : L ≠ L') {a b : VirtPage} :
    (between L a b).countP (fun s => s.level = L') = 0 := by
  unfold between
  split <;> simp [h]

end Segment

namespace Mode

/-- The segment is not empty, and it starts and stops on blocks of its level. -/
def Blocked (M : Mode) (s : Segment) : Prop :=
  s.start.toNat < s.stop.toNat ∧ 2 ^ M.levelShift s.level ∣ s.start.toNat ∧
    2 ^ M.levelShift s.level ∣ s.stop.toNat

/-- What a plan of segments does for the request of `n` pages from `vpn` onto frames from `ppn`:
its segments lie at levels of the mode and on blocks of their level, the pages and frames of the
request lie the same way in every block of those levels, the segments lie apart, and together
they hold just the pages of the request. -/
structure Plan (M : Mode) (vpn : VirtPage) (ppn : PhysPage) (n : UInt64) (segs : List Segment) :
    Prop where
  level_le : ∀ s ∈ segs, s.level.toNat ≤ M.topLevel.toNat
  blocked : ∀ s ∈ segs, M.Blocked s
  offset : ∀ s ∈ segs, vpn.toNat % 2 ^ M.levelShift s.level = ppn.toNat % 2 ^ M.levelShift s.level
  holds : ∀ v : Nat, (∃ s ∈ segs, s.Holds v) ↔ vpn.toNat ≤ v ∧ v < vpn.toNat + n.toNat
  apart : segs.Pairwise Segment.Apart

variable {M : Mode} {vpn : VirtPage} {n : UInt64}

/-! ## The whole blocks of a request -/

/-- The first page of the request from `vpn` that starts a block of the level. -/
def blocksFrom (M : Mode) (vpn : VirtPage) (L : Level) : VirtPage :=
  Word.alignUp vpn (Word.pow2 (M.levelShift L))

/-- The page after the last whole block of the level in the request of `n` pages from `vpn`. -/
def blocksUntil (M : Mode) (vpn : VirtPage) (n : UInt64) (L : Level) : VirtPage :=
  Word.alignDown (vpn + n) (Word.pow2 (M.levelShift L))

theorem pow_levelShift_dvd {L L' : Level} (h : L.toNat ≤ L'.toNat) :
    2 ^ M.levelShift L ∣ 2 ^ M.levelShift L' :=
  Nat.pow_dvd_pow 2 (Nat.mul_le_mul_right _ h)

/-! ## The segments of a plan -/

/-- Below the largest level of the plan, a level adds the run from its first whole block to the
whole blocks of the level above, and the run from the end of those to the end of its own. -/
theorem BlocksFit.segmentsOf_lower (hM : M.BlocksFit) {lvl top' : Level}
    (hl : lvl.toNat ≤ M.topLevel.toNat) (hne : lvl ≠ top') (rest : List Level) (pS pE : VirtPage)
    {segs : List Segment}
    (h : M.segmentsOf vpn n top' rest (M.blocksFrom vpn lvl) (M.blocksUntil vpn n lvl) =
      .ok segs) :
    M.segmentsOf vpn n top' (lvl :: rest) pS pE =
      .ok (Segment.between lvl (M.blocksFrom vpn lvl) pS ++
        Segment.between lvl pE (M.blocksUntil vpn n lvl) ++ segs) := by
  rw [blocksFrom, blocksUntil] at h
  simp only [segmentsOf, hM.layout_eq hl, bind, Except.bind, pure, Except.pure, h, if_neg hne]
  rfl

/-- The largest level of the plan covers the whole blocks of the request at that level. -/
theorem BlocksFit.segmentsOf_top (hM : M.BlocksFit) {top' : Level}
    (hl : top'.toNat ≤ M.topLevel.toNat) (rest : List Level) (pS pE : VirtPage)
    {segs : List Segment}
    (h : M.segmentsOf vpn n top' rest (M.blocksFrom vpn top') (M.blocksUntil vpn n top') =
      .ok segs) :
    M.segmentsOf vpn n top' (top' :: rest) pS pE =
      .ok (Segment.between top' (M.blocksFrom vpn top') (M.blocksUntil vpn n top') ++ segs) := by
  rw [blocksFrom, blocksUntil] at h
  simp only [segmentsOf, hM.layout_eq hl, bind, Except.bind, pure, Except.pure, h]
  rfl

/-- The blocks of level `L` can map the request: the pages and the frames lie the same way in
the blocks, and the request fills at least one. -/
def Fits (M : Mode) (vpn : VirtPage) (ppn : PhysPage) (n : UInt64) (L : Level) : Prop :=
  vpn.toNat % 2 ^ M.levelShift L = ppn.toNat % 2 ^ M.levelShift L ∧ 2 ^ M.levelShift L ≤ n.toNat

instance (M : Mode) (vpn : VirtPage) (ppn : PhysPage) (n : UInt64) (L : Level) :
    Decidable (M.Fits vpn ppn n L) :=
  inferInstanceAs (Decidable (_ ∧ _))

/-- A level of the mode is skipped just when its blocks do not fit the request. -/
theorem BlocksFit.largestFit_cons (hM : M.BlocksFit) (vpn : VirtPage) (ppn : PhysPage) (n : UInt64)
    {L : Level} (hL : L.toNat ≤ M.topLevel.toNat) (rest : List Level) :
    M.largestFit vpn ppn n (L :: rest) =
      if M.Fits vpn ppn n L then .ok (some L) else M.largestFit vpn ppn n rest := by
  have hw := hM.levelShift_add_lt hL
  -- the test of the level is that it does not fit
  have hcond : ((vpn - ppn) % Word.pow2 (M.levelShift L) != 0 ||
      n < Word.pow2 (M.levelShift L)) = !decide (M.Fits vpn ppn n L) := by
    have hsub := Word.sub_mod_pow2_eq_zero vpn ppn (k := M.levelShift L) (by omega)
    have hpow := Word.toNat_pow2 (show M.levelShift L < 64 by omega)
    by_cases hf : M.Fits vpn ppn n L
    · have h1 : (vpn - ppn) % Word.pow2 (M.levelShift L) = 0 := by
        rw [← UInt64.toNat_inj, UInt64.toNat_mod, hpow, UInt64.toNat_zero, hsub]
        exact hf.1
      have h2 : ¬ n < Word.pow2 (M.levelShift L) := by
        rw [UInt64.lt_iff_toNat_lt, hpow]
        exact Nat.not_lt.2 hf.2
      simp [h1, h2, hf]
    · have h : (vpn - ppn) % Word.pow2 (M.levelShift L) ≠ 0 ∨ n < Word.pow2 (M.levelShift L) := by
        rw [Ne, ← UInt64.toNat_inj, UInt64.toNat_mod, hpow, UInt64.toNat_zero, hsub,
          UInt64.lt_iff_toNat_lt, hpow]
        unfold Fits at hf
        omega
      rcases h with h | h <;> simp [h, hf]
  simp only [largestFit, hM.layout_eq hL, bind, Except.bind, hcond]
  by_cases hfit : M.Fits vpn ppn n L
  · simp [hfit]
    rfl
  · simp [hfit]

/-- The first level that fits is found, past levels that do not fit; or none fits. -/
theorem BlocksFit.largestFit_spec (hM : M.BlocksFit) (vpn : VirtPage) (ppn : PhysPage)
    (n : UInt64) :
    ∀ levels : List Level, (∀ L ∈ levels, L.toNat ≤ M.topLevel.toNat) →
      (M.largestFit vpn ppn n levels = .ok none ∧ ∀ L ∈ levels, ¬ M.Fits vpn ppn n L) ∨
      ∃ pre L post, levels = pre ++ L :: post ∧ (∀ L' ∈ pre, ¬ M.Fits vpn ppn n L') ∧
        M.largestFit vpn ppn n levels = .ok (some L) ∧ M.Fits vpn ppn n L
  | [], _ => .inl ⟨rfl, by simp⟩
  | L :: rest, hl => by
    rw [hM.largestFit_cons vpn ppn n (hl L List.mem_cons_self)]
    by_cases hfit : M.Fits vpn ppn n L
    · exact .inr ⟨[], L, rest, rfl, by simp, by rw [if_pos hfit], hfit⟩
    · rw [if_neg hfit]
      rcases BlocksFit.largestFit_spec hM vpn ppn n rest
        (fun L' h => hl L' (List.mem_cons_of_mem _ h))
        with ⟨hnone, hno⟩ | ⟨pre, L', post, hsplit, hpre, hsome, hfit'⟩
      · refine .inl ⟨hnone, fun L' h => ?_⟩
        rcases List.mem_cons.1 h with rfl | h
        · exact hfit
        · exact hno L' h
      · refine .inr ⟨L :: pre, L', post, by rw [hsplit]; rfl, fun L'' h => ?_, hsome, hfit'⟩
        rcases List.mem_cons.1 h with rfl | h
        · exact hfit
        · exact hpre L'' h

/-- The segments cover the pages of the request outside its whole blocks of level `L`, with
segments of lower levels that lie apart. Each segment holds pages whose block of its own level
lies inside the request and whose block of the level above does not; the segments come level
by level from the top down, over rising pages within a level, at most two of each level. -/
structure Covers (M : Mode) (vpn : VirtPage) (n : UInt64) (L : Level) (segs : List Segment) :
    Prop where
  level_lt : ∀ s ∈ segs, s.level.toNat < L.toNat
  blocked : ∀ s ∈ segs, M.Blocked s
  holds : ∀ v, (∃ s ∈ segs, s.Holds v) ↔ (vpn.toNat ≤ v ∧ v < (M.blocksFrom vpn L).toNat) ∨
    ((M.blocksUntil vpn n L).toNat ≤ v ∧ v < vpn.toNat + n.toNat)
  apart : segs.Pairwise Segment.Apart
  inner : ∀ s ∈ segs, ∀ v, s.Holds v →
    (M.blocksFrom vpn s.level).toNat ≤ v ∧ v < (M.blocksUntil vpn n s.level).toNat
  outer : ∀ s ∈ segs, ∀ v, s.Holds v →
    v < (M.blocksFrom vpn (s.level + 1)).toNat ∨ (M.blocksUntil vpn n (s.level + 1)).toNat ≤ v
  order : segs.Pairwise Segment.Before
  count : ∀ L' : Level, segs.countP (fun s => s.level = L') ≤ 2

/-- The segment of whole blocks of a level between two bounds on blocks of that level. -/
theorem blocked_between {L : Level} {a b : VirtPage} (hab : a.toNat ≤ b.toNat)
    (ha : 2 ^ M.levelShift L ∣ a.toNat) (hb : 2 ^ M.levelShift L ∣ b.toNat) :
    ∀ s ∈ Segment.between L a b, s.level = L ∧ M.Blocked s := by
  intro s hs
  obtain ⟨hne, rfl⟩ := Segment.mem_between.1 hs
  have : a.toNat ≠ b.toNat := fun h => hne (UInt64.toNat_inj.1 h)
  refine ⟨rfl, ?_, ha, hb⟩
  show a.toNat < b.toNat
  omega

/-- A request that fills a block of a level fills one of every level below. -/
theorem fit_of_le {L L' : Level} (h : L.toNat ≤ L'.toNat) (hfit : 2 ^ M.levelShift L' ≤ n.toNat) :
    2 ^ M.levelShift L ≤ n.toNat :=
  (Nat.pow_le_pow_right (by norm_num) (Nat.mul_le_mul_right _ h)).trans hfit

/-- The pages of a request that does not wrap are numbered in exact integers. -/
theorem toNat_add_request (hr : vpn.toNat + n.toNat < 2 ^ 64) :
    (vpn + n).toNat = vpn.toNat + n.toNat := by
  rw [UInt64.toNat_add, Nat.mod_eq_of_lt hr]

section Request

variable (hM : M.BlocksFit) (hr : vpn.toNat + n.toNat < 2 ^ 64)
include hM hr

theorem BlocksFit.toNat_blocksFrom {L : Level} (hL : L.toNat ≤ M.topLevel.toNat)
    (hfit : 2 ^ M.levelShift L ≤ n.toNat) :
    (M.blocksFrom vpn L).toNat =
      2 ^ M.levelShift L * ((vpn.toNat + 2 ^ M.levelShift L - 1) / 2 ^ M.levelShift L) :=
  Word.toNat_alignUp_pow2 _ (by have := hM.levelShift_add_lt hL; omega) (by omega)

theorem BlocksFit.toNat_blocksUntil {L : Level} (hL : L.toNat ≤ M.topLevel.toNat) :
    (M.blocksUntil vpn n L).toNat =
      2 ^ M.levelShift L * ((vpn.toNat + n.toNat) / 2 ^ M.levelShift L) := by
  rw [blocksUntil, Word.toNat_alignDown_pow2 _ (by have := hM.levelShift_add_lt hL; omega),
    toNat_add_request hr]

/-- At the leaves every page is a whole block. -/
theorem BlocksFit.blocks_leaf (hn : 0 < n.toNat) :
    (M.blocksFrom vpn 0).toNat = vpn.toNat ∧ (M.blocksUntil vpn n 0).toNat = vpn.toNat + n.toNat := by
  have h : (0 : Level).toNat ≤ M.topLevel.toNat := Nat.zero_le _
  have h0 : M.levelShift 0 = 0 := by simp [levelShift]
  rw [hM.toNat_blocksFrom hr h (by rw [h0]; exact hn), hM.toNat_blocksUntil hr h, h0]
  simp

/-- The whole blocks of a level lie between the ends of the request, they start and stop on
blocks of every level below, and they shrink as the level rises. -/
theorem BlocksFit.blocks_mono {L L' : Level} (hLL : L.toNat ≤ L'.toNat)
    (hL' : L'.toNat ≤ M.topLevel.toNat) (hfit : 2 ^ M.levelShift L' ≤ n.toNat) :
    vpn.toNat ≤ (M.blocksFrom vpn L).toNat ∧
    (M.blocksFrom vpn L).toNat ≤ (M.blocksFrom vpn L').toNat ∧
    (M.blocksUntil vpn n L').toNat ≤ (M.blocksUntil vpn n L).toNat ∧
    (M.blocksUntil vpn n L).toNat ≤ vpn.toNat + n.toNat ∧
    2 ^ M.levelShift L ∣ (M.blocksFrom vpn L').toNat ∧
    2 ^ M.levelShift L ∣ (M.blocksUntil vpn n L').toNat := by
  have hL : L.toNat ≤ M.topLevel.toNat := hLL.trans hL'
  have hpos : 0 < 2 ^ M.levelShift L := by positivity
  have hpos' : 0 < 2 ^ M.levelShift L' := by positivity
  have hdvd : ∀ c, 2 ^ M.levelShift L ∣ 2 ^ M.levelShift L' * c := fun c =>
    (pow_levelShift_dvd hLL).trans (Dvd.intro c rfl)
  rw [hM.toNat_blocksFrom hr hL (fit_of_le hLL hfit), hM.toNat_blocksFrom hr hL' hfit,
    hM.toNat_blocksUntil hr hL, hM.toNat_blocksUntil hr hL']
  obtain ⟨hu, -⟩ := alignUp_bounds (x := vpn.toNat) hpos
  obtain ⟨hu', -⟩ := alignUp_bounds (x := vpn.toNat) hpos'
  obtain ⟨hd, -⟩ := alignDown_bounds (x := vpn.toNat + n.toNat) hpos
  obtain ⟨hd', -⟩ := alignDown_bounds (x := vpn.toNat + n.toNat) hpos'
  exact ⟨hu, alignUp_le_of_dvd hpos (hdvd _) hu', le_alignDown_of_dvd hpos (hdvd _) hd', hd,
    hdvd _, hdvd _⟩

/-- At and below a level that the request fills once, its whole blocks do not cross. -/
theorem BlocksFit.blocksFrom_le_blocksUntil {L top' : Level} (hL : L.toNat ≤ top'.toNat)
    (htop : top'.toNat ≤ M.topLevel.toNat) (hfit : 2 ^ M.levelShift top' ≤ n.toNat) :
    (M.blocksFrom vpn L).toNat ≤ (M.blocksUntil vpn n L).toNat := by
  obtain ⟨-, hup, hdn, -, -, -⟩ := hM.blocks_mono hr hL htop hfit
  obtain ⟨-, -, -, -, hdvd, -⟩ := hM.blocks_mono hr (Nat.le_refl _) htop hfit
  have hpos : 0 < 2 ^ M.levelShift top' := by positivity
  -- the first block of the level `top'` ends inside the request
  have hin : (M.blocksFrom vpn top').toNat ≤ (M.blocksUntil vpn n top').toNat := by
    rw [hM.toNat_blocksUntil hr htop]
    refine le_alignDown_of_dvd hpos hdvd ?_
    have := (alignUp_bounds (x := vpn.toNat) hpos).2
    rw [hM.toNat_blocksFrom hr htop hfit]
    omega
  omega

theorem BlocksFit.covers_leaf (hn : 0 < n.toNat) : M.Covers vpn n 0 [] where
  level_lt := by simp
  blocked := by simp
  holds v := by
    obtain ⟨h1, h2⟩ := hM.blocks_leaf hr hn
    simp only [List.not_mem_nil, false_and, exists_false, false_iff, h1, h2]
    omega
  apart := List.Pairwise.nil
  inner := by simp
  outer := by simp
  order := List.Pairwise.nil
  count := by simp

/-- A level below the largest adds its two runs to the cover of the levels below it. -/
theorem BlocksFit.covers_succ {L top' : Level} (hL : L.toNat < top'.toNat)
    (htop : top'.toNat ≤ M.topLevel.toNat) (hfit : 2 ^ M.levelShift top' ≤ n.toNat)
    {segs : List Segment} (hc : M.Covers vpn n L segs) :
    M.Covers vpn n (L + 1) (Segment.between L (M.blocksFrom vpn L) (M.blocksFrom vpn (L + 1)) ++
      Segment.between L (M.blocksUntil vpn n (L + 1)) (M.blocksUntil vpn n L) ++ segs) := by
  have hsucc : (L + 1).toNat = L.toNat + 1 := by
    rw [UInt8.toNat_add, UInt8.toNat_one]
    have := L.toNat_lt
    have := top'.toNat_lt
    omega
  have hfit' : 2 ^ M.levelShift (L + 1) ≤ n.toNat := fit_of_le (by omega) hfit
  obtain ⟨h0, h1, h2, h3, h4, h5⟩ := hM.blocks_mono hr
    (show L.toNat ≤ (L + 1).toNat by omega) (by omega) hfit'
  obtain ⟨-, -, -, -, h4', h5'⟩ := hM.blocks_mono hr
    (show L.toNat ≤ L.toNat from le_rfl) (by omega) (fit_of_le (by omega) hfit)
  have hmid := hM.blocksFrom_le_blocksUntil hr (L := L + 1) (by omega) htop hfit
  -- the two runs of the level, at the level and on its blocks
  have hrun : ∀ s ∈ Segment.between L (M.blocksFrom vpn L) (M.blocksFrom vpn (L + 1)) ++
      Segment.between L (M.blocksUntil vpn n (L + 1)) (M.blocksUntil vpn n L),
      s.level = L ∧ M.Blocked s := by
    intro s hs
    rcases List.mem_append.1 hs with hs | hs
    · exact blocked_between h1 h4' h4 s hs
    · exact blocked_between h2 h5 h5' s hs
  have hholds : ∀ v, (∃ s ∈ Segment.between L (M.blocksFrom vpn L) (M.blocksFrom vpn (L + 1)) ++
      Segment.between L (M.blocksUntil vpn n (L + 1)) (M.blocksUntil vpn n L), s.Holds v) ↔
      ((M.blocksFrom vpn L).toNat ≤ v ∧ v < (M.blocksFrom vpn (L + 1)).toNat) ∨
        ((M.blocksUntil vpn n (L + 1)).toNat ≤ v ∧ v < (M.blocksUntil vpn n L).toNat) := by
    intro v
    simp only [List.mem_append, or_and_right, exists_or, Segment.exists_holds_between]
  -- a page of a run of the level lies in the run it belongs to
  have hmem : ∀ s ∈ Segment.between L (M.blocksFrom vpn L) (M.blocksFrom vpn (L + 1)) ++
      Segment.between L (M.blocksUntil vpn n (L + 1)) (M.blocksUntil vpn n L), ∀ v, s.Holds v →
      ((M.blocksFrom vpn L).toNat ≤ v ∧ v < (M.blocksFrom vpn (L + 1)).toNat) ∨
        ((M.blocksUntil vpn n (L + 1)).toNat ≤ v ∧ v < (M.blocksUntil vpn n L).toNat) :=
    fun s hs v hv => (hholds v).1 ⟨s, hs, hv⟩
  refine ⟨?level, ?blocked, ?holds, ?apart, ?inner, ?outer, ?order, ?count⟩
  case level =>
    intro s hs
    rcases List.mem_append.1 hs with hs | hs
    · rw [(hrun s hs).1]
      omega
    · have := hc.level_lt s hs
      omega
  case blocked =>
    intro s hs
    rcases List.mem_append.1 hs with hs | hs
    · exact (hrun s hs).2
    · exact hc.blocked s hs
  case holds =>
    intro v
    simp only [List.mem_append, or_and_right, exists_or] at hholds ⊢
    rw [hholds, hc.holds]
    omega
  case apart =>
    refine Segment.pairwise_append ?_ hc.apart (fun s hs => (hrun s hs).2.1)
      (fun s hs => (hc.blocked s hs).1) fun v hv hv' => ?_
    · exact Segment.pairwise_append (Segment.pairwise_between _ _ _)
        (Segment.pairwise_between _ _ _)
        (fun s hs => (hrun s (List.mem_append_left _ hs)).2.1)
        (fun s hs => (hrun s (List.mem_append_right _ hs)).2.1) fun v hv hv' => by
          rw [Segment.exists_holds_between] at hv hv'
          omega
    · rw [hholds] at hv
      rw [hc.holds] at hv'
      omega
  case inner =>
    intro s hs v hv
    rcases List.mem_append.1 hs with hs' | hs'
    · rw [(hrun s hs').1]
      have := hmem s hs' v hv
      omega
    · exact hc.inner s hs' v hv
  case outer =>
    intro s hs v hv
    rcases List.mem_append.1 hs with hs' | hs'
    · rw [(hrun s hs').1]
      have := hmem s hs' v hv
      omega
    · exact hc.outer s hs' v hv
  case order =>
    refine List.pairwise_append.2 ⟨List.pairwise_append.2 ⟨?_, ?_, ?_⟩, hc.order, ?_⟩
    · exact Segment.pairwise_between_before _ _ _
    · exact Segment.pairwise_between_before _ _ _
    · -- the run at the start lies below the run at the end
      intro s hs t ht
      obtain ⟨-, rfl⟩ := Segment.mem_between.1 hs
      obtain ⟨-, rfl⟩ := Segment.mem_between.1 ht
      exact .inr ⟨rfl, hmid⟩
    · intro s hs t ht
      have := hc.level_lt t ht
      refine .inl ?_
      rw [(hrun s hs).1]
      exact this
  case count =>
    intro L'
    have hlow : segs.countP (fun s => s.level = L) = 0 := List.countP_eq_zero.2 fun s hs h => by
      have := hc.level_lt s hs
      rw [of_decide_eq_true h] at this
      omega
    rw [List.countP_append, List.countP_append]
    by_cases hL' : L = L'
    · subst hL'
      have := Segment.countP_between_le L (M.blocksFrom vpn L) (M.blocksFrom vpn (L + 1))
        (fun s => s.level = L)
      have := Segment.countP_between_le L (M.blocksUntil vpn n (L + 1)) (M.blocksUntil vpn n L)
        (fun s => s.level = L)
      omega
    · rw [Segment.countP_between_other hL', Segment.countP_between_other hL']
      simpa using hc.count L'

/-- From a level that the request fills, the levels down to the leaves cover the request outside
the whole blocks of that level. -/
theorem BlocksFit.covers_below {top' : Level} (htop : top'.toNat ≤ M.topLevel.toNat)
    (hfit : 2 ^ M.levelShift top' ≤ n.toNat) (j : Nat) :
    ∀ L : Level, L.toNat = j → j ≤ top'.toNat → ∃ segs,
      M.segmentsOf vpn n top' (Level.downFrom (L - 1) j) (M.blocksFrom vpn L)
        (M.blocksUntil vpn n L) = .ok segs ∧ M.Covers vpn n L segs := by
  induction j with
  | zero =>
    intro L hL _
    rw [show L = 0 from UInt8.toNat_inj.1 hL]
    have hn : 0 < n.toNat := lt_of_lt_of_le (by positivity) hfit
    exact ⟨[], rfl, hM.covers_leaf hr hn⟩
  | succ j ih =>
    intro L hL hj
    have hsub : (L - 1).toNat = j := by
      rw [Level.toNat_sub_one (by omega)]
      omega
    obtain ⟨segs, hsegs, hc⟩ := ih (L - 1) hsub (by omega)
    have hc' := hM.covers_succ hr (L := L - 1) (by omega) htop hfit hc
    rw [sub_add_cancel] at hc'
    refine ⟨_, ?_, hc'⟩
    rw [Level.downFrom_succ]
    refine hM.segmentsOf_lower (by omega) (fun h => ?_) _ _ _ hsegs
    rw [h] at hsub
    omega

/-- The whole blocks of the largest level, followed by the cover of the levels below, are a plan
of the request. -/
theorem BlocksFit.plan_of_covers {ppn : PhysPage} {top' : Level}
    (htop : top'.toNat ≤ M.topLevel.toNat) (hfit : M.Fits vpn ppn n top') {segs : List Segment}
    (hc : M.Covers vpn n top' segs) :
    M.Plan vpn ppn n
      (Segment.between top' (M.blocksFrom vpn top') (M.blocksUntil vpn n top') ++ segs) := by
  have hmid := hM.blocksFrom_le_blocksUntil hr le_rfl htop hfit.2
  obtain ⟨h0, -, -, h3, h4, h5⟩ := hM.blocks_mono hr (L := top') le_rfl htop hfit.2
  have hhere := blocked_between (L := top') hmid h4 h5
  have hlevel : ∀ s ∈ Segment.between top' (M.blocksFrom vpn top') (M.blocksUntil vpn n top') ++
      segs, s.level.toNat ≤ top'.toNat := by
    intro s hs
    rcases List.mem_append.1 hs with hs | hs
    · rw [(hhere s hs).1]
    · exact (hc.level_lt s hs).le
  refine ⟨?level, ?blocked, ?offset, ?holds, ?apart⟩
  case level => exact fun s hs => (hlevel s hs).trans htop
  case blocked =>
    intro s hs
    rcases List.mem_append.1 hs with hs | hs
    · exact (hhere s hs).2
    · exact hc.blocked s hs
  case offset =>
    -- the pages and frames lie the same way in the blocks of `top'`, and so in smaller blocks
    intro s hs
    exact Nat.ModEq.of_dvd (pow_levelShift_dvd (hlevel s hs)) hfit.1
  case holds =>
    intro v
    simp only [List.mem_append, or_and_right, exists_or, Segment.exists_holds_between, hc.holds]
    omega
  case apart =>
    refine Segment.pairwise_append (Segment.pairwise_between _ _ _) hc.apart
      (fun s hs => (hhere s hs).2.1) (fun s hs => (hc.blocked s hs).1) fun v hv hv' => ?_
    rw [Segment.exists_holds_between] at hv
    rw [hc.holds] at hv'
    omega

omit hr in
/-- The levels from the root down that the solver tries: every level of the mode, each above the
next. -/
theorem BlocksFit.candidates_eq :
    ∃ cand, M.levelsUntil Level.leaf = .ok cand ∧
      cand.toList = Level.downFrom M.topLevel (M.topLevel.toNat + 1) := by
  obtain ⟨cand, hcand, hlist⟩ := hM.levelsUntil_eq (L := Level.leaf) (Nat.zero_le _)
  exact ⟨cand, hcand, by simpa [Level.leaf] using hlist⟩

/-- The plan of a request that does not wrap. When no level fits, the request is empty and so is
its plan. Otherwise let `top'` be the first level from the root down that fits: the plan is the
run of whole blocks of `top'`, then the runs of the levels below, which cover the rest. -/
theorem BlocksFit.segments_cases (ppn : PhysPage) :
    (M.segments vpn ppn n = .ok [] ∧ n.toNat = 0) ∨
    ∃ top' below, top'.toNat ≤ M.topLevel.toNat ∧ M.Fits vpn ppn n top' ∧
      (∀ L : Level, top'.toNat < L.toNat → L.toNat ≤ M.topLevel.toNat → ¬ M.Fits vpn ppn n L) ∧
      M.segments vpn ppn n = .ok (Segment.between top' (M.blocksFrom vpn top')
        (M.blocksUntil vpn n top') ++ below) ∧
      M.Covers vpn n top' below := by
  obtain ⟨cand, hcand, hlist⟩ := hM.candidates_eq
  have hcl : ∀ L ∈ cand.toList, L.toNat ≤ M.topLevel.toNat := by
    rw [hlist]
    exact fun L hL => Level.le_of_mem_downFrom _ le_rfl hL
  rcases hM.largestFit_spec vpn ppn n cand.toList hcl with
    ⟨hnone, hno⟩ | ⟨pre, top', post, hsplit, hpre, hsome, hfit⟩
  · -- no level fits: the leaves fit every request that is not empty
    refine .inl ⟨by simp [segments, hcand, hnone, bind, Except.bind]; rfl, ?_⟩
    by_contra hn
    refine hno Level.leaf ?_ ⟨by simp [levelShift, Level.leaf, Nat.mod_one], ?_⟩
    · rw [hlist]
      exact Level.leaf_mem_downFrom _ _ rfl
    · simp only [levelShift, Level.leaf, UInt8.toNat_zero, Nat.zero_mul, Nat.pow_zero]
      omega
  · have htop : top'.toNat ≤ M.topLevel.toNat := hcl top' (by rw [hsplit]; simp)
    obtain ⟨lv, hlv, hlvl⟩ := hM.levelsFrom_eq htop
    obtain ⟨below, hsegs, hc⟩ := hM.covers_below hr htop hfit.2 top'.toNat top' rfl le_rfl
    refine .inr ⟨top', below, htop, hfit, fun L hL hLt => hpre L ?_, ?_, hc⟩
    · -- the levels above `top'` come before it in the walk from the root
      have hmem : L ∈ cand.toList := by
        rw [hlist]
        exact (Level.mem_downFrom _ (le_refl _)).2 ⟨by omega, hLt⟩
      have hdesc := Level.pairwise_downFrom (M.topLevel.toNat + 1) (T := M.topLevel) le_rfl
      rw [← hlist, hsplit] at hdesc
      rw [hsplit] at hmem
      rcases List.mem_append.1 hmem with h | h
      · exact h
      · rcases List.mem_cons.1 h with rfl | h
        · omega
        · have := (List.pairwise_cons.1 (List.pairwise_append.1 hdesc).2.1).1 L h
          omega
    · simp only [segments, hcand, hsome, hlv, bind, Except.bind, hlvl]
      exact hM.segmentsOf_top htop _ 0 0 hsegs

end Request

/-! ## The range check -/

/-- A request is refused just when its pages run past the pages that the mode translates, or
its frames past the frames that an entry names, counted in exact integers. -/
theorem checkRange_eq (M : Mode) (vpn : VirtPage) (ppn : PhysPage) (n : UInt64) :
    M.checkRange vpn ppn n =
      if M.vpnLimit.toNat < vpn.toNat + n.toNat ∨ M.ppnLimit.toNat < ppn.toNat + n.toNat then
        .error .rangeOutOfBounds
      else .ok () := by
  have hv := Word.runsPast_eq vpn n M.vpnLimit
  have hp := Word.runsPast_eq ppn n M.ppnLimit
  -- the four comparisons of the code, two for each limit
  have hcond : (decide (n > M.vpnLimit) || decide (vpn > M.vpnLimit - n) ||
      decide (n > M.ppnLimit) || decide (ppn > M.ppnLimit - n)) =
      decide (M.vpnLimit.toNat < vpn.toNat + n.toNat ∨
        M.ppnLimit.toNat < ppn.toNat + n.toNat) := by
    rw [Bool.or_assoc, hv, hp, Bool.decide_or]
  unfold checkRange
  dsimp only
  rw [hcond]
  by_cases h : M.vpnLimit.toNat < vpn.toNat + n.toNat ∨ M.ppnLimit.toNat < ppn.toNat + n.toNat
  · simp only [h, decide_true, if_true]
  · simp only [h, decide_false, Bool.false_eq_true, if_false]

/-- A count whose sum with the page wraps around the word is refused all the same. -/
example : Mode.sv39.checkRange 1 0 0xffffffffffffffff = .error .rangeOutOfBounds := by decide

/-- The limit of the pages a mode translates is the span of its root table. -/
theorem Sound.toNat_vpnLimit (hM : M.Sound) : M.vpnLimit.toNat = 2 ^ M.tableShift M.topLevel := by
  have hts := hM.tableShift_add_lt (Nat.le_refl _)
  have hbits : M.tableShift M.topLevel = M.topLevel.toNat * M.entriesShift + M.rootIndexBits := by
    simp [tableShift, levelShift, indexWidth]
  rw [vpnLimit, Word.toNat_pow2 (by omega), hbits]

/-- The pages of a request that `checkRange` accepts and their frames lie below the limits of
the mode. -/
theorem Sound.checkRange_eq_ok (hM : M.Sound) (vpn : VirtPage) (ppn : PhysPage) (n : UInt64) :
    M.checkRange vpn ppn n = .ok () ↔
      vpn.toNat + n.toNat ≤ 2 ^ M.tableShift M.topLevel ∧ ppn.toNat + n.toNat ≤ 2 ^ M.ppnBits := by
  have hvl := hM.toNat_vpnLimit
  have hpl : M.ppnLimit.toNat = 2 ^ M.ppnBits := Word.toNat_pow2 (by have := hM.ppnBits_le; omega)
  rw [checkRange_eq, hvl, hpl]
  split_ifs with h
  · simp only [false_iff]
    omega
  · simp only [true_iff]
    omega

/-- Every request that `checkRange` accepts has a plan. -/
theorem Sound.segments_plan (hM : M.Sound) {vpn : VirtPage} {ppn : PhysPage} {n : UInt64}
    (hc : M.checkRange vpn ppn n = .ok ()) :
    ∃ segs, M.segments vpn ppn n = .ok segs ∧ M.Plan vpn ppn n segs := by
  obtain ⟨hr, -⟩ := (hM.checkRange_eq_ok vpn ppn n).1 hc
  have hts := hM.tableShift_add_lt (Nat.le_refl _)
  have hr' : vpn.toNat + n.toNat < 2 ^ 64 :=
    lt_of_le_of_lt hr (Nat.pow_lt_pow_right (by norm_num) (by omega))
  rcases hM.blocksFit.segments_cases hr' ppn with ⟨hs, hn⟩ | ⟨top', below, htop, hfit, -, hs, hcov⟩
  · exact ⟨[], hs, ⟨by simp, by simp, by simp, fun v => by simp; omega, List.Pairwise.nil⟩⟩
  · exact ⟨_, hs, hM.blocksFit.plan_of_covers hr' htop hfit hcov⟩

/-- A plan of no pages has no segment, since every segment holds its first page. -/
theorem Plan.eq_nil {ppn : PhysPage} {segs : List Segment} (h : M.Plan vpn ppn 0 segs) :
    segs = [] := by
  cases segs with
  | nil => rfl
  | cons s rest =>
    have hs := (h.blocked s (List.mem_cons_self ..)).1
    have hheld := (h.holds s.start.toNat).1 ⟨s, List.mem_cons_self .., Nat.le_refl _, hs⟩
    rw [UInt64.toNat_zero, Nat.add_zero] at hheld
    omega

end Mode

end Paging
