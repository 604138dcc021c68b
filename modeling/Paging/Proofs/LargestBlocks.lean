import Paging.Proofs.SegmentPlan
/-!
# The plan uses the largest blocks

For a mode whose levels all have blocks that fit in a word (`Mode.BlocksFit`) and a request of
`n` pages from `vpn` onto frames from `ppn` that does not wrap, the solver hands out a plan
(`Mode.solve`) whose segments, drained from the queue, are all there was (`SegmentQueue.drain_eq`)
and:

* are a plan of the request (`Mode.Plan`): not empty, on blocks of their level, apart from each
  other, and together just the pages of the request;
* map every page with the largest level that can map it (`Mode.LargestFor`): the block of that
  level holding the page lies inside the request, and the offset from pages to frames is a
  multiple of the block (`Mode.BlockFits`). Levels above the first that fits the request
  (`Mode.FirstFit`) cannot map a page, and below it a segment of level `L` holds only pages whose
  block of level `L + 1` sticks out of the request (`Covers.outer`);
* come level by level from the top down, the run at the start of the request before the run at
  its end within a level (`Segment.Before`), with one segment at most at the first level that fits
  and two at most at any other.

A block lies inside the request just when the page lies between the request's whole blocks of
that level (`BlocksFit.blockInside_iff`), which ties the arithmetic of the solver to the blocks.
-/

namespace Paging

/-! ## Draining the queue -/

namespace SegmentQueue

/-- Draining hands out the segments not yet out, in order, and leaves none. -/
theorem drain_eq (q : SegmentQueue) :
    q.drain = (q.pairs.drop q.next, ⟨q.pairs, q.pairs.length, le_rfl⟩) := by
  fun_induction drain q with
  | case1 q s q' h _ rest q'' hrest ih =>
    -- the next segment, then the rest from the position after it
    rw [hrest] at ih
    obtain ⟨rfl, rfl⟩ := Prod.mk.inj ih
    unfold pop at h
    split at h
    · rename_i hlt
      cases h
      rw [List.drop_eq_getElem_cons hlt]
    · cases h
  | case2 q h =>
    unfold pop at h
    split at h
    · cases h
    · rename_i hge
      have hnext : q.next = q.pairs.length := by have := q.next_le; omega
      rw [hnext, List.drop_length]
      cases q
      simp only at hnext
      subst hnext
      rfl

@[simp] theorem len_ofList (segs : List Segment) : (ofList segs).len = segs.length := by
  simp [ofList, len]

/-- A queue made of a plan hands out the plan, and then has nothing left. -/
theorem drain_ofList (segs : List Segment) :
    (ofList segs).drain.1 = segs ∧ (ofList segs).drain.2.len = 0 := by
  rw [drain_eq]
  simp [ofList, len]

end SegmentQueue

namespace Mode

variable {M : Mode} {vpn : VirtPage} {ppn : PhysPage} {n : UInt64}

/-! ## Blocks inside a request -/

/-- The block of level `L` that holds the page `v` lies inside the request of `n` pages from
`vpn`. -/
def BlockInside (M : Mode) (vpn : VirtPage) (n : UInt64) (v : Nat) (L : Level) : Prop :=
  vpn.toNat ≤ 2 ^ M.levelShift L * (v / 2 ^ M.levelShift L) ∧
    2 ^ M.levelShift L * (v / 2 ^ M.levelShift L) + 2 ^ M.levelShift L ≤ vpn.toNat + n.toNat

/-- An entry of level `L` can map the page `v` for the request: the block of `L` that holds `v`
lies inside the request, and the offset from the pages to the frames is a multiple of the
block. -/
def BlockFits (M : Mode) (vpn : VirtPage) (ppn : PhysPage) (n : UInt64) (v : Nat) (L : Level) :
    Prop :=
  M.BlockInside vpn n v L ∧ (vpn - ppn).toNat % 2 ^ M.levelShift L = 0

instance (M : Mode) (vpn : VirtPage) (ppn : PhysPage) (n : UInt64) (v : Nat) (L : Level) :
    Decidable (M.BlockFits vpn ppn n v L) :=
  inferInstanceAs (Decidable ((_ ∧ _) ∧ _))

/-- `L` is the largest level of the mode whose entries can map the page `v` for the request. -/
def LargestFor (M : Mode) (vpn : VirtPage) (ppn : PhysPage) (n : UInt64) (v : Nat) (L : Level) :
    Prop :=
  L < M.levels ∧ M.BlockFits vpn ppn n v L ∧
    ∀ L' : Level, L' < M.levels → M.BlockFits vpn ppn n v L' → L' ≤ L

/-- `T` is the first level from the root down whose blocks can map the request (`Fits`): the
level at which the solver starts. -/
def FirstFit (M : Mode) (vpn : VirtPage) (ppn : PhysPage) (n : UInt64) (T : Level) : Prop :=
  T < M.levels ∧ M.Fits vpn ppn n T ∧ ∀ L : Level, T < L → L < M.levels → ¬ M.Fits vpn ppn n L

/-- A block inside the request of a level inside it lies inside a block of every level below. -/
theorem BlockInside.mono {v : Nat} {L L' : Level} (h : M.BlockInside vpn n v L')
    (hLL : L.toNat ≤ L'.toNat) : M.BlockInside vpn n v L := by
  obtain ⟨c, hc⟩ := pow_levelShift_dvd (M := M) hLL
  have hpos : 0 < 2 ^ M.levelShift L := by positivity
  have hcpos : 0 < c := Nat.pos_of_ne_zero fun h0 => by
    rw [h0, Nat.mul_zero] at hc
    exact absurd hc (by positivity)
  -- the block of `L` holding `v` is one of the `c` blocks of `L` in the block of `L'`
  have hq : v / 2 ^ M.levelShift L' = v / 2 ^ M.levelShift L / c := by
    rw [hc, Nat.div_div_eq_div_mul]
  obtain ⟨hlo, hhi⟩ := h
  rw [hq, hc] at hlo hhi
  have h1 := Nat.div_mul_le_self (v / 2 ^ M.levelShift L) c
  have h2 := Nat.lt_div_mul_add (a := v / 2 ^ M.levelShift L) hcpos
  constructor
  · calc vpn.toNat ≤ 2 ^ M.levelShift L * c * (v / 2 ^ M.levelShift L / c) := hlo
      _ = 2 ^ M.levelShift L * (v / 2 ^ M.levelShift L / c * c) := by ring
      _ ≤ 2 ^ M.levelShift L * (v / 2 ^ M.levelShift L) := Nat.mul_le_mul_left _ h1
  · calc 2 ^ M.levelShift L * (v / 2 ^ M.levelShift L) + 2 ^ M.levelShift L
        = 2 ^ M.levelShift L * (v / 2 ^ M.levelShift L + 1) := by ring
      _ ≤ 2 ^ M.levelShift L * (v / 2 ^ M.levelShift L / c * c + c) :=
          Nat.mul_le_mul_left _ (by omega)
      _ = 2 ^ M.levelShift L * c * (v / 2 ^ M.levelShift L / c) + 2 ^ M.levelShift L * c := by
          ring
      _ ≤ vpn.toNat + n.toNat := hhi

/-- A block inside the request is no longer than the request. -/
theorem BlockInside.pow_le {v : Nat} {L : Level} (h : M.BlockInside vpn n v L) :
    2 ^ M.levelShift L ≤ n.toNat := by
  obtain ⟨hlo, hhi⟩ := h
  omega

/-- The segments come level by level from the top down, at most one of the level `top'` and two of
any other. -/
theorem order_of_cases {top' : Level} {below : List Segment} (hc : M.Covers vpn n top' below) :
    (Segment.between top' (M.blocksFrom vpn top') (M.blocksUntil vpn n top') ++ below).Pairwise
      Segment.Before ∧
    (∀ L : Level,
      (Segment.between top' (M.blocksFrom vpn top') (M.blocksUntil vpn n top') ++ below).countP
        (fun s => s.level = L) ≤ 2) ∧
    (Segment.between top' (M.blocksFrom vpn top') (M.blocksUntil vpn n top') ++ below).countP
      (fun s => s.level = top') ≤ 1 := by
  have hlow : below.countP (fun s => s.level = top') = 0 := List.countP_eq_zero.2 fun s hs h => by
    have := hc.level_lt s hs
    rw [of_decide_eq_true h] at this
    omega
  have hone := Segment.countP_between_le top' (M.blocksFrom vpn top') (M.blocksUntil vpn n top')
    (fun s => s.level = top')
  refine ⟨List.pairwise_append.2 ⟨Segment.pairwise_between_before _ _ _, hc.order, ?_⟩,
    fun L => ?_, ?_⟩
  · intro s hs t ht
    obtain ⟨-, rfl⟩ := Segment.mem_between.1 hs
    exact .inl (hc.level_lt t ht)
  · rw [List.countP_append]
    by_cases hL : top' = L
    · subst hL
      omega
    · rw [Segment.countP_between_other hL]
      simpa using hc.count L
  · rw [List.countP_append]
    omega

section Request

variable (hM : M.BlocksFit) (hr : vpn.toNat + n.toNat < 2 ^ 64)
include hM hr

/-- The block of a level that the request fills holds the page inside the request just when the
page lies in the request's whole blocks of that level. -/
theorem BlocksFit.blockInside_iff {L : Level} (hL : L.toNat ≤ M.topLevel.toNat)
    (hfit : 2 ^ M.levelShift L ≤ n.toNat) (v : Nat) :
    M.BlockInside vpn n v L ↔
      (M.blocksFrom vpn L).toNat ≤ v ∧ v < (M.blocksUntil vpn n L).toNat := by
  have hpos : 0 < 2 ^ M.levelShift L := by positivity
  have hblk := alignDown_bounds (x := v) hpos
  have hdvd : 2 ^ M.levelShift L ∣ 2 ^ M.levelShift L * (v / 2 ^ M.levelShift L) :=
    Dvd.intro _ rfl
  rw [hM.toNat_blocksFrom hr hL hfit, hM.toNat_blocksUntil hr hL]
  constructor
  · rintro ⟨hlo, hhi⟩
    refine ⟨(alignUp_le_of_dvd hpos hdvd hlo).trans hblk.1, ?_⟩
    -- the block ends inside the request, so by its whole blocks
    have hend := le_alignDown_of_dvd hpos (Nat.dvd_add hdvd (dvd_refl _)) hhi
    omega
  · rintro ⟨hlo, hhi⟩
    have hup := (alignUp_bounds (x := vpn.toNat) hpos).1
    -- the whole blocks start on a block at or below the page's block
    have hstart := le_alignDown_of_dvd hpos (Dvd.intro _ rfl) hlo
    refine ⟨hup.trans hstart, ?_⟩
    -- the page's block starts below the end of the whole blocks, and both are multiples
    have hlt : v / 2 ^ M.levelShift L < (vpn.toNat + n.toNat) / 2 ^ M.levelShift L :=
      Nat.lt_of_mul_lt_mul_left (lt_of_le_of_lt hblk.1 hhi)
    have hle := Nat.mul_le_mul_left (2 ^ M.levelShift L) hlt
    have hdown := (alignDown_bounds (x := vpn.toNat + n.toNat) hpos).1
    rw [Nat.mul_succ] at hle
    omega

/-- Every segment of the plan holds pages whose block of its level can map them, and no block of
a larger level of the mode can. -/
theorem BlocksFit.largestFor_of_cases {top' : Level} {below : List Segment}
    (htop : top'.toNat ≤ M.topLevel.toNat) (hfit : M.Fits vpn ppn n top')
    (habove : ∀ L : Level, top'.toNat < L.toNat → L.toNat ≤ M.topLevel.toNat →
      ¬ M.Fits vpn ppn n L)
    (hc : M.Covers vpn n top' below) {s : Segment}
    (hs : s ∈ Segment.between top' (M.blocksFrom vpn top') (M.blocksUntil vpn n top') ++ below)
    {v : Nat} (hv : s.Holds v) : M.LargestFor vpn ppn n v s.level := by
  have hsub := fun {L : Level} (hL : L.toNat ≤ M.topLevel.toNat) =>
    (Word.sub_mod_pow2_eq_zero vpn ppn (k := M.levelShift L)
      (by have := hM.levelShift_add_lt hL; omega))
  -- the segment's level lies at or below `top'`, and the page in its whole blocks
  have hlev : s.level.toNat ≤ top'.toNat ∧
      (M.blocksFrom vpn s.level).toNat ≤ v ∧ v < (M.blocksUntil vpn n s.level).toNat := by
    rcases List.mem_append.1 hs with hs | hs
    · obtain ⟨-, rfl⟩ := Segment.mem_between.1 hs
      exact ⟨le_rfl, hv⟩
    · exact ⟨(hc.level_lt s hs).le, hc.inner s hs v hv⟩
  obtain ⟨hle, hin⟩ := hlev
  have hsL : s.level.toNat ≤ M.topLevel.toNat := hle.trans htop
  -- a level that can map the page and lies above `top'` would fit the request
  have hnot : ∀ L : Level, L < M.levels → M.BlockFits vpn ppn n v L → L.toNat ≤ top'.toNat := by
    intro L hL hfL
    by_contra hgt
    have hLt := hM.lt_levels_iff.1 hL
    exact habove L (by omega) hLt ⟨(hsub hLt).1 hfL.2, hfL.1.pow_le⟩
  refine ⟨hM.lt_levels_iff.2 hsL, ⟨(hM.blockInside_iff hr hsL (fit_of_le hle hfit.2) v).2 hin,
    (hsub hsL).2 (Nat.ModEq.of_dvd (pow_levelShift_dvd hle) hfit.1)⟩, ?_⟩
  intro L hL hfL
  have hLtop := hnot L hL hfL
  rw [UInt8.le_iff_toNat_le]
  by_contra hgt
  -- below `top'`, the page's block of the level above its segment's sticks out of the request
  rcases List.mem_append.1 hs with hs' | hs'
  · obtain ⟨-, rfl⟩ := Segment.mem_between.1 hs'
    exact hgt hLtop
  · have hlt := hc.level_lt s hs'
    have hsucc : (s.level + 1).toNat = s.level.toNat + 1 := by
      rw [UInt8.toNat_add, UInt8.toNat_one]
      have := top'.toNat_lt
      omega
    have hup : M.BlockInside vpn n v (s.level + 1) := hfL.1.mono (by omega)
    have := (hM.blockInside_iff hr (L := s.level + 1) (by omega)
      (fit_of_le (by omega) hfit.2) v).1 hup
    have := hc.outer s hs' v hv
    omega

end Request

/-- The solver's plan of a request that does not wrap, in a mode whose levels have blocks that
fit in a word. Drained from its queue, the segments are all the queue held, and none is left. They
are a plan of the request: not empty, starting and stopping on blocks of their level, apart from
each other, holding just the pages `[vpn, vpn + n)`. Each page lies in a segment whose level is
the largest of the mode whose block holding the page lies inside the request with the offset
from pages to frames a multiple of the block. The segments come in levels from the top down, and
within a level the run at the start of the request before the run at its end; there is at most
one segment of the first level that fits the request, none above it, and two at most of any
level. -/
theorem solve_uses_largest_blocks (hM : M.BlocksFit) (vpn : VirtPage) (ppn : PhysPage)
    (n : UInt64) (hr : vpn.toNat + n.toNat < 2 ^ 64) :
    ∃ q, M.solve vpn ppn n = .ok q ∧ q.len = q.drain.1.length ∧ q.drain.2.len = 0 ∧
      M.Plan vpn ppn n q.drain.1 ∧
      (∀ v, vpn.toNat ≤ v → v < vpn.toNat + n.toNat →
        ∃ s ∈ q.drain.1, s.Holds v ∧ M.LargestFor vpn ppn n v s.level) ∧
      q.drain.1.Pairwise Segment.Before ∧
      (∀ L : Level, q.drain.1.countP (fun s => s.level = L) ≤ 2) ∧
      ∀ T, M.FirstFit vpn ppn n T →
        (∀ s ∈ q.drain.1, s.level ≤ T) ∧ q.drain.1.countP (fun s => s.level = T) ≤ 1 := by
  rcases hM.segments_cases hr ppn with ⟨hs, hn⟩ | ⟨top', below, htop, hfit, habove, hs, hc⟩
  · -- an empty request has an empty plan
    obtain ⟨hdrain, hlen⟩ := SegmentQueue.drain_ofList []
    refine ⟨_, by simp [solve, hs], by simp [hdrain], hlen, ?_⟩
    rw [hdrain]
    refine ⟨⟨by simp, by simp, by simp, fun v => by simp; omega, List.Pairwise.nil⟩,
      fun v h1 h2 => by omega, List.Pairwise.nil, by simp, by simp⟩
  · obtain ⟨hdrain, hlen⟩ := SegmentQueue.drain_ofList
      (Segment.between top' (M.blocksFrom vpn top') (M.blocksUntil vpn n top') ++ below)
    have hplan := hM.plan_of_covers hr htop hfit hc
    obtain ⟨horder, hcount, htopc⟩ := order_of_cases hc
    refine ⟨_, by simp [solve, hs], by simp [hdrain], hlen, ?_⟩
    rw [hdrain]
    refine ⟨hplan, ?_, horder, hcount, ?_⟩
    · intro v h1 h2
      obtain ⟨s, hs, hv⟩ := (hplan.holds v).2 ⟨h1, h2⟩
      exact ⟨s, hs, hv, hM.largestFor_of_cases hr htop hfit habove hc hs hv⟩
    · -- the first level that fits is `top'`
      rintro T ⟨hT, hfitT, haboveT⟩
      have hTtop := hM.lt_levels_iff.1 hT
      have hTeq : T = top' := by
        by_contra hne
        have hne' : T.toNat ≠ top'.toNat := fun h => hne (UInt8.toNat_inj.1 h)
        rcases Nat.lt_or_gt_of_ne hne' with h | h
        · exact haboveT top' (UInt8.lt_iff_toNat_lt.2 h) (hM.lt_levels_iff.2 htop) hfit
        · exact habove T h hTtop hfitT
      subst hTeq
      refine ⟨fun s hs => ?_, htopc⟩
      rw [UInt8.le_iff_toNat_le]
      rcases List.mem_append.1 hs with hs | hs
      · obtain ⟨-, rfl⟩ := Segment.mem_between.1 hs
        exact le_rfl
      · exact (hc.level_lt s hs).le

/-- In `sv39`, the `2 ^ 18 + 2 ^ 9 + 1` pages from page `0x1ff` onto the same frames fit the top
level, whose blocks hold `2 ^ 18` pages, yet hold no whole block of it. -/
theorem solve_uses_largest_blocks_in_sv39 :
    sv39.BlocksFit ∧ (0x1ff : VirtPage).toNat + (0x40201 : UInt64).toNat < 2 ^ 64 ∧
    ∃ q, sv39.solve 0x1ff 0x1ff 0x40201 = .ok q ∧ q.len = q.drain.1.length ∧
      q.drain.2.len = 0 ∧ sv39.Plan 0x1ff 0x1ff 0x40201 q.drain.1 ∧
      (∀ v, (0x1ff : VirtPage).toNat ≤ v → v < (0x1ff : VirtPage).toNat + (0x40201 : UInt64).toNat →
        ∃ s ∈ q.drain.1, s.Holds v ∧ sv39.LargestFor 0x1ff 0x1ff 0x40201 v s.level) ∧
      q.drain.1.Pairwise Segment.Before ∧
      (∀ L : Level, q.drain.1.countP (fun s => s.level = L) ≤ 2) ∧
      ∀ T, sv39.FirstFit 0x1ff 0x1ff 0x40201 T →
        (∀ s ∈ q.drain.1, s.level ≤ T) ∧ q.drain.1.countP (fun s => s.level = T) ≤ 1 :=
  ⟨sound_sv39.blocksFit, by decide,
    solve_uses_largest_blocks sound_sv39.blocksFit 0x1ff 0x1ff 0x40201 (by decide)⟩

/-- The plan of that request: two runs of the middle level and the one page before them. -/
example : sv39.segments 0x1ff 0x1ff 0x40201 =
    .ok [⟨1, 0x200, 0x40000⟩, ⟨1, 0x40000, 0x40400⟩, ⟨0, 0x1ff, 0x200⟩] := by cbv

end Mode

end Paging
