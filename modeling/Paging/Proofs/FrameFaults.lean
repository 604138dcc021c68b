import Paging.Proofs.RunSpec
import Paging.Proofs.Alignment
/-!
# When a frame allocator refuses, and when it halts

The faults of a frame allocator are exact in every state that a sequence of calls on a new
allocator reaches. With `held` the frames handed out and not given back (as in
`FrameAllocator.Accounts`):

* giving back a frame halts exactly when the frame is not held, with one of the three faults of a
  broken contract (`Accounts.free_eq_error_iff`, `fault_of_free_eq_error`); a held frame goes onto
  the recycled stack, and the frames the state shows as lent out (`Lent`) lose exactly that frame
  (`Accounts.lent_free_iff`);
* a request for one frame is refused exactly when no frame is free
  (`Accounts.allocFrame_eq_error_iff`);
* a request for a run of frames is refused for its alignment exactly when the alignment is no
  power of two (`allocFrames_eq_badAlignment_iff`), and otherwise for lack of memory exactly when
  the run, from the watermark rounded up to the alignment in exact integers, passes the end
  (`allocFrames_eq_outOfMemory_iff`). The rounding in the word may wrap past the top, and the
  allocator then sees a start below its watermark (`Word.alignUp_overruns_iff`).

On the machine, a refused request and a halt leave the allocator as it was
(`Machine.refusals_keep_allocator`).

Main statement: `FrameAllocator.frame_faults_exact`.
-/

namespace Paging

namespace Word

/-- The test that a run of `count` frames from `alignUp w align` overruns `stop`, where the
rounding may wrap past the top of the word, is the test in exact integers: `align` times the
ceiling of `w / align`, plus `count`, passes `stop`. -/
theorem alignUp_overruns_iff (w align stop count : UInt64) (hpow : align.toNat.isPowerOfTwo) :
    (alignUp w align < w || alignUp w align > stop || stop - alignUp w align < count) = true ↔
      stop.toNat < align.toNat * ((w.toNat + align.toNat - 1) / align.toNat) + count.toNat := by
  have hA : 0 < align.toNat := Nat.pos_of_isPowerOfTwo hpow
  have hne : align.toBitVec ≠ 0 := fun h0 => by
    rw [← UInt64.toNat_toBitVec, h0] at hA
    exact absurd hA (Nat.lt_irrefl 0)
  -- a power of two that fits in a word divides `2 ^ 64`
  have hdvd : align.toBitVec.toNat ∣ 2 ^ 64 := by
    obtain ⟨k, hk⟩ := hpow
    have hk64 : k ≤ 64 :=
      Nat.le_of_lt ((Nat.pow_lt_pow_iff_right (by norm_num)).1 (hk ▸ align.toNat_lt))
    rw [UInt64.toNat_toBitVec, hk]
    exact Nat.pow_dvd_pow 2 hk64
  have hw := w.toNat_lt
  have hs := stop.toNat_lt
  have hup := alignUp_bounds (x := w.toNat) hA
  have hval : (alignUp w align).toNat = (Paging.alignUp w.toBitVec align.toBitVec).toNat := rfl
  simp only [Bool.or_eq_true, decide_eq_true_eq, UInt64.lt_iff_toNat_lt, gt_iff_lt,
    UInt64.toNat_sub, hval]
  by_cases hwrap : w.toNat + align.toNat - 1 < 2 ^ 64
  · -- the rounding stays in the word: it lies between `w` and `w + align - 1`
    rw [toNat_alignUp_of_lt hne hwrap]
    simp only [UInt64.toNat_toBitVec]
    omega
  · -- the rounding wraps to zero, below `w`, while in integers it reaches `2 ^ 64`
    have hle : 2 ^ 64 ≤ w.toBitVec.toNat + align.toBitVec.toNat - 1 := Nat.le_of_not_lt hwrap
    have hbig := size_le_of_wraps hdvd hle (Nat.dvd_mul_right _ _) hup.1
    rw [alignUp_eq_zero_of_le hne hle, BitVec.ofNat_eq_ofNat, BitVec.toNat_ofNat, Nat.zero_mod]
    have ha := align.toNat_lt
    simp only [UInt64.toNat_toBitVec] at hle hbig
    omega

/-- The alignment test of the allocator: zero, or a word with two bits or more. -/
theorem badAlignment_iff (align : UInt64) :
    (align = 0 || align &&& (align - 1) != 0) = true ↔
      align = 0 ∨ ¬ align.toNat.isPowerOfTwo := by
  by_cases h0 : align = 0
  · simp [h0]
  · have hpos : 1 ≤ align.toNat := by
      have : align.toNat ≠ 0 := fun h => h0 (UInt64.toNat_inj.1 (by rw [h]; rfl))
      omega
    have hand : (align &&& (align - 1)).toNat = align.toNat &&& (align.toNat - 1) := by
      rw [UInt64.toNat_and, UInt64.toNat_sub_of_le _ _ (UInt64.le_iff_toNat_le.2 (by simpa using hpos)),
        UInt64.toNat_one]
    rw [← Nat.and_sub_one_eq_zero_iff_isPowerOfTwo (by omega), ← hand]
    simp only [h0, decide_false, Bool.false_or, bne_iff_ne, ne_eq, false_or]
    exact not_congr (UInt64.toNat_inj.symm.trans (by rfl))

end Word

namespace FrameAllocator

/-! ## Frames lent out -/

/-- `p` has been handed out and not given back, as far as the allocator's state shows: it lies
from the start up to the watermark and is not on the recycled stack. -/
def Lent (a : FrameAllocator) (p : PhysPage) : Prop :=
  a.start ≤ p ∧ p < a.watermark ∧ p ∉ a.recycled

instance (a : FrameAllocator) (p : PhysPage) : Decidable (a.Lent p) :=
  inferInstanceAs (Decidable (_ ∧ _ ∧ _))

/-- Giving back `ppn` breaks the allocator's contract in one of three ways. -/
theorem fault_of_free_eq_error {a : FrameAllocator} {ppn : PhysPage} {e : Halt}
    (h : a.free ppn = .error e) :
    e.fault = some .frameOutOfRange ∨ e.fault = some .frameNotAllocated ∨
      e.fault = some .doubleFree := by
  unfold free at h
  split at h
  · cases h
    exact .inl rfl
  · split at h
    · cases h
      exact .inr (.inl rfl)
    · split at h
      · cases h
        exact .inr (.inr rfl)
      · cases h

namespace Accounts

variable {a : FrameAllocator} {held : List PhysPage}

/-- The frames held are the frames that the state shows as lent out. -/
theorem mem_iff_lent (h : Accounts a held) {p : PhysPage} : p ∈ held ↔ a.Lent p := by
  have hdisj := (List.nodup_append.1 h.nodup).2.2
  constructor
  · intro hp
    obtain ⟨hs, hw⟩ := h.mem_iff.1 (List.mem_append_right _ hp)
    exact ⟨hs, hw, fun hr => hdisj p hr p hp rfl⟩
  · rintro ⟨hs, hw, hr⟩
    rcases List.mem_append.1 (h.mem_iff.2 ⟨hs, hw⟩) with hrec | hheld
    · exact absurd hrec hr
    · exact hheld

/-- Giving back a frame halts exactly when the frame is not held. -/
theorem free_eq_error_iff (h : Accounts a held) {ppn : PhysPage} :
    (∃ e, a.free ppn = .error e) ↔ ppn ∉ held := by
  constructor
  · rintro ⟨e, he⟩ hp
    rw [h.free_of_mem hp] at he
    cases he
  · intro hp
    cases hf : a.free ppn with
    | error e => exact ⟨e, rfl⟩
    | ok a' => exact absurd (h.free hf).1 hp

/-- A held frame given back leaves the frames lent out less that frame. -/
theorem lent_free_iff (h : Accounts a held) (ppn q : PhysPage) :
    ({ a with recycled := ppn :: a.recycled } : FrameAllocator).Lent q ↔ q ∈ held ∧ q ≠ ppn := by
  rw [h.mem_iff_lent]
  simp only [Lent, List.mem_cons, not_or]
  constructor
  · rintro ⟨hs, hw, hne, hr⟩
    exact ⟨⟨hs, hw, hr⟩, hne⟩
  · rintro ⟨⟨hs, hw, hr⟩, hne⟩
    exact ⟨hs, hw, hne, hr⟩

/-- The frames free are those above the watermark and those recycled; their count does not wrap. -/
theorem toNat_freeFrames (h : Accounts a held) :
    a.freeFrames.toNat = (a.stop - a.watermark).toNat + a.recycled.length := by
  have hsum := h.freeFrames_add_length
  have hlen := h.length_eq
  rw [UInt64.toNat_sub_of_le _ _ (UInt64.le_trans h.start_le h.watermark_le)] at hsum
  rw [UInt64.toNat_sub_of_le _ _ h.start_le] at hlen
  rw [UInt64.toNat_sub_of_le _ _ h.watermark_le]
  have hs := UInt64.le_iff_toNat_le.1 h.start_le
  have hw := UInt64.le_iff_toNat_le.1 h.watermark_le
  omega

/-- A request for one frame is refused exactly when no frame is free. -/
theorem allocFrame_eq_error_iff (h : Accounts a held) :
    a.allocFrame = .error .outOfMemory ↔ a.freeFrames = 0 := by
  constructor
  · intro ha
    exact (allocFrame_eq_error ha).2
  · intro hz
    have hfree := h.toNat_freeFrames
    rw [hz, UInt64.toNat_zero] at hfree
    have hr : a.recycled = [] := List.eq_nil_of_length_eq_zero (by omega)
    have hw : a.watermark = a.stop := by
      have hle := UInt64.le_iff_toNat_le.1 h.watermark_le
      rw [UInt64.toNat_sub_of_le _ _ h.watermark_le] at hfree
      exact UInt64.toNat_inj.1 (by omega)
    unfold FrameAllocator.allocFrame
    rw [hr]
    exact if_pos hw

end Accounts

/-! ## Requests for runs of frames -/

/-- A request for a run is refused for its alignment exactly when the alignment is no power of
two. -/
theorem allocFrames_eq_badAlignment_iff (a : FrameAllocator) (count align : UInt64) :
    a.allocFrames count align = .error .badAlignment ↔
      align = 0 ∨ ¬ align.toNat.isPowerOfTwo := by
  unfold allocFrames
  split
  · rename_i hbad
    exact iff_of_true rfl ((Word.badAlignment_iff align).1 hbad)
  · rename_i hgood
    refine iff_of_false ?_ (fun hb => hgood ((Word.badAlignment_iff align).2 hb))
    -- past the alignment test, only a lack of memory is reported
    split
    · intro ha
      exact absurd (allocFrame_eq_error ha).1 (by decide)
    · dsimp only
      split
      · exact fun he => by cases he
      · exact fun he => by cases he

/-- A request for a run with a good alignment, other than one frame aligned to one frame, is
refused for lack of memory exactly when the run, from the watermark rounded up to the alignment
in exact integers, passes the end. -/
theorem allocFrames_eq_outOfMemory_iff (a : FrameAllocator) {count align : UInt64}
    (hpow : align.toNat.isPowerOfTwo) (hone : ¬(count = 1 ∧ align = 1)) :
    a.allocFrames count align = .error .outOfMemory ↔
      a.stop.toNat <
        align.toNat * ((a.watermark.toNat + align.toNat - 1) / align.toNat) + count.toNat := by
  have hgood : ¬(align = 0 || align &&& (align - 1) != 0) = true := fun hb =>
    ((Word.badAlignment_iff align).1 hb).elim (fun h0 => by
      rw [h0] at hpow
      exact Nat.not_isPowerOfTwo_zero hpow) (· hpow)
  have hmany : ¬(count = 1 && align = 1) = true := by
    simpa only [Bool.and_eq_true, decide_eq_true_eq] using hone
  have hover := Word.alignUp_overruns_iff a.watermark align a.stop count hpow
  unfold allocFrames
  rw [if_neg hgood, if_neg hmany]
  dsimp only
  split
  · rename_i hc
    exact iff_of_true rfl (hover.1 hc)
  · rename_i hc
    exact iff_of_false (fun he => by cases he) (fun hlt => hc (hover.2 hlt))

end FrameAllocator

/-! ## Refusals on the machine -/

namespace Machine

open Run

variable {m : Machine} {a : AllocatorRef}

/-- A frame that the allocator refuses to take back is logged, and the hart halts. -/
theorem freeFrame_run_error {ppn : PhysPage} {e : Halt} (h : (m.cellAt a).frames.free ppn = .error e) :
    (freeFrame a ppn).run m = .error e
      (let m' := m.withCell a ⟨(m.cellAt a).frames, (m.cellAt a).calls.push (.free ppn)⟩
       { m' with log := m'.log.printText e.text }) := by
  rw [freeFrame, Run.bind_run_ok (cell_run m a)]
  dsimp only
  rw [h, Run.bind_run_ok (setCell_run m a _), halt_run]

/-- Replacing an allocator's cell by one with the same allocator keeps the allocator. -/
theorem frames_cellAt_withCell (m : Machine) (a : AllocatorRef) {c : AllocatorCell}
    (hc : c.frames = (m.cellAt a).frames) : ((m.withCell a c).cellAt a).frames = (m.cellAt a).frames := by
  rw [cellAt_withCell]
  split
  · exact hc
  · rfl

/-- A request that the allocator refuses, and a frame given back that halts the hart, leave the
allocator as it was: its start, watermark, end and recycled stack. Only its list of calls grows. -/
theorem refusals_keep_allocator (m : Machine) (r : AllocatorRef) :
    (∀ ppn e m', (freeFrame r ppn).run m = .error e m' →
        (m'.cellAt r).frames = (m.cellAt r).frames) ∧
      (∀ f m', (allocFrame r).run m = .ok (.error f) m' →
        (m'.cellAt r).frames = (m.cellAt r).frames) ∧
      (∀ count align f m', (allocFrames r count align).run m = .ok (.error f) m' →
        (m'.cellAt r).frames = (m.cellAt r).frames) := by
  refine ⟨fun ppn e m' hrun => ?free, fun f m' hrun => ?one, fun count align f m' hrun => ?run⟩
  case free =>
    cases hf : (m.cellAt r).frames.free ppn with
    | ok fr =>
      rw [freeFrame_run_ok hf] at hrun
      cases hrun
    | error e' =>
      rw [freeFrame_run_error hf] at hrun
      cases hrun
      rw [cellAt_of_allocators _ rfl r]
      exact frames_cellAt_withCell m r rfl
  case one =>
    cases ha : (m.cellAt r).frames.allocFrame with
    | ok res =>
      rw [allocFrame_run_ok ha] at hrun
      cases hrun
    | error f' =>
      rw [allocFrame_run_error ha] at hrun
      cases hrun
      exact frames_cellAt_withCell m r rfl
  case run =>
    cases ha : (m.cellAt r).frames.allocFrames count align with
    | ok res =>
      rw [allocFrames_run_ok ha] at hrun
      cases hrun
    | error f' =>
      rw [allocFrames_run_error ha] at hrun
      cases hrun
      exact frames_cellAt_withCell m r rfl

end Machine

namespace FrameAllocator

/-! ## The main statement -/

/-- In every state that calls on a new allocator reach without halting, with `held` the frames
handed out and not given back: giving back a frame halts exactly when it is not held, and then
with one of the three faults of a broken contract; a held frame given back keeps the start, the
watermark and the end, and the frames lent out lose exactly that frame. One frame is refused
exactly when none is free, and only for lack of memory. A run is refused for its alignment exactly
when the alignment is zero or no power of two; otherwise, unless one frame aligned to one frame is
asked for, it is refused for lack of memory exactly when the watermark rounded up to the alignment
in exact integers, plus the count, passes the end. On the machine, every refusal and every halt
leaves the allocator as it was. -/
theorem frame_faults_exact (start stop : PhysPage) (calls : List Call) {a : FrameAllocator}
    {held : List PhysPage} (h : perform calls (FrameAllocator.new start stop, []) = .ok (a, held)) :
    (∀ ppn, (∃ e, a.free ppn = .error e) ↔ ppn ∉ held) ∧
      (∀ ppn e, a.free ppn = .error e →
        e.fault = some .frameOutOfRange ∨ e.fault = some .frameNotAllocated ∨
          e.fault = some .doubleFree) ∧
      (∀ ppn ∈ held, ∃ a', a.free ppn = .ok a' ∧ a'.start = a.start ∧
        a'.watermark = a.watermark ∧ a'.stop = a.stop ∧ ∀ p, a'.Lent p ↔ p ∈ held ∧ p ≠ ppn) ∧
      (a.allocFrame = .error .outOfMemory ↔ a.freeFrames = 0) ∧
      (∀ f, a.allocFrame = .error f → f = .outOfMemory) ∧
      (∀ count align, a.allocFrames count align = .error .badAlignment ↔
        align = 0 ∨ ¬ align.toNat.isPowerOfTwo) ∧
      (∀ count align, align.toNat.isPowerOfTwo → ¬(count = 1 ∧ align = 1) →
        (a.allocFrames count align = .error .outOfMemory ↔
          a.stop.toNat <
            align.toNat * ((a.watermark.toNat + align.toNat - 1) / align.toNat) + count.toNat)) ∧
      ∀ (m : Machine) (r : AllocatorRef), (m.cellAt r).frames = a →
        (∀ ppn e m', (Machine.freeFrame r ppn).run m = .error e m' → (m'.cellAt r).frames = a) ∧
        (∀ f m', (Machine.allocFrame r).run m = .ok (.error f) m' → (m'.cellAt r).frames = a) ∧
        (∀ count align f m', (Machine.allocFrames r count align).run m = .ok (.error f) m' →
          (m'.cellAt r).frames = a) := by
  obtain ⟨hacc, -, -⟩ := (Accounts.new start stop).perform h
  refine ⟨fun ppn => hacc.free_eq_error_iff, fun ppn e he => fault_of_free_eq_error he,
    fun ppn hp => ⟨_, hacc.free_of_mem hp, rfl, rfl, rfl, hacc.lent_free_iff ppn⟩,
    hacc.allocFrame_eq_error_iff, fun f hf => (allocFrame_eq_error hf).1,
    fun count align => allocFrames_eq_badAlignment_iff a count align,
    fun count align hpow hone => allocFrames_eq_outOfMemory_iff a hpow hone, fun m r hm => ?_⟩
  rw [← hm]
  exact Machine.refusals_keep_allocator m r

/-- The allocator of `[0x10, 0x20)` after two frames handed out and the first given back: the
frame `0x11` is held and `0x10` recycled. -/
theorem frame_faults_after_two_frames :
    perform [.allocFrame, .allocFrame, .free 0x10] (FrameAllocator.new 0x10 0x20, []) =
        .ok (⟨0x10, 0x12, 0x20, [0x10]⟩, [0x11]) ∧
      ((∀ ppn, (∃ e, (⟨0x10, 0x12, 0x20, [0x10]⟩ : FrameAllocator).free ppn = .error e) ↔
          ppn ∉ ([0x11] : List PhysPage)) ∧
        (∀ ppn e, (⟨0x10, 0x12, 0x20, [0x10]⟩ : FrameAllocator).free ppn = .error e →
          e.fault = some .frameOutOfRange ∨ e.fault = some .frameNotAllocated ∨
            e.fault = some .doubleFree) ∧
        (∀ ppn ∈ ([0x11] : List PhysPage), ∃ a',
          (⟨0x10, 0x12, 0x20, [0x10]⟩ : FrameAllocator).free ppn = .ok a' ∧ a'.start = 0x10 ∧
            a'.watermark = 0x12 ∧ a'.stop = 0x20 ∧
            ∀ p, a'.Lent p ↔ p ∈ ([0x11] : List PhysPage) ∧ p ≠ ppn) ∧
        ((⟨0x10, 0x12, 0x20, [0x10]⟩ : FrameAllocator).allocFrame = .error .outOfMemory ↔
          (⟨0x10, 0x12, 0x20, [0x10]⟩ : FrameAllocator).freeFrames = 0) ∧
        (∀ f, (⟨0x10, 0x12, 0x20, [0x10]⟩ : FrameAllocator).allocFrame = .error f →
          f = .outOfMemory) ∧
        (∀ count align,
          (⟨0x10, 0x12, 0x20, [0x10]⟩ : FrameAllocator).allocFrames count align =
              .error .badAlignment ↔ align = 0 ∨ ¬ align.toNat.isPowerOfTwo) ∧
        (∀ count align, align.toNat.isPowerOfTwo → ¬(count = 1 ∧ align = 1) →
          ((⟨0x10, 0x12, 0x20, [0x10]⟩ : FrameAllocator).allocFrames count align =
              .error .outOfMemory ↔
            (0x20 : PhysPage).toNat <
              align.toNat * (((0x12 : PhysPage).toNat + align.toNat - 1) / align.toNat) +
                count.toNat)) ∧
        ∀ (m : Machine) (r : AllocatorRef), (m.cellAt r).frames = ⟨0x10, 0x12, 0x20, [0x10]⟩ →
          (∀ ppn e m', (Machine.freeFrame r ppn).run m = .error e m' →
            (m'.cellAt r).frames = ⟨0x10, 0x12, 0x20, [0x10]⟩) ∧
          (∀ f m', (Machine.allocFrame r).run m = .ok (.error f) m' →
            (m'.cellAt r).frames = ⟨0x10, 0x12, 0x20, [0x10]⟩) ∧
          (∀ count align f m', (Machine.allocFrames r count align).run m = .ok (.error f) m' →
            (m'.cellAt r).frames = ⟨0x10, 0x12, 0x20, [0x10]⟩)) := by
  have h : perform [.allocFrame, .allocFrame, .free 0x10] (FrameAllocator.new 0x10 0x20, []) =
      .ok (⟨0x10, 0x12, 0x20, [0x10]⟩, [0x11]) := rfl
  exact ⟨h, frame_faults_exact _ _ _ h⟩

end FrameAllocator

end Paging
