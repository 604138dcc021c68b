import Paging.Frame.Allocator
/-!
# The accounts of a frame allocator

A stack allocator of the frames `[start, stop)` hands frames out and takes them back; its
clients hold the frames handed out and not yet given back. The allocator does not record which
frames are held, yet its watermark and its stack of recycled frames always account for them:
every frame below the watermark is either recycled or held, and only once (`Accounts`).

* `frameRun` is a run of consecutive frames, and `pushRun_eq` says how a skipped run lands on the
  recycled stack.
* `Call.perform` is one call of a client, with the frames held before and after it.
* `Accounts.perform` keeps the accounts over any sequence of calls that does not halt.

Main statement: `FrameAllocator.accounts_of_perform`. After any such sequence of calls on a new
allocator of `[start, stop)`, the frames held have no repeats, lie in `[start, stop')` where
`stop' = max start stop`, and number `stop' - start` less the frames still free; the next frame
handed out is not held, and the next run of frames handed out starts at a multiple of its
alignment, ends by `stop'` and holds no held frame.
-/

namespace Paging

namespace FrameAllocator

/-! ## Runs of frames -/

/-- The `count` frames from `first` on, in increasing order. -/
def frameRun (first : PhysPage) (count : Nat) : List PhysPage :=
  (List.range count).map fun i => first + i.toUInt64

theorem toNat_add_toUInt64 {first : PhysPage} {i : Nat} (h : first.toNat + i < UInt64.size) :
    (first + i.toUInt64).toNat = first.toNat + i := by
  have hs : UInt64.size = 2 ^ 64 := rfl
  rw [UInt64.toNat_add, Nat.toUInt64_eq, UInt64.toNat_ofNat',
    Nat.mod_eq_of_lt (show i < 2 ^ 64 by omega)]
  exact Nat.mod_eq_of_lt (by omega)

@[simp] theorem length_frameRun (first : PhysPage) (count : Nat) :
    (frameRun first count).length = count := by
  simp [frameRun]

theorem frameRun_add (first : PhysPage) (m n : Nat) :
    frameRun first (m + n) = frameRun first m ++ frameRun (first + m.toUInt64) n := by
  simp only [frameRun, List.range_add, List.map_append, List.map_map]
  congr 1
  apply List.map_congr_left
  intro i _
  simp [UInt64.add_assoc]

theorem frameRun_succ (first : PhysPage) (k : Nat) :
    frameRun first (k + 1) = first :: frameRun (first + 1) k := by
  simp only [frameRun, List.range_succ_eq_map, List.map_cons, List.map_map]
  congr 1
  · simp
  · refine List.map_congr_left fun i _ => ?_
    simp only [Function.comp, Nat.succ_eq_add_one, Nat.toUInt64_eq, UInt64.ofNat_add]
    rw [UInt64.add_comm (UInt64.ofNat i), ← UInt64.add_assoc]
    rfl

/-- Pushing the frames `[low, low + k)` one by one leaves them reversed on top of the stack. -/
theorem pushRun_eq (low : PhysPage) (k : Nat) (acc : List PhysPage) :
    pushRun low k acc = (frameRun low k).reverse ++ acc := by
  induction k generalizing low acc with
  | zero => rfl
  | succ k ih => simp [pushRun, ih, frameRun_succ]

theorem mem_frameRun {first p : PhysPage} {count : Nat} (h : first.toNat + count ≤ UInt64.size) :
    p ∈ frameRun first count ↔ first ≤ p ∧ p.toNat < first.toNat + count := by
  simp only [frameRun, List.mem_map, List.mem_range, UInt64.le_iff_toNat_le]
  constructor
  · rintro ⟨i, hi, rfl⟩
    rw [toNat_add_toUInt64 (by omega)]
    omega
  · rintro ⟨hlo, hhi⟩
    refine ⟨p.toNat - first.toNat, by omega, UInt64.toNat_inj.1 ?_⟩
    rw [toNat_add_toUInt64 (by omega)]
    omega

/-- A run that does not wrap past the last frame has no repeats. -/
theorem nodup_frameRun {first : PhysPage} {count : Nat} (h : first.toNat + count ≤ UInt64.size) :
    (frameRun first count).Nodup := by
  refine List.pairwise_map.2 (List.pairwise_lt_range.imp_of_mem ?_)
  intro i j hi hj hij heq
  have hi' := List.mem_range.1 hi
  have hj' := List.mem_range.1 hj
  have := congrArg UInt64.toNat heq
  rw [toNat_add_toUInt64 (by omega), toNat_add_toUInt64 (by omega)] at this
  omega

/-! ## Calls and the frames they leave held -/

/-- A call that a client makes to a frame allocator. -/
inductive Call where
  /-- A request for one frame. -/
  | allocFrame
  /-- A request for `count` frames aligned to `align`. -/
  | allocFrames (count align : UInt64)
  /-- A frame given back. -/
  | free (ppn : PhysPage)
  deriving DecidableEq, Repr

/-- One call, on the allocator and on the frames its clients hold: the frames handed out join
them, a frame given back leaves them, and a refused request changes neither. A call that breaks
the allocator's contract halts. -/
def Call.perform : Call → FrameAllocator × List PhysPage →
    Except Halt (FrameAllocator × List PhysPage)
  | .allocFrame, (a, held) =>
    match a.allocFrame with
    | .ok (ppn, a') => .ok (a', held ++ [ppn])
    | .error _ => .ok (a, held)
  | .allocFrames count align, (a, held) =>
    match a.allocFrames count align with
    | .ok (first, a') => .ok (a', held ++ frameRun first count.toNat)
    | .error _ => .ok (a, held)
  | .free ppn, (a, held) => (a.free ppn).map fun a' => (a', held.erase ppn)

/-- The calls in order; the first halt ends the run. -/
def perform (calls : List Call) (s : FrameAllocator × List PhysPage) :
    Except Halt (FrameAllocator × List PhysPage) :=
  calls.foldlM (fun s c => c.perform s) s

/-! ## What each operation changes -/

theorem allocFrame_eq_ok {a a' : FrameAllocator} {ppn : PhysPage}
    (h : a.allocFrame = .ok (ppn, a')) :
    (∃ rest, a.recycled = ppn :: rest ∧ a' = { a with recycled := rest }) ∨
      (a.recycled = [] ∧ a.watermark ≠ a.stop ∧ ppn = a.watermark ∧
        a' = { a with watermark := a.watermark + 1 }) := by
  unfold allocFrame at h
  split at h
  · rename_i p rest hr
    cases h
    exact .inl ⟨rest, hr, rfl⟩
  · rename_i hr
    split at h
    · cases h
    · rename_i hw
      cases h
      exact .inr ⟨hr, hw, rfl, rfl⟩

theorem allocFrames_eq_ok {a a' : FrameAllocator} {count align first : UInt64}
    (h : a.allocFrames count align = .ok (first, a')) :
    (count = 1 ∧ align = 1 ∧ a.allocFrame = .ok (first, a')) ∨
      (first = Word.alignUp a.watermark align ∧ a.watermark ≤ first ∧ first ≤ a.stop ∧
        count ≤ a.stop - first ∧
        a' = { a with watermark := first + count
                      recycled := pushRun a.watermark (first - a.watermark).toNat a.recycled }) := by
  unfold allocFrames at h
  split at h
  · cases h
  · split at h
    · rename_i hone
      simp only [Bool.and_eq_true, decide_eq_true_eq] at hone
      exact .inl ⟨hone.1, hone.2, h⟩
    · dsimp only at h
      split at h
      · cases h
      · rename_i hfit
        simp only [Bool.or_eq_true, decide_eq_true_eq, not_or, UInt64.not_lt] at hfit
        cases h
        exact .inr ⟨rfl, hfit.1.1, hfit.1.2, hfit.2, rfl⟩

theorem free_eq_ok {a a' : FrameAllocator} {ppn : PhysPage} (h : a.free ppn = .ok a') :
    ppn.withinRange a.start a.stop = true ∧ ppn < a.watermark ∧ ppn ∉ a.recycled ∧
      a' = { a with recycled := ppn :: a.recycled } := by
  unfold free at h
  split at h
  · cases h
  · rename_i hin
    split at h
    · cases h
    · rename_i hlt
      split at h
      · cases h
      · rename_i hnot
        cases h
        simp only [Bool.not_eq_true', Bool.not_eq_false] at hin
        simp only [List.contains_iff_mem] at hnot
        exact ⟨hin, UInt64.not_le.1 hlt, hnot, rfl⟩

/-- The allocator refuses a frame only when it has none free, and then it is out of memory. -/
theorem allocFrame_eq_error {a : FrameAllocator} {f : Fault} (h : a.allocFrame = .error f) :
    f = .outOfMemory ∧ a.freeFrames = 0 := by
  unfold allocFrame at h
  split at h
  · cases h
  · rename_i hr
    split at h
    · rename_i hw
      cases h
      refine ⟨rfl, ?_⟩
      rw [freeFrames, hr, hw, UInt64.sub_self]
      rfl
    · cases h

theorem allocFrame_range {a a' : FrameAllocator} {ppn : PhysPage}
    (h : a.allocFrame = .ok (ppn, a')) : a'.start = a.start ∧ a'.stop = a.stop := by
  rcases allocFrame_eq_ok h with ⟨_, _, rfl⟩ | ⟨_, _, _, rfl⟩ <;> exact ⟨rfl, rfl⟩

theorem allocFrames_range {a a' : FrameAllocator} {count align first : UInt64}
    (h : a.allocFrames count align = .ok (first, a')) : a'.start = a.start ∧ a'.stop = a.stop := by
  rcases allocFrames_eq_ok h with ⟨_, _, h1⟩ | ⟨_, _, _, _, rfl⟩
  · exact allocFrame_range h1
  · exact ⟨rfl, rfl⟩

/-- The allocator refuses a request only with faults of its own. -/
theorem component_of_allocFrames {a : FrameAllocator} {count align : UInt64} {f : Fault}
    (h : a.allocFrames count align = .error f) : f.component = .frames := by
  unfold allocFrames allocFrame at h
  split at h
  · cases h
    rfl
  · split at h
    · split at h
      · cases h
      · split at h
        · cases h
          rfl
        · cases h
    · dsimp only at h
      split at h
      · cases h
        rfl
      · cases h

/-- The frames `[lo, hi)` followed by `k` more are the frames `[lo, hi)`, then `k` from `hi`. -/
theorem frameRun_extend (lo hi : PhysPage) (k : Nat) :
    frameRun lo ((hi - lo).toNat + k) = frameRun lo (hi - lo).toNat ++ frameRun hi k := by
  rw [frameRun_add, Nat.toUInt64_eq, UInt64.ofNat_toNat, UInt64.add_comm, UInt64.sub_add_cancel]

/-- A run that starts on a multiple of the alignment: rounding up gives a multiple. -/
theorem toNat_alignUp (v a : UInt64) :
    (Word.alignUp v a).toNat = a.toNat * ((v + a - 1).toNat / a.toNat) := by
  simp only [Word.alignUp, Paging.alignUp, UInt64.toNat_ofBitVec, BitVec.toNat_mul,
    BitVec.toNat_udiv]
  apply Nat.mod_eq_of_lt
  exact Nat.lt_of_le_of_lt (Nat.mul_div_le _ _) (BitVec.isLt _)

/-! ## The accounts -/

/-- The frames below the watermark are the recycled ones and the held ones, each once; the
watermark lies between the ends of the range. -/
structure Accounts (a : FrameAllocator) (held : List PhysPage) : Prop where
  start_le : a.start ≤ a.watermark
  watermark_le : a.watermark ≤ a.stop
  perm : (a.recycled ++ held).Perm (frameRun a.start (a.watermark - a.start).toNat)

namespace Accounts

variable {a : FrameAllocator} {held : List PhysPage}

theorem below_size (h : Accounts a held) :
    a.start.toNat + (a.watermark - a.start).toNat ≤ UInt64.size := by
  have hle := UInt64.le_iff_toNat_le.1 h.start_le
  rw [UInt64.toNat_sub_of_le _ _ h.start_le]
  have : a.watermark.toNat < UInt64.size := a.watermark.toNat_lt
  omega

theorem nodup (h : Accounts a held) : (a.recycled ++ held).Nodup :=
  h.perm.nodup_iff.2 (nodup_frameRun h.below_size)

theorem mem_iff (h : Accounts a held) {p : PhysPage} :
    p ∈ a.recycled ++ held ↔ a.start ≤ p ∧ p < a.watermark := by
  have hle := UInt64.le_iff_toNat_le.1 h.start_le
  rw [h.perm.mem_iff, mem_frameRun h.below_size, UInt64.toNat_sub_of_le _ _ h.start_le,
    UInt64.lt_iff_toNat_lt]
  constructor
  · rintro ⟨h1, h2⟩
    exact ⟨h1, by omega⟩
  · rintro ⟨h1, h2⟩
    exact ⟨h1, by omega⟩

theorem length_eq (h : Accounts a held) :
    a.recycled.length + held.length = (a.watermark - a.start).toNat := by
  rw [← List.length_append, h.perm.length_eq, length_frameRun]

/-- A new allocator has handed out nothing. -/
theorem new (start stop : PhysPage) : Accounts (FrameAllocator.new start stop) [] where
  start_le := UInt64.le_refl _
  watermark_le := by
    simp only [FrameAllocator.new]
    split
    · exact UInt64.le_refl _
    · rename_i h
      exact UInt64.not_lt.1 h
  perm := by simp [FrameAllocator.new, frameRun]

/-- One frame handed out: popped from the recycled stack, or taken at the watermark. -/
theorem allocFrame (h : Accounts a held) {ppn : PhysPage} {a' : FrameAllocator}
    (ha : a.allocFrame = .ok (ppn, a')) : Accounts a' (held ++ [ppn]) := by
  rcases allocFrame_eq_ok ha with ⟨rest, hr, rfl⟩ | ⟨hr, hw, rfl, rfl⟩
  · refine ⟨h.start_le, h.watermark_le, List.Perm.trans ?_ h.perm⟩
    rw [hr, ← List.append_assoc]
    exact List.perm_append_singleton _ _
  · have hs := UInt64.le_iff_toNat_le.1 h.start_le
    have hw' : a.watermark.toNat < a.stop.toNat :=
      Nat.lt_of_le_of_ne (UInt64.le_iff_toNat_le.1 h.watermark_le)
        (fun e => hw (UInt64.toNat_inj.1 e))
    have hsucc : (a.watermark + 1).toNat = a.watermark.toNat + 1 := by
      rw [UInt64.toNat_add]
      have := a.stop.toNat_lt
      exact Nat.mod_eq_of_lt (by simp; omega)
    have hcount : (a.watermark + 1 - a.start).toNat = (a.watermark - a.start).toNat + 1 := by
      rw [UInt64.toNat_sub_of_le _ _ (UInt64.le_iff_toNat_le.2 (by omega)),
        UInt64.toNat_sub_of_le _ _ h.start_le, hsucc]
      omega
    refine ⟨?_, ?_, ?_⟩
    · show a.start ≤ a.watermark + 1
      exact UInt64.le_iff_toNat_le.2 (by omega)
    · show a.watermark + 1 ≤ a.stop
      exact UInt64.le_iff_toNat_le.2 (by omega)
    show (a.recycled ++ (held ++ [a.watermark])).Perm
      (frameRun a.start (a.watermark + 1 - a.start).toNat)
    rw [hr, hcount, frameRun_extend _ _ 1]
    simpa [hr, frameRun] using h.perm.append_right [a.watermark]

/-- A run of frames handed out: the frames skipped on the way to an aligned start go onto the
recycled stack, and the watermark passes the run. -/
theorem allocFrames (h : Accounts a held) {count align first : UInt64} {a' : FrameAllocator}
    (ha : a.allocFrames count align = .ok (first, a')) :
    Accounts a' (held ++ frameRun first count.toNat) := by
  rcases allocFrames_eq_ok ha with ⟨rfl, -, h1⟩ | ⟨-, hlo, hhi, hcount, rfl⟩
  · simpa [frameRun] using h.allocFrame h1
  · have hs := UInt64.le_iff_toNat_le.1 h.start_le
    have hw := UInt64.le_iff_toNat_le.1 hlo
    have hf := UInt64.le_iff_toNat_le.1 hhi
    have hc := UInt64.le_iff_toNat_le.1 hcount
    rw [UInt64.toNat_sub_of_le _ _ hhi] at hc
    have hend : (first + count).toNat = first.toNat + count.toNat := by
      rw [UInt64.toNat_add]
      have : a.stop.toNat < UInt64.size := a.stop.toNat_lt
      exact Nat.mod_eq_of_lt (by simp [UInt64.size] at this ⊢; omega)
    have hsplit : (first + count - a.start).toNat =
        (a.watermark - a.start).toNat + ((first - a.watermark).toNat + count.toNat) := by
      rw [UInt64.toNat_sub_of_le _ _ (UInt64.le_iff_toNat_le.2 (by omega)),
        UInt64.toNat_sub_of_le _ _ h.start_le, UInt64.toNat_sub_of_le _ _ hlo, hend]
      omega
    refine ⟨?_, ?_, ?_⟩
    · show a.start ≤ first + count
      exact UInt64.le_iff_toNat_le.2 (by omega)
    · show first + count ≤ a.stop
      exact UInt64.le_iff_toNat_le.2 (by omega)
    show (pushRun a.watermark (first - a.watermark).toNat a.recycled ++
      (held ++ frameRun first count.toNat)).Perm (frameRun a.start (first + count - a.start).toNat)
    rw [hsplit, frameRun_extend, frameRun_extend, pushRun_eq]
    -- the skipped frames leave the top of the stack for their place in the run
    rw [List.append_assoc, ← List.append_assoc a.recycled]
    refine ((List.reverse_perm _).append (h.perm.append_right _)).trans ?_
    simpa only [List.append_assoc] using List.perm_append_comm.append_right _

/-- A frame given back was held, and leaves the held frames for the recycled stack. -/
theorem free (h : Accounts a held) {ppn : PhysPage} {a' : FrameAllocator}
    (ha : a.free ppn = .ok a') : ppn ∈ held ∧ Accounts a' (held.erase ppn) := by
  obtain ⟨hin, hlt, hnot, rfl⟩ := free_eq_ok ha
  have hstart : a.start ≤ ppn := by
    have hle : a.start ≤ a.stop := UInt64.le_trans h.start_le h.watermark_le
    simp only [PhysPage.withinRange, hle, if_true, Bool.and_eq_true, decide_eq_true_eq] at hin
    exact hin.1
  have hheld : ppn ∈ held := by
    rcases List.mem_append.1 (h.mem_iff.2 ⟨hstart, hlt⟩) with hr | hh
    · exact absurd hr hnot
    · exact hh
  refine ⟨hheld, h.start_le, h.watermark_le, List.Perm.trans ?_ h.perm⟩
  show (ppn :: a.recycled ++ held.erase ppn).Perm (a.recycled ++ held)
  exact List.perm_middle.symm.trans ((List.perm_cons_erase hheld).symm.append_left _)

/-- One call that does not halt keeps the accounts and the range. -/
theorem perform_call (h : Accounts a held) {c : Call} {s : FrameAllocator × List PhysPage}
    (hc : c.perform (a, held) = .ok s) :
    Accounts s.1 s.2 ∧ s.1.start = a.start ∧ s.1.stop = a.stop := by
  cases c with
  | allocFrame =>
    simp only [Call.perform] at hc
    split at hc
    · rename_i ppn a' ha
      cases hc
      exact ⟨h.allocFrame ha, allocFrame_range ha⟩
    · cases hc
      exact ⟨h, rfl, rfl⟩
  | allocFrames count align =>
    simp only [Call.perform] at hc
    split at hc
    · rename_i first a' ha
      cases hc
      exact ⟨h.allocFrames ha, allocFrames_range ha⟩
    · cases hc
      exact ⟨h, rfl, rfl⟩
  | free ppn =>
    simp only [Call.perform] at hc
    cases ha : a.free ppn with
    | error e => simp [ha, Except.map] at hc
    | ok a' =>
      simp only [ha, Except.map, Except.ok.injEq] at hc
      subst hc
      obtain ⟨-, -, -, rfl⟩ := free_eq_ok ha
      exact ⟨(h.free ha).2, rfl, rfl⟩

/-- Any sequence of calls that does not halt keeps the accounts and the range. -/
theorem perform (h : Accounts a held) {calls : List Call} {s : FrameAllocator × List PhysPage}
    (hc : FrameAllocator.perform calls (a, held) = .ok s) :
    Accounts s.1 s.2 ∧ s.1.start = a.start ∧ s.1.stop = a.stop := by
  induction calls generalizing a held with
  | nil =>
    cases hc
    exact ⟨h, rfl, rfl⟩
  | cons c rest ih =>
    simp only [FrameAllocator.perform, List.foldlM_cons] at hc
    cases hstep : c.perform (a, held) with
    | error e => simp [hstep] at hc; cases hc
    | ok s₁ =>
      simp only [hstep] at hc
      obtain ⟨h₁, hs₁, he₁⟩ := h.perform_call hstep
      obtain ⟨h₂, hs₂, he₂⟩ := ih h₁ hc
      exact ⟨h₂, hs₂.trans hs₁, he₂.trans he₁⟩

/-! ### What the accounts give -/

theorem nodup_held (h : Accounts a held) : held.Nodup :=
  (List.nodup_append.1 h.nodup).2.1

theorem mem_held (h : Accounts a held) {p : PhysPage} (hp : p ∈ held) :
    a.start ≤ p ∧ p < a.stop := by
  obtain ⟨h1, h2⟩ := h.mem_iff.1 (List.mem_append_right _ hp)
  exact ⟨h1, UInt64.lt_of_lt_of_le h2 h.watermark_le⟩

/-- The accounts do not depend on the order of the held frames. -/
theorem of_perm (h : Accounts a held) {held' : List PhysPage} (hp : held.Perm held') :
    Accounts a held' :=
  ⟨h.start_le, h.watermark_le, (hp.symm.append_left a.recycled).trans h.perm⟩

/-- A held frame given back is taken back: it goes onto the recycled stack. -/
theorem free_of_mem (h : Accounts a held) {p : PhysPage} (hp : p ∈ held) :
    a.free p = .ok { a with recycled := p :: a.recycled } := by
  obtain ⟨hs, hw⟩ := h.mem_iff.1 (List.mem_append_right _ hp)
  have hnot : p ∉ a.recycled := fun hr =>
    (List.nodup_append.1 h.nodup).2.2 p hr p hp rfl
  have hle : a.start ≤ a.stop := UInt64.le_trans h.start_le h.watermark_le
  have hstop : p < a.stop := UInt64.lt_of_lt_of_le hw h.watermark_le
  simp [FrameAllocator.free, PhysPage.withinRange, hle, hs, hstop, UInt64.not_le.2 hw, hnot]

/-- The frames still free and the frames held make up the whole range. -/
theorem freeFrames_add_length (h : Accounts a held) :
    a.freeFrames.toNat + held.length = (a.stop - a.start).toNat := by
  have hs := UInt64.le_iff_toNat_le.1 h.start_le
  have hw := UInt64.le_iff_toNat_le.1 h.watermark_le
  have hlen := h.length_eq
  rw [UInt64.toNat_sub_of_le _ _ h.start_le] at hlen
  have : a.stop.toNat < UInt64.size := a.stop.toNat_lt
  have hsum : (a.stop - a.watermark).toNat + a.recycled.length < 2 ^ 64 := by
    rw [UInt64.toNat_sub_of_le _ _ h.watermark_le]
    simp only [UInt64.size] at this
    omega
  simp only [FrameAllocator.freeFrames, UInt64.toNat_add, Nat.toUInt64_eq, UInt64.toNat_ofNat']
  rw [Nat.mod_eq_of_lt (show a.recycled.length < 2 ^ 64 by omega), Nat.mod_eq_of_lt hsum,
    UInt64.toNat_sub_of_le _ _ h.watermark_le,
    UInt64.toNat_sub_of_le _ _ (UInt64.le_trans h.start_le h.watermark_le)]
  omega

/-- A frame handed out is not held. -/
theorem allocFrame_not_mem (h : Accounts a held) {ppn : PhysPage} {a' : FrameAllocator}
    (ha : a.allocFrame = .ok (ppn, a')) : ppn ∉ held := by
  have hnd := (h.allocFrame ha).nodup
  rw [← List.append_assoc, List.nodup_append] at hnd
  exact fun hp => hnd.2.2 ppn (List.mem_append_right _ hp) ppn (List.mem_singleton_self _) rfl

/-- No frame of a run handed out is held. -/
theorem allocFrames_not_mem (h : Accounts a held) {count align first : UInt64}
    {a' : FrameAllocator} (ha : a.allocFrames count align = .ok (first, a')) :
    ∀ p ∈ frameRun first count.toNat, p ∉ held := by
  have hnd := (h.allocFrames ha).nodup
  rw [← List.append_assoc, List.nodup_append] at hnd
  exact fun p hp hh => hnd.2.2 p (List.mem_append_right _ hh) p hp rfl

/-- A run handed out ends by the end of the range. -/
theorem allocFrames_le_stop (h : Accounts a held) {count align first : UInt64}
    {a' : FrameAllocator} (ha : a.allocFrames count align = .ok (first, a')) :
    first.toNat + count.toNat ≤ a.stop.toNat := by
  rcases allocFrames_eq_ok ha with ⟨rfl, -, h1⟩ | ⟨-, -, hhi, hcount, -⟩
  · have hlt : first < a.stop := by
      rcases allocFrame_eq_ok h1 with ⟨rest, hr, -⟩ | ⟨-, hw, rfl, -⟩
      · have hm := h.mem_iff.1 (List.mem_append_left held (hr ▸ List.mem_cons_self))
        exact UInt64.lt_of_lt_of_le hm.2 h.watermark_le
      · exact UInt64.lt_of_le_of_ne h.watermark_le hw
    have := UInt64.lt_iff_toNat_lt.1 hlt
    simp only [UInt64.toNat_one]
    omega
  · have hc := UInt64.le_iff_toNat_le.1 hcount
    rw [UInt64.toNat_sub_of_le _ _ hhi] at hc
    have := UInt64.le_iff_toNat_le.1 hhi
    omega

end Accounts

/-- A run handed out starts at a multiple of its alignment. -/
theorem allocFrames_aligned {a a' : FrameAllocator} {count align first : UInt64}
    (ha : a.allocFrames count align = .ok (first, a')) : first.toNat % align.toNat = 0 := by
  rcases allocFrames_eq_ok ha with ⟨-, rfl, -⟩ | ⟨rfl, -⟩
  · exact Nat.mod_one _
  · rw [toNat_alignUp]
    exact Nat.mul_mod_right _ _

/-- A range whose end lies before its start is taken as empty. -/
theorem new_stop (start stop : PhysPage) : (FrameAllocator.new start stop).stop = max start stop := by
  show (if stop < start then start else stop) = if start ≤ stop then stop else start
  by_cases h : stop < start
  · rw [if_pos h, if_neg (UInt64.not_le.2 h)]
  · rw [if_neg h, if_pos (UInt64.not_lt.1 h)]

/-! ## The main statement -/

/-- After any sequence of calls on a new allocator of `[start, stop)` in which no call halts, the
frames held have no repeats (so no frame was handed out while held), lie in `[start, stop')` for
`stop' = max start stop`, and with the frames still free make up `stop' - start` frames; the next
frame handed out is not held, and the next run of frames handed out starts at a multiple of its
alignment, ends by `stop'` and holds no held frame. -/
theorem accounts_of_perform (start stop : PhysPage) (calls : List Call) {a : FrameAllocator}
    {held : List PhysPage} (h : perform calls (FrameAllocator.new start stop, []) = .ok (a, held)) :
    held.Nodup ∧ (∀ p ∈ held, start ≤ p ∧ p < max start stop) ∧
      a.freeFrames.toNat + held.length = (max start stop - start).toNat ∧
      (∀ ppn a', a.allocFrame = .ok (ppn, a') → ppn ∉ held) ∧
      (∀ count align first a', a.allocFrames count align = .ok (first, a') →
        first.toNat % align.toNat = 0 ∧ first.toNat + count.toNat ≤ (max start stop).toNat ∧
        ∀ p ∈ frameRun first count.toNat, p ∉ held) := by
  obtain ⟨hacc, hstart, hstop⟩ := (Accounts.new start stop).perform h
  have hs : a.start = start := hstart
  have he : a.stop = max start stop := hstop.trans (new_stop start stop)
  refine ⟨hacc.nodup_held, fun p hp => ?_, ?_, fun ppn a' ha => hacc.allocFrame_not_mem ha,
    fun count align first a' ha => ⟨allocFrames_aligned ha, ?_, hacc.allocFrames_not_mem ha⟩⟩
  · rw [← he, ← hs]
    exact hacc.mem_held hp
  · rw [← he, ← hs]
    exact hacc.freeFrames_add_length
  · rw [← he]
    exact hacc.allocFrames_le_stop ha

/-- Four frames aligned to four out of `[0x80001, 0x80010)`, which recycles the three frames
skipped below them, then two single frames around a frame given back. -/
theorem accounts_after_aligned_run :
    perform [.allocFrames 4 4, .allocFrame, .free 0x80005, .allocFrame]
        (FrameAllocator.new 0x80001 0x80010, []) =
      .ok (⟨0x80001, 0x80008, 0x80010, [0x80002, 0x80001]⟩,
        [0x80004, 0x80006, 0x80007, 0x80003, 0x80005]) ∧
    (([0x80004, 0x80006, 0x80007, 0x80003, 0x80005] : List PhysPage).Nodup ∧
      (∀ p ∈ ([0x80004, 0x80006, 0x80007, 0x80003, 0x80005] : List PhysPage),
        0x80001 ≤ p ∧ p < max 0x80001 0x80010) ∧
      (⟨0x80001, 0x80008, 0x80010, [0x80002, 0x80001]⟩ : FrameAllocator).freeFrames.toNat +
          ([0x80004, 0x80006, 0x80007, 0x80003, 0x80005] : List PhysPage).length =
        (max 0x80001 0x80010 - 0x80001 : PhysPage).toNat ∧
      (∀ ppn a', (⟨0x80001, 0x80008, 0x80010, [0x80002, 0x80001]⟩ : FrameAllocator).allocFrame =
          .ok (ppn, a') → ppn ∉ ([0x80004, 0x80006, 0x80007, 0x80003, 0x80005] : List PhysPage)) ∧
      (∀ count align first a',
        (⟨0x80001, 0x80008, 0x80010, [0x80002, 0x80001]⟩ : FrameAllocator).allocFrames count align =
            .ok (first, a') →
          first.toNat % align.toNat = 0 ∧
            first.toNat + count.toNat ≤ (max (0x80001 : PhysPage) 0x80010).toNat ∧
            ∀ p ∈ frameRun first count.toNat,
              p ∉ ([0x80004, 0x80006, 0x80007, 0x80003, 0x80005] : List PhysPage))) := by
  have h : perform [.allocFrames 4 4, .allocFrame, .free 0x80005, .allocFrame]
      (FrameAllocator.new 0x80001 0x80010, []) =
      .ok (⟨0x80001, 0x80008, 0x80010, [0x80002, 0x80001]⟩,
        [0x80004, 0x80006, 0x80007, 0x80003, 0x80005]) := rfl
  exact ⟨h, accounts_of_perform _ _ _ h⟩

end FrameAllocator

end Paging
