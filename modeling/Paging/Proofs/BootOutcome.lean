import Paging.Proofs.TableCount
import Paging.Proofs.HartSetup
import Paging.Proofs.FrameFaults
import Paging.Machine.Boot
/-!
# How booting ends

`Machine.boot` always halts, once, with a fault that the layout of memory decides
(`boot_halts_with_bootFault`). Let `F` be the first frame past the image and `E` the frame where
RAM ends, `first` the page where RAM starts and `last` the page its end rounds up to, and `T` the
number of tables below the root that mapping `[first, last)` onto itself needs
(`Mode.tablesNeeded`). The fault is (`bootFault`):

* `noUsableMemory` when `E ≤ F`;
* else `rangeOutOfBounds` unless `first ≤ last ≤ 2 ^ 27`;
* else `outOfMemory` when the `E - F` frames between are fewer than `1 + T`;
* else `bootReturned`: the hart was set up and booting went on past it.

Setting up the hart takes a frame for the root of its space, then needs its range accepted, then
a frame for each table (`setupHart_result`, by `setupFault`). A table of `sv39` takes one frame
(`LiveSpace.freeFrames_sv39`), and a mapping on a fresh space makes exactly the tables it needs,
or meets the allocator's refusal before (`FreshSpace.map_tables`); so it runs out of memory
exactly when fewer frames are free than the tables it needs (`FreshSpace.map_sv39`).

That argument holds while the allocator's frames lie below those an entry can name. When RAM ends
past them, its end rounds up past the pages of `sv39` or wraps to `0`
(`Mode.ppnOf_alignUp_of_large`): the range is refused, or it has no page and needs no table, and
setting up the hart gives back the root or keeps it without asking for another frame
(`setupHart_result_of_no_tables`).
-/

namespace Paging

open FrameAllocator Run

namespace FrameAllocator

theorem stop_new {start stop : PhysPage} (h : start ≤ stop) :
    (FrameAllocator.new start stop).stop = stop := by
  show (if stop < start then start else stop) = stop
  rw [if_neg (UInt64.not_lt.2 h)]

/-- A new allocator of `[start, stop)` has every frame of it free. -/
theorem freeFrames_new {start stop : PhysPage} (h : start ≤ stop) :
    (FrameAllocator.new start stop).freeFrames.toNat = stop.toNat - start.toNat := by
  have hn : (FrameAllocator.new start stop).freeFrames.toNat + 0 = (stop - start).toNat := by
    have := (Accounts.new start stop).freeFrames_add_length
    rwa [stop_new h] at this
  rw [Nat.add_zero, UInt64.toNat_sub_of_le _ _ h] at hn
  exact hn

end FrameAllocator

namespace Mode

/-- `checkRange` refuses a request only as out of bounds. -/
theorem checkRange_eq_error {M : Mode} {vpn : VirtPage} {ppn : PhysPage} {n : UInt64}
    {f : Fault} (h : M.checkRange vpn ppn n = .error f) : f = .rangeOutOfBounds := by
  unfold checkRange at h
  dsimp only at h
  split at h
  · cases h
    rfl
  · cases h

/-- A request to map the pages `[first, last)` onto themselves in `sv39` is accepted exactly
when `first ≤ last ≤ 2 ^ 27`: a count of pages that wraps past the word runs over the limit. -/
theorem sv39_checkRange_identity (first last : PhysPage) :
    Mode.sv39.checkRange first first (last - first) = .ok () ↔
      first ≤ last ∧ last.toNat ≤ 2 ^ 27 := by
  have hts : Mode.sv39.tableShift Mode.sv39.topLevel = 27 := by decide
  have hpb : Mode.sv39.ppnBits = 44 := rfl
  have h₁ := first.toNat_lt
  have h₂ := last.toNat_lt
  rw [sound_sv39.checkRange_eq_ok, hts, hpb, UInt64.le_iff_toNat_le, UInt64.toNat_sub]
  omega

/-- A request of no pages that `checkRange` accepts needs no table. -/
theorem tablesNeeded_zero {M : Mode} (hM : M.Sound) {vpn : VirtPage} {ppn : PhysPage}
    (hc : M.checkRange vpn ppn 0 = .ok ()) : M.tablesNeeded vpn ppn 0 = 0 := by
  obtain ⟨segs, hs, hplan⟩ := hM.segments_plan hc
  rw [tablesNeeded, hs, hplan.eq_nil, Finset.card_eq_zero]
  ext p
  simp [neededTables]

/-- When RAM ends past the frames that an entry can name, the page that its end rounds up to lies
past the pages of `sv39`, unless the rounding wraps to `0`. -/
theorem ppnOf_alignUp_of_large {x : UInt64} (h : 2 ^ 44 < (Mode.sv39.ppnOf x).toNat) :
    Mode.sv39.ppnOf (Word.alignUp x 4096) = 0 ∨
      2 ^ 27 < (Mode.sv39.ppnOf (Word.alignUp x 4096)).toNat := by
  rw [toNat_ppnOf_sv39] at h ⊢
  have hx := x.toNat_lt
  have hup := FrameAllocator.toNat_alignUp x 4096
  rw [UInt64.toNat_sub, UInt64.toNat_add, show (4096 : UInt64).toNat = 4096 from rfl,
    UInt64.toNat_one] at hup
  by_cases hwrap : x.toNat + 4095 < 2 ^ 64
  · right
    omega
  · left
    apply UInt64.toNat_inj.1
    rw [toNat_ppnOf_sv39, UInt64.toNat_zero]
    omega

end Mode

namespace Machine

variable {a : AllocatorRef} {r : SpaceRef} {held : List PhysPage} {m : Machine}

/-! ## Setting up a hart -/

/-- The fault that setting up a hart returns, or none when it returns a hart, by the number `k`
of free frames of its allocator and the pages `[first, last)` of RAM: the root of the space takes
a frame, then the range must be accepted, then each table that mapping it needs takes a frame. -/
def setupFault (k : Nat) (first last : PhysPage) : Option Fault :=
  if k = 0 then some .outOfMemory
  else
    match Mode.sv39.checkRange first first (last - first) with
    | .error f => some f
    | .ok () =>
      if k < 1 + Mode.sv39.tablesNeeded first first (last - first) then some .outOfMemory
      else none

/-- Once the root has its frame, setting up a hart returns the refusal of its range, or runs out
of memory when the frames left are fewer than the tables that mapping RAM needs. -/
theorem setupFault_eq_some {k : Nat} {first last : PhysPage} {g : Fault} :
    setupFault (k + 1) first last = some g ↔
      (Mode.sv39.checkRange first first (last - first) = .error g ∨
        (Mode.sv39.checkRange first first (last - first) = .ok () ∧
          k < Mode.sv39.tablesNeeded first first (last - first) ∧ g = .outOfMemory)) := by
  rw [setupFault, if_neg (Nat.succ_ne_zero k)]
  cases Mode.sv39.checkRange first first (last - first) with
  | error f => simp
  | ok u =>
    by_cases h : k < Mode.sv39.tablesNeeded first first (last - first)
    · simp [h, eq_comm]
      omega
    · simp [h]
      omega

/-- Setting up a hart when the allocator has no frame for the root returns that it ran out, the
fault that `setupFault` names when no frame is free. -/
theorem setupHart_result_of_no_root (hartId : UInt64) (memStart memEnd : PhysAddr) {f : Fault}
    (ha : (m.cellAt a).frames.allocFrame = .error f) :
    ∃ res m', (setupHart hartId a memStart memEnd).run m = .ok res m' ∧
      ∀ g, res = .error g ↔ setupFault (m.cellAt a).frames.freeFrames.toNat
        (Mode.sv39.ppnOf memStart) (Mode.sv39.ppnOf (Word.alignUp memEnd 4096)) = some g := by
  let m₁ : Machine := { m with registers := m.registers.probeMaxAsid.2 }
  have htf : Mode.sv39.tableFrames Mode.sv39.topLevel = .ok 1 := rfl
  obtain ⟨rfl, hk⟩ := allocFrame_eq_error ha
  obtain ⟨m₂, hrun₂⟩ := newSpace_run_error (m := m₁) htf ((allocFrames_one_one _).trans ha)
  rw [setupHart, bind_run_ok (probeMaxAsid_run m)]
  dsimp only
  rw [bind_run_ok hrun₂]
  refine ⟨_, _, rfl, fun g => ?_⟩
  simp [setupFault, hk]

/-- Setting up a hart over an allocator whose accounts hold never halts, and returns the fault
that `setupFault` names for the allocator's free frames and the pages of RAM, or a hart when it
names none. -/
theorem setupHart_result (hartId : UInt64) (memStart memEnd : PhysAddr)
    (hlt : a.index < m.allocators.size) (hacc : Accounts (m.cellAt a).frames held)
    (hstop : (m.cellAt a).frames.stop.toNat ≤ 2 ^ 44) :
    ∃ res m', (setupHart hartId a memStart memEnd).run m = .ok res m' ∧
      ∀ f, res = .error f ↔ setupFault (m.cellAt a).frames.freeFrames.toNat
        (Mode.sv39.ppnOf memStart) (Mode.sv39.ppnOf (Word.alignUp memEnd 4096)) = some f := by
  cases ha : (m.cellAt a).frames.allocFrame with
  | error f => exact setupHart_result_of_no_root hartId memStart memEnd ha
  | ok p =>
    let m₁ : Machine := { m with registers := m.registers.probeMaxAsid.2 }
    have htf : Mode.sv39.tableFrames Mode.sv39.topLevel = .ok 1 := rfl
    rw [setupHart, bind_run_ok (probeMaxAsid_run m)]
    dsimp only
    obtain ⟨m₂, hrun₂⟩ : ∃ m₂, (newSpace .sv39 a).run m₁ = .ok (.ok ⟨m₁.spaces.size⟩) m₂ :=
      ⟨_, newSpace_run_ok Mode.sound_sv39 htf ((allocFrames_one_one _).trans ha)⟩
    have hU₂ := Untouched.keeps_newSpace .sv39 a m₁ (Untouched.refl m₁)
    rw [hrun₂] at hU₂
    obtain ⟨root, hf⟩ := FreshSpace.new Mode.sound_sv39 (m := m₁) hlt hacc hstop hrun₂
    have hk₂ : (m.cellAt a).frames.freeFrames.toNat = (m₂.cellAt a).frames.freeFrames.toNat + 1 :=
      LiveSpace.freeFrames_sv39 (m := m₁) hacc hf.live hU₂
    rw [bind_run_ok hrun₂]
    dsimp only
    rw [show Mode.sv39.pageSize Level.leaf = .ok 4096 from rfl, ofHalting_ok, pure_bind]
    obtain ⟨res₃, m₃, nodes, hrun₃, hl₃, hres₃⟩ :=
      hf.map_sv39 (by decide : identityFlags.hasAny .rwx = true)
    rw [bind_run_ok hrun₃, hk₂]
    cases res₃ with
    | error f =>
      -- the range was refused, or the allocator ran dry: the space is given back
      obtain ⟨m₄, hrun₄, -⟩ := hl₃.release
      dsimp only
      rw [bind_run_ok hrun₄]
      refine ⟨_, _, rfl, fun g => ?_⟩
      rw [setupFault_eq_some, ← hres₃ g]
      simp
    | ok u =>
      -- a new identifier allocator always hands out one
      obtain ⟨asids, halloc⟩ := IdAllocator.alloc_new m.registers.probeMaxAsid.1
      dsimp only
      rw [halloc]
      dsimp only
      rw [bind_run_ok (activateSupervisor_run hl₃.root_box hl₃.mode 0)]
      refine ⟨_, _, rfl, fun g => ?_⟩
      rw [setupFault_eq_some, ← hres₃ g]
      simp

/-- Setting up a hart whose range of RAM needs no table, since `checkRange` refuses it or it has
no page, never halts and returns the fault that `setupFault` names, or a hart when it names none,
over an allocator whose accounts hold, however far its frames reach. -/
theorem setupHart_result_of_no_tables (hartId : UInt64) (memStart memEnd : PhysAddr)
    (hlt : a.index < m.allocators.size) (hacc : Accounts (m.cellAt a).frames held)
    (hempty : Mode.sv39.checkRange (Mode.sv39.ppnOf memStart) (Mode.sv39.ppnOf memStart)
        (Mode.sv39.ppnOf (Word.alignUp memEnd 4096) - Mode.sv39.ppnOf memStart) = .ok () →
      Mode.sv39.ppnOf (Word.alignUp memEnd 4096) - Mode.sv39.ppnOf memStart = 0) :
    ∃ res m', (setupHart hartId a memStart memEnd).run m = .ok res m' ∧
      ∀ f, res = .error f ↔ setupFault (m.cellAt a).frames.freeFrames.toNat
        (Mode.sv39.ppnOf memStart) (Mode.sv39.ppnOf (Word.alignUp memEnd 4096)) = some f := by
  cases ha : (m.cellAt a).frames.allocFrame with
  | error f => exact setupHart_result_of_no_root hartId memStart memEnd ha
  | ok p =>
    let m₁ : Machine := { m with registers := m.registers.probeMaxAsid.2 }
    have htf : Mode.sv39.tableFrames Mode.sv39.topLevel = .ok 1 := rfl
    rw [setupHart, bind_run_ok (probeMaxAsid_run m)]
    dsimp only
    obtain ⟨ppn, fr⟩ := p
    have hk : (m.cellAt a).frames.freeFrames.toNat ≠ 0 := fun h0 => by
      have hnone := (hacc.allocFrame_eq_error_iff).2 (UInt64.toNat_inj.1 h0)
      rw [ha] at hnone
      cases hnone
    have ha₁ : (m₁.cellAt a).frames.allocFrames 1 1 = .ok (ppn, fr) :=
      (allocFrames_one_one _).trans ha
    obtain ⟨m₂, hrun₂⟩ : ∃ m₂, (newSpace .sv39 a).run m₁ = .ok (.ok ⟨m₁.spaces.size⟩) m₂ :=
      ⟨_, newSpace_run_ok Mode.sound_sv39 htf ha₁⟩
    -- the space holds its root alone, which the accounts list after the other clients' frames
    obtain ⟨hsp, hlts, hlta, -, hfr, hacc₂⟩ :=
      newSpace_run_ok_root Mode.sound_sv39 htf (m := m₁) hlt hacc ha₁ hrun₂
    have hroot : (m₂.spaceAt ⟨m₁.spaces.size⟩).root = some ⟨ppn, 1, a⟩ := by rw [hsp]
    have hmode : (m₂.spaceAt ⟨m₁.spaces.size⟩).mode = .sv39 := by rw [hsp]
    rw [bind_run_ok hrun₂]
    dsimp only
    rw [show Mode.sv39.pageSize Level.leaf = .ok 4096 from rfl, ofHalting_ok, pure_bind]
    cases hc : Mode.sv39.checkRange (Mode.sv39.ppnOf memStart) (Mode.sv39.ppnOf memStart)
        (Mode.sv39.ppnOf (Word.alignUp memEnd 4096) - Mode.sv39.ppnOf memStart) with
    | error f =>
      -- the range is refused: the root goes back
      rw [bind_run_ok (map_run_of_outside hroot (by decide) (by rw [hmode]; exact hc))]
      obtain ⟨m₄, hrun₄, -⟩ := releaseSpace_run_of_accounts hlta hlts hroot rfl
        (by rw [hsp]; simp) (by rw [hfr]; exact hacc₂)
      dsimp only
      rw [bind_run_ok hrun₄]
      refine ⟨_, _, rfl, fun g => ?_⟩
      simp [setupFault, hk, hc]
    | ok u =>
      -- a range of no pages maps nothing, and a new identifier allocator hands out one
      have hzero := hempty hc
      rw [hzero] at hc ⊢
      rw [bind_run_ok (map_run_of_empty hroot (by rw [hmode]; exact Mode.sound_sv39) (by decide)
        (by rw [hmode]; exact hc))]
      obtain ⟨asids, halloc⟩ := IdAllocator.alloc_new m.registers.probeMaxAsid.1
      dsimp only
      rw [halloc]
      dsimp only
      rw [bind_run_ok (activateSupervisor_run hroot hmode 0)]
      refine ⟨_, _, rfl, fun g => ?_⟩
      simp [setupFault, hk, hzero, hc, Mode.tablesNeeded_zero Mode.sound_sv39 hc]

/-! ## Booting -/

/-- Writing tagged lines changes the log and nothing else. -/
theorem printTagged_run (tag : String) (texts : List String) (m : Machine) :
    ∃ log, (printTagged tag texts).run m = .ok () { m with log := log } := by
  have hmod : ∀ f : Machine → Machine, (modify f : Run Unit).run m = .ok () (f m) := fun _ => rfl
  rw [printTagged, hmod]
  split
  · exact ⟨m.log, rfl⟩
  · exact ⟨_, rfl⟩

/-- The fault that booting with RAM `[memStart, memEnd)` and an image ending at `kernelEnd` halts
with: no frame past the image, then a range of RAM that `sv39` cannot map, then too few frames
for the root and the tables that mapping RAM needs, and otherwise the hart set up. -/
def bootFault (memStart memEnd kernelEnd : UInt64) : Fault :=
  let firstFree := Mode.sv39.ppnOf (Word.alignUp kernelEnd 4096)
  let stop := Mode.sv39.ppnOf memEnd
  let first := Mode.sv39.ppnOf memStart
  let last := Mode.sv39.ppnOf (Word.alignUp memEnd 4096)
  if stop ≤ firstFree then .noUsableMemory
  else if ¬ (first ≤ last ∧ last.toNat ≤ 2 ^ 27) then .rangeOutOfBounds
  else if stop.toNat - firstFree.toNat < 1 + Mode.sv39.tablesNeeded first first (last - first) then
    .outOfMemory
  else .bootReturned

/-- Once the image leaves frames below the end of RAM, the fault of booting is the fault of
setting up the hart with those frames free, or `bootReturned` when it returns a hart. -/
theorem bootFault_eq_setupFault {memStart memEnd kernelEnd : UInt64}
    (hlt : ¬ Mode.sv39.ppnOf memEnd ≤ Mode.sv39.ppnOf (Word.alignUp kernelEnd 4096)) :
    bootFault memStart memEnd kernelEnd = (setupFault
      ((Mode.sv39.ppnOf memEnd).toNat - (Mode.sv39.ppnOf (Word.alignUp kernelEnd 4096)).toNat)
      (Mode.sv39.ppnOf memStart) (Mode.sv39.ppnOf (Word.alignUp memEnd 4096))).getD
        .bootReturned := by
  have hk : (Mode.sv39.ppnOf memEnd).toNat -
      (Mode.sv39.ppnOf (Word.alignUp kernelEnd 4096)).toNat ≠ 0 := by
    rw [UInt64.le_iff_toNat_le] at hlt
    omega
  rw [bootFault, setupFault, if_neg hk, if_neg hlt]
  cases hc : Mode.sv39.checkRange (Mode.sv39.ppnOf memStart) (Mode.sv39.ppnOf memStart)
      (Mode.sv39.ppnOf (Word.alignUp memEnd 4096) - Mode.sv39.ppnOf memStart) with
  | error f =>
    have hr : ¬ (Mode.sv39.ppnOf memStart ≤ Mode.sv39.ppnOf (Word.alignUp memEnd 4096) ∧
        (Mode.sv39.ppnOf (Word.alignUp memEnd 4096)).toNat ≤ 2 ^ 27) := by
      rw [← Mode.sv39_checkRange_identity, hc]
      exact fun h => by cases h
    rw [if_pos hr, Mode.checkRange_eq_error hc]
    rfl
  | ok u =>
    rw [if_neg (not_not.2 ((Mode.sv39_checkRange_identity _ _).1 hc))]
    dsimp only
    split <;> rfl

/-- Booting halts with the fault that setting up the hart returned, or with `bootReturned` when
it returned a hart. -/
theorem halt_of_setup {res : Except Fault HartRef} {o : Option Fault}
    (hres : ∀ f, res = .error f ↔ o = some f) (m : Machine) :
    ∃ h m', (match res with
      | .error f => halt (Halt.silent f)
      | .ok _ => halt (Halt.silent .bootReturned) : Run Unit).run m = .error h m' ∧
      h.fault = some (o.getD .bootReturned) := by
  cases res with
  | error f =>
    refine ⟨_, _, halt_run _ _, ?_⟩
    rw [(hres f).1 rfl]
    rfl
  | ok hr =>
    refine ⟨_, _, halt_run _ _, ?_⟩
    have hnone : o = none := Option.eq_none_iff_forall_ne_some.2 fun g hg => by cases (hres g).2 hg
    rw [hnone]
    rfl

/-- Booting always halts, once, with the fault that the layout of memory decides. -/
theorem boot_halts_with_bootFault (hartId memStart memEnd kernelStart kernelEnd : UInt64)
    (m : Machine) :
    ∃ h m', (boot hartId memStart memEnd kernelStart kernelEnd).run m = .error h m' ∧
      h.fault = some (bootFault memStart memEnd kernelEnd) := by
  let m₁ : Machine := { m with log := m.log.attach (some consoleSink) }
  rw [boot, bind_run_ok (show (modify _ : Run Unit).run m = .ok () m₁ from rfl)]
  dsimp only
  rw [show Mode.sv39.pageSize Level.leaf = .ok 4096 from rfl, ofHalting_ok, pure_bind]
  by_cases hle : Mode.sv39.ppnOf memEnd ≤ Mode.sv39.ppnOf (Word.alignUp kernelEnd 4096)
  · -- the image leaves no frame below the end of RAM
    rw [if_pos hle, bind_run_error (halt_run _ _)]
    refine ⟨_, _, rfl, ?_⟩
    rw [bootFault, if_pos hle]
    rfl
  · rw [if_neg hle]
    have hFE : Mode.sv39.ppnOf (Word.alignUp kernelEnd 4096) ≤ Mode.sv39.ppnOf memEnd :=
      UInt64.le_of_lt (UInt64.not_le.1 hle)
    let a : AllocatorRef := ⟨m₁.allocators.size⟩
    let c : AllocatorCell :=
      { frames := FrameAllocator.new (Mode.sv39.ppnOf (Word.alignUp kernelEnd 4096))
          (Mode.sv39.ppnOf memEnd) }
    let m₂ : Machine := { m₁ with allocators := m₁.allocators.push c }
    rw [bind_run_ok (show (newAllocator _ _).run m₁ = .ok a m₂ from rfl),
      bind_run_ok (cell_run m₂ a)]
    obtain ⟨log, hrun₃⟩ := printTagged_run bootTag (memoryMapLines memStart memEnd kernelStart
      kernelEnd (m₂.cellAt a).frames.freeFrames (m₂.cellAt a).frames.watermark) m₂
    rw [bind_run_ok hrun₃]
    set m₃ : Machine := { m₂ with log := log } with hm₃
    have hcell : m₃.cellAt a = c := by
      simp [hm₃, cellAt, m₂, a]
    have hlt : a.index < m₃.allocators.size := by simp [hm₃, m₂, a]
    have hacc : Accounts (m₃.cellAt a).frames [] := by
      rw [hcell]
      exact Accounts.new _ _
    obtain ⟨res, m₄, hrun₄, hres⟩ : ∃ res m₄, (setupHart hartId a memStart memEnd).run m₃ =
        .ok res m₄ ∧ ∀ f, res = .error f ↔ setupFault (m₃.cellAt a).frames.freeFrames.toNat
          (Mode.sv39.ppnOf memStart) (Mode.sv39.ppnOf (Word.alignUp memEnd 4096)) = some f := by
      by_cases hE : (Mode.sv39.ppnOf memEnd).toNat ≤ 2 ^ 44
      · exact setupHart_result hartId memStart memEnd hlt hacc
          (by rw [hcell, stop_new hFE]; exact hE)
      · -- RAM ends past the frames an entry can name: its range is refused, or its end rounds
        -- up to `0` and the range has no page
        refine setupHart_result_of_no_tables hartId memStart memEnd hlt hacc fun hc => ?_
        obtain ⟨hfirst, hlast⟩ := (Mode.sv39_checkRange_identity _ _).1 hc
        rcases Mode.ppnOf_alignUp_of_large (Nat.lt_of_not_le hE) with h0 | hbig
        · apply UInt64.toNat_inj.1
          rw [UInt64.toNat_sub_of_le _ _ hfirst, h0, UInt64.toNat_zero, Nat.zero_sub]
        · exact absurd hlast (Nat.not_le_of_lt hbig)
    rw [hcell, freeFrames_new hFE] at hres
    rw [bind_run_ok hrun₄, bootFault_eq_setupFault hle]
    exact halt_of_setup hres _

-- RAM of one 2 MiB block maps with one table below the root: two frames past the image are
-- enough, and one is not.
example : bootFault 0x80000000 0x80200000 0x801FE000 = .bootReturned := by decide +kernel
example : bootFault 0x80000000 0x80200000 0x801FF000 = .outOfMemory := by decide +kernel
-- RAM up to the last address rounds its end up to `0`: the hart maps no page and needs only the
-- frame of its root.
example : bootFault 0 0xffffffffffffffff 0xffffffffffffdfff = .bootReturned := by decide +kernel

end Machine

end Paging
