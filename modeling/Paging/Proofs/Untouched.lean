import Paging.Proofs.RunSpec
/-!
# What mapping and releasing leave alone

A frame allocator manages a fixed range of frames: handing frames out and taking them back move
its watermark and its stack of recycled frames, never the range. Mapping in a space and releasing
it reach the allocators only through such requests, and touch neither the registers, nor the
identifier allocators, nor the harts. Whatever they end in, they leave all of these as they were
(`Machine.Untouched.keeps_map`, `Machine.Untouched.keeps_releaseSpace`). With the frames held by
its clients the same, an allocator then has as many free frames as before
(`FrameAllocator.Accounts.freeFrames_eq`).

`Run.Keeps J x` says that the code `x` keeps the property `J` of the state, whether it returns or
halts. It goes through `bind` and loops over lists, so each function is shown to keep it
statement by statement, from the primitives up.
-/

namespace Paging

open FrameAllocator

namespace Run

/-- The code keeps the property `J` of the state, whether it returns or halts. -/
def Keeps {α : Type} (J : Machine → Prop) (x : Run α) : Prop :=
  Spec J x (fun _ => J) J

namespace Keeps

variable {α β : Type} {J : Machine → Prop}

theorem pure (a : α) : Keeps J (Pure.pure a) :=
  Spec.pure fun _ h => h

theorem bind {x : Run α} {f : α → Run β} (hx : Keeps J x) (hf : ∀ a, Keeps J (f a)) :
    Keeps J (x >>= f) :=
  Spec.bind hx hf

theorem forM {γ : Type} {f : γ → Run PUnit} (l : List γ) (h : ∀ c ∈ l, Keeps J (f c)) :
    Keeps J (l.forM f) :=
  Spec.forM l (I := fun _ => J) fun k hk => h l[k] (List.getElem_mem hk)

/-- Code that returns in a state where `J` still holds keeps it. -/
theorem of_run {x : Run α} (h : ∀ m, J m → ∃ a m', x.run m = .ok a m' ∧ J m') : Keeps J x := by
  intro m hm
  obtain ⟨a, m', hr, hm'⟩ := h m hm
  rw [hr]
  exact hm'

end Keeps

end Run

namespace FrameAllocator.Accounts

/-- Two states of an allocator with one range and the same frames held have as many free
frames. -/
theorem freeFrames_eq {a a' : FrameAllocator} {held : List PhysPage} (h : Accounts a held)
    (h' : Accounts a' held) (hstart : a'.start = a.start) (hstop : a'.stop = a.stop) :
    a'.freeFrames = a.freeFrames := by
  have hn := h.freeFrames_add_length
  have hn' := h'.freeFrames_add_length
  rw [hstart, hstop] at hn'
  exact UInt64.toNat_inj.1 (by omega)

end FrameAllocator.Accounts

/-- The range of frames that the allocator manages. -/
def AllocatorCell.range (c : AllocatorCell) : PhysPage × PhysPage :=
  (c.frames.start, c.frames.stop)

namespace Machine

open Run

/-- The ranges of frames of the machine's allocators, in order. -/
def ranges (m : Machine) : List (PhysPage × PhysPage) :=
  m.allocators.toList.map AllocatorCell.range

/-- Two machines with the same ranges give each allocator the same range. -/
theorem range_cellAt_of_ranges {m m' : Machine} (h : m'.ranges = m.ranges) (a : AllocatorRef) :
    (m'.cellAt a).range = (m.cellAt a).range := by
  have hi := congrArg (fun l => l[a.index]?) h
  simp only [ranges, List.getElem?_map, Array.getElem?_toList] at hi
  unfold cellAt
  cases h₁ : m'.allocators[a.index]? with
  | none =>
    cases h₂ : m.allocators[a.index]? with
    | none => rfl
    | some c => rw [h₁, h₂] at hi; cases hi
  | some c' =>
    cases h₂ : m.allocators[a.index]? with
    | none => rw [h₁, h₂] at hi; cases hi
    | some c => rw [h₁, h₂] at hi; exact Option.some.inj hi

/-- Replacing an allocator by one with its range keeps the ranges. -/
theorem ranges_withCell (m : Machine) {a : AllocatorRef} {c : AllocatorCell}
    (hc : c.range = (m.cellAt a).range) : (m.withCell a c).ranges = m.ranges := by
  rw [ranges, ranges, withCell, Array.set!_eq_setIfInBounds, Array.toList_setIfInBounds,
    List.map_set]
  by_cases hlt : a.index < m.allocators.size
  · have hget : m.cellAt a = m.allocators[a.index] := by
      simp [cellAt, hlt]
    rw [hc, hget, ← Array.getElem_toList, ← List.getElem_map AllocatorCell.range,
      List.set_getElem_self]
    simpa using hlt
  · rw [List.set_eq_of_length_le (by simpa using hlt)]

/-- What mapping and releasing leave alone: `m` has the ranges of the allocators, the registers,
the identifier allocators and the harts of `m₀`. -/
def Untouched (m₀ m : Machine) : Prop :=
  m.ranges = m₀.ranges ∧ m.registers = m₀.registers ∧ m.idAllocators = m₀.idAllocators ∧
    m.harts = m₀.harts

namespace Untouched

variable {m₀ m : Machine}

theorem refl (m : Machine) : Untouched m m :=
  ⟨rfl, rfl, rfl, rfl⟩

theorem trans {m' : Machine} (h : Untouched m₀ m) (h' : Untouched m m') : Untouched m₀ m' :=
  ⟨h'.1.trans h.1, h'.2.1.trans h.2.1, h'.2.2.1.trans h.2.2.1, h'.2.2.2.trans h.2.2.2⟩

/-- Each allocator keeps its range. -/
theorem range_cellAt (h : Untouched m₀ m) (a : AllocatorRef) :
    (m.cellAt a).range = (m₀.cellAt a).range :=
  range_cellAt_of_ranges h.1 a

/-- Replacing an allocator by one with its range leaves the rest alone. -/
theorem withCell (h : Untouched m₀ m) {a : AllocatorRef} {c : AllocatorCell}
    (hc : c.range = (m.cellAt a).range) : Untouched m₀ (m.withCell a c) :=
  ⟨(ranges_withCell m hc).trans h.1, h.2⟩

/-! ## The primitives -/

section Primitives

theorem keeps_space (r : SpaceRef) : Keeps (Untouched m₀) (space r) :=
  Keeps.of_run fun m h => ⟨_, _, space_run m r, h⟩

theorem keeps_setSpace (r : SpaceRef) (s : AddressSpace) :
    Keeps (Untouched m₀) (setSpace r s) :=
  Keeps.of_run fun m h => ⟨_, _, setSpace_run m r s, h⟩

theorem keeps_addTable (r : SpaceRef) (b : FrameBox) : Keeps (Untouched m₀) (addTable r b) :=
  Keeps.of_run fun m h => ⟨_, _, addTable_run m r b, h⟩

theorem keeps_readEntry (addr : PhysAddr) : Keeps (Untouched m₀) (readEntry addr) :=
  Keeps.of_run fun m h => ⟨_, _, readEntry_run m addr, h⟩

theorem keeps_writeEntry (addr : PhysAddr) (e : Entry) :
    Keeps (Untouched m₀) (writeEntry addr e) :=
  Keeps.of_run fun m h => ⟨_, _, writeEntry_run m addr e, h⟩

theorem keeps_fillMemory (addr : PhysAddr) (size : Nat) (v : UInt8) :
    Keeps (Untouched m₀) (fillMemory addr size v) :=
  Keeps.of_run fun m h => ⟨_, _, fillMemory_run m addr size v, h⟩

theorem keeps_halt {α : Type} (e : Halt) : Keeps (Untouched m₀) (halt e : Run α) :=
  fun _ h => h

/-- Code after a halt never runs. -/
theorem keeps_halt_bind {α β : Type} (e : Halt) (f : α → Run β) :
    Keeps (Untouched m₀) (halt e >>= f) := fun m h => by
  rw [bind_run_error (halt_run e m)]
  exact h

theorem keeps_ofHalting {α : Type} (x : Except Halt α) :
    Keeps (Untouched m₀) (ofHalting x) := by
  cases x with
  | ok a => exact Keeps.pure a
  | error e => exact keeps_halt e

theorem keeps_rootPage (r : SpaceRef) : Keeps (Untouched m₀) (rootPage r) := by
  refine Keeps.bind (keeps_space r) fun s => ?_
  split
  · exact Keeps.pure _
  · exact keeps_halt _

theorem keeps_slotOf (M : Mode) (table : PhysPage) (L : Level) (vpn : VirtPage) :
    Keeps (Untouched m₀) (slotOf M table L vpn) :=
  Keeps.bind (keeps_ofHalting _) fun _ =>
    Keeps.bind (keeps_ofHalting _) fun _ => Keeps.pure _

/-- A request for frames moves the watermark and the recycled frames only. -/
theorem keeps_allocFrames (a : AllocatorRef) (count align : UInt64) :
    Keeps (Untouched m₀) (allocFrames a count align) := by
  intro m h
  cases ha : (m.cellAt a).frames.allocFrames count align with
  | ok p =>
    obtain ⟨ppn, fr⟩ := p
    have hr := allocFrames_range ha
    rw [allocFrames_run_ok ha]
    exact h.withCell (by rw [AllocatorCell.range, AllocatorCell.range, hr.1, hr.2])
  | error f =>
    rw [allocFrames_run_error ha]
    exact h.withCell rfl

/-- A frame given back joins the recycled frames, or the hart halts. -/
theorem keeps_freeFrame (a : AllocatorRef) (ppn : PhysPage) :
    Keeps (Untouched m₀) (freeFrame a ppn) := by
  intro m h
  rw [freeFrame, bind_run_ok (cell_run m a)]
  dsimp only
  rw [bind_run_ok (setCell_run m a _)]
  have h₁ : Untouched m₀
      (m.withCell a { m.cellAt a with calls := (m.cellAt a).calls.push (.free ppn) }) :=
    h.withCell rfl
  split
  · rename_i fr hfr
    obtain ⟨-, -, -, rfl⟩ := free_eq_ok hfr
    rw [setCell_run, withCell_withCell]
    exact h.withCell rfl
  · exact keeps_halt _ _ h₁

theorem keeps_releaseBox (b : FrameBox) : Keeps (Untouched m₀) (releaseBox b) :=
  Keeps.bind (Keeps.forM _ fun _ _ => keeps_freeFrame _ _) fun _ => Keeps.pure _

theorem keeps_newTable (M : Mode) (a : AllocatorRef) (L : Level) :
    Keeps (Untouched m₀) (newTable M a L) := by
  refine Keeps.bind (keeps_ofHalting _) fun frames => ?_
  refine Keeps.bind (Keeps.bind (keeps_allocFrames a frames frames) fun _ =>
    Keeps.pure _) fun res => ?_
  split
  · exact Keeps.pure _
  · exact Keeps.bind (keeps_ofHalting _) fun _ =>
      Keeps.bind (keeps_fillMemory _ _ _) fun _ => Keeps.pure _

theorem keeps_addSpace (s : AddressSpace) : Keeps (Untouched m₀) (addSpace s) :=
  Keeps.of_run fun m h => ⟨_, _, addSpace_run m s, h⟩

/-- Making a space leaves alone what `Untouched` names, whatever it ends in. -/
theorem keeps_newSpace (M : Mode) (a : AllocatorRef) : Keeps (Untouched m₀) (newSpace M a) := by
  refine Keeps.bind (keeps_newTable M a M.topLevel) fun res => ?_
  split
  · exact Keeps.pure _
  · exact Keeps.bind (keeps_addSpace _) fun _ => Keeps.pure _

end Primitives

/-! ## Mapping and releasing -/

section Mapping

variable (r : SpaceRef)

theorem keeps_descend (M : Mode) (a : AllocatorRef) (vpn : VirtPage) :
    ∀ (levels : List Level) (table : PhysPage),
      Keeps (Untouched m₀) (descend r M a vpn levels table)
  | [], _ => Keeps.pure _
  | L :: rest, table => by
    rw [descend]
    refine Keeps.bind (keeps_slotOf M table L vpn) fun slot =>
      Keeps.bind (keeps_readEntry slot) fun e => ?_
    split
    · refine Keeps.bind (keeps_newTable M a (L - 1)) fun res => ?_
      split
      · exact Keeps.pure _
      · exact Keeps.bind (keeps_writeEntry _ _) fun _ =>
          Keeps.bind (keeps_addTable r _) fun _ => keeps_descend M a vpn rest _
    · split
      · exact keeps_halt _
      · exact keeps_descend M a vpn rest _

theorem keeps_tableFor (L : Level) (vpn : VirtPage) :
    Keeps (Untouched m₀) (tableFor r L vpn) := by
  refine Keeps.bind (keeps_space r) fun s =>
    Keeps.bind (keeps_ofHalting _) fun levels =>
      Keeps.bind (keeps_descend r _ _ _ _ _) fun res => ?_
  split
  · exact Keeps.pure _
  · exact Keeps.bind (keeps_ofHalting _) fun _ => Keeps.pure _

theorem keeps_mapRun (L : Level) (start stop vpn : VirtPage) (ppn : PhysPage)
    (flags : Flags) : Keeps (Untouched m₀) (mapRun r L start stop vpn ppn flags) := by
  refine Keeps.bind (keeps_tableFor r L start) fun res => ?_
  split
  · exact Keeps.pure _
  · refine Keeps.bind (keeps_space r) fun s =>
      Keeps.bind (keeps_ofHalting _) fun range => ?_
    refine Keeps.bind (Keeps.forM _ fun k _ => ?_) fun _ => Keeps.pure _
    refine Keeps.bind (keeps_ofHalting _) fun page =>
      Keeps.bind (keeps_readEntry _) fun e => ?_
    dsimp only
    split
    · exact keeps_halt_bind _ _
    · exact keeps_writeEntry _ _

theorem keeps_mapPieces (M : Mode) (seg : Segment) (vpn : VirtPage) (ppn : PhysPage)
    (flags : Flags) (fuel : Nat) (start : VirtPage) :
    Keeps (Untouched m₀) (mapPieces r M seg vpn ppn flags fuel start) := by
  induction fuel generalizing start with
  | zero => exact Keeps.pure _
  | succ fuel ih =>
    rw [mapPieces]
    split
    · -- the piece ends at the next block of the level above, or at the end of the segment
      dsimp only
      split
      · refine Keeps.bind (keeps_ofHalting _) fun next => Keeps.bind (Keeps.pure _)
          fun stop => Keeps.bind (keeps_mapRun r seg.level start stop vpn ppn flags)
          fun res => ?_
        split
        · exact Keeps.pure _
        · exact ih stop
      · refine Keeps.bind (Keeps.pure _) fun stop =>
          Keeps.bind (keeps_mapRun r seg.level start stop vpn ppn flags) fun res => ?_
        split
        · exact Keeps.pure _
        · exact ih stop
    · exact Keeps.pure _

theorem keeps_mapSegments (M : Mode) (vpn : VirtPage) (ppn : PhysPage) (flags : Flags) :
    ∀ segs : List Segment, Keeps (Untouched m₀) (mapSegments r M vpn ppn flags segs)
  | [] => Keeps.pure _
  | seg :: rest => by
    rw [mapSegments]
    refine Keeps.bind (keeps_mapPieces r M seg vpn ppn flags _ _) fun res => ?_
    split
    · exact Keeps.pure _
    · exact keeps_mapSegments M vpn ppn flags rest

/-- Mapping leaves alone what `Untouched` names, whatever it ends in. -/
theorem keeps_map (vpn : VirtPage) (ppn : PhysPage) (n : UInt64) (flags : Flags) :
    Keeps (Untouched m₀) (map r vpn ppn n flags) := by
  refine Keeps.bind (keeps_rootPage r) fun _ =>
    Keeps.bind (keeps_space r) fun s => ?_
  dsimp only
  split
  · exact keeps_halt_bind _ _
  · split
    · exact Keeps.pure _
    · exact Keeps.bind (keeps_ofHalting _) fun segs =>
        keeps_mapSegments r _ vpn ppn flags segs

/-- Releasing a space leaves alone what `Untouched` names, whatever it ends in. -/
theorem keeps_releaseSpace : Keeps (Untouched m₀) (releaseSpace r) := by
  refine Keeps.bind (keeps_space r) fun s => ?_
  split
  · exact Keeps.pure _
  · exact Keeps.bind (Keeps.forM _ fun b _ =>
      Keeps.bind (keeps_releaseBox b) fun _ => Keeps.pure _) fun _ =>
      Keeps.bind (keeps_setSpace r _) fun _ =>
        Keeps.bind (keeps_releaseBox _) fun _ => keeps_setSpace r _

end Mapping

end Untouched

end Machine

end Paging
