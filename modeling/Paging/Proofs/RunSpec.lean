import Paging.Proofs.TableMemory
/-!
# Specifications of machine code

`Run.Spec P x Q H` says what the machine code `x` does from any state where `P` holds: when it
returns, `Q` holds of its value and the state it ends in, and when it halts, `H` holds of the
state it halts in (a halt keeps the state it reached). The rules below take a specification
through `pure`, `bind`, a loop over a list, and a halt, so that a proof about a `do` block
follows the block statement by statement.

The second half gives the effect of each primitive of the machine as an equation: reading and
replacing a space or an allocator, asking an allocator for frames, and reading, writing and
clearing entries.
-/

namespace Paging

namespace Run

/-- Code after a step that returns runs from the state the step returned in. -/
theorem bind_run_ok {α β : Type} {x : Run α} {f : α → Run β} {m m' : Machine} {a : α}
    (h : x.run m = .ok a m') : (x >>= f).run m = (f a).run m' := by
  show EStateM.bind x f m = f a m'
  simp only [EStateM.bind]
  rw [show x m = _ from h]

/-- Code after a step that halts does not run. -/
theorem bind_run_error {α β : Type} {x : Run α} {f : α → Run β} {m m' : Machine} {e : Halt}
    (h : x.run m = .error e m') : (x >>= f).run m = .error e m' := by
  show EStateM.bind x f m = .error e m'
  simp only [EStateM.bind]
  rw [show x m = _ from h]

/-- The text that a halt prints, appended to the log. -/
theorem halt_run {α : Type} (h : Halt) (m : Machine) :
    (halt h : Run α).run m = .error h { m with log := m.log.printText h.text } :=
  rfl

theorem ofHalting_ok {α : Type} (a : α) : ofHalting (.ok a) = (Pure.pure a : Run α) :=
  rfl

/-- The end of a run satisfies `Q` of the value and the state when the run returns, and `H` of
the state when it halts. -/
def Ends {α : Type} (Q : α → Machine → Prop) (H : Machine → Prop) :
    EStateM.Result Halt Machine α → Prop
  | .ok a m' => Q a m'
  | .error _ m' => H m'

theorem Ends.mono {α : Type} {Q Q' : α → Machine → Prop} {H H' : Machine → Prop}
    {r : EStateM.Result Halt Machine α} (h : Ends Q H r) (hQ : ∀ a m, Q a m → Q' a m)
    (hH : ∀ m, H m → H' m) : Ends Q' H' r := by
  cases r with
  | ok a m => exact hQ a m h
  | error e m => exact hH m h

/-- A run of `x >>= f` ends as `f` ends from where `x` returned, or as `x` halted. -/
theorem ends_bind {α β : Type} {Q : α → Machine → Prop} {R : β → Machine → Prop}
    {H : Machine → Prop} {x : Run α} {f : α → Run β} {m : Machine} (hx : Ends Q H (x.run m))
    (hf : ∀ a m', Q a m' → Ends R H ((f a).run m')) : Ends R H ((x >>= f).run m) := by
  cases hr : x.run m with
  | ok a m' =>
    rw [hr] at hx
    rw [bind_run_ok hr]
    exact hf a m' hx
  | error e m' =>
    rw [hr] at hx
    rw [bind_run_error hr]
    exact hx

/-- From a state where `P` holds, `x` returns a value and a state where `Q` holds, or halts in a
state where `H` holds. -/
def Spec {α : Type} (P : Machine → Prop) (x : Run α) (Q : α → Machine → Prop)
    (H : Machine → Prop) : Prop :=
  ∀ m, P m → Ends Q H (x.run m)

namespace Spec

variable {α β : Type} {P P' : Machine → Prop} {Q Q' : α → Machine → Prop}
  {H H' : Machine → Prop}

theorem weaken {x : Run α} (h : Spec P x Q H) (hP : ∀ m, P' m → P m)
    (hQ : ∀ a m, Q a m → Q' a m) (hH : ∀ m, H m → H' m) : Spec P' x Q' H' :=
  fun m hm => (h m (hP m hm)).mono hQ hH

theorem pure {a : α} (h : ∀ m, P m → Q a m) : Spec P (Pure.pure a) Q H :=
  fun m hm => h m hm

theorem bind {x : Run α} {f : α → Run β} {R : β → Machine → Prop} (hx : Spec P x Q H)
    (hf : ∀ a, Spec (Q a) (f a) R H) : Spec P (x >>= f) R H :=
  fun m hm => ends_bind (hx m hm) fun a m' h => hf a m' h

/-- A loop over a list keeps an invariant that each turn keeps, the turns taken counted. -/
theorem forM {γ : Type} (l : List γ) {f : γ → Run PUnit} {I : Nat → Machine → Prop}
    (hf : ∀ k (hk : k < l.length), Spec (I k) (f l[k]) (fun _ => I (k + 1)) H) :
    Spec (I 0) (l.forM f) (fun _ => I l.length) H := by
  induction l generalizing I with
  | nil => exact pure fun _ h => h
  | cons c l ih =>
    simp only [List.forM]
    refine bind (hf 0 (by simp)) fun _ => ?_
    exact @ih (fun k => I (k + 1)) fun k hk => hf (k + 1) (by simpa using hk)

end Spec

end Run

/-! ## The primitives of the machine -/

namespace Machine

/-- The address space `r`, as the machine code reads it. -/
def spaceAt (m : Machine) (r : SpaceRef) : AddressSpace :=
  m.spaces[r.index]?.getD default

/-- The frame allocator `a` and its calls, as the machine code reads them. -/
def cellAt (m : Machine) (a : AllocatorRef) : AllocatorCell :=
  m.allocators[a.index]?.getD default

/-- The machine with the address space `r` replaced, as `setSpace` leaves it. -/
def withSpace (m : Machine) (r : SpaceRef) (s : AddressSpace) : Machine :=
  { m with spaces := m.spaces.set! r.index s }

/-- The machine with the frame allocator `a` replaced, as `setCell` leaves it. -/
def withCell (m : Machine) (a : AllocatorRef) (c : AllocatorCell) : Machine :=
  { m with allocators := m.allocators.set! a.index c }

/-- The machine with the memory replaced. -/
def withMemory (m : Machine) (mem : Memory) : Machine :=
  { m with memory := mem }

variable (m : Machine)

theorem space_run (r : SpaceRef) : (space r).run m = .ok (m.spaceAt r) m :=
  rfl

theorem setSpace_run (r : SpaceRef) (s : AddressSpace) :
    (setSpace r s).run m = .ok () (m.withSpace r s) :=
  rfl

theorem addSpace_run (s : AddressSpace) :
    (addSpace s).run m = .ok ⟨m.spaces.size⟩ { m with spaces := m.spaces.push s } :=
  rfl

theorem addTable_run (r : SpaceRef) (b : FrameBox) :
    (addTable r b).run m =
      .ok () (m.withSpace r { m.spaceAt r with tables := (m.spaceAt r).tables.push b }) :=
  rfl

theorem cell_run (a : AllocatorRef) : (cell a).run m = .ok (m.cellAt a) m :=
  rfl

theorem setCell_run (a : AllocatorRef) (c : AllocatorCell) :
    (setCell a c).run m = .ok () (m.withCell a c) :=
  rfl

theorem readEntry_run (addr : PhysAddr) :
    (readEntry addr).run m = .ok ⟨m.memory.readWord addr⟩ m :=
  rfl

theorem writeEntry_run (addr : PhysAddr) (e : Entry) :
    (writeEntry addr e).run m = .ok () (m.withMemory (m.memory.writeWord addr e.raw)) :=
  rfl

theorem fillMemory_run (addr : PhysAddr) (size : Nat) (v : UInt8) :
    (fillMemory addr size v).run m = .ok () (m.withMemory (m.memory.fill addr size v)) :=
  rfl

/-! ### Reading back what was replaced -/

theorem spaceAt_withSpace (r r' : SpaceRef) (s : AddressSpace) :
    (m.withSpace r s).spaceAt r' =
      if r.index = r'.index ∧ r.index < m.spaces.size then s else m.spaceAt r' := by
  simp only [withSpace, spaceAt, Array.set!_eq_setIfInBounds, Array.getElem?_setIfInBounds]
  by_cases h : r.index = r'.index
  · rw [← h]
    by_cases hlt : r.index < m.spaces.size <;> simp [hlt]
  · simp [h]

theorem cellAt_withCell (a a' : AllocatorRef) (c : AllocatorCell) :
    (m.withCell a c).cellAt a' =
      if a.index = a'.index ∧ a.index < m.allocators.size then c else m.cellAt a' := by
  simp only [withCell, cellAt, Array.set!_eq_setIfInBounds, Array.getElem?_setIfInBounds]
  by_cases h : a.index = a'.index
  · rw [← h]
    by_cases hlt : a.index < m.allocators.size <;> simp [hlt]
  · simp [h]

@[simp] theorem spaceAt_withSpace_self {r : SpaceRef} (h : r.index < m.spaces.size)
    (s : AddressSpace) : (m.withSpace r s).spaceAt r = s := by
  simp [spaceAt_withSpace, h]

@[simp] theorem cellAt_withCell_self {a : AllocatorRef} (h : a.index < m.allocators.size)
    (c : AllocatorCell) : (m.withCell a c).cellAt a = c := by
  simp [cellAt_withCell, h]

@[simp] theorem spaces_withCell (a : AllocatorRef) (c : AllocatorCell) :
    (m.withCell a c).spaces = m.spaces :=
  rfl

@[simp] theorem memory_withCell (a : AllocatorRef) (c : AllocatorCell) :
    (m.withCell a c).memory = m.memory :=
  rfl

@[simp] theorem size_allocators_withCell (a : AllocatorRef) (c : AllocatorCell) :
    (m.withCell a c).allocators.size = m.allocators.size := by
  simp [withCell]

@[simp] theorem allocators_withSpace (r : SpaceRef) (s : AddressSpace) :
    (m.withSpace r s).allocators = m.allocators :=
  rfl

@[simp] theorem memory_withSpace (r : SpaceRef) (s : AddressSpace) :
    (m.withSpace r s).memory = m.memory :=
  rfl

@[simp] theorem size_spaces_withSpace (r : SpaceRef) (s : AddressSpace) :
    (m.withSpace r s).spaces.size = m.spaces.size := by
  simp [withSpace]

@[simp] theorem spaces_withMemory (mem : Memory) : (m.withMemory mem).spaces = m.spaces :=
  rfl

@[simp] theorem allocators_withMemory (mem : Memory) :
    (m.withMemory mem).allocators = m.allocators :=
  rfl

@[simp] theorem memory_withMemory (mem : Memory) : (m.withMemory mem).memory = mem :=
  rfl

@[simp] theorem spaceAt_withCell (a : AllocatorRef) (c : AllocatorCell) (r : SpaceRef) :
    (m.withCell a c).spaceAt r = m.spaceAt r :=
  rfl

@[simp] theorem spaceAt_withMemory (mem : Memory) (r : SpaceRef) :
    (m.withMemory mem).spaceAt r = m.spaceAt r :=
  rfl

@[simp] theorem cellAt_withSpace (r : SpaceRef) (s : AddressSpace) (a : AllocatorRef) :
    (m.withSpace r s).cellAt a = m.cellAt a :=
  rfl

@[simp] theorem cellAt_withMemory (mem : Memory) (a : AllocatorRef) :
    (m.withMemory mem).cellAt a = m.cellAt a :=
  rfl

theorem withCell_withCell (a : AllocatorRef) (c c' : AllocatorCell) :
    (m.withCell a c).withCell a c' = m.withCell a c' := by
  simp [withCell, Array.setIfInBounds_setIfInBounds]

theorem withCell_withSpace (r : SpaceRef) (s : AddressSpace) (a : AllocatorRef)
    (c : AllocatorCell) : (m.withSpace r s).withCell a c = (m.withCell a c).withSpace r s :=
  rfl

theorem withCell_cellAt {a : AllocatorRef} (h : a.index < m.allocators.size) :
    m.withCell a (m.cellAt a) = m := by
  simp [withCell, cellAt, Array.setIfInBounds, h]

theorem spaceAt_of_spaces {m' : Machine} (h : m'.spaces = m.spaces) (r : SpaceRef) :
    m'.spaceAt r = m.spaceAt r := by
  rw [spaceAt, spaceAt, h]

theorem cellAt_of_allocators {m' : Machine} (h : m'.allocators = m.allocators) (a : AllocatorRef) :
    m'.cellAt a = m.cellAt a := by
  rw [cellAt, cellAt, h]

/-! ### Asking an allocator for frames -/

variable {m} {a : AllocatorRef}

theorem allocFrame_run_ok {ppn : PhysPage} {fr : FrameAllocator}
    (h : (m.cellAt a).frames.allocFrame = .ok (ppn, fr)) :
    (allocFrame a).run m =
      .ok (.ok ppn) (m.withCell a ⟨fr, (m.cellAt a).calls.push (.allocFrame (.ok ppn))⟩) := by
  rw [allocFrame, Run.bind_run_ok (cell_run m a), h]
  rfl

theorem allocFrame_run_error {f : Fault} (h : (m.cellAt a).frames.allocFrame = .error f) :
    (allocFrame a).run m = .ok (.error f) (m.withCell a
      ⟨(m.cellAt a).frames, (m.cellAt a).calls.push (.allocFrame (.error f))⟩) := by
  rw [allocFrame, Run.bind_run_ok (cell_run m a), h]
  rfl

theorem allocFrames_run_ok {count align ppn : UInt64} {fr : FrameAllocator}
    (h : (m.cellAt a).frames.allocFrames count align = .ok (ppn, fr)) :
    (allocFrames a count align).run m = .ok (.ok ppn)
      (m.withCell a ⟨fr, (m.cellAt a).calls.push (.allocFrames count align (.ok ppn))⟩) := by
  rw [allocFrames, Run.bind_run_ok (cell_run m a), h]
  rfl

theorem allocFrames_run_error {count align : UInt64} {f : Fault}
    (h : (m.cellAt a).frames.allocFrames count align = .error f) :
    (allocFrames a count align).run m = .ok (.error f) (m.withCell a ⟨(m.cellAt a).frames,
      (m.cellAt a).calls.push (.allocFrames count align (.error f))⟩) := by
  rw [allocFrames, Run.bind_run_ok (cell_run m a), h]
  rfl

/-- A frame that the allocator takes back is logged and recycled. -/
theorem freeFrame_run_ok {ppn : PhysPage} {fr : FrameAllocator}
    (h : (m.cellAt a).frames.free ppn = .ok fr) :
    (freeFrame a ppn).run m =
      .ok () (m.withCell a ⟨fr, (m.cellAt a).calls.push (.free ppn)⟩) := by
  rw [freeFrame, Run.bind_run_ok (cell_run m a)]
  dsimp only
  rw [h, Run.bind_run_ok (setCell_run m a _), setCell_run, withCell_withCell]

end Machine

end Paging
