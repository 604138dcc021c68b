import Paging.Memory
import Paging.Frame.Allocator
import Paging.Identifier
import Paging.Register
import Paging.Log.Logger
import Paging.Entry
/-!
# The machine

The state that paging code works on: RAM, the frame allocators with the calls made to each,
frame boxes, address spaces, identifier allocators, harts, the paging registers and the
log. Objects are named by their position in the machine (`AllocatorRef`, `SpaceRef`, …).

Code runs in `Run`, which either returns or halts the hart. A halt keeps the state it reached,
so what happened before it stays visible; halting prints the diagnostic line and the banner to
the log (`Run.halt`).

This module also holds the operations on frame allocators and frame boxes, each logged in the
allocator's list of calls.
-/

namespace Paging

/-- A call made to a frame allocator, with its answer. -/
inductive AllocatorCall where
  /-- A request for one frame. -/
  | allocFrame (result : Except Fault PhysPage)
  /-- A request for `count` frames aligned to `align`. -/
  | allocFrames (count align : UInt64) (result : Except Fault PhysPage)
  /-- A frame given back; it is logged before the allocator looks at it. -/
  | free (ppn : PhysPage)

/-- A frame allocator of the machine and the calls made to it, oldest first. -/
structure AllocatorCell where
  frames : FrameAllocator
  calls : Array AllocatorCall := #[]

instance : Inhabited AllocatorCell := ⟨⟨FrameAllocator.new 0 0, #[]⟩⟩

/-- A frame allocator of the machine. -/
structure AllocatorRef where
  index : Nat
  deriving DecidableEq, Repr, Inhabited

/-- A frame box of the machine. -/
structure BoxRef where
  index : Nat
  deriving DecidableEq, Repr, Inhabited

/-- An address space of the machine. -/
structure SpaceRef where
  index : Nat
  deriving DecidableEq, Repr, Inhabited

/-- An identifier allocator of the machine. -/
structure IdsRef where
  index : Nat
  deriving DecidableEq, Repr, Inhabited

/-- A hart of the machine. -/
structure HartRef where
  index : Nat
  deriving DecidableEq, Repr, Inhabited

/-- A run of frames owned together and given back together to the allocator they came from. -/
structure FrameBox where
  ppn : PhysPage
  frames : UInt64
  alloc : AllocatorRef
  deriving DecidableEq, Repr, Inhabited

/-- A tree of page tables of one mode: the root table, and the tables below it in the order they
were made. After its release a space has no root. -/
structure AddressSpace where
  mode : Mode
  alloc : AllocatorRef
  root : Option FrameBox
  tables : Array FrameBox := #[]
  deriving Repr

instance : Inhabited AddressSpace := ⟨⟨Mode.sv39, default, none, #[]⟩⟩

/-- The frames that a space owns: its root and every table below it. -/
def AddressSpace.ownedFrames (s : AddressSpace) : UInt64 :=
  match s.root with
  | none => 0
  | some root => s.tables.foldl (fun n b => n + b.frames) root.frames

/-- A hart set up to run: its identifier allocator, its space until it is released, the
identifier it runs with and the register value that selects its space. -/
structure Hart where
  id : UInt64
  ids : IdsRef
  space : Option SpaceRef
  asid : UInt16
  satp : UInt64
  deriving DecidableEq, Repr, Inhabited

/-- The number of the log's sink that a machine starts with as current. -/
def Machine.logSink : Nat := 0

/-- The number of the console's sink. -/
def Machine.consoleSink : Nat := 1

/-- A log with a plain sink, current, and a console sink. -/
def Machine.initialLog : Logger :=
  { sinks := #[{}, { console := true }], current := some Machine.logSink }

/-- The state that paging code works on. -/
structure Machine where
  memory : Memory := {}
  allocators : Array AllocatorCell := #[]
  boxes : Array FrameBox := #[]
  spaces : Array AddressSpace := #[]
  idAllocators : Array IdAllocator := #[]
  harts : Array Hart := #[]
  registers : RegisterFile := {}
  log : Logger := Machine.initialLog

/-- Code on the machine: it returns, or halts the hart with the state it reached. -/
abbrev Run := EStateM Halt Machine

namespace Run

/-- Prints the text to the log. -/
def print (s : String) : Run Unit :=
  modify fun m => { m with log := m.log.printText s }

/-- Stops the hart: prints what the halt prints, and ends the run. -/
def halt {α : Type} (h : Halt) : Run α := do
  print h.text
  throw h

/-- Runs a computation that may halt. -/
def ofHalting {α : Type} : Except Halt α → Run α
  | .ok a => pure a
  | .error h => halt h

end Run

open Run

/-! ## Frame allocators -/

namespace Machine

/-- Adds a frame allocator of `[start, stop)`. -/
def newAllocator (start stop : PhysPage) : Run AllocatorRef :=
  modifyGet fun m => (⟨m.allocators.size⟩,
    { m with allocators := m.allocators.push { frames := FrameAllocator.new start stop } })

/-- The allocator and its calls. -/
def cell (a : AllocatorRef) : Run AllocatorCell := do
  return (← get).allocators[a.index]?.getD default

/-- Replaces the allocator and its calls. -/
def setCell (a : AllocatorRef) (c : AllocatorCell) : Run Unit :=
  modify fun m => { m with allocators := m.allocators.set! a.index c }

/-- Asks the allocator for one frame. -/
def allocFrame (a : AllocatorRef) : Run (Except Fault PhysPage) := do
  let c ← cell a
  match c.frames.allocFrame with
  | .ok (ppn, frames) =>
    setCell a { frames := frames, calls := c.calls.push (.allocFrame (.ok ppn)) }
    return .ok ppn
  | .error f =>
    setCell a { c with calls := c.calls.push (.allocFrame (.error f)) }
    return .error f

/-- Asks the allocator for `count` frames aligned to `align`. -/
def allocFrames (a : AllocatorRef) (count align : UInt64) : Run (Except Fault PhysPage) := do
  let c ← cell a
  match c.frames.allocFrames count align with
  | .ok (ppn, frames) =>
    setCell a { frames := frames, calls := c.calls.push (.allocFrames count align (.ok ppn)) }
    return .ok ppn
  | .error f =>
    setCell a { c with calls := c.calls.push (.allocFrames count align (.error f)) }
    return .error f

/-- Gives a frame back to the allocator; a broken contract halts. -/
def freeFrame (a : AllocatorRef) (ppn : PhysPage) : Run Unit := do
  let c ← cell a
  let c := { c with calls := c.calls.push (.free ppn) }
  setCell a c
  match c.frames.free ppn with
  | .ok frames => setCell a { c with frames := frames }
  | .error h => halt h

/-! ## Frame boxes -/

/-- A box of one frame from the allocator. -/
def newBox (a : AllocatorRef) : Run (Except Fault FrameBox) := do
  return (← allocFrame a).map fun ppn => ⟨ppn, 1, a⟩

/-- A box of `count` frames aligned to `align` from the allocator. -/
def newContiguousBox (a : AllocatorRef) (count align : UInt64) : Run (Except Fault FrameBox) := do
  return (← allocFrames a count align).map fun ppn => ⟨ppn, count, a⟩

/-- Gives every frame of the box back, lowest first; the box then owns none. -/
def releaseBox (b : FrameBox) : Run FrameBox := do
  (List.range b.frames.toNat).forM fun i => freeFrame b.alloc (b.ppn + i.toUInt64)
  return { b with frames := 0 }

/-- Adds a box to the machine. -/
def addBox (b : FrameBox) : Run BoxRef :=
  modifyGet fun m => (⟨m.boxes.size⟩, { m with boxes := m.boxes.push b })

/-- The box. -/
def box (r : BoxRef) : Run FrameBox := do
  return (← get).boxes[r.index]?.getD default

/-- Gives back the frames of a box of the machine. -/
def releaseStoredBox (r : BoxRef) : Run FrameBox := do
  let b ← releaseBox (← box r)
  modify fun m => { m with boxes := m.boxes.set! r.index b }
  return b

/-! ## Identifier allocators -/

/-- Adds an identifier allocator. -/
def addIds (a : IdAllocator) : Run IdsRef :=
  modifyGet fun m => (⟨m.idAllocators.size⟩, { m with idAllocators := m.idAllocators.push a })

/-- The identifier allocator. -/
def ids (r : IdsRef) : Run IdAllocator := do
  return (← get).idAllocators[r.index]?.getD (IdAllocator.new 0)

/-- Replaces the identifier allocator. -/
def setIds (r : IdsRef) (a : IdAllocator) : Run Unit :=
  modify fun m => { m with idAllocators := m.idAllocators.set! r.index a }

/-- Hands out an identifier. -/
def allocId (r : IdsRef) : Run (Except Fault UInt16) := do
  match (← ids r).alloc with
  | .ok (id, a) => setIds r a; return .ok id
  | .error f => return .error f

/-- Takes an identifier back; a broken contract halts. -/
def freeId (r : IdsRef) (id : UInt16) : Run Unit := do
  match (← ids r).free id with
  | .ok a => setIds r a
  | .error h => halt h

/-! ## Memory -/

/-- The entry stored at `addr`. -/
def readEntry (addr : PhysAddr) : Run Entry := do
  return ⟨(← get).memory.readWord addr⟩

/-- Stores the entry at `addr`. -/
def writeEntry (addr : PhysAddr) (e : Entry) : Run Unit :=
  modify fun m => { m with memory := m.memory.writeWord addr e.raw }

/-- Sets the `size` bytes from `addr` on to `v`. -/
def fillMemory (addr : PhysAddr) (size : Nat) (v : UInt8) : Run Unit :=
  modify fun m => { m with memory := m.memory.fill addr size v }

end Machine

end Paging
