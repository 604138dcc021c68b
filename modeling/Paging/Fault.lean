/-!
# Faults

Every fault that the paging system detects, as one type of causes. A fault belongs to the
component that detects it; a report names that component and gives one fixed message.

Some faults are returned to the caller (an allocator out of frames, a lookup that meets an
invalid entry); the others break a contract and halt the hart (see `Paging.Halt`). Which is
which is decided where the fault is raised, not here.
-/

namespace Paging

/-- A part of the system; its name heads the reports of the faults it detects. -/
inductive Component where
  /-- Paging geometry: levels, layouts and table shapes. -/
  | geometry
  /-- Address spaces: building, walking and reading page tables. -/
  | spaces
  /-- Physical frame allocation. -/
  | frames
  /-- Address-space identifier allocation. -/
  | identifiers
  /-- Reservation of host memory for tables built off-target. -/
  | hostMemory
  /-- Boot wiring of the hypervisor. -/
  | boot
  /-- The run-time system, for panics raised with a bare message. -/
  | runtime
  deriving DecidableEq, Repr

/-- The tag printed in reports of the component. -/
def Component.name : Component → String
  | .geometry => "mm"
  | .spaces => "vmm"
  | .frames => "frame_alloc"
  | .identifiers => "asid_alloc"
  | .hostMemory => "hostmem"
  | .boot => "kmain"
  | .runtime => "rt"

/-- A fault detected by the paging system. -/
inductive Fault where
  /-- A level at or above the mode's level count. -/
  | levelOutOfRange
  /-- A level whose blocks span the whole address width or more. -/
  | levelTooLarge
  /-- A level range whose lower bound exceeds its upper bound. -/
  | reversedLevels
  /-- A walk met an entry without the valid bit. -/
  | invalidEntry
  /-- A walk reached the lowest level without finding a leaf. -/
  | notLeafInLowestLevel
  /-- A mapping request reaches past the translatable pages or the encodable frames. -/
  | rangeOutOfBounds
  /-- A mapping would overwrite a valid entry. -/
  | alreadyMapped
  /-- A walk towards a lower level met a leaf on its way. -/
  | leafInWalk
  /-- A leaf mapping was asked for without any of the read, write or execute permissions. -/
  | noPermissions
  /-- An address space was used after its frames were given back. -/
  | spaceReleased
  /-- No frames, or no aligned run of frames, are left. -/
  | outOfMemory
  /-- A frame at or above the watermark was given back. -/
  | frameNotAllocated
  /-- A frame outside the managed range was given back. -/
  | frameOutOfRange
  /-- A frame was given back while already free. -/
  | doubleFree
  /-- A run of frames was asked for with an alignment that is not a power of two. -/
  | badAlignment
  /-- No identifiers are left. -/
  | idsExhausted
  /-- An identifier above the maximum was given back. -/
  | idAboveMax
  /-- An identifier that was never handed out was given back. -/
  | idNotAllocated
  /-- An identifier was given back while already free. -/
  | idAlreadyFreed
  /-- A reservation of host memory of zero frames. -/
  | zeroFrames
  /-- A reservation of host memory with an alignment that is not a power of two. -/
  | regionAlignment
  /-- The host refused to reserve memory. -/
  | hostRefused
  /-- The boot sequence came back, which it never should. -/
  | bootReturned
  /-- The hypervisor image leaves no frame of RAM above it. -/
  | noUsableMemory
  /-- A panic raised with a bare message. -/
  | panicText (text : String)
  deriving DecidableEq, Repr

/-- The component that detects the fault. -/
def Fault.component : Fault → Component
  | .levelOutOfRange | .levelTooLarge | .reversedLevels => .geometry
  | .invalidEntry | .notLeafInLowestLevel | .rangeOutOfBounds | .alreadyMapped | .leafInWalk
  | .noPermissions | .spaceReleased => .spaces
  | .outOfMemory | .frameNotAllocated | .frameOutOfRange | .doubleFree | .badAlignment => .frames
  | .idsExhausted | .idAboveMax | .idNotAllocated | .idAlreadyFreed => .identifiers
  | .zeroFrames | .regionAlignment | .hostRefused => .hostMemory
  | .bootReturned | .noUsableMemory => .boot
  | .panicText _ => .runtime

/-- The fixed message of the fault. -/
def Fault.message : Fault → String
  | .levelOutOfRange => "page level does not exist in paging mode"
  | .levelTooLarge => "page level covers more than the address width"
  | .reversedLevels => "level iterator bounds are reversed"
  | .invalidEntry => "page table entry is not valid"
  | .notLeafInLowestLevel => "lowest level entry is not a leaf"
  | .rangeOutOfBounds => "range exceeds the translatable address space"
  | .alreadyMapped => "page is already mapped"
  | .leafInWalk => "leaf entry found above the target level"
  | .noPermissions => "leaf mapping requires at least one of R, W or X"
  | .spaceReleased => "address space has been released"
  | .outOfMemory => "out of memory"
  | .frameNotAllocated => "frame was never allocated"
  | .frameOutOfRange => "frame is outside of the managed range"
  | .doubleFree => "frame is already free"
  | .badAlignment => "alignment must be a non-zero power of two"
  | .idsExhausted => "no identifiers left"
  | .idAboveMax => "identifier exceeds the hart maximum"
  | .idNotAllocated => "identifier was never allocated"
  | .idAlreadyFreed => "identifier is already free"
  | .zeroFrames => "requested region has no frames"
  | .regionAlignment => "region alignment must be a power of two"
  | .hostRefused => "unable to reserve host memory"
  | .bootReturned => "Kmain returned"
  | .noUsableMemory => "no usable memory after the hypervisor image"
  | .panicText text => text

/-- The tag of the component that detects the fault. -/
def Fault.module (f : Fault) : String :=
  f.component.name

/-- What a report of a fault says: the tag of a component and a message. Faults of this library
give their own (`Fault.report`), but a panic may be raised with any report. -/
structure Report where
  module : String
  message : String
  deriving DecidableEq, Repr

/-- The report of the fault. -/
def Fault.report (f : Fault) : Report :=
  ⟨f.module, f.message⟩

end Paging
