import Paging.Machine.Space
/-!
# Harts

Setting up a hart probes how wide its address-space identifiers are, makes an identifier
allocator of that width and a space of mode `sv39` that maps all of RAM onto itself, takes an
identifier and selects the space in the supervisor's register. A failure on the way gives the
space back and is returned. Releasing a hart gives back its identifier and its space, once.

Selecting a space writes its register value, flushes the cached mappings of the identifier, and
reads the register back.
-/

namespace Paging

open Run

namespace Machine

/-- The flags of the map of RAM onto itself: read, write and execute, global, and marked as
accessed and written. -/
def identityFlags : Flags :=
  Flags.rwx ||| Flags.accessed ||| Flags.dirty ||| Flags.global

/-- Selects a space of the supervisor with the identifier; the register's value read back. -/
def activateSupervisor (r : SpaceRef) (asid : UInt16) : Run UInt64 := do
  let s ← space r
  let bits := s.mode.satpBits asid (← rootPage r)
  modify fun m => { m with registers := { m.registers with satp := m.registers.satp.write bits } }
  return (← get).registers.satp.read

/-- Selects a guest space with the identifier; the register's value read back. -/
def activateGuest (r : SpaceRef) (vmid : UInt16) : Run UInt64 := do
  let bits := hgatpBits vmid (← rootPage r)
  modify fun m => { m with registers := { m.registers with hgatp := m.registers.hgatp.write bits } }
  return (← get).registers.hgatp.read

/-- Selects the space in the register of its mode; a mode that no register selects gives
none, and nothing happens. -/
def activate (r : SpaceRef) (id : UInt16) : Run (Option UInt64) := do
  match (← space r).mode.register with
  | some .satp => return some (← activateSupervisor r id)
  | some .hgatp => return some (← activateGuest r id)
  | none => return none

/-- The largest address-space identifier that the hart implements. -/
def probeMaxAsid : Run UInt16 :=
  modifyGet fun m =>
    let (v, rf) := m.registers.probeMaxAsid
    (v, { m with registers := rf })

/-- Adds a hart to the machine. -/
def addHart (h : Hart) : Run HartRef :=
  modifyGet fun m => (⟨m.harts.size⟩, { m with harts := m.harts.push h })

/-- The hart. -/
def hart (r : HartRef) : Run Hart := do
  return (← get).harts[r.index]?.getD default

/-- Sets up hart `hartId` over the RAM `[memStart, memEnd)`, with page tables from the
allocator. -/
def setupHart (hartId : UInt64) (a : AllocatorRef) (memStart memEnd : PhysAddr) :
    Run (Except Fault HartRef) := do
  let maxAsid ← probeMaxAsid
  let asids := IdAllocator.new maxAsid
  match ← newSpace Mode.sv39 a with
  | .error f => return .error f
  | .ok s =>
    let m := Mode.sv39
    let first := m.ppnOf memStart
    let last := m.ppnOf (Word.alignUp memEnd (← ofHalting (m.pageSize Level.leaf)))
    match ← map s first first (last - first) identityFlags with
    | .error f =>
      releaseSpace s
      return .error f
    | .ok () =>
      match asids.alloc with
      | .error f =>
        releaseSpace s
        return .error f
      | .ok (asid, asids) =>
        let satp ← activateSupervisor s asid
        let owned := (← space s).ownedFrames
        print ("[hart " ++ Numeral.decimal hartId.toNat ++ "] max ASID: " ++
          Numeral.decimal maxAsid.toNat ++ ", page table frames: " ++ Numeral.decimal owned.toNat ++
          ", satp: 0x" ++ Numeral.hex satp.toNat ++ "\n")
        let ids ← addIds asids
        return .ok (← addHart { id := hartId, ids := ids, space := some s, asid := asid, satp := satp })

/-- Gives back the hart's identifier and space; a released hart stays as it is. -/
def releaseHart (r : HartRef) : Run Unit := do
  let h ← hart r
  match h.space with
  | none => return
  | some s =>
    freeId h.ids h.asid
    releaseSpace s
    modify fun m => { m with harts := m.harts.set! r.index { h with space := none } }

end Machine

end Paging
