import Paging.Machine.Basic
import Paging.Segment
/-!
# Address spaces

An address space is a tree of page tables in RAM. Its root table is made with the space; the
tables below it are made on demand while mapping, each from a run of frames as long as the
table and aligned to its length, and cleared before use.

* `Machine.findEntry` walks from the root towards the leaves and stops at the first leaf; an
  invalid entry, or the lowest level without a leaf, is an error.
* `Machine.map` checks the permissions (none of read, write and execute breaks the contract),
  then the range, then maps the segments of the plan (`Mode.segments`), cut at the blocks of the
  level above, one leaf per page block. A valid entry in the way, or a leaf met on the way
  down, breaks the contract.
* `Machine.releaseSpace` gives back the tables below the root, the most recent first, then the
  root. Using a released space breaks the contract.
-/

namespace Paging

open Run

namespace Machine

/-- Adds an address space to the machine. -/
def addSpace (s : AddressSpace) : Run SpaceRef :=
  modifyGet fun m => (⟨m.spaces.size⟩, { m with spaces := m.spaces.push s })

/-- The address space. -/
def space (r : SpaceRef) : Run AddressSpace := do
  return (← get).spaces[r.index]?.getD default

/-- Replaces the address space. -/
def setSpace (r : SpaceRef) (s : AddressSpace) : Run Unit :=
  modify fun m => { m with spaces := m.spaces.set! r.index s }

/-- The address of entry `idx` of the table at `table`. -/
def slotAddr (m : Mode) (table : PhysPage) (idx : UInt64) : PhysAddr :=
  m.physAddrOf table + idx * entryBytes

/-- The address of the entry that covers `vpn` in the level-`lvl` table at `table`. -/
def slotOf (m : Mode) (table : PhysPage) (lvl : Level) (vpn : VirtPage) : Run PhysAddr := do
  let _ ← ofHalting (m.tableEntries lvl)
  return slotAddr m table (← ofHalting (m.indexOf vpn lvl))

/-- Makes an empty table of the level: a box of as many frames as the table takes, aligned to
that count, with every entry cleared. -/
def newTable (m : Mode) (a : AllocatorRef) (lvl : Level) : Run (Except Fault FrameBox) := do
  let frames ← ofHalting (m.tableFrames lvl)
  match ← newContiguousBox a frames frames with
  | .error f => return .error f
  | .ok box =>
    let entries ← ofHalting (m.tableEntries lvl)
    fillMemory (m.physAddrOf box.ppn) (entries * entryBytes).toNat 0
    return .ok box

/-- A new space of the mode, whose tables come from the allocator. -/
def newSpace (m : Mode) (a : AllocatorRef) : Run (Except Fault SpaceRef) := do
  match ← newTable m a m.topLevel with
  | .error f => return .error f
  | .ok root => return .ok (← addSpace { mode := m, alloc := a, root := some root })

/-- The page of the space's root table; a released space halts. -/
def rootPage (r : SpaceRef) : Run PhysPage := do
  match (← space r).root with
  | some root => return root.ppn
  | none => halt (Halt.silent .spaceReleased)

/-- Gives back the space's tables, the most recent first and the root last. -/
def releaseSpace (r : SpaceRef) : Run Unit := do
  let s ← space r
  match s.root with
  | none => return
  | some root =>
    s.tables.reverse.toList.forM fun b => do
      let _ ← releaseBox b
    setSpace r { s with tables := #[] }
    let _ ← releaseBox root
    setSpace r { s with tables := #[], root := none }

/-! ## Lookup -/

/-- Walks the levels from the table at `table` towards the leaves. -/
def walkTo (m : Mode) (vpn : VirtPage) : List Level → PhysPage → Run (Except Fault (Entry × Level))
  | [], _ => return .error .notLeafInLowestLevel
  | lvl :: rest, table => do
    let e ← readEntry (← slotOf m table lvl vpn)
    if !e.valid then return .error .invalidEntry
    else if e.isLeaf then return .ok (e, lvl)
    else walkTo m vpn rest e.ppn

/-- The leaf that maps the page and its level. -/
def findEntry (r : SpaceRef) (vpn : VirtPage) : Run (Except Fault (Entry × Level)) := do
  let root ← rootPage r
  let m := (← space r).mode
  let levels ← ofHalting (m.levelsUntil Level.leaf)
  walkTo m vpn levels.toList root

/-! ## Mapping -/

/-- Appends a table to those below the root. -/
def addTable (r : SpaceRef) (b : FrameBox) : Run Unit := do
  let s ← space r
  setSpace r { s with tables := s.tables.push b }

/-- Walks the levels above the target from the table at `table`, making every missing table on
the way; the table reached. -/
def descend (r : SpaceRef) (m : Mode) (a : AllocatorRef) (vpn : VirtPage) :
    List Level → PhysPage → Run (Except Fault PhysPage)
  | [], table => return .ok table
  | lvl :: rest, table => do
    let slot ← slotOf m table lvl vpn
    let e ← readEntry slot
    if !e.valid then
      match ← newTable m a (lvl - 1) with
      | .error f => return .error f
      | .ok box =>
        writeEntry slot (Entry.child box.ppn)
        addTable r box
        descend r m a vpn rest box.ppn
    else if e.isLeaf then
      halt (Halt.withNote ("[vmm] vpn 0x" ++ Numeral.hex vpn.toNat ++ " is covered by a level " ++
        Numeral.decimal lvl.toNat ++ " leaf\n") .leafInWalk)
    else
      descend r m a vpn rest e.ppn

/-- The level-`lvl` table that holds `vpn`, made along with the tables above it if missing. -/
def tableFor (r : SpaceRef) (lvl : Level) (vpn : VirtPage) : Run (Except Fault PhysPage) := do
  let s ← space r
  let root := (s.root.map (·.ppn)).getD 0
  let levels ← ofHalting (s.mode.levelsBefore lvl)
  match ← descend r s.mode s.alloc vpn levels.toList root with
  | .error f => return .error f
  | .ok table =>
    let _ ← ofHalting (s.mode.tableEntries lvl)
    return .ok table

/-- Writes the leaves of the pages `[start, stop)` at level `lvl`, which lie in one table; the
page `vpn` maps to the frame `ppn` and the others follow it. -/
def mapRun (r : SpaceRef) (lvl : Level) (start stop vpn : VirtPage) (ppn : PhysPage)
    (flags : Flags) : Run (Except Fault Unit) := do
  match ← tableFor r lvl start with
  | .error f => return .error f
  | .ok table =>
    let m := (← space r).mode
    let (first, last) ← ofHalting (m.indexRange start stop lvl)
    let count := if first < last then (last - first).toNat else 0
    (List.range count).forM fun k => do
      let idx := first + k.toUInt64
      let page ← ofHalting (m.withIndex start lvl idx)
      let slot := slotAddr m table idx
      if (← readEntry slot).valid then
        halt (Halt.withNote ("[vmm] vpn 0x" ++ Numeral.hex page.toNat ++ " is already mapped at level " ++
          Numeral.decimal lvl.toNat ++ "\n") .alreadyMapped)
      writeEntry slot (Entry.mapping (ppn + (page - vpn)) flags)
    return .ok ()

/-- Maps a segment from `start` on, one piece per block of the level above. -/
def mapPieces (r : SpaceRef) (m : Mode) (seg : Segment) (vpn : VirtPage) (ppn : PhysPage)
    (flags : Flags) : Nat → VirtPage → Run (Except Fault Unit)
  | 0, _ => return .ok ()
  | fuel + 1, start => do
    if start < seg.stop then
      let stop ←
        if seg.level < m.topLevel then do
          let next ← ofHalting (m.nextPageByLevel start (seg.level + 1))
          pure (if next < seg.stop then next else seg.stop)
        else pure seg.stop
      match ← mapRun r seg.level start stop vpn ppn flags with
      | .error f => return .error f
      | .ok () => mapPieces r m seg vpn ppn flags fuel stop
    else
      return .ok ()

/-- Maps the segments in order, stopping at the first error. -/
def mapSegments (r : SpaceRef) (m : Mode) (vpn : VirtPage) (ppn : PhysPage) (flags : Flags) :
    List Segment → Run (Except Fault Unit)
  | [] => return .ok ()
  | seg :: rest => do
    match ← mapPieces r m seg vpn ppn flags (seg.stop - seg.start).toNat seg.start with
    | .error f => return .error f
    | .ok () => mapSegments r m vpn ppn flags rest

/-- Maps `n` pages from `vpn` onto the frames from `ppn` with the flags, with the largest blocks
that fit. The entries written before an error stay. -/
def map (r : SpaceRef) (vpn : VirtPage) (ppn : PhysPage) (n : UInt64) (flags : Flags) :
    Run (Except Fault Unit) := do
  let _ ← rootPage r
  let m := (← space r).mode
  if !flags.hasAny .rwx then
    halt (Halt.withNote ("[vmm] refusing to map vpn 0x" ++ Numeral.hex vpn.toNat ++ " with flags " ++
      flags.render ++ "\n") .noPermissions)
  match m.checkRange vpn ppn n with
  | .error f => return .error f
  | .ok () => mapSegments r m vpn ppn flags (← ofHalting (m.segments vpn ppn n))

/-! ## Listing the tables -/

/-- A non-zero entry of a table: the table's level and page, the index and the entry. -/
structure TableRow where
  level : Level
  table : PhysPage
  index : UInt64
  entry : Entry
  deriving DecidableEq, Repr

/-- The non-zero entries of the level-`lvl` table at `table` and of the tables below it, depth
first in index order; `depth` bounds the levels still to descend. -/
def rowsOf (m : Mode) (mem : Memory) : Nat → Level → PhysPage → Except Halt (List TableRow)
  | depth, lvl, table => do
    let entries ← m.tableEntries lvl
    (List.range entries.toNat).foldlM (fun acc k => do
      let idx := k.toUInt64
      let e : Entry := ⟨mem.readWord (slotAddr m table idx)⟩
      if e.raw = 0 then return acc
      let acc := acc ++ [⟨lvl, table, idx, e⟩]
      match depth with
      | d + 1 =>
        if e.valid && !e.isLeaf && lvl > 0 then
          return acc ++ (← rowsOf m mem d (lvl - 1) e.ppn)
        else return acc
      | 0 => return acc) []

/-- The non-zero entries of every table of the space, depth first from the root. -/
def tableRows (r : SpaceRef) : Run (List TableRow) := do
  let root ← rootPage r
  let s ← space r
  ofHalting (rowsOf s.mode (← get).memory s.mode.topLevel.toNat s.mode.topLevel root)

end Machine

end Paging
