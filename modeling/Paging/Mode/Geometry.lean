import Paging.Mode.Basic
/-!
# Geometry of a paging mode

What a mode fixes at each level: the block that one entry maps (`layout`, `pageSize`), the
tables (`indexBits`, `tableEntries`, `tableFrames`), the index of a page in its table
(`indexOf`, `indexRange`, `withIndex`) and the walks over levels (`levelsUntil`,
`levelsBefore`, `levelsFrom`). Asking about a level that the mode does not have stops the
hart, so every function here can halt.
-/

namespace Paging

/-- The block mapped by one entry of some level, counted in frames; it is also the block's
alignment. -/
structure Layout where
  frames : UInt64
  deriving DecidableEq, Repr

/-- The size of the block in bytes. -/
def Layout.bytes (l : Layout) (frameShift : Nat) : UInt64 :=
  Word.shiftLeft l.frames frameShift

/-- The size of one table entry in bytes. -/
def entryBytes : UInt64 := 8

namespace Mode

/-- The block of a level. A block as wide as the address space or wider stops the hart. -/
def layout (m : Mode) (lvl : Level) : Except Halt Layout := do
  m.checkLevel lvl
  if 64 ≤ m.levelShift lvl + m.frameShift then
    throw (Halt.silent .levelTooLarge)
  pure ⟨Word.pow2 (m.levelShift lvl)⟩

/-- The size in bytes of a block of the level. -/
def pageSize (m : Mode) (lvl : Level) : Except Halt UInt64 := do
  pure ((← m.layout lvl).bytes m.frameShift)

/-- The levels from the root down to `lvl`, both walked. -/
def levelsUntil (m : Mode) (lvl : Level) : Except Halt LevelRange := do
  m.checkLevel lvl
  LevelRange.down m.topLevel lvl true

/-- The levels from the root down to just above `lvl`: the tables a walk passes through to
reach an entry of level `lvl`. -/
def levelsBefore (m : Mode) (lvl : Level) : Except Halt LevelRange := do
  m.checkLevel lvl
  LevelRange.down m.topLevel lvl false

/-- The levels from `lvl` down to the leaf level, both walked. -/
def levelsFrom (m : Mode) (lvl : Level) : Except Halt LevelRange := do
  m.checkLevel lvl
  LevelRange.down lvl Level.leaf true

/-- The page-number bits that index a table of the level: the root's own width at the top. -/
def indexBits (m : Mode) (lvl : Level) : Except Halt Nat := do
  m.checkLevel lvl
  pure (if lvl = m.topLevel then m.rootIndexBits else m.entriesShift)

/-- The number of entries of a table of the level. -/
def tableEntries (m : Mode) (lvl : Level) : Except Halt UInt64 := do
  pure (Word.pow2 (← m.indexBits lvl))

/-- The number of contiguous frames that hold a table of the level, at least one; it is also
the table's alignment in frames. -/
def tableFrames (m : Mode) (lvl : Level) : Except Halt UInt64 := do
  let frames := Word.shiftRight ((← m.tableEntries lvl) * entryBytes) m.frameShift
  pure (if frames = 0 then 1 else frames)

/-- The index of the entry that covers `vpn` in a table of the level. -/
def indexOf (m : Mode) (vpn : VirtPage) (lvl : Level) : Except Halt UInt64 := do
  let mask := Word.lowMask (← m.indexBits lvl)
  pure (Word.shiftRight vpn (m.levelShift lvl) &&& mask)

/-- The indices that the pages `[start, stop)` take in the level-`lvl` table that holds `start`:
from the index of `start` to one past the index of the last page, or to the end of the table
when the pages run on into the next table. An empty range gives an empty run. -/
def indexRange (m : Mode) (start stop : VirtPage) (lvl : Level) :
    Except Halt (UInt64 × UInt64) := do
  let first ← m.indexOf start lvl
  if stop ≤ start then
    return (first, first)
  let tableShift := m.levelShift lvl + (← m.indexBits lvl)
  if Word.shiftRight (stop - 1) tableShift ≠ Word.shiftRight start tableShift then
    return (first, ← m.tableEntries lvl)
  return (first, (← m.indexOf (stop - 1) lvl) + 1)

/-- The first page of the block that entry `idx` maps, in the level-`lvl` table that holds
`vpn`. -/
def withIndex (m : Mode) (vpn : VirtPage) (lvl : Level) (idx : UInt64) : Except Halt VirtPage := do
  let shift := m.levelShift lvl
  let tableMask := Word.lowMask (shift + (← m.indexBits lvl))
  pure ((vpn &&& ~~~tableMask) ||| Word.shiftLeft idx shift)

/-- The offset of the address inside its block of the level. -/
def pageOffset (m : Mode) (va : VirtAddr) (lvl : Level) : Except Halt UInt64 := do
  pure (va &&& ((← m.pageSize lvl) - 1))

/-- The first page of the level-`lvl` block after the one that holds `vpn`. -/
def nextPageByLevel (m : Mode) (vpn : VirtPage) (lvl : Level) : Except Halt VirtPage := do
  let step := (← m.layout lvl).frames
  pure (Word.alignDown vpn step + step)

end Mode

end Paging
