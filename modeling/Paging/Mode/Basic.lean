import Paging.Word
import Paging.Level
/-!
# Paging modes

A paging mode fixes the shape of a page-table tree: the size of the smallest page (a
frame), the width of a physical page number, the number of levels, how many page-number bits
each table consumes, and how many the root consumes (a mode may widen its root). It also fixes
the value that selects it in the paging register.

This module holds the modes and the conversions between addresses and page numbers, which need
no level. Page numbers and addresses are 64-bit words and their arithmetic wraps.
-/

namespace Paging

/-- A physical page number: a physical address without its offset bits. -/
abbrev PhysPage := UInt64

/-- A virtual (or guest-physical) page number. -/
abbrev VirtPage := UInt64

/-- A physical address. -/
abbrev PhysAddr := UInt64

/-- A virtual (or guest-physical) address. -/
abbrev VirtAddr := UInt64

/-- The register that selects a mode in hardware: the supervisor's paging
register, or the hypervisor's guest-stage one. -/
inductive PagingRegister where
  | satp
  | hgatp
  deriving DecidableEq, Repr

/-- The shape of a paging mode. -/
structure Mode where
  /-- The mode's name in reports. -/
  name : String
  /-- The base-two logarithm of the frame size in bytes. -/
  frameShift : Nat
  /-- The width of a physical page number. -/
  ppnBits : Nat
  /-- The number of levels of tables. -/
  levels : Level
  /-- The page-number bits consumed by a table below the root. -/
  entriesShift : Nat
  /-- The page-number bits consumed by the root table. -/
  rootIndexBits : Nat
  /-- The value of the register's mode field that selects this mode. -/
  atpMode : UInt64
  /-- The register that can select the mode, if the hardware offers it. -/
  register : Option PagingRegister := none
  deriving DecidableEq, Repr

namespace Mode

/-- Three levels of 512-entry tables over 4 KiB frames, selected by the supervisor's
register. -/
def sv39 : Mode where
  name := "Sv39"
  frameShift := 12
  ppnBits := 44
  levels := 3
  entriesShift := 9
  rootIndexBits := 9
  atpMode := 8
  register := some .satp

/-- The guest stage of `sv39`: the root is widened by two bits to 2048 entries. -/
def sv39x4 : Mode where
  name := "Sv39x4"
  frameShift := 12
  ppnBits := 44
  levels := 3
  entriesShift := 9
  rootIndexBits := 11
  atpMode := 8
  register := some .hgatp

/-- The level of the root table: one below the level count, in wrapping 8-bit arithmetic, so a
mode without levels has its root at 255. -/
def topLevel (m : Mode) : Level :=
  m.levels - 1

/-- The physical page that holds the address. -/
def ppnOf (m : Mode) (pa : PhysAddr) : PhysPage :=
  Word.shiftRight pa m.frameShift

/-- The virtual page that holds the address. -/
def vpnOf (m : Mode) (va : VirtAddr) : VirtPage :=
  Word.shiftRight va m.frameShift

/-- The first address of the physical page. -/
def physAddrOf (m : Mode) (ppn : PhysPage) : PhysAddr :=
  Word.shiftLeft ppn m.frameShift

/-- The first address of the virtual page. -/
def virtAddrOf (m : Mode) (vpn : VirtPage) : VirtAddr :=
  Word.shiftLeft vpn m.frameShift

/-- The size in bytes of `count` frames. -/
def framesSize (m : Mode) (count : UInt64) : UInt64 :=
  Word.shiftLeft count m.frameShift

/-- The number of virtual pages that the mode translates: valid page numbers lie below it. It
is zero when the page-number bits reach the word width. -/
def vpnLimit (m : Mode) : VirtPage :=
  Word.pow2 (m.topLevel.toNat * m.entriesShift + m.rootIndexBits)

/-- The number of physical pages that an entry of the mode can name. -/
def ppnLimit (m : Mode) : PhysPage :=
  Word.pow2 m.ppnBits

/-- Stops the hart on a level that the mode does not have. -/
def checkLevel (m : Mode) (lvl : Level) : Except Halt Unit :=
  if lvl < m.levels then
    .ok ()
  else
    .error (Halt.withNote ("[mm] level " ++ Numeral.decimal lvl.toNat ++ " does not exist in " ++
      m.name ++ "\n") .levelOutOfRange)

/-- The position of a level's index among the page-number bits. -/
def levelShift (m : Mode) (lvl : Level) : Nat :=
  lvl.toNat * m.entriesShift

end Mode

end Paging
