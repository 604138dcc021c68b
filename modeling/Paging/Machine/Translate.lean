import Paging.Machine.Space
/-!
# Reading through an address space

`Machine.translate` follows `length` bytes from a virtual address through a space and splits
them at the blocks that map them: each fragment is a frame, an offset into its block and a
length, as long as the rest of the block or of the request, whichever is shorter. The next
fragment starts at the block after the one just used, and is looked up again. A lookup that
fails ends the walk with its error and the fragments found so far.

`Machine.readFrom` copies the fragments' bytes out of RAM in order.
-/

namespace Paging

open Run

/-- Bytes of one block: the block's frame, the offset into the block and the length. -/
structure Fragment where
  ppn : PhysPage
  offset : UInt64
  length : UInt64
  deriving DecidableEq, Repr

namespace Machine

/-- The fragments of `length` bytes from `va`, found in order; `fuel` bounds their number. -/
def fragmentsFrom (r : SpaceRef) (m : Mode) : Nat → VirtAddr → UInt64 →
    Run (List Fragment × Option Fault)
  | 0, _, _ => return ([], none)
  | fuel + 1, va, length => do
    if length = 0 then return ([], none)
    let vpn := m.vpnOf va
    match ← findEntry r vpn with
    | .error f => return ([], some f)
    | .ok (e, lvl) =>
      let offset ← ofHalting (m.pageOffset va lvl)
      let size ← ofHalting (m.pageSize lvl)
      let piece := if size - offset > length then length else size - offset
      let next ← ofHalting (m.nextPageByLevel vpn lvl)
      let (rest, err) ← fragmentsFrom r m fuel (m.virtAddrOf next) (length - piece)
      return (⟨e.ppn, offset, piece⟩ :: rest, err)

/-- The fragments of the `length` bytes from `va` in the space, and the error that ended the
walk early, if one did. -/
def translate (r : SpaceRef) (va : VirtAddr) (length : UInt64) :
    Run (List Fragment × Option Fault) := do
  fragmentsFrom r (← space r).mode length.toNat va length

/-- The physical address of a fragment's first byte. -/
def Fragment.start (m : Mode) (f : Fragment) : PhysAddr :=
  m.physAddrOf f.ppn + f.offset

/-- Copies the fragments' bytes into `dst` in order, from its start. -/
def copyFragments (m : Mode) (mem : Memory) (dst : ByteArray) (frags : List Fragment) :
    ByteArray :=
  (frags.foldl (fun (acc : ByteArray × Nat) f =>
    let bytes := mem.readBytes (Fragment.start m f) f.length.toNat
    (bytes.copySlice 0 acc.1 acc.2 (min bytes.size (acc.1.size - acc.2)), acc.2 + f.length.toNat))
    (dst, 0)).1

/-- Reads `length` bytes from `va` in the space; the bytes not reached because of an error
stay zero. -/
def readFrom (r : SpaceRef) (va : VirtAddr) (length : Nat) : Run (ByteArray × Option Fault) := do
  let (frags, err) ← translate r va length.toUInt64
  let m := (← space r).mode
  let dst := ⟨Array.replicate length 0⟩
  return (copyFragments m (← get).memory dst frags, err)

end Machine

end Paging
