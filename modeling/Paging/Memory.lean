import Std.Data.HashMap
import Paging.Mode.Basic
/-!
# Physical memory

RAM is a list of regions of 4 KiB frames. A region starts zeroed, or filled from a seed: the
byte at address `a` is then `(seed + a mod 251) mod 256`. Memory keeps the 64-bit words that
have been written, keyed by the address divided by eight; a word never written reads as the
region's initial bytes, and memory outside every region reads as zero. Words are little-endian.

Addresses wrap at 64 bits like every other word.
-/

namespace Paging

/-- The size of a frame of RAM in bytes. -/
def ramFrameBytes : Nat := 4096

/-- The frames `[start, stop)` of RAM, zeroed or filled from a seed. -/
structure Region where
  start : PhysPage
  stop : PhysPage
  seed : Option UInt64 := none
  deriving DecidableEq, Repr

namespace Region

/-- Whether the bytes `[addr, addr + len)` lie inside the region. -/
def holds (r : Region) (addr len : Nat) : Bool :=
  r.start.toNat * ramFrameBytes ≤ addr && addr + len ≤ r.stop.toNat * ramFrameBytes

/-- Whether the frames `[first, stop)` lie inside the region. -/
def holdsFrames (r : Region) (first stop : PhysPage) : Bool :=
  r.start ≤ first && first ≤ stop && stop ≤ r.stop

/-- The byte that the region holds at `addr` before anything is written. -/
def initialByte (r : Region) (addr : Nat) : UInt8 :=
  match r.seed with
  | some s => (s.toNat + addr % 251).toUInt8
  | none => 0

end Region

/-- RAM and the words written to it. -/
structure Memory where
  regions : List Region := []
  /-- The words written, keyed by their address divided by eight. -/
  words : Std.HashMap UInt64 UInt64 := {}

namespace Memory

/-- The region that holds the bytes `[addr, addr + len)`, if one does. -/
def regionOf (m : Memory) (addr len : Nat) : Option Region :=
  m.regions.find? (·.holds addr len)

/-- Whether the bytes `[addr, addr + len)` lie inside one region. -/
def holds (m : Memory) (addr len : Nat) : Bool :=
  (m.regionOf addr len).isSome

/-- Whether the frames `[first, stop)` lie inside one region. -/
def holdsFrames (m : Memory) (first stop : PhysPage) : Bool :=
  m.regions.any (·.holdsFrames first stop)

/-- The byte at `addr` before anything is written. -/
def initialByte (m : Memory) (addr : Nat) : UInt8 :=
  match m.regionOf addr 1 with
  | some r => r.initialByte addr
  | none => 0

/-- The little-endian word of eight bytes. -/
def wordOfBytes (bytes : List UInt8) : UInt64 :=
  bytes.foldr (fun b acc => (acc <<< 8) ||| b.toUInt64) 0

/-- The word with key `key` before anything is written. -/
def initialWord (m : Memory) (key : UInt64) : UInt64 :=
  wordOfBytes ((List.range 8).map fun i => m.initialByte (key.toNat * 8 + i))

/-- The word with key `key`. -/
def word (m : Memory) (key : UInt64) : UInt64 :=
  match m.words.get? key with
  | some w => w
  | none => m.initialWord key

/-- The byte at `addr`. -/
def readByte (m : Memory) (addr : PhysAddr) : UInt8 :=
  (m.word (addr >>> 3) >>> ((addr &&& 7) * 8)).toUInt8

/-- Writes the byte at `addr`. -/
def writeByte (m : Memory) (addr : PhysAddr) (b : UInt8) : Memory :=
  let key := addr >>> 3
  let shift := (addr &&& 7) * 8
  let w := (m.word key &&& ~~~((0xff : UInt64) <<< shift)) ||| (b.toUInt64 <<< shift)
  { m with words := m.words.insert key w }

/-- The `n` bytes from `addr` on. -/
def readBytes (m : Memory) (addr : PhysAddr) (n : Nat) : ByteArray :=
  (List.range n).foldl (fun acc i => acc.push (m.readByte (addr + i.toUInt64))) .empty

/-- Writes the bytes from `addr` on. -/
def writeBytes (m : Memory) (addr : PhysAddr) (bytes : ByteArray) : Memory :=
  (bytes.foldl (fun (acc : Memory × UInt64) b => (acc.1.writeByte acc.2 b, acc.2 + 1)) (m, addr)).1

/-- The little-endian word at `addr`, which need not be aligned. -/
def readWord (m : Memory) (addr : PhysAddr) : UInt64 :=
  if addr &&& 7 = 0 then m.word (addr >>> 3)
  else wordOfBytes ((List.range 8).map fun i => m.readByte (addr + i.toUInt64))

/-- Writes the little-endian word at `addr`, which need not be aligned. -/
def writeWord (m : Memory) (addr : PhysAddr) (v : UInt64) : Memory :=
  if addr &&& 7 = 0 then { m with words := m.words.insert (addr >>> 3) v }
  else (List.range 8).foldl (fun acc i =>
    acc.writeByte (addr + i.toUInt64) (v >>> (i.toUInt64 * 8)).toUInt8) m

/-- Sets the `size` bytes from `addr` on to `v`. -/
def fill (m : Memory) (addr : PhysAddr) (size : Nat) (v : UInt8) : Memory :=
  if addr &&& 7 = 0 && size % 8 = 0 then
    let w := wordOfBytes (List.replicate 8 v)
    (List.range (size / 8)).foldl (fun acc i =>
      { acc with words := acc.words.insert ((addr >>> 3) + i.toUInt64) w }) m
  else
    (List.range size).foldl (fun acc i => acc.writeByte (addr + i.toUInt64) v) m

end Memory

end Paging
