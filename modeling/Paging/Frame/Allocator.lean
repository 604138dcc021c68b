import Paging.Mode.Basic
/-!
# Frame allocation

A stack allocator owns the frames `[start, stop)`. Frames below the watermark have been handed
out at least once; the watermark only rises. Frames given back go onto a stack of recycled
frames, which single-frame requests use first. A request for an aligned run of frames raises
the watermark to the next aligned frame and recycles the frames it skips; it never uses
recycled frames.

Giving back a frame outside the range, at or above the watermark, or already free breaks the
allocator's contract and stops the hart.
-/

namespace Paging

/-- An allocator of the frames `[start, stop)`. -/
structure FrameAllocator where
  start : PhysPage
  /-- The first frame never handed out. -/
  watermark : PhysPage
  stop : PhysPage
  /-- Frames given back, the most recent first. -/
  recycled : List PhysPage := []
  deriving DecidableEq, Repr

/-- Whether `p` lies in the range from `start` to `stop`, which runs through zero when
`stop < start`. -/
def PhysPage.withinRange (p start stop : PhysPage) : Bool :=
  if start ≤ stop then start ≤ p && p < stop else start ≤ p || p < stop

namespace FrameAllocator

/-- The allocator of `[start, stop)`; a range whose end lies before its start is empty. -/
def new (start stop : PhysPage) : FrameAllocator :=
  { start := start, watermark := start, stop := if stop < start then start else stop }

/-- Hands out one frame: the most recently recycled one, else the watermark. -/
def allocFrame (a : FrameAllocator) : Except Fault (PhysPage × FrameAllocator) :=
  match a.recycled with
  | ppn :: rest => .ok (ppn, { a with recycled := rest })
  | [] =>
    if a.watermark = a.stop then .error .outOfMemory
    else .ok (a.watermark, { a with watermark := a.watermark + 1 })

/-- The frames `[low, high)` pushed onto the stack `acc` in increasing order. -/
def pushRun (low : PhysPage) : Nat → List PhysPage → List PhysPage
  | 0, acc => acc
  | k + 1, acc => pushRun (low + 1) k (low :: acc)

/-- Hands out `count` contiguous frames starting at a multiple of `align`, a power of two. A
request for one unaligned frame is a request for one frame. -/
def allocFrames (a : FrameAllocator) (count align : UInt64) :
    Except Fault (PhysPage × FrameAllocator) :=
  if align = 0 || align &&& (align - 1) != 0 then
    .error .badAlignment
  else if count = 1 && align = 1 then
    a.allocFrame
  else
    let first := Word.alignUp a.watermark align
    if first < a.watermark || first > a.stop || a.stop - first < count then
      .error .outOfMemory
    else
      .ok (first, { a with
        watermark := first + count
        recycled := pushRun a.watermark (first - a.watermark).toNat a.recycled })

/-- Takes back a frame. -/
def free (a : FrameAllocator) (ppn : PhysPage) : Except Halt FrameAllocator :=
  if !ppn.withinRange a.start a.stop then
    .error (Halt.withNote ("[frame_alloc] frame 0x" ++ Numeral.hex ppn.toNat ++ " is outside [0x" ++
      Numeral.hex a.start.toNat ++ ", 0x" ++ Numeral.hex a.stop.toNat ++ ")\n") .frameOutOfRange)
  else if ppn ≥ a.watermark then
    .error (Halt.withNote ("[frame_alloc] frame 0x" ++ Numeral.hex ppn.toNat ++
      " has not been allocated\n") .frameNotAllocated)
  else if a.recycled.contains ppn then
    .error (Halt.withNote ("[frame_alloc] frame 0x" ++ Numeral.hex ppn.toNat ++ " is freed twice\n")
      .doubleFree)
  else
    .ok { a with recycled := ppn :: a.recycled }

/-- The number of frames that can still be handed out, one at a time. -/
def freeFrames (a : FrameAllocator) : UInt64 :=
  (a.stop - a.watermark) + a.recycled.length.toUInt64

end FrameAllocator

end Paging
