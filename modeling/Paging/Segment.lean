import Paging.Mode.Geometry
/-!
# Planning a mapping as segments of blocks

A request to map `n` pages from page `vpn` onto frames from `ppn` is carried out with the
largest blocks that fit. The largest usable level is the first one, from the root down, whose
block alignment the offset `vpn - ppn` respects and that the request fills at least once. The
plan then covers the aligned middle with blocks of that level, and each lower level covers the
runs left between the ends of the request and the middle of the level above: first the run at
the start, then the run at the end.

`Mode.checkRange` says whether a request fits inside what the mode can translate and name;
`Mode.segments` computes the plan, and `Mode.solve` hands its segments out one at a time
(`SegmentQueue`).
-/

namespace Paging

/-- The pages `[start, stop)`, mapped by entries of one level. -/
structure Segment where
  level : Level
  start : VirtPage
  stop : VirtPage
  deriving DecidableEq, Repr

namespace Mode

/-- Refuses a request whose pages run past the pages that the mode translates, or whose frames
run past the frames that an entry can name. -/
def checkRange (m : Mode) (vpn : VirtPage) (ppn : PhysPage) (n : UInt64) : Except Fault Unit :=
  let vpnLimit := m.vpnLimit
  let ppnLimit := m.ppnLimit
  if n > vpnLimit || vpn > vpnLimit - n || n > ppnLimit || ppn > ppnLimit - n then
    .error .rangeOutOfBounds
  else
    .ok ()

/-- The first of `levels` whose blocks can map the request: the offset between pages and frames
is a multiple of the block, and the request holds at least one block's worth of pages. -/
def largestFit (m : Mode) (vpn : VirtPage) (ppn : PhysPage) (n : UInt64) :
    List Level → Except Halt (Option Level)
  | [] => pure none
  | lvl :: rest => do
    let align := (← m.layout lvl).frames
    if (vpn - ppn) % align != 0 || n < align then
      largestFit m vpn ppn n rest
    else
      pure (some lvl)

/-- The segments of `levels`, the first of which is `top`, given the aligned bounds
`[prevStart, prevStop)` of the level before. -/
def segmentsOf (m : Mode) (vpn : VirtPage) (n : UInt64) (top : Level) :
    List Level → VirtPage → VirtPage → Except Halt (List Segment)
  | [], _, _ => pure []
  | lvl :: rest, prevStart, prevStop => do
    let block := (← m.layout lvl).frames
    let start := Word.alignUp vpn block
    let stop := Word.alignDown (vpn + n) block
    let here :=
      if lvl = top then
        if start ≠ stop then [⟨lvl, start, stop⟩] else []
      else
        (if start ≠ prevStart then [⟨lvl, start, prevStart⟩] else []) ++
          (if prevStop ≠ stop then [⟨lvl, prevStop, stop⟩] else [])
    pure (here ++ (← m.segmentsOf vpn n top rest start stop))

/-- The plan that maps `n` pages from `vpn` onto frames from `ppn` with the largest blocks. -/
def segments (m : Mode) (vpn : VirtPage) (ppn : PhysPage) (n : UInt64) :
    Except Halt (List Segment) := do
  let candidates ← m.levelsUntil Level.leaf
  match ← m.largestFit vpn ppn n candidates.toList with
  | none => pure []
  | some top =>
    let levels ← m.levelsFrom top
    m.segmentsOf vpn n top levels.toList 0 0

end Mode

/-- The segments of a plan, handed out one at a time: the first `next` of `pairs` are out. -/
structure SegmentQueue where
  pairs : List Segment
  next : Nat
  next_le : next ≤ pairs.length

namespace SegmentQueue

/-- The segments, none of them handed out yet. -/
def ofList (segs : List Segment) : SegmentQueue :=
  ⟨segs, 0, Nat.zero_le _⟩

/-- The number of segments not handed out yet. -/
def len (q : SegmentQueue) : Nat :=
  q.pairs.length - q.next

/-- Hands out the next segment; once all are out, hands out nothing. -/
def pop (q : SegmentQueue) : Option (Segment × SegmentQueue) :=
  if h : q.next < q.pairs.length then
    some (q.pairs[q.next], ⟨q.pairs, q.next + 1, h⟩)
  else none

theorem len_pop {q q' : SegmentQueue} {s : Segment} (h : q.pop = some (s, q')) :
    q'.len < q.len := by
  unfold pop at h
  split at h
  · cases h
    simp only [len]
    omega
  · cases h

/-- Hands out every segment left, in order, and gives the queue after them. -/
def drain (q : SegmentQueue) : List Segment × SegmentQueue :=
  match h : q.pop with
  | some (s, q') =>
    have := len_pop h
    let (rest, q'') := q'.drain
    (s :: rest, q'')
  | none => ([], q)
termination_by q.len

end SegmentQueue

namespace Mode

/-- The plan that maps `n` pages from `vpn` onto frames from `ppn`, as a queue of its segments. -/
def solve (m : Mode) (vpn : VirtPage) (ppn : PhysPage) (n : UInt64) :
    Except Halt SegmentQueue :=
  SegmentQueue.ofList <$> m.segments vpn ppn n

end Mode

end Paging
