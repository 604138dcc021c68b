/-!
# The early log buffer

Before the log has a sink, its output goes to a ring of 2048 bytes that keeps the most recent
bytes written. The ring holds a start position and a count; writing past a full ring overwrites
its oldest byte and moves the start on. Reading takes the bytes from the start up to the end of
the ring or of the contents, whichever comes first, so draining takes at most two reads. A reader
with less room than that takes as many bytes as it has room for (`RingBuffer.readInto`).

`RingBuffer.contents` is the view: the bytes held, oldest first.
-/

namespace Paging

/-- The capacity of the early buffer in bytes. -/
def ringCapacity : Nat := 2048

/-- A ring of `ringCapacity` bytes holding `count` bytes from position `start` on. -/
structure RingBuffer where
  cells : ByteArray
  start : Nat
  count : Nat
  cells_size : cells.size = ringCapacity
  start_lt : start < ringCapacity
  count_le : count ≤ ringCapacity

namespace RingBuffer

/-- The empty ring. -/
def empty : RingBuffer where
  cells := ⟨Array.replicate ringCapacity 0⟩
  start := 0
  count := 0
  cells_size := by simp [ByteArray.size, ringCapacity]
  start_lt := by decide
  count_le := by decide

instance : Inhabited RingBuffer := ⟨empty⟩

/-- The position `k` places after the start, around the ring. -/
def slot (r : RingBuffer) (k : Nat) : Fin r.cells.size :=
  ⟨(r.start + k) % ringCapacity, by rw [r.cells_size]; exact Nat.mod_lt _ (by decide)⟩

/-- The bytes held, oldest first. -/
def contents (r : RingBuffer) : List UInt8 :=
  (List.range r.count).map fun k => r.cells[r.slot k]

/-- Writes one byte; a full ring loses its oldest byte. -/
def push (r : RingBuffer) (b : UInt8) : RingBuffer :=
  let cells := r.cells.set! (r.slot r.count) b
  have hsize : cells.size = ringCapacity := by simp only [cells, ByteArray.size_set!, r.cells_size]
  if hfull : r.count = ringCapacity then
    { cells := cells, start := (r.start + 1) % ringCapacity, count := r.count,
      cells_size := hsize, start_lt := Nat.mod_lt _ (by decide), count_le := r.count_le }
  else
    { cells := cells, start := r.start, count := r.count + 1,
      cells_size := hsize, start_lt := r.start_lt, count_le := by have := r.count_le; omega }

/-- Writes the bytes in order. -/
def write (r : RingBuffer) (bytes : ByteArray) : RingBuffer :=
  bytes.foldl push r

/-- The length of the next read: up to the end of the ring or of the contents. -/
def chunkLength (r : RingBuffer) : Nat :=
  min (ringCapacity - r.start) r.count

/-- Reads the bytes from the start up to the end of the ring or of the contents. -/
def read (r : RingBuffer) : ByteArray × RingBuffer :=
  let n := r.chunkLength
  (r.cells.extract r.start (r.start + n),
    { r with start := (r.start + n) % ringCapacity, count := r.count - n,
             start_lt := Nat.mod_lt _ (by decide), count_le := by have := r.count_le; omega })

/-- Reads into a buffer with room for `room` bytes: the bytes from the start up to the end of the
ring, of the contents or of the room, whichever comes first. An empty ring gives nothing, which the
reader takes as the end of the bytes. -/
def readInto (r : RingBuffer) (room : Nat) : ByteArray × RingBuffer :=
  let n := min r.chunkLength room
  (r.cells.extract r.start (r.start + n),
    { r with start := (r.start + n) % ringCapacity, count := r.count - n,
             start_lt := Nat.mod_lt _ (by decide), count_le := by have := r.count_le; omega })

theorem count_read_lt (r : RingBuffer) (h : 0 < r.count) : r.read.2.count < r.count := by
  have := r.start_lt
  simp only [read, chunkLength]
  omega

/-- Reads until the ring is empty; the reads in order. -/
def drain (r : RingBuffer) : List ByteArray × RingBuffer :=
  if h : 0 < r.count then
    have := count_read_lt r h
    let rest := drain r.read.2
    (r.read.1 :: rest.1, rest.2)
  else
    ([], r)
termination_by r.count

end RingBuffer

end Paging
