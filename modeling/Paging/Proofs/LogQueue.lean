import Mathlib.Data.List.DropRight
import Mathlib.Logic.Function.Basic
import Paging.Log.Logger
/-!
# The log as a byte queue

Before the log has a sink, its output waits in a ring of `ringCapacity` bytes, and a sink that is
attached receives what waits. Seen from outside, the ring is a queue that keeps the last
`ringCapacity` bytes written to it, and the log is such a queue together with a current sink
(`LogQueue`): text printed goes to the current sink, or joins the queue when there is none; text
printed to the early buffer always joins the queue; attaching a sink sends it the queue and empties
the queue.

* `RingBuffer.contents_write`: writing keeps the last `ringCapacity` bytes of the contents and the
  bytes written (`List.rtake`).
* `RingBuffer.readInto_append`: a read returns the first bytes of the contents and leaves the rest,
  and a reader with room takes at least one byte from a ring that holds some
  (`RingBuffer.count_readInto_lt`); `RingBuffer.drain_spec`: draining returns the whole contents
  and leaves the ring empty.
* `Sink.write_append`: a sink that receives two texts is left as if it received them as one.
* `Logger.Follows.step`: one step of the log keeps it in step with the queue.

Main statement: `Logger.follows_byte_queue`. Whatever steps the log takes from an empty buffer and
no sink, the buffer holds what the queue holds and every sink has received just the bytes that
the queue sent it; and a ring that starts empty, at any position, and is then written to gives
back the last `ringCapacity` bytes written, to reads that each have room for a byte, until it is
empty.
-/

namespace ByteArray

theorem foldlM_loop_eq_toList_foldl {β : Type} (f : β → UInt8 → β) (as : ByteArray) :
    ∀ (k j : Nat) (b : β), as.size ≤ j + k →
      ByteArray.foldlM.loop (m := Id) (fun x1 x2 => pure (f x1 x2)) as as.size (Nat.le_refl _) k
        j b = (as.data.toList.drop j).foldl f b := by
  have hlen : as.data.toList.length = as.size := Array.length_toList
  intro k
  -- the loop takes the bytes from `j` on, with `k` turns left to take them
  induction k with
  | zero =>
    intro j b hj
    unfold ByteArray.foldlM.loop
    split
    · omega
    · rw [List.drop_eq_nil_of_le (by omega)]
      rfl
  | succ k ih =>
    intro j b hj
    unfold ByteArray.foldlM.loop
    split
    · rw [List.drop_eq_getElem_cons (by omega), List.foldl_cons, ← ih (j + 1) _ (by omega)]
      rfl
    · rw [List.drop_eq_nil_of_le (by omega)]
      rfl

/-- A fold over the bytes is the fold over the list of them. -/
theorem foldl_eq_toList_foldl {β : Type} (f : β → UInt8 → β) (init : β) (as : ByteArray) :
    as.foldl f init = as.data.toList.foldl f init := by
  unfold ByteArray.foldl ByteArray.foldlM
  simp only [Nat.le_refl, dite_true]
  rw [foldlM_loop_eq_toList_foldl f as _ 0 init (by omega)]
  rfl

theorem toByteArray_toList_data (b : ByteArray) : b.data.toList.toByteArray = b := by
  ext1
  simp

end ByteArray

namespace Paging

/-! ## The contents of the ring -/

namespace RingBuffer

theorem length_contents (r : RingBuffer) : r.contents.length = r.count := by
  simp [contents]

theorem val_slot (r : RingBuffer) (k : Nat) : (r.slot k).val = (r.start + k) % ringCapacity :=
  rfl

theorem mod_lt_size (r : RingBuffer) (n : Nat) : n % ringCapacity < r.cells.size := by
  rw [r.cells_size]
  exact Nat.mod_lt _ (by decide)

theorem getElem_contents (r : RingBuffer) {k : Nat} (hk : k < r.contents.length) :
    r.contents[k] = GetElem.getElem r.cells ((r.start + k) % ringCapacity) (r.mod_lt_size _) := by
  simp [contents, slot]

theorem contents_eq_nil (r : RingBuffer) (h : r.count = 0) : r.contents = [] := by
  simp [contents, h]

theorem rtake_append_rtake {α : Type} (l m : List α) (n : Nat) :
    (l.rtake n ++ m).rtake n = (l ++ m).rtake n := by
  simp only [List.rtake]
  rw [← List.drop_append_of_le_length (by simp), List.drop_drop, List.length_drop,
    List.length_append]
  congr 1
  omega

/-- Writing a byte adds it at the end; a full ring loses its oldest byte. -/
theorem contents_push (r : RingBuffer) (b : UInt8) :
    (r.push b).contents = (r.contents ++ [b]).rtake ringCapacity := by
  have hs := r.start_lt
  have hc := r.count_le
  unfold push
  dsimp only
  split
  · rename_i hfull
    -- the byte goes into the slot of the oldest byte, and the start moves past it
    apply List.ext_getElem
    · simp [length_contents, List.rtake, hfull]
    · intro k h1 h2
      rw [getElem_contents]
      simp only [length_contents] at h1
      simp only [List.rtake, List.length_append, length_contents, List.length_singleton,
        List.getElem_drop]
      rw [ByteArray.getElem_set! _ _ _ _ (r.slot r.count).isLt (r.mod_lt_size _)]
      split
      · rename_i heq
        rw [val_slot] at heq
        rw [List.getElem_append_right (by simp only [length_contents, ringCapacity] at *; omega)]
        simp
      · rename_i hne
        rw [val_slot] at hne
        rw [List.getElem_append_left (by simp only [length_contents, ringCapacity] at *; omega),
          getElem_contents]
        congr 1
        simp only [ringCapacity] at *
        omega
  · rename_i hfull
    apply List.ext_getElem
    · simp [length_contents, List.rtake]
      omega
    · intro k h1 h2
      rw [getElem_contents]
      simp only [length_contents] at h1
      simp only [List.rtake, List.length_append, length_contents, List.length_singleton,
        List.getElem_drop]
      rw [ByteArray.getElem_set! _ _ _ _ (r.slot r.count).isLt (r.mod_lt_size _)]
      split
      · rename_i heq
        rw [val_slot] at heq
        rw [List.getElem_append_right (by simp only [length_contents, ringCapacity] at *; omega)]
        simp
      · rename_i hne
        rw [val_slot] at hne
        rw [List.getElem_append_left (by simp only [length_contents, ringCapacity] at *; omega),
          getElem_contents]
        congr 1
        simp only [ringCapacity] at *
        omega

theorem contents_foldl_push (bytes : List UInt8) (r : RingBuffer) :
    (bytes.foldl push r).contents = (r.contents ++ bytes).rtake ringCapacity := by
  induction bytes generalizing r with
  | nil =>
    simp only [List.foldl_nil, List.append_nil, List.rtake]
    rw [length_contents, Nat.sub_eq_zero_of_le r.count_le, List.drop_zero]
  | cons b bs ih =>
    rw [List.foldl_cons, ih, contents_push, rtake_append_rtake, List.append_assoc,
      List.singleton_append]

/-- Writing keeps the last `ringCapacity` bytes of the contents and the bytes written. -/
theorem contents_write (r : RingBuffer) (bytes : ByteArray) :
    (r.write bytes).contents = (r.contents ++ bytes.data.toList).rtake ringCapacity := by
  rw [write, ByteArray.foldl_eq_toList_foldl, contents_foldl_push]

theorem contents_foldl_write (writes : List ByteArray) (r : RingBuffer) :
    (writes.foldl write r).contents =
      (r.contents ++ writes.flatMap fun w => w.data.toList).rtake ringCapacity := by
  induction writes generalizing r with
  | nil =>
    simp only [List.foldl_nil, List.flatMap_nil, List.append_nil, List.rtake]
    rw [length_contents, Nat.sub_eq_zero_of_le r.count_le, List.drop_zero]
  | cons w ws ih =>
    rw [List.foldl_cons, ih, contents_write, rtake_append_rtake, List.flatMap_cons,
      List.append_assoc]

/-! ## Reading the ring -/

theorem chunkLength_le (r : RingBuffer) : r.chunkLength ≤ r.count :=
  Nat.min_le_right _ _

/-- A reader with room for the whole ring reads as the ring's own reads do. -/
theorem read_eq_readInto (r : RingBuffer) : r.read = r.readInto ringCapacity := by
  have h : min r.chunkLength ringCapacity = r.chunkLength :=
    Nat.min_eq_left (Nat.le_trans r.chunkLength_le r.count_le)
  simp only [read, readInto, h]

theorem toList_readInto_fst (r : RingBuffer) (room : Nat) :
    (r.readInto room).1.data.toList = r.contents.take (min r.chunkLength room) := by
  have hs := r.start_lt
  have hn : min r.chunkLength room ≤ ringCapacity - r.start := by
    simp only [chunkLength]
    omega
  apply List.ext_getElem
  · simp only [readInto, Array.length_toList, length_contents, List.length_take]
    rw [← ByteArray.size, ByteArray.size_extract, r.cells_size]
    have := r.chunkLength_le
    omega
  · intro i h1 h2
    simp only [List.getElem_take, readInto]
    rw [Array.getElem_toList, ← ByteArray.getElem_eq_getElem_data, ByteArray.getElem_extract,
      getElem_contents]
    congr 1
    simp only [List.length_take, length_contents] at h2
    -- the read stops at the end of the ring, so no index wraps
    rw [Nat.mod_eq_of_lt (by omega)]

theorem contents_readInto_snd (r : RingBuffer) (room : Nat) :
    (r.readInto room).2.contents = r.contents.drop (min r.chunkLength room) := by
  apply List.ext_getElem
  · simp [readInto, length_contents]
  · intro i h1 h2
    rw [getElem_contents, List.getElem_drop, getElem_contents]
    simp only [readInto]
    congr 1
    rw [Nat.mod_add_mod, Nat.add_assoc]

/-- A read returns the first bytes of the contents and leaves the rest. -/
theorem readInto_append (r : RingBuffer) (room : Nat) :
    (r.readInto room).1.data.toList ++ (r.readInto room).2.contents = r.contents := by
  rw [toList_readInto_fst, contents_readInto_snd, List.take_append_drop]

/-- A reader with room for a byte takes at least one from a ring that holds some. -/
theorem count_readInto_lt (r : RingBuffer) {room : Nat} (hr : 0 < room) (h : 0 < r.count) :
    (r.readInto room).2.count < r.count := by
  have := r.start_lt
  simp only [readInto, chunkLength]
  omega

/-- Draining hands over the whole contents, in order, and leaves the ring empty. -/
theorem drain_spec (r : RingBuffer) :
    (r.drain.1.flatMap fun c => c.data.toList) = r.contents ∧ r.drain.2.count = 0 := by
  fun_induction drain r with
  | case1 r h _ rest ih =>
    -- the first read, then the drain of what it leaves
    simp only [rest, List.flatMap_cons, ih.1]
    refine ⟨?_, ih.2⟩
    rw [read_eq_readInto, readInto_append]
  | case2 r h =>
    have h0 : r.count = 0 := by omega
    exact ⟨(contents_eq_nil r h0).symm, h0⟩

/-- Reads into buffers with the given rooms, one after the other; the bytes of each read and the
ring they leave. -/
def readAll : List Nat → RingBuffer → List ByteArray × RingBuffer
  | [], r => ([], r)
  | room :: rooms, r =>
    let rest := readAll rooms (r.readInto room).2
    ((r.readInto room).1 :: rest.1, rest.2)

/-- Reads one after the other return the first bytes of the contents; when each has room for a
byte and there are as many reads as bytes, they return them all and leave the ring empty. -/
theorem readAll_spec (rooms : List Nat) (r : RingBuffer) :
    ((readAll rooms r).1.flatMap fun c => c.data.toList) ++ (readAll rooms r).2.contents =
      r.contents ∧
    ((∀ k ∈ rooms, 0 < k) → r.count ≤ rooms.length → (readAll rooms r).2.count = 0) := by
  induction rooms generalizing r with
  | nil => exact ⟨by simp [readAll], fun _ h => by simpa [readAll] using h⟩
  | cons room rooms ih =>
    obtain ⟨happ, hend⟩ := ih (r.readInto room).2
    refine ⟨?_, fun hpos hlen => hend (fun k hk => hpos k (List.mem_cons_of_mem _ hk)) ?_⟩
    · simp only [readAll, List.flatMap_cons, List.append_assoc, happ]
      exact readInto_append r room
    · -- a read from a ring that holds bytes takes one at least; from an empty one, nothing
      by_cases h : 0 < r.count
      · have := r.count_readInto_lt (hpos room List.mem_cons_self) h
        simp only [List.length_cons] at hlen
        omega
      · have : (r.readInto room).2.count = 0 := by simp only [readInto]; omega
        omega

end RingBuffer

/-! ## Sinks -/

namespace Sink

/-- A sink that receives two texts is left as if it received them as one. -/
theorem write_append (s : Sink) (a b : ByteArray) : (s.write a).write b = s.write (a ++ b) := by
  unfold write
  cases hc : s.console
  · simp [ByteArray.append_assoc]
  · simp only [if_true, ByteArray.foldl_eq_toList_foldl, ByteArray.toList_data_append,
      List.foldl_append]

theorem write_empty (s : Sink) : s.write ByteArray.empty = s := by
  cases s with
  | mk console received =>
    cases console
    · simp [write]
    · simp only [write, if_true, ByteArray.foldl_eq_toList_foldl]
      rfl

end Sink

/-! ## The queue that the log stands for -/

/-- The log as a queue of bytes: the bytes waiting for a sink, of which only the last
`ringCapacity` are kept, the current sink, and the bytes sent to each sink. -/
structure LogQueue where
  waiting : List UInt8 := []
  current : Option Nat := none
  sent : Nat → List UInt8 := fun _ => []

namespace LogQueue

/-- Sends the bytes to sink `i`. -/
def send (q : LogQueue) (i : Nat) (bytes : List UInt8) : LogQueue :=
  { q with sent := Function.update q.sent i (q.sent i ++ bytes) }

/-- Adds the bytes to those waiting, keeping the last `ringCapacity`. -/
def hold (q : LogQueue) (bytes : List UInt8) : LogQueue :=
  { q with waiting := (q.waiting ++ bytes).rtake ringCapacity }

/-- Sends the bytes to the current sink, or holds them when there is none. -/
def print (q : LogQueue) (bytes : List UInt8) : LogQueue :=
  match q.current with
  | some i => q.send i bytes
  | none => q.hold bytes

/-- Makes a sink current, or none; a sink that becomes current is sent the bytes waiting. -/
def attach (q : LogQueue) : Option Nat → LogQueue
  | none => { q with current := none }
  | some i => { q.send i q.waiting with current := some i, waiting := [] }

end LogQueue

namespace Logger

/-- A step of the log: text printed, text printed to the early buffer whatever the sink, or a
sink made current (or none). -/
inductive Step where
  | print (bytes : ByteArray)
  | printEarly (bytes : ByteArray)
  | attach (sink : Option Nat)

/-- The step on the log. -/
def Step.run : Step → Logger → Logger
  | .print bytes, l => l.print bytes
  | .printEarly bytes, l => l.printEarly bytes
  | .attach sink, l => l.attach sink

/-- The step on the queue. -/
def Step.queue : Step → LogQueue → LogQueue
  | .print bytes, q => q.print bytes.data.toList
  | .printEarly bytes, q => q.hold bytes.data.toList
  | .attach sink, q => q.attach sink

/-- The log is in step with the queue, from the sinks `base`: its early buffer holds the bytes
waiting, it has the same current sink, and every sink has received just what the queue sent it. -/
structure Follows (l : Logger) (base : Array Sink) (q : LogQueue) : Prop where
  early : l.early.contents = q.waiting
  current : l.current = q.current
  sinks : ∀ i, l.sinks[i]? = Option.map (fun s : Sink => s.write (q.sent i).toByteArray) base[i]?

namespace Follows

variable {l : Logger} {sinks : Array Sink} {q : LogQueue}

/-- A log with an empty buffer and no sink stands for the empty queue. -/
theorem start (sinks : Array Sink) : Follows { sinks := sinks } sinks {} where
  early := RingBuffer.contents_eq_nil _ rfl
  current := rfl
  sinks i := by
    simp only [List.toByteArray_nil, Sink.write_empty]
    cases sinks[i]? <;> rfl

/-- Writing to a sink sends it the bytes. -/
theorem writeTo_send (h : Follows l sinks q) (i : Nat) (bytes : ByteArray) :
    Follows (l.writeTo i bytes) sinks (q.send i bytes.data.toList) where
  early := h.early
  current := h.current
  sinks j := by
    simp only [Logger.writeTo, Array.getElem?_modify, LogQueue.send, Function.update_apply,
      h.sinks j]
    by_cases hij : i = j
    · subst hij
      rw [if_pos rfl, if_pos rfl, Option.map_map]
      congr 1
      funext s
      rw [Function.comp, Sink.write_append, List.toByteArray_append,
        ByteArray.toByteArray_toList_data]
    · rw [if_neg hij, if_neg (Ne.symm hij)]

/-- Writing chunks to a sink one after the other sends it their bytes in order. -/
theorem foldl_writeTo_send (i : Nat) (chunks : List ByteArray) :
    ∀ {l : Logger} {q : LogQueue}, Follows l sinks q →
      Follows (chunks.foldl (fun l c => l.writeTo i c) l) sinks
        (q.send i (chunks.flatMap fun c => c.data.toList)) := by
  induction chunks with
  | nil =>
    intro l q h
    refine ⟨h.early, h.current, fun j => ?_⟩
    simp only [List.foldl_nil, h.sinks j, LogQueue.send, List.flatMap_nil, List.append_nil,
      Function.update_eq_self]
  | cons c cs ih =>
    intro l q h
    have h' := ih (h.writeTo_send i c)
    simp only [LogQueue.send, Function.update_self, Function.update_idem, List.append_assoc]
      at h'
    simpa only [List.foldl_cons, List.flatMap_cons, LogQueue.send] using h'

/-- Writing to the early buffer holds the bytes in the queue. -/
theorem printEarly_hold (h : Follows l sinks q) (bytes : ByteArray) :
    Follows (l.printEarly bytes) sinks (q.hold bytes.data.toList) := by
  refine ⟨?_, ?_, ?_⟩ <;> simp only [Logger.printEarly, LogQueue.hold]
  · rw [RingBuffer.contents_write, h.early]
  · exact h.current
  · exact h.sinks

/-- One step of the log keeps it in step with the queue. -/
theorem step (h : Follows l sinks q) (s : Step) : Follows (s.run l) sinks (s.queue q) := by
  cases s with
  | print bytes =>
    show Follows (l.print bytes) sinks (q.print bytes.data.toList)
    unfold Logger.print LogQueue.print
    rw [← h.current]
    cases l.current with
    | some i => exact h.writeTo_send i bytes
    | none => exact h.printEarly_hold bytes
  | printEarly bytes => exact h.printEarly_hold bytes
  | attach sink =>
    cases sink with
    | none => exact ⟨h.early, rfl, h.sinks⟩
    | some i =>
      -- the drained chunks are the bytes waiting, sent to the new sink in order
      obtain ⟨hchunks, hempty⟩ := RingBuffer.drain_spec l.early
      have hl : Follows { l with current := some i } sinks { q with current := some i } :=
        ⟨h.early, rfl, h.sinks⟩
      have hsend := foldl_writeTo_send i l.early.drain.1 hl
      rw [hchunks, h.early] at hsend
      exact ⟨RingBuffer.contents_eq_nil _ hempty, hsend.current, hsend.sinks⟩

/-- Any run of steps keeps the log in step with the queue. -/
theorem run (h : Follows l sinks q) (steps : List Step) :
    Follows (steps.foldl (fun l s => s.run l) l) sinks (steps.foldl (fun q s => s.queue q) q) := by
  induction steps generalizing l q with
  | nil => exact h
  | cons s rest ih => exact ih (h.step s)

end Follows

/-! ## The main statement -/

/-- Whatever steps the log takes from an empty buffer and no sink, its buffer holds the bytes
that the queue holds waiting, it has the queue's current sink, and every sink has received just
the bytes that the queue sent it. A ring that starts empty, at any position, and is then written
to gives back the last `ringCapacity` bytes written (all of them if fewer) to reads that each have
room for a byte, and as many reads as it holds bytes leave it empty. -/
theorem follows_byte_queue (sinks : Array Sink) (steps : List Step) :
    Follows (steps.foldl (fun l s => s.run l) { sinks := sinks }) sinks
      (steps.foldl (fun q s => s.queue q) {}) ∧
    ∀ (r : RingBuffer), r.count = 0 → ∀ (writes : List ByteArray) (rooms : List Nat),
      (∀ k ∈ rooms, 0 < k) → (writes.foldl RingBuffer.write r).count ≤ rooms.length →
      (RingBuffer.readAll rooms (writes.foldl RingBuffer.write r)).2.count = 0 ∧
      ((RingBuffer.readAll rooms (writes.foldl RingBuffer.write r)).1.flatMap
        fun c => c.data.toList) = (writes.flatMap fun w => w.data.toList).rtake ringCapacity := by
  refine ⟨(Follows.start sinks).run steps, fun r hr writes rooms hpos hlen => ?_⟩
  obtain ⟨happ, hend⟩ := RingBuffer.readAll_spec rooms (writes.foldl RingBuffer.write r)
  have hdone := hend hpos hlen
  refine ⟨hdone, ?_⟩
  rw [RingBuffer.contents_eq_nil _ hdone, List.append_nil, RingBuffer.contents_foldl_write,
    RingBuffer.contents_eq_nil r hr, List.nil_append] at happ
  exact happ

/-- A ring that starts empty at position 2040 and is written 2050 bytes runs past its last cell
and over its oldest two bytes: reads that each have room for a whole ring give back the last
2048 bytes and leave it empty. -/
theorem readAll_after_wrapping :
    let writes : List ByteArray := [⟨Array.replicate 2040 7⟩, ⟨#[1, 2, 3, 4, 5, 6, 7, 8, 9, 10]⟩]
    let r : RingBuffer := { RingBuffer.empty with start := 2040, start_lt := by decide }
    (writes.foldl RingBuffer.write r).count ≤ (List.replicate 2048 2048).length ∧
    (RingBuffer.readAll (List.replicate 2048 2048) (writes.foldl RingBuffer.write r)).2.count = 0 ∧
    ((RingBuffer.readAll (List.replicate 2048 2048) (writes.foldl RingBuffer.write r)).1.flatMap
      fun c => c.data.toList) = List.replicate 2038 7 ++ [1, 2, 3, 4, 5, 6, 7, 8, 9, 10] := by
  intro writes r
  -- the ring never holds more than it has room for
  have hcount : (writes.foldl RingBuffer.write r).count ≤ (List.replicate 2048 2048).length := by
    rw [List.length_replicate]
    exact (writes.foldl RingBuffer.write r).count_le
  obtain ⟨hempty, hbytes⟩ := (follows_byte_queue #[] []).2 r rfl writes _
    (fun k hk => by rw [List.eq_of_mem_replicate hk]; decide) hcount
  refine ⟨hcount, hempty, hbytes.trans ?_⟩
  -- of the 2050 bytes written, the first two are lost
  have hflat : (writes.flatMap fun w => w.data.toList) =
      List.replicate 2040 7 ++ [1, 2, 3, 4, 5, 6, 7, 8, 9, 10] := by
    simp only [writes, List.flatMap_cons, List.flatMap_nil, Array.toList_replicate, List.append_nil]
  have hlost : 2040 + ([1, 2, 3, 4, 5, 6, 7, 8, 9, 10] : List UInt8).length - 2048 ≤
      (List.replicate 2040 (7 : UInt8)).length := by
    simp only [List.length_replicate, List.length_cons, List.length_nil]
    omega
  rw [hflat, List.rtake, List.length_append, List.length_replicate, ringCapacity,
    List.drop_append_of_le_length hlost, List.drop_replicate]
  rfl

end Logger

end Paging
