import Paging.Log.Ring
import Paging.Halt
/-!
# The log

Log output goes to the current sink, or to the early buffer while there is none. Attaching a
sink drains the early buffer into it. Each sink keeps the bytes it received; a console sink
sends each line feed as a carriage return and a line feed.

A panic prints its banner (`Halt.banner`) like any other output.
-/

namespace Paging

/-- A destination of log output and the bytes it has received. -/
structure Sink where
  /-- Whether the sink is a console, which ends lines with a carriage return. -/
  console : Bool := false
  received : ByteArray := .empty

namespace Sink

/-- The bytes a console sends for `b`. -/
def consoleBytes (b : UInt8) : List UInt8 :=
  if b = 10 then [13, 10] else [b]

/-- Receives the bytes. -/
def write (s : Sink) (bytes : ByteArray) : Sink :=
  if s.console then
    let received := bytes.foldl (fun acc b => (consoleBytes b).foldl ByteArray.push acc) s.received
    { s with received := received }
  else
    { s with received := s.received ++ bytes }

end Sink

/-- The log: the early buffer, the sinks that have been made, and which of them is current. -/
structure Logger where
  early : RingBuffer := .empty
  sinks : Array Sink := #[]
  current : Option Nat := none

namespace Logger

/-- Adds a sink; its number names it. -/
def addSink (l : Logger) (s : Sink) : Nat × Logger :=
  (l.sinks.size, { l with sinks := l.sinks.push s })

/-- The bytes that sink `i` has received. -/
def received (l : Logger) (i : Nat) : ByteArray :=
  (l.sinks[i]?.map (·.received)).getD .empty

/-- Forgets what sink `i` has received. -/
def clear (l : Logger) (i : Nat) : Logger :=
  { l with sinks := l.sinks.modify i fun s => { s with received := .empty } }

/-- Writes the bytes to sink `i`. -/
def writeTo (l : Logger) (i : Nat) (bytes : ByteArray) : Logger :=
  { l with sinks := l.sinks.modify i (·.write bytes) }

/-- Writes the bytes to the early buffer, whatever the current sink. -/
def printEarly (l : Logger) (bytes : ByteArray) : Logger :=
  { l with early := l.early.write bytes }

/-- Writes the bytes to the current sink, or to the early buffer when there is none. -/
def print (l : Logger) (bytes : ByteArray) : Logger :=
  match l.current with
  | some i => l.writeTo i bytes
  | none => l.printEarly bytes

/-- Writes the text to the current sink. -/
def printText (l : Logger) (s : String) : Logger :=
  l.print s.toUTF8

/-- Makes sink `i` current, or none; a sink that becomes current receives what the early
buffer holds, and the early buffer is left empty. -/
def attach (l : Logger) (i : Option Nat) : Logger :=
  let l := { l with current := i }
  match i with
  | none => l
  | some i =>
    let (chunks, early) := l.early.drain
    { chunks.foldl (fun l c => l.writeTo i c) l with early := early }

/-- Prints the banner of a panic with the report, if there is one. -/
def panic (l : Logger) (report : Option Report) : Logger :=
  l.printText (Halt.banner report)

end Logger

end Paging
