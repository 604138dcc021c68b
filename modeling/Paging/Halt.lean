import Paging.Fault
/-!
# Halting the hart

A broken contract stops the hart. Before it stops, the detector prints a diagnostic line (the
*note*, which may be empty) and the panic prints a banner that names the fault it reports, if
it reports one. `Halt` carries both, so that a pure computation can stop in the same way as
one that owns the log: whoever prints it appends `Halt.text`.
-/

namespace Paging

/-- A stop of the hart: the diagnostic line printed just before the panic (empty when there is
none) and the fault that the panic reports, if any. -/
structure Halt where
  note : String := ""
  fault : Option Fault
  deriving DecidableEq, Repr

namespace Halt

/-- The rule that opens and closes the banner, each on a line of its own. -/
def rule : String :=
  "\n-----------------------------------\n"

/-- The line of the banner that names what went wrong. -/
def reportLine (r : Report) : String :=
  "[" ++ r.module ++ "] unrecoverable error: " ++ r.message ++ "\n"

/-- The banner that a panic prints: between two rules, the report's line when there is a report,
and the last words of the hart. -/
def banner (report : Option Report) : String :=
  rule ++ (match report with
    | some r => reportLine r
    | none => "") ++ "*** hypervisor panic: hart halted ***" ++ rule

/-- All that the hart prints as it stops. -/
def text (h : Halt) : String :=
  h.note ++ banner (h.fault.map Fault.report)

/-- A stop that reports `f` after the diagnostic line `note`. -/
def withNote (note : String) (f : Fault) : Halt :=
  { note := note, fault := some f }

/-- A stop that reports `f` without a diagnostic line. -/
def silent (f : Fault) : Halt :=
  { fault := some f }

end Halt

end Paging
