import Paging.Command.Plan
/-!
# The planning command's entry point

Runs `Paging.Plan.run` on the process arguments over `Paging.Plan.defaultHost`, writes its
output and error output, and exits with its status.
-/

/-- Runs the planning command. -/
def main (args : List String) : IO UInt32 := do
  let outcome := Paging.Plan.run Paging.Plan.defaultHost args
  let stdout ← IO.getStdout
  stdout.putStr outcome.stdout
  stdout.flush
  let stderr ← IO.getStderr
  stderr.putStr outcome.stderr
  stderr.flush
  return outcome.exit
