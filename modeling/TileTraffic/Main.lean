import TileTraffic.Cli.Run

/-!
The command line on the real file system.
-/

namespace TileTraffic

namespace Cli

/--
The result of an action, or nothing if it fails.
-/
def succeeding {α : Type} (action : IO α) : IO (Option α) := do
  try
    return some (← action)
  catch _ =>
    return none

/--
The file system, the standard input and the standard output.
-/
def realSystem : System IO where
  readFile path := succeeding (IO.FS.readFile path)
  readInput := succeeding do
    (← IO.getStdin).readToEnd
  writeFile path content := return (← succeeding (IO.FS.writeFile path content)).isSome
  print := IO.print

end Cli

end TileTraffic

open TileTraffic in
def main (args : List String) : IO UInt32 := do
  let outcome ← Cli.run Cli.realSystem args
  match outcome with
  | .done => pure ()
  | .failed why => IO.eprintln why.message
  | .rejected => IO.eprintln "error: unexpected arguments"
  return UInt32.ofNat outcome.exitCode
