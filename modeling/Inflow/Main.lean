import Inflow.CommandLine
/-!
# Program

Reads the scenario file, prints what the command line says, and the time it took.
-/

open Inflow CommandLine

/-- The content of the file that the arguments name, if they name one. -/
def readFile (path : String) : IO FileContent := do
  try return .bytes (← IO.FS.readBinFile path)
  catch
  | .noFileOrDirectory .. => return .missing
  | .inappropriateType .. => return .directory
  | e => return .unreadable e.toString

def main (arguments : List String) : IO UInt32 := do
  let started ← IO.monoMsNow
  let content ← match arguments.head? with
    | some path => readFile path
    | none => pure .missing
  let transcript := CommandLine.run "lagr-inject" arguments fun _ => content
  for line in transcript.output do IO.println line
  for line in transcript.errors do IO.eprintln line
  match transcript.ending with
  | .exit code => return .ofNat code
  | .fault f =>
    IO.eprintln s!"fault: {repr f}"
    return 101
  | .finished steps =>
    let seconds := ((← IO.monoMsNow) - started).toFloat / 1000
    IO.println s!"Time: {Decimal.fixed 3 seconds}s ({Decimal.fixed 1 (steps.toFloat / seconds)} steps/s)"
    return 0
