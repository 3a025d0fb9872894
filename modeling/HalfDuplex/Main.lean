import HalfDuplex.CommandLine.Run

/-!
# The command-line program

Plays a run back in real time: a line for every worker when it gets its slot,
then the closing lines of the run.
-/

namespace HalfDuplex.Playback

/-- Waits from one time to another, both in nanoseconds. -/
def wait (since target : Nat) : IO Unit :=
  IO.sleep (UInt32.ofNat (min ((target - since) / 1000000) (UInt32.size - 1)))

def log (lines : List LogLine) : IO Nat :=
  lines.foldlM (fun clock l => do
    wait clock l.time
    IO.eprintln s!"[{l.level.name}] {l.text}"
    return l.time) 0

def execution (e : CommandLine.Execution) : IO UInt32 := do
  let clock ← log e.log
  if let .reported _ report _ := e.ending then
    wait clock report.elapsed.toNanos
  for line in e.lines do
    IO.eprintln line
  return UInt32.ofNat e.ending.exitCode

end HalfDuplex.Playback

-- The name under which the program was called does not reach it.
def main (args : List String) : IO UInt32 :=
  HalfDuplex.Playback.execution
    (HalfDuplex.CommandLine.run none (args.map fun a => a.toUTF8.toList))
