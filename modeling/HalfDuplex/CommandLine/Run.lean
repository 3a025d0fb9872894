import HalfDuplex.CommandLine.Options

/-!
# Running the command line

One run scans the arguments, runs one batch on a fresh bus, and ends with the
lines that it writes and an exit code: 0 for a batch that ran or for help, 1 for
a trace that breaks a rule of admission, 2 for arguments or a request that
cannot be used.
-/

namespace HalfDuplex.CommandLine

/-- The name under which the program was called, if it is known. -/
def programName : Option (List UInt8) → String
  | none => "bus-sched"
  | some bs => String.ofList (Utf8.lossyText bs)

def usage (name : String) : List String :=
  let o := Options.default
  [s!"usage: {name} [OPTIONS]",
    "",
    "OPTIONS:",
    "    --priority-send=<N>     Priority send tasks (default: 0)",
    "    --priority-receive=<N>  Priority receive tasks (default: 0)",
    "    --send=<N>              Normal send tasks (default: 0)",
    "    --receive=<N>           Normal receive tasks (default: 0)",
    s!"    --capacity=<N>          Bus slots (default: {o.bus.capacity})",
    "    --tick-us=<N>           Microseconds per transfer tick (default: 1000)",
    s!"    --seed=<N>              Duration generator seed (default: {o.batch.seed})",
    "    --trace                 Record and check the bus trace",
    "    --help, -h              Show this help message"]

structure Verdict where
  events : Nat
  check : Except Trace.Violation Trace.Summary

inductive Ending where
  | help
  | refused (refusal : Refusal)
  | failed (refusal : Batch.Refusal)
  | crashed (fault : Batch.Fault)
  | reported (capacity : Nat) (report : Batch.Report) (verdict : Option Verdict)

namespace Verdict

def passes (v : Verdict) : Bool := v.check.isOk

def line (v : Verdict) : String :=
  match v.check with
  | .ok s => s!"trace events={v.events} queued={s.queued} boarded={s.boarded} " ++
    s!"peak_on_bus={s.peakOnBus} ok"
  | .error e => s!"trace violation: {e.message}"

end Verdict

namespace Ending

def exitCode : Ending → Nat
  | help => 0
  | refused _ => 2
  | failed _ => 2
  | crashed _ => 101
  | reported _ _ none => 0
  | reported _ _ (some v) => if v.passes then 0 else 1

def reportLine (capacity : Nat) (r : Batch.Report) : String :=
  s!"tasks={r.tasks} capacity={capacity} transfer_ticks={r.transferTicks} blocked={r.blocked} " ++
    s!"peak_on_bus={r.peakOnBus} elapsed_ms={r.elapsed.toMillis}"

def lines (name : String) : Ending → List String
  | help => usage name
  | refused r => r.message :: if r.showsUsage then usage name else []
  | failed r => [s!"error: {r.message}"]
  | crashed f => [f.message]
  | reported capacity r verdict => reportLine capacity r :: verdict.toList.map Verdict.line

end Ending

def verdictOf (b : Bus) : Except Bus.Fault Verdict :=
  b.takeTrace.answer.map fun events => ⟨events.length, Trace.check b.arbiter.capacity events⟩

def endingOf (cfg : Bus.Config) (r : Batch.Finished) : Ending :=
  match r.result with
  | .error f => .crashed f
  | .ok (.error refusal) => .failed refusal
  | .ok (.ok report) =>
    if cfg.recordTrace then
      match verdictOf r.bus with
      | .error f => .crashed (.bus f)
      | .ok v => .reported cfg.capacity report (some v)
    else .reported cfg.capacity report none

def isShown : Level → Bool
  | .debug => false
  | _ => true

/-- How a run ends, what it writes then, and what it has written of the log. -/
structure Execution where
  ending : Ending
  lines : List String
  log : List LogLine

namespace Execution

def ended (name : String) (ending : Ending) : Execution := ⟨ending, ending.lines name, []⟩

def ofBatch (name : String) (cfg : Bus.Config) (r : Batch.Finished) : Execution where
  ending := endingOf cfg r
  lines := (endingOf cfg r).lines name
  log := r.log.filter fun l => isShown l.level

end Execution

def execute (name : String) (o : Options) : Execution :=
  match Bus.create o.bus with
  | .error f => .ended name (.crashed (.bus f))
  | .ok b => .ofBatch name o.bus (Batch.run b o.counts o.batch o.batch.source fun _ => false)

def run (exe : Option (List UInt8)) (args : List (List UInt8)) : Execution :=
  let name := programName exe
  match scan args with
  | .error .help => .ended name .help
  | .error (.refused r) => .ended name (.refused r)
  | .ok o => execute name o

end HalfDuplex.CommandLine
