import HalfDuplex.Bus.Admission
import HalfDuplex.Bus.Departure
import HalfDuplex.Durations.Span

/-!
# Crews of workers

Every worker gets a slot for its task, transfers, and gives the slot back. The
workers of a crew share a bus and take their steps in any order: `step?` is one
step of one worker, and a worker whose queue has no permit cannot take one.
`finish` is the order that comes about when nobody idles: a worker goes on as
soon as it can, and the clock moves only when all that is left is transfers.
-/

namespace HalfDuplex

inductive Failure where
  | bus (fault : Bus.Fault)
  /-- It gave up in mid-transfer, and gave its slot back all the same. -/
  | interrupted
deriving DecidableEq

inductive Phase where
  | starting
  | queued
  /-- Has a permit of its queue and is on its way back to the bus. -/
  | returning
  | riding (due : Nat)
  | finished
  | failed (failure : Failure)
deriving DecidableEq

structure Worker where
  name : String
  task : Task
  transfer : Nat
  givesUp : Bool
  phase : Phase
deriving DecidableEq

namespace Worker

def isFailed (w : Worker) : Bool :=
  match w.phase with
  | .failed _ => true
  | _ => false

def failure? (w : Worker) : Option Failure :=
  match w.phase with
  | .failed f => some f
  | _ => none

end Worker

inductive Level where
  | warn
  | info
  | debug
deriving DecidableEq

def Level.name : Level → String
  | .warn => "WARN"
  | .info => "INFO"
  | .debug => "DEBUG"

/-- What writes to the log. -/
inductive Origin where
  | bus
  | batch
deriving DecidableEq

/-- A line of the log; `time` counts the nanoseconds since the crew started. -/
structure LogLine where
  time : Nat
  level : Level
  origin : Origin
  text : String
deriving DecidableEq

structure Crew where
  bus : Bus
  workers : List Worker
  clock : Nat
  log : List LogLine

namespace Crew

def start (b : Bus) (workers : List Worker) : Crew := ⟨b, workers, 0, []⟩

def move (c : Crew) (i : Nat) (w : Worker) (b : Bus) (p : Phase) : Crew :=
  { c with bus := b, workers := c.workers.set i { w with phase := p } }

def write (c : Crew) (level : Level) (origin : Origin) (texts : List String) : Crew :=
  { c with log := c.log ++ texts.map fun text => ⟨c.clock, level, origin, text⟩ }

def ride (c : Crew) (i : Nat) (w : Worker) (b : Bus) : Crew :=
  let due := c.clock + if w.givesUp then 0 else w.transfer
  (c.move i w b (.riding due)).write .info .batch [s!"{w.name} acquired slot"]

def fail (c : Crew) (i : Nat) (w : Worker) (b : Bus) (f : Bus.Fault) : Crew :=
  c.move i w b (.failed (.bus f))

def enter (c : Crew) (i : Nat) (w : Worker) : Crew :=
  match c.bus.enter w.task with
  | ⟨b, .ok .boarded⟩ => c.ride i w b
  | ⟨b, .ok (.queued n)⟩ => (c.move i w b .queued).write .debug .bus [n.text]
  | ⟨b, .error f⟩ => c.fail i w b f

def passQueue? (c : Crew) (i : Nat) (w : Worker) : Option Crew :=
  (c.bus.passQueue? w.task.lane).map fun b => c.move i w b .returning

def comeBack (c : Crew) (i : Nat) (w : Worker) : Crew :=
  match c.bus.comeBack w.task with
  | ⟨b, .ok ()⟩ => c.ride i w b
  | ⟨b, .error f⟩ => c.fail i w b f

def release (c : Crew) (i : Nat) (w : Worker) (due : Nat) : Crew :=
  let c := { c with clock := max c.clock due }
  match c.bus.release w.givesUp w.task with
  | ⟨b, .ok d⟩ =>
    let phase := if w.givesUp then .failed .interrupted else .finished
    (c.move i w b phase).write .debug .bus d.text?.toList
  | ⟨b, .error f⟩ => c.fail i w b f

/-- The crew after the next step of worker `i`, if that worker can take one. -/
def step? (c : Crew) (i : Nat) : Option Crew :=
  match c.workers[i]? with
  | none => none
  | some w =>
    match w.phase with
    | .starting => some (c.enter i w)
    | .queued => c.passQueue? i w
    | .returning => some (c.comeBack i w)
    | .riding due => some (c.release i w due)
    | .finished => none
    | .failed _ => none

/-- Whether a worker can go on before the clock moves. -/
def isReady (c : Crew) (w : Worker) : Bool :=
  match w.phase with
  | .starting => true
  | .queued => 0 < (c.bus.queues.get w.task.lane).permits
  | .returning => true
  | .riding due => due ≤ c.clock
  | .finished => false
  | .failed _ => false

def nextDue? (c : Crew) : Option Nat :=
  (c.workers.filterMap fun w =>
    match w.phase with
    | .riding due => some due
    | _ => none).min?

/-- The worker that goes on next: the first that is ready, else the first of the
riders that are done earliest. -/
def next? (c : Crew) : Option Nat :=
  match c.workers.findIdx? c.isReady with
  | some i => some i
  | none =>
    match c.nextDue? with
    | some due => c.workers.findIdx? fun w => w.phase == .riding due
    | none => none

def finishWithin : Nat → Crew → Crew
  | 0, c => c
  | fuel + 1, c =>
    match c.next?.bind c.step? with
    | some c => finishWithin fuel c
    | none => c

/-- Lets the crew go on until nobody can. No worker has more than four steps. -/
def finish (c : Crew) : Crew := finishWithin (4 * c.workers.length) c

end Crew

end HalfDuplex
