import HalfDuplex.Batch.Config
import HalfDuplex.Batch.Crew
import HalfDuplex.Batch.Tasks

/-!
# Running a batch

A batch is planned before anybody starts: the settings are checked, the request
is held against the limit, and the tasks are built. Then one worker for each
task joins a crew, and the report waits for all of them.
-/

namespace HalfDuplex.Batch

inductive Refusal where
  | tooManyTasks (requested max : Nat)
  | spawn (worker cause : String)
  | workerFailed (worker : String)
deriving DecidableEq

namespace Refusal

def message : Refusal → String
  | .tooManyTasks n max => s!"too many tasks: {n} requested, limit is {max}"
  | .spawn worker cause => s!"failed to spawn {worker}: {cause}"
  | .workerFailed worker => s!"worker {worker} panicked"

end Refusal

inductive Fault where
  | config (defect : Config.Defect)
  | build (fault : BuildFault)
  | ticksOverflow
  | bus (fault : Bus.Fault)
deriving DecidableEq

def Fault.message : Fault → String
  | .config d => d.message
  | .build f => f.message
  | .ticksOverflow => "attempt to add with overflow"
  | .bus f => f.message

structure Report where
  tasks : Nat
  transferTicks : Nat
  elapsed : Span
  peakOnBus : Nat
  /-- Admissions during the batch that had to wait. -/
  blocked : Nat
deriving DecidableEq

def Report.zero : Report := ⟨0, 0, Span.zero, 0, 0⟩

inductive Plan where
  | refuse (refusal : Refusal)
  | nothing
  /-- Run `tasks`; `blockedBefore` admissions had to wait on the bus so far. -/
  | start (tasks : List Task) (transferTicks blockedBefore : Nat)

def transferTicks (tasks : List Task) : Nat := tasks.foldr (fun t n => t.ticks + n) 0

def planTasks (b : Bus) (rest : Durations.Source) (tasks : List Task) :
    Outcome Durations.Source Fault Plan :=
  if Word.size ≤ transferTicks tasks then .fault rest .ticksOverflow
  else
    match b.readStats with
    | .error f => .fault rest (.bus f)
    | .ok stats => .done rest (.start tasks (transferTicks tasks) stats.blocked)

/-- Decides about a batch. Nobody starts meanwhile, and only the source is drawn from. -/
def plan (b : Bus) (counts : Counts) (c : Config) (source : Durations.Source) :
    Outcome Durations.Source Fault Plan :=
  match c.validate with
  | .error d => .fault source (.config d)
  | .ok () =>
    if c.maxTasks < counts.total then .done source (.refuse (.tooManyTasks counts.total c.maxTasks))
    else if counts.total = 0 then .done source .nothing
    else
      ((buildTasks counts 0 c.maxTransferTicks source).within id .build).andThen (planTasks b)

def worker (c : Config) (givesUp : String → Bool) (name : String) (t : Task) : Worker where
  name := name
  task := t
  transfer := (c.transferTime t.ticks).toNanos
  givesUp := givesUp name
  phase := .starting

def workers (c : Config) (givesUp : String → Bool) (tasks : List Task) : List Worker :=
  tasks.map fun t => worker c givesUp t.workerName t

def startText (counts : Counts) : String :=
  s!"starting batch: {counts.total} tasks (ps={counts.sendPriority} pr={counts.receivePriority} " ++
    s!"ns={counts.sendNormal} nr={counts.receiveNormal})"

def failedWorkers (ws : List Worker) : List String :=
  (ws.filter Worker.isFailed).map Worker.name

def conclude (crew : Crew) (transferTicks blockedBefore : Nat) :
    Except Fault (Except Refusal Report) :=
  match failedWorkers crew.workers with
  | name :: _ => .ok (.error (.workerFailed name))
  | [] =>
    match crew.bus.readStats with
    | .error f => .error (.bus f)
    | .ok stats => .ok (.ok {
        tasks := crew.workers.length
        transferTicks := transferTicks
        elapsed := Span.ofNanos crew.clock
        peakOnBus := stats.peakOnBus
        blocked := stats.blocked - blockedBefore })

structure Finished where
  bus : Bus
  source : Durations.Source
  result : Except Fault (Except Refusal Report)
  started : Bool
  log : List LogLine

def Finished.unstarted (b : Bus) (source : Durations.Source)
    (result : Except Fault (Except Refusal Report)) : Finished :=
  ⟨b, source, result, false, []⟩

/-- What is logged of a batch. It shows who failed when all workers have been waited
for. -/
def logOf (counts : Counts) (crew : Crew) : List LogLine :=
  ⟨0, .debug, .batch, startText counts⟩ :: crew.log ++
    (failedWorkers crew.workers).map fun name =>
      ⟨crew.clock, .warn, .batch, (Refusal.workerFailed name).message⟩

def Finished.ofCrew (counts : Counts) (source : Durations.Source) (crew : Crew)
    (transferTicks blockedBefore : Nat) : Finished where
  bus := crew.bus
  source := source
  result := conclude crew transferTicks blockedBefore
  started := true
  log := logOf counts crew

def crew (b : Bus) (c : Config) (givesUp : String → Bool) (tasks : List Task) : Crew :=
  Crew.start b (workers c givesUp tasks)

/-- Runs a batch. The workers whose names `givesUp` picks give up in
mid-transfer. -/
def run (b : Bus) (counts : Counts) (c : Config) (source : Durations.Source)
    (givesUp : String → Bool) : Finished :=
  match plan b counts c source with
  | ⟨rest, .error f⟩ => .unstarted b rest (.error f)
  | ⟨rest, .ok (.refuse r)⟩ => .unstarted b rest (.ok (.error r))
  | ⟨rest, .ok .nothing⟩ => .unstarted b rest (.ok (.ok Report.zero))
  | ⟨rest, .ok (.start tasks ticks blockedBefore)⟩ =>
    .ofCrew counts rest (crew b c givesUp tasks).finish ticks blockedBefore

section

variable {b : Bus} {counts : Counts} {c : Config} {source rest : Durations.Source}
  {givesUp : String → Bool}

theorem run_of_fault {f : Fault} (h : plan b counts c source = .fault rest f) :
    run b counts c source givesUp = .unstarted b rest (.error f) := by
  rw [run, h]
  rfl

theorem run_of_refuse {r : Refusal} (h : plan b counts c source = .done rest (.refuse r)) :
    run b counts c source givesUp = .unstarted b rest (.ok (.error r)) := by
  rw [run, h]
  rfl

theorem run_of_nothing (h : plan b counts c source = .done rest .nothing) :
    run b counts c source givesUp = .unstarted b rest (.ok (.ok Report.zero)) := by
  rw [run, h]
  rfl

theorem run_of_start {tasks : List Task} {ticks blockedBefore : Nat}
    (h : plan b counts c source = .done rest (.start tasks ticks blockedBefore)) :
    run b counts c source givesUp =
      .ofCrew counts rest (crew b c givesUp tasks).finish ticks blockedBefore := by
  rw [run, h]
  rfl

end

/-- Runs one task by itself, under the name of the thread that it runs in if
that has one. -/
def runTask (b : Bus) (t : Task) (c : Config) (name : Option String) (givesUp : String → Bool) :
    Crew :=
  (Crew.start b [worker c givesUp (name.getD "worker") t]).finish

end HalfDuplex.Batch
