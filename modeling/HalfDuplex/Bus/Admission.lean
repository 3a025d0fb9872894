import HalfDuplex.Bus.Basic

/-!
# Getting a slot

A task enters: it boards at once or queues. One that queued blocks at the
semaphore of its lane, and when it has a permit from there it comes back to
board by its grant. `enter`, `passQueue?` and `comeBack` are these three steps;
other tasks may act between them.
-/

namespace HalfDuplex.Bus

structure Notice where
  task : Task
  onBus : Nat
  reserved : Nat
  heading : Option Direction
deriving DecidableEq

def Notice.text (n : Notice) : String :=
  let heading := Direction.heldLabel n.heading
  s!"task {n.task.id} ({n.task.lane.name}) waits: on_bus={n.onBus} reserved={n.reserved} " ++
    s!"direction={heading}"

inductive Entry where
  | boarded
  | queued (notice : Notice)
deriving DecidableEq

def notice (b : Bus) (t : Task) : Notice :=
  ⟨t, b.arbiter.onBus, b.arbiter.reserved, b.arbiter.heading⟩

def queueUp (b : Bus) (t : Task) : Result Notice :=
  (b.ask fun a => a.enqueue t.lane).andThen fun b _ =>
    match b.stats.countBlocked? with
    | some stats =>
      let b := { b with stats := stats }.record (.queued t.id t.lane)
      .done b (b.notice t)
    | none => .fault b .overflow

def takeSlot (b : Bus) (t : Task) (granted : Bool) : Result Unit :=
  match b.slots.take? with
  | none => .fault b (.noPermit t.id)
  | some slots =>
    ({ b with slots := slots }.ask fun a => a.board t.lane.direction).andThen fun b _ =>
      b.slotsChecked.andThen fun b _ =>
        match b.stats.countAdmitted? b.arbiter.onBus with
        | some stats => .done ({ b with stats := stats }.record (.boarded t.id t.lane granted)) ()
        | none => .fault b .overflow

def enter (b : Bus) (t : Task) : Result Entry :=
  if b.poisoned then .fault b .poisoned
  else if b.arbiter.mustWait t.lane then locked ((b.queueUp t).map .queued)
  else locked ((b.takeSlot t false).map fun _ => .boarded)

/-- A task that is blocked on `l` takes a permit of its queue, if there is one. -/
def passQueue? (b : Bus) (l : Lane) : Option Bus :=
  (b.queues.get l).take?.map fun s => { b with queues := b.queues.set l s }

/-- A task that took a permit of its queue boards by its grant. -/
def comeBack (b : Bus) (t : Task) : Result Unit :=
  if b.poisoned then .fault b .poisoned
  else
    locked <| (b.ask fun a => a.resume t.lane).andThen fun b _ => b.takeSlot t true

end HalfDuplex.Bus
