import HalfDuplex.Bus.Basic

/-!
# Giving a slot back

A departure returns the capacity permit first, then takes the task off the bus
and hands the grants of the arbiter out as permits of the wait queues. It works
on a poisoned bus too, for it must not fail where a worker is giving up.
-/

namespace HalfDuplex.Bus

structure Departure where
  task : Task
  grants : Grants
  headingBefore : Option Direction
  headingAfter : Option Direction
deriving DecidableEq

def Departure.text? (d : Departure) : Option String :=
  if d.grants.isEmpty then none
  else
    let before := Direction.heldLabel d.headingBefore
    let after := Direction.heldLabel d.headingAfter
    some s!"task {d.task.id} left: woke {d.grants.total} ({before} -> {after})"

/-- Records the grants of each lane and signals its queue once for each. -/
def announce (lenient : Bool) : List (Lane × Nat) → Bus → Result Unit
  | [], b => .done b ()
  | (l, n) :: rest, b =>
    let b := b.record (.woken l n)
    (((b.queues.get l).signalTimes lenient n).within
      (fun s => { b with queues := b.queues.set l s }) .semaphore).andThen fun b _ =>
        announce lenient rest b

def giveBack (lenient : Bool) (b : Bus) (t : Task) : Result Departure :=
  ((b.slots.signal lenient).within (fun s => { b with slots := s }) .semaphore).andThen fun b _ =>
    let before := b.arbiter.heading
    (b.ask Arbiter.leave).andThen fun b grants =>
      b.slotsChecked.andThen fun b _ =>
        let b := b.record (.left t.id t.lane)
        (b.announce lenient grants.inOrder).andThen fun b _ =>
          .done b ⟨t, grants, before, b.arbiter.heading⟩

/-- A task gives a slot back. A worker that is giving up (`lenient`) neither
looks at the bound of a semaphore nor poisons the lock. -/
def release (lenient : Bool) (b : Bus) (t : Task) : Result Departure :=
  if lenient then b.giveBack lenient t else locked (b.giveBack lenient t)

end HalfDuplex.Bus
