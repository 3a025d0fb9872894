import HalfDuplex.Arbiter.Calls
import HalfDuplex.Semaphore
import HalfDuplex.Trace.Replay

/-!
# A shared bus

A bus is an arbiter behind a lock, with statistics and an optional trace, and
five semaphores that carry the blocking: one permit for every free slot, and
for each lane one permit for every grant that no blocked task has picked up yet.
A fault inside the lock poisons it.
-/

namespace HalfDuplex

structure Stats where
  blocked : Nat
  admitted : Nat
  peakOnBus : Nat
deriving DecidableEq

namespace Stats

def zero : Stats := ⟨0, 0, 0⟩

def countBlocked? (s : Stats) : Option Stats :=
  if s.blocked + 1 < Word.size then some { s with blocked := s.blocked + 1 } else none

def countAdmitted? (s : Stats) (onBus : Nat) : Option Stats :=
  if s.admitted + 1 < Word.size then
    some { s with admitted := s.admitted + 1, peakOnBus := max s.peakOnBus onBus }
  else none

end Stats

structure Bus where
  arbiter : Arbiter
  slots : Semaphore
  queues : PerLane Semaphore
  stats : Stats
  /-- The events since the trace was last taken; none if it is not recorded. -/
  trace : Option (List Event)
  poisoned : Bool
deriving DecidableEq

namespace Bus

structure Config where
  capacity : Nat := 3
  recordTrace : Bool := false
deriving DecidableEq

inductive Fault where
  | poisoned
  | arbiter (fault : Arbiter.Fault)
  | semaphore (fault : Semaphore.Fault)
  | noPermit (task : Nat)
  | slotsOutOfSync (available unoccupied : Nat)
  | overflow
deriving DecidableEq

def Fault.message : Fault → String
  | .poisoned => "bus mutex poisoned: PoisonError \x7b .. \x7d"
  | .arbiter f => f.message
  | .semaphore f => f.message
  | .noPermit t => s!"no capacity permit for task {t}"
  | .slotsOutOfSync a u =>
    s!"assertion \x60left == right\x60 failed: capacity semaphore out of sync with occupancy\n  " ++
    s!"left: {a}\n right: {u}"
  | .overflow => "attempt to add with overflow"

abbrev Result := Outcome Bus Fault

def Config.validate (c : Config) : Except Fault Unit :=
  if c.capacity = 0 then .error (.arbiter .zeroCapacity) else .ok ()

def fresh (c : Config) : Bus where
  arbiter := Arbiter.idle c.capacity
  slots := Semaphore.bounded c.capacity
  queues := PerLane.fill (Semaphore.unbounded 0)
  stats := Stats.zero
  trace := if c.recordTrace then some [] else none
  poisoned := false

def create (c : Config) : Except Fault Bus := c.validate.map fun _ => fresh c

def read {α : Type} (b : Bus) (f : Bus → α) : Except Fault α :=
  if b.poisoned then .error .poisoned else .ok (f b)

def snapshot (b : Bus) : Except Fault Arbiter := b.read arbiter

def readStats (b : Bus) : Except Fault Stats := b.read stats

def takeTrace (b : Bus) : Result (List Event) :=
  if b.poisoned then .fault b .poisoned
  else .done { b with trace := b.trace.map fun _ => [] } (b.trace.getD [])

def record (b : Bus) (e : Event) : Bus := { b with trace := b.trace.map (· ++ [e]) }

def ask {α : Type} (b : Bus) (call : Arbiter → Arbiter.Result α) : Result α :=
  (call b.arbiter).within (fun a => { b with arbiter := a }) .arbiter

/-- A fault of a call that holds the lock poisons it. -/
def locked {α : Type} (r : Result α) : Result α := r.onFault fun b => { b with poisoned := true }

/-- The slots that are free of tasks, promised or not. -/
def unoccupied (b : Bus) : Nat := b.arbiter.capacity - b.arbiter.onBus

def slotsChecked (b : Bus) : Result Unit :=
  if b.slots.permits = b.unoccupied then .done b ()
  else .fault b (.slotsOutOfSync b.slots.permits b.unoccupied)

@[simp] theorem record_arbiter (b : Bus) (e : Event) : (b.record e).arbiter = b.arbiter := rfl

@[simp] theorem record_slots (b : Bus) (e : Event) : (b.record e).slots = b.slots := rfl

@[simp] theorem record_queues (b : Bus) (e : Event) : (b.record e).queues = b.queues := rfl

@[simp] theorem record_stats (b : Bus) (e : Event) : (b.record e).stats = b.stats := rfl

@[simp] theorem record_poisoned (b : Bus) (e : Event) : (b.record e).poisoned = b.poisoned := rfl

theorem readStats_eq_ok_iff {b : Bus} {s : Stats} :
    b.readStats = .ok s ↔ b.poisoned = false ∧ b.stats = s := by
  rw [readStats, read]
  cases b.poisoned <;> simp

end Bus

end HalfDuplex
