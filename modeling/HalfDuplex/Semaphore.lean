import HalfDuplex.Outcome
import HalfDuplex.Word

/-!
# Counting semaphores

A signal adds a permit and a wait takes one. A signal that comes first is kept
as a permit; one that lifts the count above the bound is a fault, and its permit
stays. A turnstile is a semaphore together with the threads blocked at it.
-/

namespace HalfDuplex

structure Semaphore where
  bound : Nat
  permits : Nat
deriving DecidableEq

namespace Semaphore

inductive Fault where
  | zeroCapacity
  | overflow
  | overSignal (permits bound : Nat)
deriving DecidableEq

def Fault.message : Fault → String
  | .zeroCapacity => "Semaphore capacity must be > 0"
  | .overflow => "attempt to add with overflow"
  | .overSignal p b => s!"Semaphore over-signal: permits={p} > bound={b}"

def unbounded (permits : Nat) : Semaphore := ⟨Word.largest, permits⟩

def bounded (capacity : Nat) : Semaphore := ⟨capacity, capacity⟩

def createBounded (capacity : Nat) : Except Fault Semaphore :=
  if capacity = 0 then .error .zeroCapacity else .ok (bounded capacity)

def take? (s : Semaphore) : Option Semaphore :=
  if s.permits = 0 then none else some { s with permits := s.permits - 1 }

/-- Adds a permit. With `lenient` the bound is not looked at, so that a thread
that is giving up can still return what it holds. -/
def signal (lenient : Bool) (s : Semaphore) : Outcome Semaphore Fault Unit :=
  if Word.size ≤ s.permits + 1 then .fault s .overflow
  else
    let s := { s with permits := s.permits + 1 }
    if s.bound < s.permits ∧ !lenient then .fault s (.overSignal s.permits s.bound)
    else .done s ()

def signalTimes (lenient : Bool) : Nat → Semaphore → Outcome Semaphore Fault Unit
  | 0, s => .done s ()
  | n + 1, s => (s.signal lenient).andThen fun s _ => signalTimes lenient n s

theorem take?_eq_none_iff {s : Semaphore} : s.take? = none ↔ s.permits = 0 := by
  simp [take?]

theorem signal_of_lt {s : Semaphore} (lenient : Bool) (hb : s.permits < s.bound)
    (hw : s.bound < Word.size) :
    s.signal lenient = .done { s with permits := s.permits + 1 } () := by
  have h1 : ¬ Word.size ≤ s.permits + 1 := by omega
  have h2 : ¬ s.bound < s.permits + 1 := by omega
  simp [signal, h1, h2]

end Semaphore

/-- A semaphore and the number of threads blocked at it, at rest: a thread that
a signal wakes takes its permit before anything else happens. -/
structure Turnstile where
  semaphore : Semaphore
  blocked : Nat
deriving DecidableEq

namespace Turnstile

inductive Entry where
  | taken
  | blocked
deriving DecidableEq

inductive Effect where
  | woke
  | kept
deriving DecidableEq

def available (t : Turnstile) : Nat := t.semaphore.permits

def wait (t : Turnstile) : Entry × Turnstile :=
  match t.semaphore.take? with
  | some s => (.taken, { t with semaphore := s })
  | none => (.blocked, { t with blocked := t.blocked + 1 })

def tryWait (t : Turnstile) : Bool × Turnstile :=
  match t.semaphore.take? with
  | some s => (true, { t with semaphore := s })
  | none => (false, t)

/-- A signal that faults wakes nobody. -/
def signal (t : Turnstile) : Outcome Turnstile Semaphore.Fault Effect :=
  ((t.semaphore.signal false).within (fun s => { t with semaphore := s }) id).andThen fun t _ =>
    if t.blocked = 0 then .done t .kept
    else
      match t.semaphore.take? with
      | some s => .done ⟨s, t.blocked - 1⟩ .woke
      | none => .done t .kept

end Turnstile

end HalfDuplex
