/-!
# Traffic on a half-duplex bus

A task moves data in one direction and has one of two ranks. Direction and rank
together are its lane, and every lane has a wait queue of its own.
-/

namespace HalfDuplex

inductive Direction where
  | send
  | receive
deriving DecidableEq

namespace Direction

def other : Direction → Direction
  | send => receive
  | receive => send

@[simp] theorem other_other (d : Direction) : d.other.other = d := by cases d <;> rfl

@[simp] theorem other_ne (d : Direction) : d.other ≠ d := by cases d <;> decide

theorem eq_other_of_ne {d e : Direction} (h : d ≠ e) : d = e.other := by
  cases d <;> cases e <;> simp_all [other]

def name : Direction → String
  | send => "send"
  | receive => "receive"

def label : Direction → String
  | send => "Send"
  | receive => "Receive"

def heldLabel : Option Direction → String
  | none => "None"
  | some d => s!"Some({d.label})"

end Direction

/-- A priority task goes before the normal tasks of its own direction; nobody
who rides is ever put off the bus. -/
inductive Rank where
  | normal
  | priority
deriving DecidableEq

namespace Rank

def name : Rank → String
  | normal => "normal"
  | priority => "priority"

end Rank

structure Lane where
  direction : Direction
  rank : Rank
deriving DecidableEq

namespace Lane

def normal (d : Direction) : Lane := ⟨d, .normal⟩

def priority (d : Direction) : Lane := ⟨d, .priority⟩

def all : List Lane := [normal .send, priority .send, normal .receive, priority .receive]

/-- The order in which one departure grants: send before receive, and within a
direction priority before normal. -/
def grantOrder : List Lane := [priority .send, normal .send, priority .receive, normal .receive]

def spawnOrder : List Lane := [priority .send, priority .receive, normal .send, normal .receive]

theorem mem_all (l : Lane) : l ∈ all := by
  rcases l with ⟨_ | _, _ | _⟩ <;> decide

def index : Lane → Nat
  | ⟨.send, .normal⟩ => 0
  | ⟨.send, .priority⟩ => 1
  | ⟨.receive, .normal⟩ => 2
  | ⟨.receive, .priority⟩ => 3

theorem all_getElem_index (l : Lane) : all[l.index]? = some l := by
  rcases l with ⟨_ | _, _ | _⟩ <;> rfl

def name (l : Lane) : String := s!"{l.direction.name}/{l.rank.name}"

def workerStem : Lane → String
  | ⟨.send, .normal⟩ => "sender"
  | ⟨.send, .priority⟩ => "sender-prio"
  | ⟨.receive, .normal⟩ => "receiver"
  | ⟨.receive, .priority⟩ => "receiver-prio"

end Lane

/-- One unit of communication; `ticks` is how long its transfer lasts. -/
structure Task where
  id : Nat
  lane : Lane
  ticks : Nat
deriving DecidableEq

namespace Task

def workerName (t : Task) : String := s!"{t.lane.workerStem}-{t.id}"

end Task

end HalfDuplex
