import HalfDuplex.Traffic

/-!
# Events of a bus

A trace is the list of a bus's events in the order in which it went through
them.
-/

namespace HalfDuplex

inductive Event where
  | queued (task : Nat) (lane : Lane)
  /-- A departure granted `count` tasks of a lane. -/
  | woken (lane : Lane) (count : Nat)
  /-- A task took a slot, by a grant or without having waited. -/
  | boarded (task : Nat) (lane : Lane) (granted : Bool)
  | left (task : Nat) (lane : Lane)
deriving DecidableEq

end HalfDuplex
