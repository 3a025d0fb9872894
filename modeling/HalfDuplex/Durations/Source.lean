import HalfDuplex.Durations.Xorshift
import HalfDuplex.Outcome

/-!
# Sources of transfer durations

A source yields durations below a bound that the caller sets anew for each of
them. It is either a seeded generator or a fixed list that is gone through over
and over. The draws from a list are counted in a word.
-/

namespace HalfDuplex

namespace Durations

inductive Fault where
  | zeroUpper
  | countOverflow
deriving DecidableEq

def Fault.message : Fault → String
  | .zeroUpper => "upper bound must be > 0"
  | .countOverflow => "attempt to add with overflow"

structure Cycle where
  values : List Nat
  drawn : Nat
  fits : drawn < Word.size
deriving DecidableEq

namespace Cycle

def ofList (values : List Nat) : Cycle := ⟨values, 0, by decide⟩

/-- Draws the next value, cut down below `upper`. An empty list yields 0 and
counts no draw. -/
def next (c : Cycle) (upper : Nat) : Outcome Cycle Fault Nat :=
  match c.values[c.drawn % c.values.length]? with
  | none => .done c 0
  | some v =>
    if h : c.drawn + 1 < Word.size then
      .done { c with drawn := c.drawn + 1, fits := h } (min v (upper - 1))
    else .fault c .countOverflow

end Cycle

inductive Source where
  | seeded (generator : Xorshift)
  | fixed (cycle : Cycle)
deriving DecidableEq

namespace Source

def ofSeed (seed : Nat) : Source := .seeded (Xorshift.ofSeed seed)

def ofList (values : List Nat) : Source := .fixed (Cycle.ofList values)

def constant (ticks : Nat) : Source := ofList [ticks]

/-- Draws a duration below `upper`. A fault leaves the source where it is. -/
def next (s : Source) (upper : Nat) : Outcome Source Fault Nat :=
  if upper = 0 then .fault s .zeroUpper
  else
    match s with
    | .seeded g => let (v, g) := g.below upper; .done (.seeded g) v
    | .fixed c => (c.next upper).within .fixed id

theorem next_zero (s : Source) : s.next 0 = .fault s .zeroUpper := rfl

end Source

end Durations

end HalfDuplex
